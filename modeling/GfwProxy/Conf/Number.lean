import GfwProxy.Conf.Directive
import GfwProxy.Conf.Pools

set_option autoImplicit false

/-!
# Numbers as they are written

`_gf_atoi` adds digits to an `int` that wraps around and looks at the sign once, at the end.  The
numbers of the configuration and of the command line are read with it: by `conf_set_num`,
`conf_set_listen` and `conf_add_server` (`gf_conf.c`) and by `gf_get_options` (`gfw.c`).

## Main definitions

* `GfwProxy.confSetNum`, `GfwProxy.confSetListen` — `conf_set_num` and `conf_set_listen`.
* `GfwProxy.gfGetOptions` — `gf_get_options` on the options that `getopt_long` finds.
* `GfwProxy.denoted`, `GfwProxy.WrittenAs` — the number that a text denotes.
* `GfwProxy.Wraps` — the text denotes a number that does not fit, and does not look negative either.
* `GfwProxy.ReadRight` — what the code should do with a text wherever a number is expected.

## Main results

* `GfwProxy.gfAtoi_of_denoted` — `_gf_atoi` on digits: their value as an `int`, unless it is
  negative.
* `GfwProxy.readRight_iff` — a text is read right exactly if it does not wrap.

## Design

A signed overflow wraps around.  `strtol` is modelled as it is documented, with its overflow;
whether a copy finds memory and whether a name resolves is answered by the environment.
-/

namespace GfwProxy

/-! ## The commands -/

/-- `conf_set_num` on the field `num` and the text `value`. -/
def confSetNum (num : ℤ) (value : List UInt8) : Option String × ℤ :=
  if num ≠ confUnsetNum then (some "is a duplicate", num)
  else
    let n := gfAtoi value
    if n < 0 then (some "is not a number", num) else (none, n)

/-- `struct conf_listen`, with the fields that the validation does not read. -/
structure ListenConf extends ConfListen where
  /-- hostname:port -/
  name : List UInt8 := []
  /-- port -/
  port : ℤ := 0
  /-- socket permissions -/
  perm : ℕ := 0
  deriving DecidableEq, Repr

/-- `isspace`. -/
def isSpace (c : UInt8) : Bool := c = 32 || 9 ≤ c && c ≤ 13

/-- `strtol` with base 8, and whether it sets `errno`. -/
def strtolOctal (s : List UInt8) : ℤ × Bool :=
  let s := s.dropWhile isSpace
  let neg := s.head? = some 45
  let s := if neg || s.head? = some 43 then s.tail else s
  let digits := s.takeWhile fun c => 48 ≤ c && c ≤ 55
  let n : ℤ := digits.foldl (fun (n : ℤ) c => n * 8 + (c.toNat - 48 : ℕ)) 0
  if neg then (if n > 2 ^ 63 then (-2 ^ 63, true) else (-n, false))
  else if n > 2 ^ 63 - 1 then (2 ^ 63 - 1, true)
  else (n, false)

/-- The end of `conf_set_listen`: the copy of the name and its resolution. -/
def confListenName (strdup : ℕ → Bool) (resolve : List UInt8 → ℤ → Bool) (mem : List UInt8)
    (namelen : ℕ) (field : ListenConf) : Except ConfFault (Option String × ListenConf) := do
  if !strdup 1 then return (some confError, field)
  else
    let field := { field with name := ← stringCopy mem namelen }
    if !resolve field.name field.port then return (some confError, field)
    else return (none, { field with valid := true })

/-- `conf_set_listen` on the value `text`; the result is null or a message. -/
def confSetListen (strdup : ℕ → Bool) (resolve : List UInt8 → ℤ → Bool) (text : List UInt8)
    (field : ListenConf) : Except ConfFault (Option String × ListenConf) := do
  if field.valid then return (some "is a duplicate", field)
  else if !strdup 0 then return (some confError, field)
  else
    let mem := text ++ [0]
    let field := { field with pname := ← stringCopy mem text.length }
    if (← readConf (byteAt mem 0)) = 47 then
      -- parse "socket_path permissions" from the end
      match ← readConf (gfStrrchr mem text.length 0 32) with
      | none => confListenName strdup resolve mem text.length { field with perm := 0 }
      | some q =>
        let (perm, errno) := strtolOctal ((mem.drop (q + 1)).takeWhile (· ≠ 0))
        let field := { field with perm := (perm % 2 ^ 32).toNat }
        if errno || field.perm > 0o777 then
          return (some "has an invalid file permission in \"socket_path permission\" format string",
            field)
        else confListenName strdup resolve mem (u32 q) field
    else
      -- parse "hostname:port" from the end
      match ← readConf (gfStrrchr mem text.length 0 58) with
      | none => return (some "has an invalid \"hostname:port\" format string", field)
      | some q =>
        let field := { field with port := gfAtoi (slice mem (q + 1) (u32 (text.length - (q + 1)))) }
        if field.port < 0 ∨ !gfValidPort field.port then
          return (some "has an invalid port in \"hostname:port\" format string", field)
        else confListenName strdup resolve mem (u32 q) field

/-! ## The command line -/

/-- The options that take a number. -/
inductive NumberOption
  | verbose
  | statsPort
  | statsInterval
  | mbufSize
  deriving DecidableEq, Repr

/-- An option with its argument, as `getopt_long` finds it. -/
inductive CmdOption
  | help
  | version
  | testConf
  | daemonize
  | describeStats
  | output (optarg : List UInt8)
  | confFile (optarg : List UInt8)
  | statsAddr (optarg : List UInt8)
  | pidFile (optarg : List UInt8)
  | number (o : NumberOption) (optarg : List UInt8)
  /-- '?', with the character that is not an option or lacks its argument -/
  | invalid (optopt : Char)
  deriving DecidableEq, Repr

/-- What the options set: the flags of `gfw.c` and the fields of `struct instance`, with the
defaults of `gf_set_default_options`. -/
structure Instance where
  showHelp : Bool := false
  showVersion : Bool := false
  testConf : Bool := false
  daemonize : Bool := false
  describeStats : Bool := false
  /-- log level -/
  logLevel : ℤ := 5
  /-- log filename -/
  logFilename : Option (List UInt8) := none
  /-- configuration filename -/
  confFilename : List UInt8 := "conf/nutcracker.yml".toUTF8.toList
  /-- stats monitoring port -/
  statsPort : ℤ := 22222
  /-- stats aggregation interval -/
  statsInterval : ℤ := 30000
  /-- stats monitoring addr -/
  statsAddr : List UInt8 := "0.0.0.0".toUTF8.toList
  /-- pid filename -/
  pidFilename : Option (List UInt8) := none
  /-- mbuf chunk size -/
  mbufChunkSize : ℤ := 16384
  deriving DecidableEq, Repr

/-- The message for the option character that is not there, or lacks its argument. -/
def invalidOption (optopt : Char) : String :=
  if optopt = 'o' ∨ optopt = 'c' ∨ optopt = 'p' then
    "gfw: option -" ++ optopt.toString ++ " requires a file name"
  else if optopt = 'm' ∨ optopt = 'v' ∨ optopt = 's' ∨ optopt = 'i' then
    "gfw: option -" ++ optopt.toString ++ " requires a number"
  else if optopt = 'a' then "gfw: option -" ++ optopt.toString ++ " requires a string"
  else "gfw: invalid option -- '" ++ optopt.toString ++ "'"

/-- The cases of the switch of `gf_get_options` for the options that take a number; the message is
written to the standard error. -/
def getNumber (nci : Instance) (o : NumberOption) (optarg : List UInt8) : Except String Instance :=
  let value := gfAtoi optarg
  match o with
  | .verbose =>
    if value < 0 then .error "nutcracker: option -v requires a number"
    else .ok { nci with logLevel := value }
  | .statsPort =>
    if value < 0 then .error "nutcracker: option -s requires a number"
    else if !gfValidPort value then
      .error ("nutcracker: option -s value " ++ toString value ++ " is not a valid port")
    else .ok { nci with statsPort := value % 2 ^ 16 }
  | .statsInterval =>
    if value < 0 then .error "nutcracker: option -i requires a number"
    else .ok { nci with statsInterval := value }
  | .mbufSize =>
    if value ≤ 0 then .error "gfw: option -m requires a non-zero number"
    else if value < 512 ∨ value > 16777216 then
      .error "gfw: mbuf chunk size must be between 512 and 16777216 bytes"
    else .ok { nci with mbufChunkSize := value }

/-- The switch of `gf_get_options`. -/
def getOption (nci : Instance) : CmdOption → Except String Instance
  | .help => .ok { nci with showVersion := true, showHelp := true }
  | .version => .ok { nci with showVersion := true }
  | .testConf => .ok { nci with testConf := true }
  | .daemonize => .ok { nci with daemonize := true }
  | .describeStats => .ok { nci with describeStats := true, showVersion := true }
  | .output optarg => .ok { nci with logFilename := some optarg }
  | .confFile optarg => .ok { nci with confFilename := optarg }
  | .statsAddr optarg => .ok { nci with statsAddr := optarg }
  | .pidFile optarg => .ok { nci with pidFilename := some optarg }
  | .number o optarg => getNumber nci o optarg
  | .invalid optopt => .error (invalidOption optopt)

/-- `gf_get_options` on the options that `getopt_long` finds one after the other. -/
def gfGetOptions (nci : Instance) : List CmdOption → Except String Instance
  | [] => .ok nci
  | o :: os => do gfGetOptions (← getOption nci o) os

/-- The field that an option with a number sets. -/
def Instance.number (nci : Instance) : NumberOption → ℤ
  | .verbose => nci.logLevel
  | .statsPort => nci.statsPort
  | .statsInterval => nci.statsInterval
  | .mbufSize => nci.mbufChunkSize

/-! ## The number that a text denotes -/

/-- The number that a text denotes, if it is a non-empty run of decimal digits. -/
def denoted (line : List UInt8) : Option ℕ :=
  if line ≠ [] ∧ line.all Decimal.isDigit then some (Decimal.value line) else none

/-- The text denotes the number. -/
def WrittenAs (line : List UInt8) (v : ℤ) : Prop := ∃ n : ℕ, denoted line = some n ∧ v = n

/-- What `_gf_atoi` should return: the number that the text denotes if it is at most `2 ^ 31 - 1`,
and -1 otherwise. -/
def decimalOrError (line : List UInt8) : ℤ :=
  match denoted line with
  | none => -1
  | some n => if n ≤ 2 ^ 31 - 1 then n else -1

/-- The text denotes a number that is no `int`, and its value modulo `2 ^ 32` is one that is not
negative. -/
def Wraps (line : List UInt8) : Prop :=
  ∃ n, denoted line = some n ∧ 2 ^ 31 ≤ n ∧ n % 2 ^ 32 < 2 ^ 31

section Atoi

variable {line : List UInt8} {n : ℕ}

/-- What a number is as an `int`. -/
lemma int32_natCast (n : ℕ) :
    int32 n = if n % 2 ^ 32 < 2 ^ 31 then ((n % 2 ^ 32 : ℕ) : ℤ)
    else (n % 2 ^ 32 : ℕ) - 2 ^ 32 := by
  rw [int32, Int.bmod_def]
  split_ifs <;> omega

/-- Wrapping around before a step does not change what is there after it. -/
lemma int32_push (n d : ℕ) : int32 (int32 n * 10 + d) = int32 (n * 10 + d : ℕ) := by
  unfold int32
  rw [← Int.bmod_add_bmod, Int.bmod_mul_bmod, Int.bmod_add_bmod]
  push_cast
  rfl

/-- The loop on digits computes their value as an `int`.

**Proof sketch.** Each step adds a digit to the value so far, up to multiples of `2 ^ 32`. -/
lemma gfAtoiLoop_digits {cs : List UInt8} (hd : ∀ c ∈ cs, Decimal.isDigit c = true) : ∀ n : ℕ,
    gfAtoiLoop (int32 n) cs =
      if int32 (cs.foldl Decimal.push n : ℕ) < 0 then -1
      else int32 (cs.foldl Decimal.push n : ℕ) := by
  induction cs with
  | nil => intro n; rfl
  | cons c cs ih =>
    intro n
    have hc : ¬(c.toNat < 48 ∨ 57 < c.toNat) := by
      have hdigit := hd c (by simp)
      simp only [Decimal.isDigit, Bool.and_eq_true, decide_eq_true_eq] at hdigit
      omega
    rw [gfAtoiLoop, if_neg hc, int32_push, ih (fun x hx => hd x (by simp [hx]))]
    rfl

/-- The loop stops at a byte that is no digit. -/
lemma gfAtoiLoop_of_not_digit {cs : List UInt8} {c : UInt8} (hc : c ∈ cs)
    (hd : Decimal.isDigit c = false) : ∀ v : ℤ, gfAtoiLoop v cs = -1 := by
  induction cs with
  | nil => simp at hc
  | cons x cs ih =>
    intro v
    by_cases hx : x.toNat < 48 ∨ 57 < x.toNat
    · rw [gfAtoiLoop, if_pos hx]
    · rw [gfAtoiLoop, if_neg hx]
      refine ih ?_ _
      rcases List.mem_cons.mp hc with rfl | hc
      · -- this byte is a digit
        simp only [Decimal.isDigit, Bool.and_eq_false_iff, decide_eq_false_iff_not] at hd
        omega
      · exact hc

/-- **`_gf_atoi` on digits**: their value as an `int`, unless it is negative. -/
theorem gfAtoi_of_denoted (h : denoted line = some n) :
    gfAtoi line = if int32 n < 0 then -1 else int32 n := by
  unfold denoted at h
  split_ifs at h with hline
  obtain ⟨hne, hall⟩ := hline
  obtain rfl := Option.some.inj h
  rw [gfAtoi, if_neg (by simpa using hne)]
  exact gfAtoiLoop_digits (List.all_eq_true.mp hall) 0

/-- **`_gf_atoi` on a text that is no number.** -/
theorem gfAtoi_of_not_denoted (h : denoted line = none) : gfAtoi line = -1 := by
  unfold denoted at h
  split_ifs at h with hline
  by_cases hne : line = []
  · rw [hne]
    rfl
  · rw [gfAtoi, if_neg (by simpa using hne)]
    obtain ⟨c, hc, hd⟩ : ∃ c ∈ line, Decimal.isDigit c = false := by
      by_contra hcon
      refine hline ⟨hne, List.all_eq_true.mpr fun c hc => ?_⟩
      by_contra hd
      exact hcon ⟨c, hc, by simpa using hd⟩
    exact gfAtoiLoop_of_not_digit hc hd 0

/-- **`_gf_atoi` is right on a text exactly if it does not wrap.** -/
theorem gfAtoi_eq_iff : gfAtoi line = decimalOrError line ↔ ¬Wraps line := by
  unfold decimalOrError Wraps
  cases h : denoted line with
  | none => simp [gfAtoi_of_not_denoted h]
  | some n =>
    rw [gfAtoi_of_denoted h, int32_natCast]
    constructor
    · rintro heq ⟨m, hm, hle, hlt⟩
      obtain rfl := Option.some.inj hm
      simp only at heq
      rw [if_pos hlt, if_neg (by omega), if_neg (by omega)] at heq
      omega
    · intro hwraps
      have hnot : ¬(2 ^ 31 ≤ n ∧ n % 2 ^ 32 < 2 ^ 31) := fun hn => hwraps ⟨n, rfl, hn⟩
      simp only
      by_cases hle : n ≤ 2 ^ 31 - 1
      · have hmod : n % 2 ^ 32 = n := Nat.mod_eq_of_lt (by omega)
        rw [if_pos hle, hmod, if_pos (show n < 2 ^ 31 by omega), if_neg (by omega)]
      · have hmod : ¬n % 2 ^ 32 < 2 ^ 31 := fun h => hnot ⟨by omega, h⟩
        rw [if_neg hle, if_neg hmod, if_pos (by omega)]

/-- A number that is accepted is the one that is written. -/
lemma written_of_not_wraps (hw : ¬Wraps line) (h : 0 ≤ gfAtoi line) :
    WrittenAs line (gfAtoi line) := by
  rw [gfAtoi_eq_iff.mpr hw] at h ⊢
  unfold decimalOrError at h ⊢
  cases hd : denoted line with
  | none =>
    rw [hd] at h
    simp at h
  | some n =>
    rw [hd] at h
    simp only at h ⊢
    split_ifs at h ⊢ with hle
    · exact ⟨n, hd, rfl⟩
    · omega

end Atoi

/-! ## Where the numbers of a server are written -/

/-- The part of a directive before its name, which is behind the last space if there is one. -/
def ServerBody (text body : List UInt8) : Prop :=
  (32 ∉ text ∧ body = text) ∨ ∃ name, text = body ++ 32 :: name ∧ 32 ∉ name

/-- The weight is written behind the last colon before the name. -/
def WeightIn (text weight : List UInt8) : Prop :=
  ∃ front, ServerBody text (front ++ 58 :: weight) ∧ 58 ∉ weight

/-- The port is written behind the last colon before that. -/
def PortIn (text port : List UInt8) : Prop :=
  ∃ host weight, ServerBody text (host ++ 58 :: port ++ 58 :: weight) ∧ 58 ∉ weight ∧ 58 ∉ port

section Server

variable {text body weight port line mem : List UInt8} {k : ℕ} {f : Fields} {strdup : ℕ → Bool}
  {a servers : List ConfServer} {field : ConfServer} {path : Bool}

/-- The part without the name is no longer than the text. -/
lemma ServerBody.length_le (h : ServerBody text body) : body.length ≤ text.length := by
  rcases h with ⟨-, rfl⟩ | ⟨name, rfl, -⟩
  · exact le_rfl
  · simp

/-- The scan goes on in the part before the name. -/
lemma ServerBody.scan (h : ServerBody text body) (hlen : text.length < 2 ^ 32) :
    ∃ rest g, text ++ [0] = body ++ rest ∧ g.behind = body.length ∧
      confScan (text ++ [0]) 8 0 { behind := text.length } = confScan (body ++ rest) 7 1 g := by
  rcases h with ⟨hspace, rfl⟩ | ⟨name, rfl, hname⟩
  · exact ⟨[0], _, rfl, rfl, confScan_unnamed hspace rfl⟩
  · refine ⟨32 :: name ++ [0],
      { behind := body.length, name := some ⟨body.length + 1, name.length⟩ },
      by simp, rfl, ?_⟩
    rw [confScan_named hname hlen rfl]
    simp

/-- The scan of a directive with enough delimiters finds the weight. -/
lemma WeightIn.fieldBytes (h : WeightIn text weight) (hlen : text.length < 2 ^ 32)
    (hscan : confScan (text ++ [0]) 8 0 { behind := text.length } = .ok (k, f)) :
    GfwProxy.fieldBytes (text ++ [0]) f.weight = weight := by
  obtain ⟨front, hbody, hw⟩ := h
  obtain ⟨rest, g, hmem, hg, hstart⟩ := hbody.scan hlen
  have hlen' := hbody.length_le.trans_lt hlen
  rw [hstart] at hscan
  rw [hmem]
  by_cases hfront : (58 : UInt8) ∈ front
  · obtain ⟨host, port, rfl, hp⟩ := exists_last_split hfront
    by_cases hnull : (0 : UInt8) ∈ host
    · rw [confScan_host_null hw hp hnull hlen' hg] at hscan
      cases hscan
    rw [confScan_host hw hp hnull hlen' hg] at hscan
    obtain ⟨-, rfl⟩ := Prod.mk.inj (Except.ok.inj hscan)
    exact fieldBytes_behind
  · rw [confScan_path hw hfront hlen' hg] at hscan
    obtain ⟨-, rfl⟩ := Prod.mk.inj (Except.ok.inj hscan)
    exact fieldBytes_behind

/-- The scan of a directive with enough delimiters finds the port. -/
lemma PortIn.fieldBytes (h : PortIn text port) (hlen : text.length < 2 ^ 32)
    (hscan : confScan (text ++ [0]) 8 0 { behind := text.length } = .ok (k, f)) :
    GfwProxy.fieldBytes (text ++ [0]) f.port = port := by
  obtain ⟨host, weight, hbody, hw, hp⟩ := h
  obtain ⟨rest, g, hmem, hg, hstart⟩ := hbody.scan hlen
  have hlen' := hbody.length_le.trans_lt hlen
  rw [hstart] at hscan
  rw [hmem]
  by_cases hnull : (0 : UInt8) ∈ host
  · rw [confScan_host_null hw hp hnull hlen' hg] at hscan
    cases hscan
  rw [confScan_host hw hp hnull hlen' hg] at hscan
  obtain ⟨-, rfl⟩ := Prod.mk.inj (Except.ok.inj hscan)
  rw [List.append_assoc (host ++ 58 :: port)]
  exact fieldBytes_behind

/-- The numbers of a server are not changed any more. -/
lemma confAddName_numbers (h : confAddName strdup mem f a field = .ok (none, servers)) :
    ∃ s, servers = a ++ [s] ∧ s.weight = field.weight ∧ s.port = field.port := by
  unfold confAddName at h
  by_cases h1 : strdup 1 = true
  · simp only [h1, Bool.not_true, Bool.false_eq_true, if_false] at h
    obtain ⟨name, -, h⟩ := Exec.except_bind_ok.mp h
    by_cases h2 : strdup 2 = true
    · simp only [h2, Bool.not_true, Bool.false_eq_true, if_false] at h
      obtain ⟨addrstr, -, h⟩ := Exec.except_bind_ok.mp h
      exact ⟨_, (congrArg Prod.snd (Except.ok.inj h)).symm, rfl, rfl⟩
    · rw [if_pos (by simpa using h2)] at h
      cases h
  · rw [if_pos (by simpa using h1)] at h
    cases h

/-- The weight and the port of a server that is added are what `_gf_atoi` returns, and not
negative. -/
lemma confAddServer_numbers {push : Bool}
    (h : confAddServer push strdup text a = .ok (none, servers)) :
    ∃ k f s, confScan (text ++ [0]) 8 0 { behind := text.length } = .ok (k, f) ∧
    servers = a ++ [s] ∧
      s.weight = gfAtoi (fieldBytes (text ++ [0]) f.weight) ∧ 0 ≤ s.weight ∧
      (text.head? ≠ some 47 → s.port = gfAtoi (fieldBytes (text ++ [0]) f.port) ∧ 0 ≤ s.port) := by
  obtain ⟨f, hscan, h⟩ := confAddServer_ok h
  suffices hs : ∃ s, servers = a ++ [s] ∧ s.weight = gfAtoi (fieldBytes (text ++ [0]) f.weight) ∧
      0 ≤ s.weight ∧
      (text.head? ≠ some 47 → s.port = gfAtoi (fieldBytes (text ++ [0]) f.port) ∧ 0 ≤ s.port) by
    obtain ⟨s, hs⟩ := hs
    exact ⟨_, f, s, hscan, hs⟩
  unfold confAddFields at h
  by_cases h0 : strdup 0 = true
  swap
  · rw [if_pos (by simpa using h0)] at h
    cases h
  simp only [h0, Bool.not_true, Bool.false_eq_true, if_false] at h
  obtain ⟨pname, -, h⟩ := Exec.except_bind_ok.mp h
  simp only [confAddNumbers] at h
  split_ifs at h with hneg hzero hpath hport
  · cases h
  · cases h
  · obtain ⟨s, rfl, hw, -⟩ := confAddName_numbers h
    rw [decide_eq_true_eq] at hpath
    exact ⟨s, rfl, hw, hw ▸ not_lt.mp hneg, fun hne => absurd hpath hne⟩
  · cases h
  · obtain ⟨s, rfl, hw, hp⟩ := confAddName_numbers h
    refine ⟨s, rfl, hw, hw ▸ not_lt.mp hneg, fun _ => ⟨hp, ?_⟩⟩
    rw [hp]
    exact not_lt.mp fun hlt => hport (.inl hlt)

end Server

/-! ## Where a text is read -/

/-- What the code should do with the text `line` wherever a number is expected: `_gf_atoi` returns
the number that it denotes, if that is at most `2 ^ 31 - 1`, and -1 otherwise; and no command and no
option accepts another number than the one that is written. -/
structure ReadRight (line : List UInt8) : Prop where
  atoi : gfAtoi line = decimalOrError line
  setNum : ∀ num num', confSetNum num line = (none, num') → WrittenAs line num'
  /-- the port of `listen`, behind the last colon -/
  listen : ∀ strdup resolve text field field' host, text.length < 2 ^ 32 → text.head? ≠ some 47 →
    text = host ++ 58 :: line → 58 ∉ line →
    confSetListen strdup resolve text field = .ok (none, field') → WrittenAs line field'.port
  weight : ∀ push strdup text a servers, text.length < 2 ^ 32 → WeightIn text line →
    confAddServer push strdup text a = .ok (none, servers) →
    ∃ s, servers = a ++ [s] ∧ WrittenAs line s.weight
  port : ∀ push strdup text a servers, text.length < 2 ^ 32 → text.head? ≠ some 47 →
    PortIn text line → confAddServer push strdup text a = .ok (none, servers) →
    ∃ s, servers = a ++ [s] ∧ WrittenAs line s.port
  /-- the last one of the options that set the same field counts -/
  options : ∀ nci nci' o before after, (∀ optarg, CmdOption.number o optarg ∉ after) →
    gfGetOptions nci (before ++ .number o line :: after) = .ok nci' → WrittenAs line (nci'.number o)

section Accept

variable {line text host : List UInt8} {n num num' : ℤ} {strdup : ℕ → Bool}
  {resolve : List UInt8 → ℤ → Bool} {mem : List UInt8} {namelen : ℕ} {field field' : ListenConf}
  {nci nci' : Instance} {o : NumberOption} {os : List CmdOption}

/-- What `conf_set_num` accepts. -/
lemma confSetNum_ok (h : confSetNum num line = (none, num')) : num' = gfAtoi line ∧ 0 ≤ num' := by
  unfold confSetNum at h
  simp only at h
  split_ifs at h with hset hneg
  · cases h
  · cases h
  · obtain ⟨-, rfl⟩ := Prod.mk.inj h
    exact ⟨rfl, not_lt.mp hneg⟩

/-- The port is not changed any more. -/
lemma confListenName_port
    (h : confListenName strdup resolve mem namelen field = .ok (none, field')) :
    field'.port = field.port := by
  unfold confListenName at h
  by_cases h1 : strdup 1 = true
  swap
  · rw [if_pos (by simpa using h1)] at h
    cases h
  simp only [h1, Bool.not_true, Bool.false_eq_true, if_false] at h
  obtain ⟨name, -, h⟩ := Exec.except_bind_ok.mp h
  split_ifs at h
  · cases h
  · obtain ⟨-, rfl⟩ := Prod.mk.inj (Except.ok.inj h)
    rfl

/-- What `conf_set_listen` accepts as a port. -/
lemma confSetListen_ok (hlen : text.length < 2 ^ 32) (hhead : text.head? ≠ some 47)
    (htext : text = host ++ 58 :: line) (hline : 58 ∉ line)
    (h : confSetListen strdup resolve text field = .ok (none, field')) :
    field'.port = gfAtoi line ∧ 0 ≤ field'.port := by
  have hfirst : readConf (byteAt (text ++ [0]) 0) = .ok (text.head?.getD 0) := by
    cases text <;> rfl
  have hpath : ¬text.head?.getD 0 = 47 := by
    cases text with
    | nil => decide
    | cons c text => simpa using hhead
  have hq : readConf (gfStrrchr (text ++ [0]) text.length 0 58) = .ok (some host.length) := by
    rw [gfStrrchr_some (Nat.zero_le _) (by simp) (by rwa [Nat.sub_zero, slice_append]) hline,
      zero_add]
    rfl
  unfold confSetListen at h
  by_cases hvalid : field.valid = true
  · rw [if_pos hvalid] at h
    cases h
  by_cases h0 : strdup 0 = true
  swap
  · rw [if_neg hvalid, if_pos (by simpa using h0)] at h
    cases h
  simp only [hvalid, h0, Bool.not_true, Bool.false_eq_true, if_false] at h
  obtain ⟨pname, -, h⟩ := Exec.except_bind_ok.mp h
  simp only [hfirst, bind, Except.bind, hpath, if_false, hq] at h
  have hport : slice (text ++ [0]) (host.length + 1) (u32 (text.length - (host.length + 1))) =
      line := by
    rw [htext, u32_field (by rwa [← htext])]
    exact fieldBytes_behind
  rw [hport] at h
  split_ifs at h with hbad
  · cases h
  · rw [confListenName_port h]
    exact ⟨rfl, not_lt.mp fun hlt => hbad (.inl hlt)⟩

/-- What an option accepts as a number; it sets one field. -/
lemma getNumber_ok (h : getNumber nci o line = .ok nci') :
    nci'.number o = gfAtoi line ∧ 0 ≤ gfAtoi line ∧ ∀ o',
    o' ≠ o → nci'.number o' = nci.number o' := by
  cases o with
  | verbose =>
    simp only [getNumber] at h
    split_ifs at h with hneg
    obtain rfl := Except.ok.inj h
    exact ⟨rfl, not_lt.mp hneg, fun o' ho' => by cases o' <;> first | rfl | exact absurd rfl ho'⟩
  | statsPort =>
    simp only [getNumber] at h
    split_ifs at h with hneg hport
    obtain rfl := Except.ok.inj h
    have hle : gfAtoi line ≤ 65535 := by
      simp only [gfValidPort, Bool.not_eq_true', Bool.and_eq_false_iff,
        decide_eq_false_iff_not] at hport
      omega
    refine ⟨?_, not_lt.mp hneg, fun o' ho' => by cases o' <;> first | rfl | exact absurd rfl ho'⟩
    show gfAtoi line % 2 ^ 16 = gfAtoi line
    omega
  | statsInterval =>
    simp only [getNumber] at h
    split_ifs at h with hneg
    obtain rfl := Except.ok.inj h
    exact ⟨rfl, not_lt.mp hneg, fun o' ho' => by cases o' <;> first | rfl | exact absurd rfl ho'⟩
  | mbufSize =>
    simp only [getNumber] at h
    split_ifs at h with hneg hsize
    obtain rfl := Except.ok.inj h
    refine ⟨rfl, by omega, fun o' ho' => by cases o' <;> first | rfl | exact absurd rfl ho'⟩

/-- An option leaves the fields of the others alone. -/
lemma getOption_number {c : CmdOption} (hc : ∀ optarg, c ≠ .number o optarg)
    (h : getOption nci c = .ok nci') : nci'.number o = nci.number o := by
  cases c with
  | number o' optarg => exact (getNumber_ok h).2.2 o fun he => hc optarg (by rw [he])
  | invalid optopt => cases h
  | _ =>
    obtain rfl := Except.ok.inj h
    cases o <;> rfl

/-- Options that do not set a field leave it alone. -/
lemma gfGetOptions_number (hos : ∀ optarg, CmdOption.number o optarg ∉ os)
    (h : gfGetOptions nci os = .ok nci') : nci'.number o = nci.number o := by
  induction os generalizing nci with
  | nil =>
    obtain rfl := Except.ok.inj h
    rfl
  | cons c os ih =>
    obtain ⟨nci₁, hc, h⟩ := Exec.except_bind_ok.mp h
    rw [ih (fun optarg hm => hos optarg (List.mem_cons_of_mem c hm)) h]
    exact getOption_number (fun optarg he => hos optarg (by simp [he])) hc

/-- The last one of the options that set a field counts. -/
lemma gfGetOptions_ok {front : List CmdOption} (hos : ∀ optarg, CmdOption.number o optarg ∉ os)
    (h : gfGetOptions nci (front ++ .number o line :: os) = .ok nci') :
    nci'.number o = gfAtoi line ∧ 0 ≤ gfAtoi line := by
  induction front generalizing nci with
  | nil =>
    obtain ⟨nci₁, hc, h⟩ := Exec.except_bind_ok.mp h
    obtain ⟨hnumber, hpos, -⟩ := getNumber_ok hc
    rw [gfGetOptions_number hos h]
    exact ⟨hnumber, hpos⟩
  | cons c front ih =>
    obtain ⟨nci₁, hc, h⟩ := Exec.except_bind_ok.mp h
    exact ih h

end Accept

/-- **A text is read right exactly if it does not wrap.**  `_gf_atoi` returns the number that the
text denotes, or -1, and `conf_set_num`, `conf_set_listen`, `conf_add_server` and `gf_get_options`
accept no other number than the one that is written, exactly unless the text is a run of digits
whose value is at least `2 ^ 31` and less than `2 ^ 31` modulo `2 ^ 32`.

**Proof sketch.** The loop of `_gf_atoi` computes the value modulo `2 ^ 32`, whatever the number of
digits, so its last check finds exactly the values that are negative then.  The commands and the
options accept what `_gf_atoi` returns if it is not negative. -/
theorem readRight_iff (line : List UInt8) : ReadRight line ↔ ¬Wraps line := by
  constructor
  · intro h
    exact gfAtoi_eq_iff.mp h.atoi
  intro hw
  have hwritten : ∀ v, v = gfAtoi line → 0 ≤ v → WrittenAs line v := by
    rintro v rfl hv
    exact written_of_not_wraps hw hv
  exact {
    atoi := gfAtoi_eq_iff.mpr hw
    setNum := by
      intro num num' h
      obtain ⟨hv, hpos⟩ := confSetNum_ok h
      exact hwritten num' hv hpos
    listen := by
      intro strdup resolve text field field' host hlen hhead htext hline h
      obtain ⟨hv, hpos⟩ := confSetListen_ok hlen hhead htext hline h
      exact hwritten _ hv hpos
    weight := by
      intro push strdup text a servers hlen hin h
      obtain ⟨k, f, s, hscan, hs, hv, hpos, -⟩ := confAddServer_numbers h
      rw [hin.fieldBytes hlen hscan] at hv
      exact ⟨s, hs, hwritten _ hv hpos⟩
    port := by
      intro push strdup text a servers hlen hhead hin h
      obtain ⟨k, f, s, hscan, hs, -, -, hport⟩ := confAddServer_numbers h
      obtain ⟨hv, hpos⟩ := hport hhead
      rw [hin.fieldBytes hlen hscan] at hv
      exact ⟨s, hs, hwritten _ hv hpos⟩
    options := by
      intro nci nci' o before after hafter h
      obtain ⟨hv, hpos⟩ := gfGetOptions_ok hafter h
      exact hwritten _ hv (hv ▸ hpos) }

/-- The text `4294967297`, which denotes `2 ^ 32 + 1`. -/
def wrappedOne : List UInt8 := [52, 50, 57, 52, 57, 54, 55, 50, 57, 55]

/-- Not every text is read right: the value of `wrappedOne` is 1. -/
theorem not_forall_readRight : ¬∀ line, ReadRight line := by
  intro h
  have hone : gfAtoi wrappedOne = 1 := by decide
  have hright := (h wrappedOne).atoi
  rw [hone] at hright
  exact absurd hright (by decide)

end GfwProxy
