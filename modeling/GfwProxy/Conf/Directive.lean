import GfwProxy.Conf.Server
import GfwProxy.Lib.Exec

set_option autoImplicit false

/-!
# Which server a directive means

`conf_add_server` (`gf_conf.c`) against the format that it reads: an address with its port, or a
path; a weight; a name.

## Main definitions

* `GfwProxy.Address`, `GfwProxy.Directive` — the parts of a directive, and its text.
* `GfwProxy.DefaultName` — the name of a server whose directive gives none.

## Main results

* `GfwProxy.Directive.confAddServer_text` — the parts of a directive are read back from its text.
* `GfwProxy.confAddServer_defaultName_iff` — the server of an accepted directive that gives no name
  has the default name exactly if its address is not a path and no space is at its end (but for an
  empty host with the port of libmemcached).

## Design

The two results share the analysis of the scan: which delimiters it finds in a text, given how the
text is split at its spaces and colons.
-/

namespace GfwProxy

/-! ## Numbers -/

section Atoi

/-- Digits that are appended make a number no smaller. -/
lemma le_foldl_push (v : ℕ) (cs : List UInt8) : v ≤ cs.foldl Decimal.push v := by
  induction cs generalizing v with
  | nil => exact le_rfl
  | cons c cs ih =>
    have hpush : v ≤ Decimal.push v c := by
      unfold Decimal.push
      omega
    exact hpush.trans (ih _)

/-- `_gf_atoi` computes the value of digits, if it is an `int`. -/
lemma gfAtoiLoop_eq {cs : List UInt8} (hd : ∀ c ∈ cs, Decimal.isDigit c = true) :
    ∀ {v : ℕ}, cs.foldl Decimal.push v < 2 ^ 31 →
      gfAtoiLoop v cs = (cs.foldl Decimal.push v : ℕ) := by
  induction cs with
  | nil =>
    intro v _
    exact if_neg (by omega)
  | cons c cs ih =>
    intro v hv
    have hc : ¬(c.toNat < 48 ∨ 57 < c.toNat) := by
      have hdigit := hd c (by simp)
      simp only [Decimal.isDigit, Bool.and_eq_true, decide_eq_true_eq] at hdigit
      omega
    have hstep : int32 ((v : ℤ) * 10 + (c.toNat - 48 : ℕ)) = (Decimal.push v c : ℕ) := by
      have hle := le_foldl_push (Decimal.push v c) cs
      rw [List.foldl_cons] at hv
      rw [← int32_of_lt (n := Decimal.push v c) (by omega)]
      simp [Decimal.push]
    rw [gfAtoiLoop, if_neg hc, hstep, List.foldl_cons]
    exact ih (fun x hx => hd x (by simp [hx])) (by simpa using hv)

/-- **`_gf_atoi` reads back the digits of a number.** -/
theorem gfAtoi_ofNat {n : ℕ} (h : n < 2 ^ 31) : gfAtoi (Decimal.ofNat n) = n := by
  have hv : (Decimal.ofNat n).foldl Decimal.push 0 = n := Decimal.value_ofNat n
  have hloop := gfAtoiLoop_eq (fun c => Decimal.isDigit_of_mem_ofNat (n := n)) (v := 0) (by omega)
  have hlen : ¬(Decimal.ofNat n).length = 0 := by simp
  rw [gfAtoi, if_neg hlen]
  exact hloop.trans (by rw [hv])

end Atoi

/-! ## The scan -/

section Scan

variable {mem rest body a b : List UInt8} {c : UInt8} {n k : ℕ} {f : Fields}

/-- The last place of a byte splits a list. -/
lemma exists_last_split (h : c ∈ body) : ∃ a b, body = a ++ c :: b ∧ c ∉ b := by
  obtain ⟨b, a, hrev, hb⟩ := List.eq_append_cons_of_mem (List.mem_reverse.mpr h)
  refine ⟨a.reverse, b.reverse, ?_, by simpa using hb⟩
  rw [← List.reverse_reverse body, hrev]
  simp

/-- A list has one last place of a byte. -/
lemma last_split_unique {a' b' : List UInt8} (hb : c ∉ b) (hb' : c ∉ b')
    (h : a ++ c :: b = a' ++ c :: b') : a = a' ∧ b = b' := by
  rcases List.append_eq_append_iff.mp h with ⟨t, ha, ht⟩ | ⟨t, ha, ht⟩
  · cases t with
    | nil => exact ⟨by simpa using ha.symm, (List.cons.inj ht).2⟩
    | cons x t => exact absurd (by simp [(List.cons.inj ht).2]) hb
  · cases t with
    | nil => exact ⟨by simpa using ha, (List.cons.inj ht).2.symm⟩
    | cons x t => exact absurd (by simp [(List.cons.inj ht).2]) hb'

/-- The bytes up to a place, and those up to a place behind the byte there. -/
lemma take_length_succ (n : ℕ) :
    (a ++ c :: b).take (a.length + 1 + n) = a ++ c :: b.take n := by
  rw [List.take_append, List.take_of_length_le (by omega), Nat.add_assoc, Nat.add_sub_cancel_left,
    Nat.add_comm 1, List.take_succ_cons]

/-- The first part of a text. -/
lemma slice_append : slice (a ++ b) 0 a.length = a := by
  simp [slice]

/-- A delimiter that is not there. -/
lemma confScan_none (hk : delim k = .ok c) (hbody : c ∉ body) (hf : f.behind = body.length) :
    confScan (body ++ rest) (n + 1) k f =
      if k = 0 then confScan (body ++ rest) n (k + 1) f else .ok (k, f) := by
  have hq : gfStrrchr (body ++ rest) f.behind 0 c = .ok none :=
    gfStrrchr_none (Nat.zero_le _) (by simp [hf]) (by rwa [hf, Nat.sub_zero, slice_append])
  simp only [confScan, hk, bind, Except.bind, hq]
  rfl

/-- The last one of the delimiters that are there. -/
lemma confScan_some (hk : delim k = .ok c) (hb : c ∉ b) (hf : f.behind = (a ++ c :: b).length) :
    confScan (a ++ c :: b ++ rest) (n + 1) k f =
      (takeField k a.length f >>= fun f =>
        confScan (a ++ c :: b ++ rest) n (k + 1) { f with behind := a.length }) := by
  have hslice : slice (a ++ c :: b ++ rest) 0 (f.behind - 0) = a ++ c :: b := by
    rw [hf, Nat.sub_zero, slice_append]
  have hq := gfStrrchr_some (Nat.zero_le f.behind) (by simp [hf]) hslice hb
  rw [Nat.zero_add] at hq
  simp only [confScan, hk, bind, Except.bind, hq]
  rfl

/-- The length of the field behind a delimiter. -/
lemma u32_field (h : (a ++ c :: b).length < 2 ^ 32) :
    u32 ((a ++ c :: b).length - (a.length + 1)) = b.length := by
  have hlen : (a ++ c :: b).length = a.length + (b.length + 1) := by simp
  rw [hlen] at h ⊢
  rw [show a.length + (b.length + 1) - (a.length + 1) = b.length by omega]
  exact Nat.mod_eq_of_lt (by omega)

/-- A text without a space has no name. -/
lemma confScan_unnamed (h : (32 : UInt8) ∉ body) (hf : f.behind = body.length) :
    confScan (body ++ rest) (n + 1) 0 f = confScan (body ++ rest) n 1 f :=
  (confScan_none rfl h hf).trans (if_pos rfl)

/-- The name is behind the last space. -/
lemma confScan_named (h : (32 : UInt8) ∉ b) (hlen : (a ++ 32 :: b).length < 2 ^ 32)
    (hf : f.behind = (a ++ 32 :: b).length) :
    confScan (a ++ 32 :: b ++ rest) (n + 1) 0 f =
      confScan (a ++ 32 :: b ++ rest) n 1
        { f with behind := a.length, name := some ⟨a.length + 1, b.length⟩ } := by
  rw [confScan_some rfl h hf, takeField, hf, u32_field hlen]
  rfl

/-- The weight is behind the last colon. -/
lemma confScan_weight (h : (58 : UInt8) ∉ b) (hlen : (a ++ 58 :: b).length < 2 ^ 32)
    (hf : f.behind = (a ++ 58 :: b).length) :
    confScan (a ++ 58 :: b ++ rest) (n + 1) 1 f =
      confScan (a ++ 58 :: b ++ rest) n 2
        { f with behind := a.length, weight := some ⟨a.length + 1, b.length⟩ } := by
  rw [confScan_some rfl h hf, takeField, hf, u32_field hlen]
  rfl

/-- The port is behind the last colon before that. -/
lemma confScan_port (h : (58 : UInt8) ∉ b) (hlen : (a ++ 58 :: b).length < 2 ^ 32)
    (hf : f.behind = (a ++ 58 :: b).length) :
    confScan (a ++ 58 :: b ++ rest) (n + 1) 2 f =
      confScan (a ++ 58 :: b ++ rest) n 3
        { f with behind := a.length, port := some ⟨a.length + 1, b.length⟩ } := by
  rw [confScan_some rfl h hf, takeField, hf, u32_field hlen]
  rfl

/-- The field behind a delimiter. -/
lemma fieldBytes_behind : fieldBytes (a ++ c :: b ++ rest) (some ⟨a.length + 1, b.length⟩) = b := by
  have hdrop : (a ++ c :: b ++ rest).drop (a.length + 1) = b ++ rest := by
    rw [List.append_assoc, ← List.drop_drop, List.drop_left]
    rfl
  rw [fieldBytes, slice, hdrop, List.take_left]

/-- A null byte is taken for a fourth delimiter, which the switch does not know. -/
lemma confScan_null (h : (0 : UInt8) ∈ body) (hf : f.behind = body.length) :
    confScan (body ++ rest) (n + 1) 3 f = .error .notReached := by
  obtain ⟨a, b, rfl, hb⟩ := exists_last_split h
  rw [confScan_some rfl hb hf]
  rfl

end Scan

/-! ## The copies -/

section Copies

variable {s rest src d mem : List UInt8} {n : ℕ} {strdup : ℕ → Bool} {f : Fields}
  {a servers : List ConfServer} {field : ConfServer} {path : Bool} {text : List UInt8}

/-- A string without null bytes is copied. -/
lemma stringCopy_eq_ok (h0 : (0 : UInt8) ∉ s) (hlen : s.length + 1 < 2 ^ 32) :
    stringCopy (s ++ rest) s.length = .ok s := by
  have hu : u32 (s.length + 1) = s.length + 1 := Nat.mod_eq_of_lt hlen
  have hnz : ∀ c ∈ s, decide (c ≠ 0) = true := fun c hc =>
    decide_eq_true fun h => h0 (h ▸ hc)
  have hdata : ((s ++ rest).take (s.length + 1)).takeWhile (· ≠ 0) =
      s ++ (rest.take 1).takeWhile (· ≠ 0) := by
    rw [List.take_append, List.take_of_length_le (by omega), Nat.add_sub_cancel_left,
      List.takeWhile_append_of_pos hnz]
  simp only [stringCopy, hu, hdata]
  rw [if_pos (by simp), List.take_left]

/-- A part of the memory without null bytes is copied. -/
lemma stringCopy_of_take (h0 : (0 : UInt8) ∉ src.take n) (hn : n ≤ src.length)
    (hlen : n + 1 < 2 ^ 32) : stringCopy src n = .ok (src.take n) := by
  have hcopy := @stringCopy_eq_ok _ (src.drop n) h0 (by simpa [hn] using hlen)
  rwa [List.take_append_drop, List.length_take, Nat.min_eq_left hn] at hcopy

/-- What is copied is a part of the memory. -/
lemma stringCopy_take (h : stringCopy src n = .ok d) : d = src.take n := by
  simp only [stringCopy] at h
  split_ifs at h with hlen
  obtain ⟨t, ht⟩ := (List.takeWhile_prefix _).trans (List.take_prefix (u32 (n + 1)) src)
  conv_rhs => rw [← ht, List.take_append_of_le_length hlen]
  exact (Except.ok.inj h).symm

/-- The name of a server that was added. -/
lemma confAddName_ok (h : confAddName strdup mem f a field = .ok (none, servers)) :
    ∃ s, servers = a ++ [s] ∧ s.port = field.port ∧
      s.name = (mem.drop (serverName field.port f).ptr).take (serverName field.port f).len := by
  unfold confAddName at h
  by_cases h1 : strdup 1 = true
  · simp only [h1, Bool.not_true, Bool.false_eq_true, if_false] at h
    obtain ⟨name, hname, h⟩ := Exec.except_bind_ok.mp h
    by_cases h2 : strdup 2 = true
    · simp only [h2, Bool.not_true, Bool.false_eq_true, if_false] at h
      obtain ⟨addrstr, -, h⟩ := Exec.except_bind_ok.mp h
      exact ⟨_, (congrArg Prod.snd (Except.ok.inj h)).symm, rfl, stringCopy_take hname⟩
    · rw [if_pos (by simpa using h2)] at h
      cases h
  · rw [if_pos (by simpa using h1)] at h
    cases h

/-- The same, for a server whose weight and port are read before. -/
lemma confAddNumbers_ok (h : confAddNumbers strdup mem path f a field = .ok (none, servers)) :
    ∃ s, servers = a ++ [s] ∧
      s.port = (if path then field.port else gfAtoi (fieldBytes mem f.port)) ∧
      s.name = (mem.drop (serverName s.port f).ptr).take (serverName s.port f).len := by
  simp only [confAddNumbers] at h
  by_cases hneg : gfAtoi (fieldBytes mem f.weight) < 0
  · rw [if_pos hneg] at h
    cases h
  by_cases hzero : gfAtoi (fieldBytes mem f.weight) = 0
  · rw [if_neg hneg, if_pos hzero] at h
    cases h
  rw [if_neg hneg, if_neg hzero] at h
  split_ifs at h with hpath hport
  · obtain ⟨s, rfl, hp, hn⟩ := confAddName_ok h
    exact ⟨s, rfl, hp.trans (if_pos hpath).symm, hp.symm ▸ hn⟩
  · cases h
  · obtain ⟨s, rfl, hp, hn⟩ := confAddName_ok h
    exact ⟨s, rfl, hp.trans (if_neg hpath).symm, hp.symm ▸ hn⟩

/-- The same, for a server whose fields are known. -/
lemma confAddFields_ok (h : confAddFields strdup text path f a = .ok (none, servers)) :
    ∃ s, servers = a ++ [s] ∧
      s.port = (if path then 0 else gfAtoi (fieldBytes (text ++ [0]) f.port)) ∧
      s.name = ((text ++ [0]).drop (serverName s.port f).ptr).take (serverName s.port f).len := by
  unfold confAddFields at h
  by_cases h0 : strdup 0 = true
  · simp only [h0, Bool.not_true, Bool.false_eq_true, if_false] at h
    obtain ⟨pname, -, h⟩ := Exec.except_bind_ok.mp h
    exact confAddNumbers_ok h
  · rw [if_pos (by simpa using h0)] at h
    cases h

/-- A server is added only if the scan found the right number of delimiters. -/
lemma confAddServer_ok {push : Bool} (h : confAddServer push strdup text a = .ok (none, servers)) :
    ∃ f, confScan (text ++ [0]) 8 0 { behind := text.length } =
        .ok (if text.head? = some 47 then 2 else 3, f) ∧
      confAddFields strdup text (text.head? = some 47) f a = .ok (none, servers) := by
  have hfirst : readConf (byteAt (text ++ [0]) 0) = .ok (text.head?.getD 0) := by
    cases text <;> rfl
  have hpath : (text.head?.getD 0 = 47) = (text.head? = some 47) := by
    cases text <;> simp
  unfold confAddServer at h
  cases push with
  | false => cases h
  | true =>
    simp only [Bool.not_true, Bool.false_eq_true, if_false, hfirst, bind, Except.bind, hpath]
      at h
    cases hscan : confScan (text ++ [0]) 8 0 { behind := text.length } with
    | error e =>
      rw [hscan] at h
      cases h
    | ok r =>
      obtain ⟨k, f⟩ := r
      rw [hscan] at h
      by_cases hk : k = if text.head? = some 47 then 2 else 3
      · simp only [hk, ne_eq, not_true_eq_false, if_false] at h
        exact ⟨f, by rw [hk], h⟩
      · simp only [ne_eq, hk, not_false_eq_true, if_true] at h
        cases h

end Copies

/-! ## The default name -/

/-- The directive gives no name: nothing is behind its last space, if it has one. -/
def Unnamed (text : List UInt8) : Prop :=
  ∀ front name, text = front ++ 32 :: name → 32 ∉ name → name = []

/-- A directive that gives no name, without the space that may be at its end. -/
def addressPart (text : List UInt8) : List UInt8 :=
  if text.getLast? = some 32 then text.dropLast else text

/-- The name of a server whose directive gives none: its path, or its host, with the port unless
that is the one of libmemcached. -/
def DefaultName (text : List UInt8) (s : ConfServer) : Prop :=
  if text.head? = some 47 then
    ∃ path weight, addressPart text = path ++ 58 :: weight ∧ 58 ∉ weight ∧ s.name = path
  else
    ∃ host port weight, addressPart text = host ++ 58 :: port ++ 58 :: weight ∧ 58 ∉ port ∧
      58 ∉ weight ∧ s.name = if s.port = confDefaultKetamaPort then host else host ++ 58 :: port

/-- The address is not a path, and no space is at the end, unless the default name is empty: then
the host is, and the port is the one of libmemcached. -/
def KeepsDefault (text : List UInt8) : Prop :=
  text.head? ≠ some 47 ∧ (text.getLast? = some 32 →
    ∃ port weight, text = 58 :: port ++ 58 :: weight ++ [32] ∧ 58 ∉ port ∧ 58 ∉ weight ∧
      gfAtoi port = confDefaultKetamaPort)

section Names

variable {text front weight host port rest : List UInt8} {n : ℕ} {f : Fields}

/-- The scan of a text whose address is a path. -/
lemma confScan_path (hw : (58 : UInt8) ∉ weight) (hfront : (58 : UInt8) ∉ front)
    (hlen : (front ++ 58 :: weight).length < 2 ^ 32)
    (hf : f.behind = (front ++ 58 :: weight).length) :
    confScan (front ++ 58 :: weight ++ rest) (n + 2) 1 f =
      .ok (2, { f with
        behind := front.length, weight := some ⟨front.length + 1, weight.length⟩ }) := by
  rw [confScan_weight hw hlen hf, List.append_assoc]
  exact (confScan_none rfl hfront rfl).trans (if_neg (by decide))

/-- The scan of a text whose address is a host with a port. -/
lemma confScan_host (hw : (58 : UInt8) ∉ weight) (hp : (58 : UInt8) ∉ port)
    (hhost : (0 : UInt8) ∉ host)
    (hlen : (host ++ 58 :: port ++ 58 :: weight).length < 2 ^ 32)
    (hf : f.behind = (host ++ 58 :: port ++ 58 :: weight).length) :
    confScan (host ++ 58 :: port ++ 58 :: weight ++ rest) (n + 3) 1 f =
      .ok (3, { f with
        behind := host.length
        weight := some ⟨(host ++ 58 :: port).length + 1, weight.length⟩
        port := some ⟨host.length + 1, port.length⟩ }) := by
  have hlen' : (host ++ 58 :: port).length < 2 ^ 32 := by
    rw [List.length_append] at hlen
    omega
  rw [confScan_weight hw hlen hf, List.append_assoc (host ++ 58 :: port),
    confScan_port hp hlen' rfl, List.append_assoc host]
  exact (confScan_none rfl hhost rfl).trans (if_neg (by decide))

/-- A text with less than two delimiters. -/
lemma confScan_short (h : (58 : UInt8) ∉ text) (hf : f.behind = text.length) :
    confScan (text ++ rest) (n + 1) 1 f = .ok (1, f) :=
  (confScan_none rfl h hf).trans (if_neg (by decide))

/-- The scan of a text that would have a null byte in its host. -/
lemma confScan_host_null (hw : (58 : UInt8) ∉ weight) (hp : (58 : UInt8) ∉ port)
    (hhost : (0 : UInt8) ∈ host)
    (hlen : (host ++ 58 :: port ++ 58 :: weight).length < 2 ^ 32)
    (hf : f.behind = (host ++ 58 :: port ++ 58 :: weight).length) :
    confScan (host ++ 58 :: port ++ 58 :: weight ++ rest) (n + 3) 1 f = .error .notReached := by
  have hlen' : (host ++ 58 :: port).length < 2 ^ 32 := by
    rw [List.length_append] at hlen
    omega
  rw [confScan_weight hw hlen hf, List.append_assoc (host ++ 58 :: port),
    confScan_port hp hlen' rfl, List.append_assoc host]
  exact confScan_null hhost rfl

end Names

/-- The bytes that are copied to the name of a server without an explicit one. -/
lemma take_serverName {text : List UInt8} {p : ℤ} {f : Fields} (hname : f.name = none)
    (hlen : f.behind + 1 + fieldLen f.port < 2 ^ 32) :
    (text.drop (serverName p f).ptr).take (serverName p f).len =
      text.take (if p = confDefaultKetamaPort then f.behind
        else f.behind + 1 + fieldLen f.port) := by
  have hu : u32 f.behind = f.behind := Nat.mod_eq_of_lt (by omega)
  have hu' : u32 (f.behind + 1 + fieldLen f.port) = f.behind + 1 + fieldLen f.port :=
    Nat.mod_eq_of_lt hlen
  simp only [serverName, hname, hu, hu']
  split_ifs <;> rfl

/-- Once the scan is past the first delimiter, it keeps the name. -/
lemma confScan_name {mem : List UInt8} {n k k' : ℕ} {f f' : Fields}
    (h : confScan mem n (k + 1) f = .ok (k', f')) : f'.name = f.name := by
  induction n generalizing k f with
  | zero =>
    obtain ⟨-, rfl⟩ := Prod.mk.inj (Except.ok.inj h)
    rfl
  | succ n ih =>
    rw [confScan] at h
    obtain ⟨c, -, h⟩ := Exec.except_bind_ok.mp h
    obtain ⟨q, -, h⟩ := Exec.except_bind_ok.mp h
    cases q with
    | none =>
      rw [if_neg (Nat.succ_ne_zero k)] at h
      obtain ⟨-, rfl⟩ := Prod.mk.inj (Except.ok.inj h)
      rfl
    | some q =>
      obtain ⟨f₁, hf₁, h⟩ := Exec.except_bind_ok.mp h
      refine (ih h).trans ?_
      -- the switch writes the weight or the port
      match k, hf₁ with
      | 0, hf₁ => exact (Except.ok.inj hf₁) ▸ rfl
      | 1, hf₁ => exact (Except.ok.inj hf₁) ▸ rfl

/-- A space at the end of the directive makes the name empty. -/
lemma confAddServer_space {push : Bool} {strdup : ℕ → Bool} {body : List UInt8}
    {a servers : List ConfServer} (hlen : (body ++ [32]).length < 2 ^ 32)
    (h : confAddServer push strdup (body ++ [32]) a = .ok (none, servers)) :
    ∃ s, servers = a ++ [s] ∧ s.name = [] ∧
      ∀ port weight, body = 58 :: port ++ 58 :: weight → 58 ∉ port → 58 ∉ weight →
        s.port = gfAtoi port := by
  obtain ⟨f, hscan, hfields⟩ := confAddServer_ok h
  obtain ⟨s, hs, hport, hname⟩ := confAddFields_ok hfields
  rw [confScan_named List.not_mem_nil hlen rfl] at hscan
  refine ⟨s, hs, ?_, ?_⟩
  · have hfield : serverName s.port f = ⟨body.length + 1, 0⟩ := by
      rw [serverName, confScan_name hscan]
      rfl
    rw [hname, hfield, List.take_zero]
  · rintro port weight rfl hp hw
    -- the scan finds the port and the weight in front of the space
    have hlen' : ([] ++ 58 :: port ++ 58 :: weight).length < 2 ^ 32 := by
      rw [List.length_append] at hlen
      exact lt_of_le_of_lt (Nat.le_add_right _ _) hlen
    have hmem : 58 :: port ++ 58 :: weight ++ [32] ++ [0] =
        [] ++ 58 :: port ++ 58 :: weight ++ [32, 0] := by simp
    rw [hmem, confScan_host hw hp List.not_mem_nil hlen' rfl, Except.ok.injEq,
      Prod.mk.injEq] at hscan
    obtain ⟨-, rfl⟩ := hscan
    rw [hport, if_neg (by simp), hmem]
    rw [List.append_assoc]
    exact congrArg gfAtoi fieldBytes_behind

/-- A directive with a space at its end gets the default name only if that is empty. -/
lemma confAddServer_space_iff {push : Bool} {strdup : ℕ → Bool} {body : List UInt8}
    {a servers : List ConfServer} (hlen : (body ++ [32]).length < 2 ^ 32)
    (h : confAddServer push strdup (body ++ [32]) a = .ok (none, servers)) :
    ∃ s, servers = a ++ [s] ∧ (DefaultName (body ++ [32]) s ↔ KeepsDefault (body ++ [32])) := by
  obtain ⟨s, hs, hname, hport⟩ := confAddServer_space hlen h
  have hpart : addressPart (body ++ [32]) = body := by simp [addressPart]
  refine ⟨s, hs, ?_⟩
  unfold DefaultName KeepsDefault
  rw [hpart, hname]
  constructor
  · intro hd
    by_cases hhead : (body ++ [32]).head? = some 47
    · rw [if_pos hhead] at hd
      obtain ⟨path, weight, rfl, -, rfl⟩ := hd
      cases hhead
    · rw [if_neg hhead] at hd
      obtain ⟨host, port, weight, rfl, hp, hw, hd⟩ := hd
      refine ⟨hhead, fun _ => ?_⟩
      split_ifs at hd with hdefault
      · subst hd
        exact ⟨port, weight, rfl, hp, hw, (hport port weight rfl hp hw) ▸ hdefault⟩
      · cases host <;> cases hd
  · rintro ⟨hhead, hlast⟩
    obtain ⟨port, weight, he, hp, hw, hdefault⟩ := hlast (by simp)
    obtain rfl := List.append_cancel_right he
    rw [if_neg hhead]
    refine ⟨[], port, weight, rfl, hp, hw, ?_⟩
    rw [hport port weight rfl hp hw, if_pos hdefault]

/-- A directive without a space gets the default name exactly if its address is not a path. -/
lemma confAddServer_bare_iff {push : Bool} {strdup : ℕ → Bool} {text : List UInt8}
    {a servers : List ConfServer} (hlen : text.length < 2 ^ 32) (hspace : 32 ∉ text)
    (h : confAddServer push strdup text a = .ok (none, servers)) :
    ∃ s, servers = a ++ [s] ∧ (DefaultName text s ↔ text.head? ≠ some 47) := by
  obtain ⟨f, hscan, hfields⟩ := confAddServer_ok h
  obtain ⟨s, hs, hport, hname⟩ := confAddFields_ok hfields
  have hpart : addressPart text = text :=
    if_neg fun hlast => hspace (List.mem_of_getLast? hlast)
  refine ⟨s, hs, ?_⟩
  unfold DefaultName
  rw [hpart]
  rw [confScan_unnamed hspace rfl] at hscan
  by_cases hcolon : (58 : UInt8) ∈ text
  swap
  · -- the scan stops at the first colon
    rw [confScan_short hcolon rfl, Except.ok.injEq, Prod.mk.injEq] at hscan
    split_ifs at hscan <;> omega
  obtain ⟨front, weight, rfl, hw⟩ := exists_last_split hcolon
  by_cases hfront : (58 : UInt8) ∈ front
  swap
  · -- the address is a path
    rw [confScan_path hw hfront hlen rfl, Except.ok.injEq, Prod.mk.injEq] at hscan
    obtain ⟨hk, rfl⟩ := hscan
    have hhead : (front ++ 58 :: weight).head? = some 47 := by
      by_contra hne
      rw [if_neg hne] at hk
      omega
    have hzero : s.port = 0 := hport.trans (if_pos (decide_eq_true hhead))
    have hcut : s.name = front ++ [58] := by
      rw [take_serverName rfl (by simp [fieldLen] at hlen ⊢; omega), hzero] at hname
      rw [hname, if_neg (by decide), List.append_assoc]
      exact take_length_succ 0
    simp only [hhead, ne_eq, not_true_eq_false, iff_false, if_true]
    rintro ⟨path, weight', he, hw', hp⟩
    obtain ⟨rfl, -⟩ := last_split_unique hw hw' he
    simp [hcut] at hp
  · obtain ⟨host, port, rfl, hp⟩ := exists_last_split hfront
    by_cases hnull : (0 : UInt8) ∈ host
    · rw [confScan_host_null hw hp hnull hlen rfl] at hscan
      cases hscan
    rw [confScan_host hw hp hnull hlen rfl, Except.ok.injEq, Prod.mk.injEq] at hscan
    obtain ⟨hk, rfl⟩ := hscan
    have hhead : (host ++ 58 :: port ++ 58 :: weight).head? ≠ some 47 := by
      intro he
      rw [if_pos he] at hk
      omega
    simp only [hhead, ne_eq, not_false_eq_true, iff_true, if_false]
    refine ⟨host, port, weight, rfl, hp, hw, ?_⟩
    rw [take_serverName rfl (by simp [fieldLen] at hlen ⊢; omega)] at hname
    have hmem : host ++ 58 :: port ++ 58 :: weight ++ [0] =
        host ++ 58 :: (port ++ 58 :: weight ++ [0]) := by simp
    rw [hname, hmem]
    split_ifs
    · exact List.take_left
    · refine (take_length_succ port.length).trans ?_
      rw [List.append_assoc, List.take_left]

/-- **The server of an accepted directive that gives no name has the default name exactly if its
address is not a path and no space is at its end** (or the default name is empty).

**Proof sketch.** The scan splits the text at its last colons.  Without a space, the length of the
name is that of the address, of a colon and of the port; for a path it is the length of the path and
of the colon behind it.  With a space at the end, the name is what is behind that: nothing. -/
theorem confAddServer_defaultName_iff {push : Bool} {strdup : ℕ → Bool} {text : List UInt8}
    {a servers : List ConfServer} (hlen : text.length < 2 ^ 32) (hunnamed : Unnamed text)
    (h : confAddServer push strdup text a = .ok (none, servers)) :
    ∃ s, servers = a ++ [s] ∧ (DefaultName text s ↔ KeepsDefault text) := by
  by_cases hlast : text.getLast? = some 32
  · obtain ⟨body, rfl⟩ := List.getLast?_eq_some_iff.mp hlast
    exact confAddServer_space_iff hlen h
  · have hspace : (32 : UInt8) ∉ text := by
      intro hmem
      obtain ⟨front, name, rfl, hname⟩ := exists_last_split hmem
      obtain rfl := hunnamed front name rfl hname
      exact hlast (by simp)
    obtain ⟨s, hs, hiff⟩ := confAddServer_bare_iff hlen hspace h
    refine ⟨s, hs, hiff.trans ?_⟩
    simp only [KeepsDefault, hlast, false_implies, and_true]

/-- The text `h:1:2`, a directive without a name. -/
def hostText : List UInt8 := [104, 58, 49, 58, 50]

/-- The text `h:1:2 `, with a space at its end. -/
def spaceText : List UInt8 := hostText ++ [32]

/-- The server of `h:1:2`. -/
def hostServer : ConfServer :=
  { pname := hostText, name := [104, 58, 49], addrstr := [104], port := 1, weight := 2,
    valid := true }

/-- The server of `h:1:2 `, with an empty name. -/
def spaceServer : ConfServer := { hostServer with pname := spaceText, name := [] }

/-- The directive `hostText` is accepted. -/
lemma hostText_ok : confAddServer true (fun _ => true) hostText [] = .ok (none, [hostServer]) := by
  decide +kernel

/-- The directive `spaceText` is accepted. -/
lemma spaceText_ok :
    confAddServer true (fun _ => true) spaceText [] = .ok (none, [spaceServer]) := by
  decide +kernel

/-- A text without a space gives no name. -/
lemma unnamed_of_notMem {text : List UInt8} (h : 32 ∉ text) : Unnamed text := by
  intro front name he _
  rw [he] at h
  exact absurd (by simp) h

/-- A text that ends with a space gives no name. -/
lemma unnamed_space (body : List UInt8) : Unnamed (body ++ [32]) := by
  intro front name he hname
  exact (last_split_unique List.not_mem_nil hname he).2.symm

/-- Both directives give no name; one of them has no space, the other one ends with it. -/
theorem hostText_defaultName :
    (∃ s, [hostServer] = [] ++ [s] ∧ (DefaultName hostText s ↔ KeepsDefault hostText)) ∧
    ∃ s, [spaceServer] = [] ++ [s] ∧ (DefaultName spaceText s ↔ KeepsDefault spaceText) :=
  ⟨confAddServer_defaultName_iff (by decide) (unnamed_of_notMem (by decide)) hostText_ok,
    confAddServer_defaultName_iff (by decide) (unnamed_space _) spaceText_ok⟩

/-- The text `/s:1`. -/
def pathText : List UInt8 := [47, 115, 58, 49]

/-- Its server, with the name `/s:`. -/
def pathServer : ConfServer :=
  { pname := pathText, name := [47, 115, 58], addrstr := [47, 115], weight := 1, valid := true }

/-- Neither the server of `/s:1` nor that of `h:1:2 ` has the default name. -/
theorem not_forall_defaultName :
    (¬∀ (push : Bool) (strdup : ℕ → Bool) (text : List UInt8) (a : List ConfServer)
      (s : ConfServer), text.length < 2 ^ 32 → Unnamed text →
      confAddServer push strdup text a = .ok (none, a ++ [s]) → DefaultName text s) ∧
    Unnamed spaceText ∧
      confAddServer true (fun _ => true) spaceText [] = .ok (none, [spaceServer]) ∧
      ¬DefaultName spaceText spaceServer := by
  refine ⟨fun h => ?_, unnamed_space _, spaceText_ok, ?_⟩
  · obtain ⟨path, weight, he, -, hname⟩ := h true (fun _ => true) pathText [] pathServer
      (by decide) (unnamed_of_notMem (by decide)) (by decide +kernel)
    rw [← hname] at he
    cases he
  · rintro ⟨host, port, weight, -, -, -, hname⟩
    have hport : spaceServer.port ≠ confDefaultKetamaPort := by decide
    rw [if_neg hport] at hname
    cases host <;> cases hname

/-! ## Reading back a directive -/

/-- The address of a server: a host with a port, or the path of a unix socket. -/
inductive Address
  | host (host : List UInt8) (port : ℕ)
  | path (path : List UInt8)

/-- The text of an address. -/
def Address.text : Address → List UInt8
  | .host h p => h ++ 58 :: Decimal.ofNat p
  | .path p => p

/-- The host or the path. -/
def Address.addrstr : Address → List UInt8
  | .host h _ => h
  | .path p => p

/-- The port, which is 0 for a path. -/
def Address.port : Address → ℕ
  | .host _ p => p
  | .path _ => 0

/-- Is the address of a server a path? -/
def Address.isPath : Address → Bool
  | .host _ _ => false
  | .path _ => true

/-- A host may have colons but does not start with a slash; a path does and has no colons. -/
inductive Address.Ok : Address → Prop
  | host {host : List UInt8} {port : ℕ} (ne_nil : host ≠ []) (space : 32 ∉ host) (null : 0 ∉ host)
      (slash : host.head? ≠ some 47) (port_pos : 1 ≤ port) (port_le : port ≤ 65535) :
      Address.Ok (.host host port)
  | path {path : List UInt8} (slash : path.head? = some 47) (space : 32 ∉ path) (colon : 58 ∉ path)
      (null : 0 ∉ path) : Address.Ok (.path path)

/-- The parts of the directive of a server. -/
structure Directive where
  address : Address
  weight : ℕ
  name : Option (List UInt8)

/-- The text of a directive without its name. -/
def Directive.body (d : Directive) : List UInt8 := d.address.text ++ 58 :: Decimal.ofNat d.weight

/-- The text of a directive. -/
def Directive.text (d : Directive) : List UInt8 :=
  match d.name with
  | none => d.body
  | some name => d.body ++ 32 :: name

/-- The conditions on the parts of a directive; its text is that of a `struct string`, with a place
for the terminator. -/
structure Directive.Ok (d : Directive) : Prop where
  address : d.address.Ok
  weight_pos : 1 ≤ d.weight
  weight_lt : d.weight < 2 ^ 31
  name : ∀ name ∈ d.name, name ≠ [] ∧ 32 ∉ name ∧ 0 ∉ name
  length : d.text.length + 1 < 2 ^ 32

/-- All memory that `conf_add_server` asks for is there. -/
def Allocates (push : Bool) (strdup : ℕ → Bool) : Prop :=
  push = true ∧ strdup 0 = true ∧ strdup 1 = true ∧ strdup 2 = true

/-- A computation adds server `s` if there is memory, and fails otherwise. -/
def Adds (memory : Prop) (a : List ConfServer) (s : ConfServer)
    (x : Except ConfFault (Option String × List ConfServer)) : Prop :=
  (memory → x = .ok (none, a ++ [s])) ∧
    (¬memory → ∃ servers, x = .ok (some confError, servers))

section Adds

variable {memory : Prop} {a l : List ConfServer} {s field : ConfServer} {b path : Bool}
  {x : Except ConfFault (Option String × List ConfServer)} {mem : List UInt8} {f : Fields}

/-- A computation that needs no memory. -/
lemma Adds.pure : Adds True a s (.ok (none, a ++ [s])) :=
  ⟨fun _ => rfl, fun h => absurd trivial h⟩

/-- Another allocation before. -/
lemma Adds.alloc (h : Adds memory a s x) :
    Adds (b = true ∧ memory) a s (if !b then .ok (some confError, l) else x) := by
  cases b with
  | false => exact ⟨fun hm => by simp at hm, fun _ => ⟨l, rfl⟩⟩
  | true =>
    constructor
    · intro hm
      exact h.1 hm.2
    · intro hm
      exact h.2 fun hm' => hm ⟨rfl, hm'⟩

/-- The copies of the name and of the address. -/
lemma confAddName_adds {strdup : ℕ → Bool} {name addrstr : List UInt8}
    (hname : stringCopy (mem.drop (serverName field.port f).ptr)
      (serverName field.port f).len = .ok name)
    (haddr : stringCopy mem (u32 f.behind) = .ok addrstr) :
    Adds (strdup 1 = true ∧ strdup 2 = true ∧ True) a
      { field with name := name, addrstr := addrstr, valid := true }
      (confAddName strdup mem f a field) := by
  simp only [confAddName, hname, haddr, bind, Except.bind]
  exact Adds.alloc (Adds.alloc Adds.pure)

/-- The weight and the port, which are those of the directive. -/
lemma confAddNumbers_adds {strdup : ℕ → Bool} {weight port : ℕ} (hpos : 1 ≤ weight)
    (hweight : gfAtoi (fieldBytes mem f.weight) = weight)
    (hport : if path then (port : ℤ) = field.port
      else gfAtoi (fieldBytes mem f.port) = port ∧ 1 ≤ port ∧ port ≤ 65535)
    (h : Adds memory a s (confAddName strdup mem f a
      { field with weight := weight, port := port })) :
    Adds memory a s (confAddNumbers strdup mem path f a field) := by
  have hneg : ¬(weight : ℤ) < 0 := by omega
  have hzero : ¬(weight : ℤ) = 0 := by omega
  simp only [confAddNumbers, hweight, hneg, hzero, if_false]
  cases path with
  | true =>
    rw [if_pos rfl] at hport
    rw [if_pos rfl]
    rwa [hport] at h
  | false =>
    rw [if_neg (by decide)] at hport
    obtain ⟨hport, hlo, hhi⟩ := hport
    have hvalid : ¬((port : ℤ) < 0 ∨ !gfValidPort (port : ℤ)) := by
      simp [gfValidPort]
      omega
    rw [if_neg (by decide), hport, if_neg hvalid]
    exact h

end Adds

section Text

variable {d : Directive} {a b rest : List UInt8} {c : UInt8}

/-- A number is written with digits only. -/
lemma not_mem_ofNat {n : ℕ} (hc : Decimal.isDigit c = false) : c ∉ Decimal.ofNat n := by
  intro h
  rw [Decimal.isDigit_of_mem_ofNat h] at hc
  cases hc

/-- What the scan leaves in the variables. -/
structure Directive.Scanned (d : Directive) (f : Fields) : Prop where
  behind : f.behind = d.address.addrstr.length
  name : f.name = d.name.map fun name => ⟨d.body.length + 1, name.length⟩
  weight : fieldBytes (d.text ++ [0]) f.weight = Decimal.ofNat d.weight
  port : d.address.isPath = false → fieldBytes (d.text ++ [0]) f.port = Decimal.ofNat d.address.port
  portLen : d.address.addrstr.length + 1 + fieldLen f.port ≤ d.body.length

/-- What is behind the body of a directive in its memory. -/
def Directive.behindBody (d : Directive) : List UInt8 :=
  match d.name with
  | none => [0]
  | some name => 32 :: name ++ [0]

/-- The text of a directive and the NUL behind it, split behind the numbers and the address. -/
lemma Directive.text_eq (d : Directive) : d.text ++ [0] = d.body ++ d.behindBody := by
  unfold Directive.text Directive.behindBody
  cases d.name with
  | none => rfl
  | some name => simp

/-- The part without the name is no longer than the text. -/
lemma Directive.length_body_le (d : Directive) : d.body.length ≤ d.text.length := by
  unfold Directive.text
  cases d.name with
  | none => exact le_rfl
  | some name => simp

/-- There is no space in an address. -/
lemma Address.Ok.space {x : Address} (h : x.Ok) : (32 : UInt8) ∉ x.text := by
  cases h with
  | host hne hspace =>
    simp only [Address.text, List.mem_append, List.mem_cons, not_or]
    exact ⟨hspace, by decide, not_mem_ofNat rfl⟩
  | path hslash hspace => exact hspace

/-- There is no null byte in an address. -/
lemma Address.Ok.null {x : Address} (h : x.Ok) : (0 : UInt8) ∉ x.text := by
  cases h with
  | host hne hspace hnull =>
    simp only [Address.text, List.mem_append, List.mem_cons, not_or]
    exact ⟨hnull, by decide, not_mem_ofNat rfl⟩
  | path hslash hspace hcolon hnull => exact hnull

/-- There is no space before the name. -/
lemma Directive.Ok.body_space (hd : d.Ok) : (32 : UInt8) ∉ d.body := by
  simp only [Directive.body, List.mem_append, List.mem_cons, not_or]
  exact ⟨hd.address.space, by decide, not_mem_ofNat rfl⟩

/-- There is no null byte before the name. -/
lemma Directive.Ok.body_null (hd : d.Ok) : (0 : UInt8) ∉ d.body := by
  simp only [Directive.body, List.mem_append, List.mem_cons, not_or]
  exact ⟨hd.address.null, by decide, not_mem_ofNat rfl⟩

/-- The first round of the scan takes the name, if there is one. -/
lemma Directive.Ok.confScan_name (hd : d.Ok) (n : ℕ) :
    confScan (d.text ++ [0]) (n + 1) 0 { behind := d.text.length } =
      confScan (d.text ++ [0]) n 1
        { behind := d.body.length
          name := d.name.map fun name => ⟨d.body.length + 1, name.length⟩ } := by
  have hlen := hd.length
  have hname := hd.name
  unfold Directive.text at hlen ⊢
  cases hn : d.name with
  | none => exact confScan_unnamed hd.body_space rfl
  | some name =>
    simp only [hn] at hlen hname
    exact confScan_named (hname name rfl).2.1 (by omega) rfl

/-- **The scan finds the parts of a directive in its text.** -/
lemma Directive.Ok.confScan_text (hd : d.Ok) :
    ∃ f, confScan (d.text ++ [0]) 8 0 { behind := d.text.length } =
      .ok (if d.address.isPath then 2 else 3, f) ∧ d.Scanned f := by
  have hlen : d.body.length < 2 ^ 32 := by
    have hle := d.length_body_le
    have hlt := hd.length
    omega
  rw [hd.confScan_name 7, d.text_eq]
  obtain ⟨address, weight, name⟩ := d
  cases hd.address with
  | @host host port hne hspace hnull hslash hlo hhi =>
    refine ⟨_, confScan_host (not_mem_ofNat rfl) (not_mem_ofNat rfl) hnull hlen rfl, ?_⟩
    refine ⟨rfl, rfl, ?_, fun _ => ?_, ?_⟩
    · rw [Directive.text_eq]
      exact fieldBytes_behind
    · rw [Directive.text_eq, Directive.body, Address.text, List.append_assoc]
      exact fieldBytes_behind
    · simp [Directive.body, Address.text, Address.addrstr, fieldLen]
      omega
  | @path path hslash hspace hcolon hnull =>
    refine ⟨_, confScan_path (not_mem_ofNat rfl) hcolon hlen rfl, ?_⟩
    refine ⟨rfl, rfl, ?_, fun h => ?_, ?_⟩
    · rw [Directive.text_eq]
      exact fieldBytes_behind
    · cases h
    · simp [Directive.body, Address.text, Address.addrstr, fieldLen]

/-- A directive begins with its address. -/
lemma Directive.exists_body_eq (d : Directive) : ∃ t, d.body = d.address.addrstr ++ t := by
  obtain ⟨address, weight, name⟩ := d
  cases address with
  | host h p => exact ⟨58 :: Decimal.ofNat p ++ 58 :: Decimal.ofNat weight, by
      simp [Directive.body, Address.text, Address.addrstr]⟩
  | path p => exact ⟨58 :: Decimal.ofNat weight, rfl⟩

/-- The part without the name is shorter than a `uint32_t` can count. -/
lemma Directive.Ok.length_body (hd : d.Ok) : d.body.length + 1 < 2 ^ 32 := by
  have hle := d.length_body_le
  have hlt := hd.length
  omega

/-- A part of the body is copied. -/
lemma Directive.Ok.stringCopy_body (hd : d.Ok) {n : ℕ} (hn : n ≤ d.body.length) :
    stringCopy (d.text ++ [0]) n = .ok (d.body.take n) := by
  have htake : (d.text ++ [0]).take n = d.body.take n := by
    rw [d.text_eq, List.take_append_of_le_length hn]
  have hlen : n ≤ (d.text ++ [0]).length := by
    rw [d.text_eq, List.length_append]
    omega
  have hmax := hd.length_body
  rw [← htake]
  refine stringCopy_of_take ?_ hlen (by omega)
  rw [htake]
  exact fun h => hd.body_null (List.mem_of_mem_take h)

/-- The name is copied, the given one if there is one. -/
lemma Directive.Ok.stringCopy_name (hd : d.Ok) {f : Fields} (hf : d.Scanned f) (port : ℤ) :
    ∃ name, stringCopy ((d.text ++ [0]).drop (serverName port f).ptr) (serverName port f).len =
      .ok name ∧ ∀ given ∈ d.name, name = given := by
  cases hname : d.name with
  | none =>
    have hnone : f.name = none := by rw [hf.name, hname, Option.map_none]
    have hlen := hf.portLen
    have hmax := hd.length_body
    rw [← hf.behind] at hlen
    have hb : u32 f.behind = f.behind := Nat.mod_eq_of_lt (by omega)
    have hb' : u32 (f.behind + 1 + fieldLen f.port) = f.behind + 1 + fieldLen f.port :=
      Nat.mod_eq_of_lt (by omega)
    have hle : (serverName port f).len ≤ d.body.length := by
      simp only [serverName, hnone, hb, hb']
      split_ifs
      · change f.behind ≤ d.body.length
        omega
      · exact hlen
    have hptr : (serverName port f).ptr = 0 := by
      simp only [serverName, hnone]
      split_ifs <;> rfl
    rw [hptr, List.drop_zero]
    exact ⟨_, hd.stringCopy_body hle, fun given h => by cases h⟩
  | some name =>
    have hsome : serverName port f = ⟨d.body.length + 1, name.length⟩ := by
      simp only [serverName, hf.name, hname, Option.map_some]
    have htext : d.text = d.body ++ 32 :: name := by simp only [Directive.text, hname]
    have hdrop : (d.text ++ [0]).drop (d.body.length + 1) = name ++ [0] := by
      rw [htext, List.append_assoc, ← List.drop_drop, List.drop_left]
      rfl
    have hlen := hd.length
    rw [htext, List.length_append, List.length_cons] at hlen
    rw [hsome, hdrop]
    refine ⟨name, stringCopy_eq_ok (hd.name name hname).2.2 (by omega), fun given h => ?_⟩
    exact Option.some.inj h

/-- The length of the text without the name. -/
lemma Directive.Ok.pnamelen (hd : d.Ok) {f : Fields} (hf : d.Scanned f) :
    (if fieldLen f.name > 0 then u32 (d.text.length - (fieldLen f.name + 1)) else d.text.length) =
      d.body.length := by
  have hmax := hd.length_body
  cases hname : d.name with
  | none =>
    have htext : d.text = d.body := by simp only [Directive.text, hname]
    rw [hf.name, hname, htext]
    rfl
  | some name =>
    have htext : d.text = d.body ++ 32 :: name := by simp only [Directive.text, hname]
    have hpos : 0 < name.length := List.length_pos_iff.mpr (hd.name name hname).1
    have hfield : fieldLen f.name = name.length := by rw [hf.name, hname]; rfl
    rw [hfield, if_pos hpos, htext, List.length_append, List.length_cons, Nat.add_sub_cancel_right]
    exact Nat.mod_eq_of_lt (by omega)

/-- The server that the parts of a directive describe. -/
def Directive.Describes (d : Directive) (s : ConfServer) : Prop :=
  s.addrstr = d.address.addrstr ∧ s.port = d.address.port ∧ s.weight = d.weight ∧
    s.pname = d.body ∧ ∀ name ∈ d.name, s.name = name

/-- The fields that were found make up the server. -/
lemma Directive.Ok.confAddFields_adds (hd : d.Ok) {f : Fields} (hf : d.Scanned f)
    (strdup : ℕ → Bool) (a : List ConfServer) :
    ∃ s, d.Describes s ∧
      Adds (strdup 0 = true ∧ strdup 1 = true ∧ strdup 2 = true ∧ True) a s
        (confAddFields strdup d.text d.address.isPath f a) := by
  obtain ⟨name, hname, hgiven⟩ := hd.stringCopy_name hf d.address.port
  obtain ⟨t, ht⟩ := d.exists_body_eq
  have hmax := hd.length_body
  have hbody : stringCopy (d.text ++ [0]) d.body.length = .ok d.body := by
    rw [hd.stringCopy_body le_rfl, List.take_length]
  have haddr : stringCopy (d.text ++ [0]) (u32 f.behind) = .ok d.address.addrstr := by
    have hle : d.address.addrstr.length ≤ d.body.length := by
      rw [ht, List.length_append]
      omega
    rw [hf.behind, u32, Nat.mod_eq_of_lt (by omega), hd.stringCopy_body hle, ht, List.take_left]
  have hweight : gfAtoi (fieldBytes (d.text ++ [0]) f.weight) = d.weight := by
    rw [hf.weight, gfAtoi_ofNat hd.weight_lt]
  have hport : if d.address.isPath then (d.address.port : ℤ) = 0
      else gfAtoi (fieldBytes (d.text ++ [0]) f.port) = d.address.port ∧ 1 ≤ d.address.port ∧
        d.address.port ≤ 65535 := by
    obtain ⟨address, weight, given⟩ := d
    cases hd.address with
    | host hne hspace hnull hslash hlo hhi =>
      rw [hf.port rfl]
      exact ⟨gfAtoi_ofNat (by simp only [Address.port]; omega), hlo, hhi⟩
    | path hslash => rfl
  refine ⟨{ pname := d.body, name := name, addrstr := d.address.addrstr, port := d.address.port
            weight := d.weight, valid := true }, ⟨rfl, rfl, rfl, rfl, hgiven⟩, ?_⟩
  simp only [confAddFields, hd.pnamelen hf, hbody]
  exact Adds.alloc (confAddNumbers_adds hd.weight_pos hweight hport (confAddName_adds hname haddr))

/-- The first byte of the address tells whether it is a path. -/
lemma Address.Ok.first_byte {x : Address} (h : x.Ok) :
    ∃ c t, x.addrstr = c :: t ∧ decide (c = 47) = x.isPath := by
  cases h with
  | host hne hspace hnull hslash =>
    obtain ⟨c, t, rfl⟩ := List.exists_cons_of_ne_nil hne
    exact ⟨c, t, rfl, decide_eq_false fun he => hslash (by rw [he]; rfl)⟩
  | @path path hslash =>
    cases path with
    | nil => cases hslash
    | cons c t => exact ⟨c, t, rfl, decide_eq_true (Option.some.inj hslash)⟩

end Text

/-- **The parts of a directive are read back from its text**: if there is memory, the server that
they describe is added.

**Proof sketch.** The scan from the end finds the name, the weight and the port, as none of them has
the delimiter that is before it; what is left is the address, which may have colons if it is a
host. -/
theorem Directive.confAddServer_text {d : Directive} (hd : d.Ok) (push : Bool) (strdup : ℕ → Bool)
    (a : List ConfServer) :
    (Allocates push strdup → ∃ s, confAddServer push strdup d.text a = .ok (none, a ++ [s]) ∧
      d.Describes s) ∧
    (¬Allocates push strdup →
      ∃ servers, confAddServer push strdup d.text a = .ok (some confError, servers)) := by
  obtain ⟨f, hscan, hf⟩ := hd.confScan_text
  obtain ⟨s, hs, hfields⟩ := hd.confAddFields_adds hf strdup a
  obtain ⟨c, t, hc, hpath⟩ := hd.address.first_byte
  have hfirst : readConf (byteAt (d.text ++ [0]) 0) = .ok c := by
    obtain ⟨u, hu⟩ := d.exists_body_eq
    rw [d.text_eq, hu, hc]
    rfl
  have hadds : Adds (push = true ∧ strdup 0 = true ∧ strdup 1 = true ∧ strdup 2 = true ∧ True) a s
      (confAddServer push strdup d.text a) := by
    have hdelimlen : (if c = 47 then 2 else 3) = if d.address.isPath = true then 2 else 3 := by
      simp only [← hpath, decide_eq_true_eq]
    simp only [confAddServer, hfirst, hscan, bind, Except.bind, hpath, hdelimlen, ne_eq,
      not_true_eq_false, if_false]
    exact Adds.alloc hfields
  have hall : Allocates push strdup ↔
      push = true ∧ strdup 0 = true ∧ strdup 1 = true ∧ strdup 2 = true ∧ True := by
    simp only [Allocates, and_true]
  rw [hall]
  exact ⟨fun h => ⟨s, hadds.1 h, hs⟩, hadds.2⟩

/-- The directive `::1:11211:7 n`, for a host with colons. -/
def namedDirective : Directive :=
  { address := .host [58, 58, 49] 11211, weight := 7, name := some [110] }

/-- A directive with a name is read back. -/
theorem namedDirective_text :
    ∃ s, confAddServer true (fun _ => true) namedDirective.text [] = .ok (none, [] ++ [s]) ∧
      namedDirective.Describes s :=
  (Directive.confAddServer_text
    { address := .host (by decide) (by decide) (by decide) (by decide) (by decide) (by decide)
      weight_pos := by decide
      weight_lt := by decide
      name := fun name h => by
        obtain rfl := Option.some.inj h
        decide
      length := by decide } true (fun _ => true) []).1 ⟨rfl, rfl, rfl, rfl⟩

end GfwProxy
