import GfwProxy.Lib.Decimal
import Mathlib.Data.List.TakeWhile

set_option autoImplicit false

/-!
# JSON texts

A part of JSON over bytes: objects, strings without escapes, and integers, with white space between
them.  The members of an object are kept in their order, with equal keys.

## Main definitions

* `Json.Value` — the values.
* `Json.Derives` — the grammar.
* `Json.decode` — a decoder.

## Main results

* `Json.Derives.append` — the members of two texts are those of both, with a comma between them.
* `Json.decode_of_derives` — the decoder finds the value of every text of the grammar.

## Design

The decoder is recursive in the number of bytes that there may be.  As it is a function, the value
of a text is unique.
-/

namespace Json

/-- The values. -/
inductive Value
  | str (s : List UInt8)
  | num (z : ℤ)
  | obj (members : List (List UInt8 × Value))

abbrev Member := List UInt8 × Value

/-- White space. -/
def isWs (c : UInt8) : Bool := c = 32 || c = 9 || c = 10 || c = 13

/-- Bytes that stand for themselves in a string: no control characters, no quote and no
backslash. -/
def Plain (s : List UInt8) : Prop := ∀ c ∈ s, 32 ≤ c.toNat ∧ c ≠ 34 ∧ c ≠ 92

/-- All bytes are white space. -/
def Ws (w : List UInt8) : Prop := ∀ c ∈ w, isWs c = true

/-- A string in quotes. -/
def quoted (s : List UInt8) : List UInt8 := [34] ++ s ++ [34]

/-- What a text stands for. -/
inductive Phrase
  | value (v : Value)
  | members (ms : List Member)

/-- **The grammar.** -/
inductive Derives : Phrase → List UInt8 → Prop
  | str {s : List UInt8} (h : Plain s) : Derives (.value (.str s)) (quoted s)
  | num (z : ℤ) : Derives (.value (.num z)) (Decimal.ofInt z)
  | empty {w : List UInt8} (h : Ws w) : Derives (.value (.obj [])) ([123] ++ w ++ [125])
  | obj {ms : List Member} {t : List UInt8} (h : Derives (.members ms) t) :
      Derives (.value (.obj ms)) ([123] ++ t ++ [125])
  | single {k t w₁ w₂ w₃ w₄ : List UInt8} {v : Value} (hk : Plain k) (hv : Derives (.value v) t)
      (h₁ : Ws w₁) (h₂ : Ws w₂) (h₃ : Ws w₃) (h₄ : Ws w₄) :
      Derives (.members [(k, v)]) (w₁ ++ quoted k ++ w₂ ++ [58] ++ w₃ ++ t ++ w₄)
  | cons {k t w₁ w₂ w₃ w₄ rest : List UInt8} {v : Value} {ms : List Member} (hk : Plain k)
      (hv : Derives (.value v) t) (h₁ : Ws w₁) (h₂ : Ws w₂) (h₃ : Ws w₃) (h₄ : Ws w₄)
      (hms : Derives (.members ms) rest) :
      Derives (.members ((k, v) :: ms))
        (w₁ ++ quoted k ++ w₂ ++ [58] ++ w₃ ++ t ++ w₄ ++ [44] ++ rest)

/-! ## The decoder -/

def skipWs (t : List UInt8) : List UInt8 := t.dropWhile isWs

/-- A string behind its first quote. -/
def parseString (t : List UInt8) : Option (List UInt8 × List UInt8) :=
  match t.dropWhile fun c => 32 ≤ c.toNat && c != 34 && c != 92 with
  | 34 :: rest => some (t.takeWhile fun c => 32 ≤ c.toNat && c != 34 && c != 92, rest)
  | _ => none

/-- Digits, without leading zeros. -/
def parseNat (t : List UInt8) : Option (ℕ × List UInt8) :=
  let digits := t.takeWhile Decimal.isDigit
  if digits = [] ∨ (digits.head? = some 48 ∧ digits.length ≠ 1) then none
  else some (Decimal.value digits, t.dropWhile Decimal.isDigit)

/-- An integer. -/
def parseInt : List UInt8 → Option (ℤ × List UInt8)
  | 45 :: t => (parseNat t).map fun r => (-(r.1 : ℤ), r.2)
  | t => (parseNat t).map fun r => ((r.1 : ℤ), r.2)

/-- A value, given a decoder for the members of an object and its end. -/
def parseValue (parseMembers : List UInt8 → Option (List Member × List UInt8)) :
    List UInt8 → Option (Value × List UInt8)
  | 34 :: t => (parseString t).map fun r => (.str r.1, r.2)
  | 123 :: t =>
    match skipWs t with
    | 125 :: rest => some (.obj [], rest)
    | _ => (parseMembers t).map fun r => (.obj r.1, r.2)
  | t => (parseInt t).map fun r => (.num r.1, r.2)

/-- The members of an object and its end, in at most `n` bytes. -/
def parseMembers : ℕ → List UInt8 → Option (List Member × List UInt8)
  | 0, _ => none
  | n + 1, t =>
    match skipWs t with
    | 34 :: t => do
      let (k, t) ← parseString t
      match skipWs t with
      | 58 :: t =>
        let (v, t) ← parseValue (parseMembers n) (skipWs t)
        match skipWs t with
        | 44 :: t => (parseMembers n t).map fun r => ((k, v) :: r.1, r.2)
        | 125 :: t => some ([(k, v)], t)
        | _ => none
      | _ => none
    | _ => none

/-- The value of a text. -/
def decode (t : List UInt8) : Option Value :=
  match parseValue (parseMembers t.length) (skipWs t) with
  | some (v, rest) => if skipWs rest = [] then some v else none
  | none => none

/-! ## The parts of a text -/

section Parts

variable {s t w rest : List UInt8} {c : UInt8}

/-- White space is skipped up to another character. -/
lemma skipWs_append (hw : Ws w) (hc : isWs c = false) : skipWs (w ++ c :: t) = c :: t := by
  rw [skipWs, List.dropWhile_append_of_pos hw, List.dropWhile_cons_of_neg (by simp [hc])]

/-- A plain string is read up to its quotation mark. -/
lemma parseString_quoted (hs : Plain s) : parseString (s ++ 34 :: rest) = some (s, rest) := by
  have hplain : ∀ c ∈ s, (32 ≤ c.toNat && c != 34 && c != 92) = true := by
    intro c hc
    simpa [and_assoc] using hs c hc
  rw [parseString, List.dropWhile_append_of_pos hplain, List.takeWhile_append_of_pos hplain,
    List.dropWhile_cons_of_neg (by decide), List.takeWhile_cons_of_neg (by decide), List.append_nil]
  rfl

/-- What follows a number is no digit. -/
def NoDigit (t : List UInt8) : Prop := ∀ c ∈ t.head?, Decimal.isDigit c = false

/-- No digits are dropped. -/
lemma NoDigit.dropWhile (h : NoDigit rest) : rest.dropWhile Decimal.isDigit = rest := by
  cases rest with
  | nil => rfl
  | cons c t => exact List.dropWhile_cons_of_neg (by simp [h c rfl])

/-- No digits are taken. -/
lemma NoDigit.takeWhile (h : NoDigit rest) : rest.takeWhile Decimal.isDigit = [] := by
  cases rest with
  | nil => rfl
  | cons c t => exact List.takeWhile_cons_of_neg (by simp [h c rfl])

/-- A number is read back. -/
lemma parseNat_ofNat (n : ℕ) (hrest : NoDigit rest) :
    parseNat (Decimal.ofNat n ++ rest) = some (n, rest) := by
  have hdigits : ∀ c ∈ Decimal.ofNat n, Decimal.isDigit c = true :=
    fun c => Decimal.isDigit_of_mem_ofNat
  rw [parseNat, List.takeWhile_append_of_pos hdigits, List.dropWhile_append_of_pos hdigits,
    hrest.takeWhile, hrest.dropWhile, List.append_nil, Decimal.value_ofNat]
  refine if_neg ?_
  rintro (h | ⟨h48, hlen⟩)
  · exact Decimal.ofNat_ne_nil n h
  · rcases Nat.eq_zero_or_pos n with rfl | hn
    · exact hlen (by decide)
    · exact Decimal.ofNat_head (by omega) h48

/-- A number with its sign is read back. -/
lemma parseInt_ofInt (z : ℤ) (hrest : NoDigit rest) :
    parseInt (Decimal.ofInt z ++ rest) = some (z, rest) := by
  unfold Decimal.ofInt
  split_ifs with hz
  · show (parseNat (Decimal.ofNat z.natAbs ++ rest)).map _ = _
    rw [parseNat_ofNat _ hrest]
    simp only [Option.map_some, Option.some.injEq, Prod.mk.injEq, and_true]
    omega
  · obtain ⟨c, cs, hc, hdigit⟩ := Decimal.ofNat_eq_cons z.natAbs
    have hparse := parseNat_ofNat z.natAbs hrest
    rw [hc, List.cons_append] at hparse ⊢
    unfold parseInt
    split
    case h_1 heq =>
      rw [(List.cons.inj heq).1] at hdigit
      exact absurd hdigit (by decide)
    case h_2 heq =>
      rw [hparse]
      simp only [Option.map_some, Option.some.injEq, Prod.mk.injEq, and_true]
      omega

end Parts

/-! ## Texts of the grammar -/

section Texts

variable {t t' w : List UInt8} {v : Value} {ms ms' : List Member}

/-- White space is no digit. -/
lemma isDigit_of_isWs {c : UInt8} (h : isWs c = true) : Decimal.isDigit c = false := by
  have hc : ((c = 32 ∨ c = 9) ∨ c = 10) ∨ c = 13 := by simpa [isWs] using h
  rcases hc with ((rfl | rfl) | rfl) | rfl <;> decide

/-- A text that begins with white space or another character. -/
lemma noDigit_append {c : UInt8} {rest : List UInt8} (hw : Ws w)
    (hc : Decimal.isDigit c = false) : NoDigit (w ++ c :: rest) := by
  cases w with
  | nil =>
    rintro _ ⟨⟩
    exact hc
  | cons d w =>
    rintro _ ⟨⟩
    exact isDigit_of_isWs (hw d List.mem_cons_self)

/-- White space before the members of an object. -/
lemma Derives.ws (h : Derives (.members ms) t) (hw : Ws w) : Derives (.members ms) (w ++ t) := by
  have happ : ∀ {w' : List UInt8}, Ws w' → Ws (w ++ w') := by
    intro w' hw' c hc
    rcases List.mem_append.mp hc with hc | hc
    · exact hw c hc
    · exact hw' c hc
  cases h with
  | single hk hv h₁ h₂ h₃ h₄ => simpa using Derives.single hk hv (happ h₁) h₂ h₃ h₄
  | cons hk hv h₁ h₂ h₃ h₄ hms => simpa using Derives.cons hk hv (happ h₁) h₂ h₃ h₄ hms

/-- **The members of two texts with a comma between them.** -/
theorem Derives.append (h : Derives (.members ms) t) (h' : Derives (.members ms') t') :
    Derives (.members (ms ++ ms')) (t ++ [44] ++ t') := by
  obtain ⟨p, hp⟩ : ∃ p, p = Phrase.members ms := ⟨_, rfl⟩
  rw [← hp] at h
  induction h generalizing ms with
  | str | num | empty | obj => cases hp
  | single hk hv h₁ h₂ h₃ h₄ =>
    cases hp
    exact Derives.cons hk hv h₁ h₂ h₃ h₄ h'
  | cons hk hv h₁ h₂ h₃ h₄ _ _ ih =>
    cases hp
    simpa using Derives.cons hk hv h₁ h₂ h₃ h₄ (ih rfl)

/-- The first byte of a value is no white space. -/
lemma Derives.head (h : Derives (.value v) t) : ∃ c cs, t = c :: cs ∧ isWs c = false := by
  cases h with
  | str => exact ⟨34, _, rfl, rfl⟩
  | empty => exact ⟨123, _, rfl, rfl⟩
  | obj => exact ⟨123, _, rfl, rfl⟩
  | num z =>
    obtain ⟨c, cs, hc, hdigit⟩ := Decimal.ofInt_eq_cons z
    refine ⟨c, cs, hc, ?_⟩
    by_contra hws
    have hws' : isWs c = true := by simpa using hws
    rcases hdigit with rfl | hdigit
    · exact absurd hws' (by decide)
    · rw [isDigit_of_isWs hws'] at hdigit
      exact Bool.false_ne_true hdigit

/-- What the decoder does with the text of a phrase. -/
def Parses : Phrase → List UInt8 → Prop
  | .value v, t => ∀ rest n, NoDigit rest → t.length ≤ n →
      parseValue (parseMembers n) (t ++ rest) = some (v, rest)
  | .members ms, t => ∀ rest n, t.length ≤ n →
      parseMembers n (t ++ 125 :: rest) = some (ms, rest)

/-- A value, with white space before it. -/
lemma parseValue_skipWs {rest : List UInt8} {n : ℕ} (hv : Derives (.value v) t)
    (hp : Parses (.value v) t) (hw : Ws w) (hrest : NoDigit rest) (hn : t.length ≤ n) :
    parseValue (parseMembers n) (skipWs (w ++ (t ++ rest))) = some (v, rest) := by
  obtain ⟨c, cs, rfl, hc⟩ := hv.head
  rw [List.cons_append, skipWs_append hw hc, ← List.cons_append]
  exact hp rest n hrest hn

/-- **One member**, and what the decoder does behind it. -/
lemma parseMembers_member {k w₁ w₂ w₃ rest : List UInt8} {n : ℕ} (hk : Plain k)
    (hv : Derives (.value v) t) (hp : Parses (.value v) t) (h₁ : Ws w₁) (h₂ : Ws w₂) (h₃ : Ws w₃)
    (hrest : NoDigit rest) (hn : t.length ≤ n) :
    parseMembers (n + 1) (w₁ ++ quoted k ++ w₂ ++ [58] ++ w₃ ++ t ++ rest) =
      match skipWs rest with
      | 44 :: t => (parseMembers n t).map fun r => ((k, v) :: r.1, r.2)
      | 125 :: t => some ([(k, v)], t)
      | _ => none := by
  have hshape : w₁ ++ quoted k ++ w₂ ++ [58] ++ w₃ ++ t ++ rest =
      w₁ ++ 34 :: (k ++ 34 :: (w₂ ++ 58 :: (w₃ ++ (t ++ rest)))) := by
    simp [quoted]
  rw [hshape, parseMembers, skipWs_append h₁ rfl]
  show (parseString (k ++ 34 :: _) >>= _) = _
  rw [parseString_quoted hk]
  show (match skipWs (w₂ ++ 58 :: (w₃ ++ (t ++ rest))) with
    | 58 :: t => _
    | _ => none) = _
  rw [skipWs_append h₂ rfl]
  show (parseValue (parseMembers n) (skipWs (w₃ ++ (t ++ rest))) >>= _) = _
  rw [parseValue_skipWs hv hp h₃ hrest hn]
  rfl

/-- The members of an object are not empty, and start with a quote behind white space. -/
lemma Derives.members_head (h : Derives (.members ms) t) (rest : List UInt8) :
    ∃ u, skipWs (t ++ rest) = 34 :: u := by
  cases h with
  | single hk hv h₁ h₂ h₃ h₄ =>
    simp only [quoted, List.append_assoc, List.singleton_append]
    exact ⟨_, skipWs_append h₁ rfl⟩
  | cons hk hv h₁ h₂ h₃ h₄ hms =>
    simp only [quoted, List.append_assoc, List.singleton_append]
    exact ⟨_, skipWs_append h₁ rfl⟩

/-- The rounds for a member, and those that are left for what follows it. -/
lemma member_fuel {k w₁ w₂ w₃ rest : List UInt8} {n : ℕ}
    (hn : (w₁ ++ quoted k ++ w₂ ++ [58] ++ w₃ ++ t ++ rest).length ≤ n) :
    ∃ m, n = m + 1 ∧ t.length ≤ m ∧ rest.length ≤ m := by
  simp only [quoted, List.length_append, List.length_singleton] at hn
  exact ⟨n - 1, by omega, by omega, by omega⟩

/-- A value that starts as an integer is one. -/
lemma parseValue_ofInt (z : ℤ) (rest : List UInt8) (n : ℕ) :
    parseValue (parseMembers n) (Decimal.ofInt z ++ rest) =
      (parseInt (Decimal.ofInt z ++ rest)).map fun r => (.num r.1, r.2) := by
  obtain ⟨c, cs, hc, hdigit⟩ := Decimal.ofInt_eq_cons z
  have hne : ∀ d : UInt8, d ≠ 45 → Decimal.isDigit d = false → c ≠ d := by
    rintro d hd hd' rfl
    rcases hdigit with h | h
    · exact hd h
    · rw [hd'] at h
      exact Bool.false_ne_true h
  rw [hc, List.cons_append]
  unfold parseValue
  split
  case h_1 heq => exact absurd (List.cons.inj heq).1 (hne 34 (by decide) (by decide))
  case h_2 heq => exact absurd (List.cons.inj heq).1 (hne 123 (by decide) (by decide))
  case h_3 => rfl

/-- **The decoder reads the phrases of the grammar.**

**Proof sketch.** Induction on the derivation.  Every object takes two bytes and every member at
least one besides its value, so the number of bytes suffices for the recursion of the decoder. -/
theorem parses_of_derives {p : Phrase} (h : Derives p t) : Parses p t := by
  induction h with
  | @str s hs =>
    intro rest n _ _
    have hshape : quoted s ++ rest = 34 :: (s ++ 34 :: rest) := by simp [quoted]
    rw [hshape]
    show (parseString (s ++ 34 :: rest)).map _ = _
    rw [parseString_quoted hs]
    rfl
  | num z =>
    intro rest n hrest _
    rw [parseValue_ofInt, parseInt_ofInt z hrest]
    rfl
  | @empty w hw =>
    intro rest n _ _
    have hshape : [123] ++ w ++ [125] ++ rest = 123 :: (w ++ 125 :: rest) := by simp
    rw [hshape, parseValue, skipWs_append hw rfl]
    rfl
  | @obj ms t h ih =>
    intro rest n _ hn
    obtain ⟨u, hu⟩ := h.members_head (125 :: rest)
    have hlen : t.length ≤ n := by
      simp only [List.length_append, List.length_singleton] at hn
      omega
    have hshape : [123] ++ t ++ [125] ++ rest = 123 :: (t ++ 125 :: rest) := by simp
    rw [hshape, parseValue, hu]
    show (parseMembers n (t ++ 125 :: rest)).map _ = _
    rw [ih rest n hlen]
    rfl
  | @single k t w₁ w₂ w₃ w₄ v hk hv h₁ h₂ h₃ h₄ ih =>
    intro rest n hn
    obtain ⟨m, rfl, hm⟩ := member_fuel hn
    have hrest : NoDigit (w₄ ++ 125 :: rest) := noDigit_append h₄ (by decide)
    rw [List.append_assoc, parseMembers_member hk hv ih h₁ h₂ h₃ hrest hm.1, skipWs_append h₄ rfl]
    rfl
  | @cons k t w₁ w₂ w₃ w₄ tail v ms hk hv h₁ h₂ h₃ h₄ hms ih ihms =>
    intro rest n hn
    have hshape : ∀ front : List UInt8, front ++ w₄ ++ [44] ++ tail ++ 125 :: rest =
        front ++ (w₄ ++ 44 :: (tail ++ 125 :: rest)) := fun front => by simp
    have hn' : (w₁ ++ quoted k ++ w₂ ++ [58] ++ w₃ ++ t ++ (w₄ ++ [44] ++ tail)).length ≤ n := by
      simpa [Nat.add_assoc] using hn
    obtain ⟨m, rfl, hm⟩ := member_fuel hn'
    have htail : tail.length ≤ m := by
      have hle := hm.2
      simp only [List.length_append, List.length_singleton] at hle
      omega
    have hrest : NoDigit (w₄ ++ 44 :: (tail ++ 125 :: rest)) := noDigit_append h₄ (by decide)
    rw [hshape, parseMembers_member hk hv ih h₁ h₂ h₃ hrest hm.1, skipWs_append h₄ rfl]
    show (parseMembers m (tail ++ 125 :: rest)).map _ = _
    rw [ihms rest m htail]
    rfl

/-- **The decoder finds the value of a text.** -/
theorem decode_of_derives (h : Derives (.value v) t) : decode t = some v := by
  obtain ⟨c, cs, rfl, hc⟩ := h.head
  have hparse := parses_of_derives h [] _ (fun _ hc => absurd hc (by simp)) le_rfl
  have hskip : skipWs (c :: cs) = c :: cs := skipWs_append (w := []) (by simp [Ws]) hc
  rw [List.append_nil] at hparse
  rw [decode, hskip, hparse]
  rfl

end Texts

end Json
