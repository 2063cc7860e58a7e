import Mathlib.Data.Nat.Digits.Defs
import Mathlib.Data.Int.Notation

set_option autoImplicit false

/-!
# Decimal numbers as bytes

What `%d` prints, as a list of ASCII bytes.

## Main definitions

* `Decimal.ofNat`, `Decimal.ofInt` — the digits of a number.
* `Decimal.value` — the number that a list of digits stands for.

## Main results

* `Decimal.value_ofNat` — the digits of a number stand for it.
* `Decimal.length_ofNat_le_iff`, `Decimal.length_ofInt_le` — how many there are.
* `Decimal.ofNat_head` — there are no leading zeros.
-/

namespace Decimal

/-- The digit `d`. -/
def digit (d : ℕ) : UInt8 := UInt8.ofNat (48 + d)

/-- Is a byte a digit? -/
def isDigit (c : UInt8) : Bool := 48 ≤ c.toNat && c.toNat ≤ 57

/-- The digits of a number, without leading zeros. -/
def ofNat (n : ℕ) : List UInt8 := (Nat.toDigits 10 n).map fun c => UInt8.ofNat c.toNat

/-- The digits of an integer, behind a minus sign if it is negative. -/
def ofInt (z : ℤ) : List UInt8 := if z < 0 then 45 :: ofNat z.natAbs else ofNat z.natAbs

/-- One more digit of a number. -/
def push (v : ℕ) (c : UInt8) : ℕ := v * 10 + (c.toNat - 48)

/-- The number that a list of digits stands for. -/
def value (cs : List UInt8) : ℕ := cs.foldl push 0

/-- The code of a digit. -/
lemma toNat_digit {d : ℕ} (h : d < 10) : (digit d).toNat = 48 + d := by
  rw [digit, UInt8.toNat_ofNat']
  exact Nat.mod_eq_of_lt (by omega)

/-- A digit is one. -/
lemma isDigit_digit {d : ℕ} (h : d < 10) : isDigit (digit d) = true := by
  rw [isDigit, toNat_digit h, Bool.and_eq_true, decide_eq_true_eq, decide_eq_true_eq]
  omega

/-- A digit is appended to a number. -/
lemma push_digit {v d : ℕ} (h : d < 10) : push v (digit d) = v * 10 + d := by
  rw [push, toNat_digit h, Nat.add_sub_cancel_left]

/-- The characters of the digits. -/
lemma ofNat_digitChar : ∀ d < 10, UInt8.ofNat d.digitChar.toNat = digit d := by
  decide

/-- A number below ten is one digit. -/
lemma ofNat_of_lt {n : ℕ} (h : n < 10) : ofNat n = [digit n] := by
  rw [ofNat, Nat.toDigits_of_lt_base h, List.map_singleton, ofNat_digitChar n h]

/-- Another number is the number without its last digit, and this digit. -/
lemma ofNat_of_le {n : ℕ} (h : 10 ≤ n) : ofNat n = ofNat (n / 10) ++ [digit (n % 10)] := by
  have hd : n % 10 < 10 := Nat.mod_lt n (by omega)
  rw [ofNat, Nat.toDigits_of_base_le (by omega) h, List.map_append, List.map_singleton,
    ofNat_digitChar _ hd, ofNat]

/-- A number is written with digits. -/
lemma isDigit_of_mem_ofNat {n : ℕ} {c : UInt8} (h : c ∈ ofNat n) : isDigit c = true := by
  induction n using Nat.strong_induction_on with
  | _ n ih =>
    rcases Nat.lt_or_ge n 10 with hn | hn
    · rw [ofNat_of_lt hn, List.mem_singleton] at h
      rw [h]
      exact isDigit_digit hn
    · rw [ofNat_of_le hn, List.mem_append, List.mem_singleton] at h
      rcases h with h | rfl
      · exact ih (n / 10) (by omega) h
      · exact isDigit_digit (Nat.mod_lt n (by omega))

/-- A number has a digit. -/
@[simp] lemma ofNat_ne_nil (n : ℕ) : ofNat n ≠ [] := by
  simp [ofNat]

/-- **The digits of a number stand for it.** -/
theorem value_ofNat (n : ℕ) : value (ofNat n) = n := by
  induction n using Nat.strong_induction_on with
  | _ n ih =>
    rcases Nat.lt_or_ge n 10 with hn | hn
    · rw [ofNat_of_lt hn, value, List.foldl_cons, List.foldl_nil, push_digit hn, Nat.zero_mul,
        Nat.zero_add]
    · have hd : n % 10 < 10 := Nat.mod_lt n (by omega)
      rw [ofNat_of_le hn, value, List.foldl_append, ← value, ih (n / 10) (by omega),
        List.foldl_cons, List.foldl_nil, push_digit hd]
      omega

/-- **The number of digits.** -/
theorem length_ofNat_le_iff {n k : ℕ} (h : 0 < k) : (ofNat n).length ≤ k ↔ n < 10 ^ k := by
  rw [ofNat, List.length_map]
  exact Nat.length_toDigits_le_iff (by omega) h

/-- A 64-bit integer has at most 20 characters. -/
theorem length_ofInt_le {z : ℤ} (hlo : -2 ^ 63 ≤ z) (hhi : z < 2 ^ 63) : (ofInt z).length ≤ 20 := by
  have hlen : (ofNat z.natAbs).length ≤ 19 :=
    (length_ofNat_le_iff (by omega)).mpr (by omega)
  unfold ofInt
  split_ifs
  · rw [List.length_cons]
    omega
  · omega

/-- A number starts with a digit. -/
lemma ofNat_eq_cons (n : ℕ) : ∃ c cs, ofNat n = c :: cs ∧ isDigit c = true := by
  obtain ⟨c, cs, hc⟩ := List.exists_cons_of_ne_nil (ofNat_ne_nil n)
  exact ⟨c, cs, hc, isDigit_of_mem_ofNat (n := n) (hc ▸ List.mem_cons_self)⟩

/-- An integer starts with a minus sign or a digit. -/
lemma ofInt_eq_cons (z : ℤ) : ∃ c cs, ofInt z = c :: cs ∧ (c = 45 ∨ isDigit c = true) := by
  unfold ofInt
  split_ifs
  · exact ⟨45, _, rfl, Or.inl rfl⟩
  · obtain ⟨c, cs, hc, hdigit⟩ := ofNat_eq_cons z.natAbs
    exact ⟨c, cs, hc, Or.inr hdigit⟩

/-- **There are no leading zeros.** -/
theorem ofNat_head {n : ℕ} (h : n ≠ 0) : (ofNat n).head? ≠ some 48 := by
  induction n using Nat.strong_induction_on with
  | _ n ih =>
    rcases Nat.lt_or_ge n 10 with hn | hn
    · rw [ofNat_of_lt hn, List.head?_cons, Ne, Option.some.injEq, ← UInt8.toNat_inj, toNat_digit hn]
      have h48 : (48 : UInt8).toNat = 48 := rfl
      omega
    · have hrest := ih (n / 10) (by omega) (by omega)
      obtain ⟨c, cs, hc⟩ := List.exists_cons_of_ne_nil (ofNat_ne_nil (n / 10))
      rw [hc] at hrest
      rw [ofNat_of_le hn, hc]
      exact hrest

end Decimal
