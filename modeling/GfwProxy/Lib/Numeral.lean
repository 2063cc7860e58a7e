import GfwProxy.Lib.Decimal

set_option autoImplicit false

/-!
# Numerals in a base

The digits of a number in a base of at most sixteen, as ASCII bytes, without leading zeros or with a
fixed width; the digits of a negative number in two's complement are the complements of those of its
predecessor's absolute value.

## Main definitions

* `Numeral.digit`, `Numeral.text` — a digit, and the digits of a number without leading zeros.
* `Numeral.padded` — the last digits of a number, with a fixed width.

## Main results

* `Numeral.padded_eq_append` — the digits behind a fill of zeros.
* `Numeral.padded_eq_text` — a number that needs the whole width.
* `Numeral.map_padded` — the complements of the digits are the digits of the complement.
* `Numeral.drop_padded` — the last digits are those of the remainder.
-/

namespace Numeral

variable {b k n d : ℕ}

/-- The digit `d`. -/
def digit (d : ℕ) : UInt8 := UInt8.ofNat d.digitChar.toNat

/-- The digits of a number in base `b`, without leading zeros. -/
def text (b n : ℕ) : List UInt8 := (Nat.toDigits b n).map fun c => UInt8.ofNat c.toNat

/-- The last `k` digits of a number in base `b`. -/
def padded (b : ℕ) : ℕ → ℕ → List UInt8
  | 0, _ => []
  | k + 1, n => padded b k (n / b) ++ [digit (n % b)]

/-- The numerals of base ten are the decimal ones. -/
lemma text_ten (n : ℕ) : text 10 n = Decimal.ofNat n := rfl

/-- A number below the base is one digit. -/
lemma text_of_lt (h : n < b) : text b n = [digit n] := by
  rw [text, Nat.toDigits_of_lt_base h]
  rfl

/-- Another number is the number without its last digit, and this digit. -/
lemma text_of_le (hb : 1 < b) (h : b ≤ n) : text b n = text b (n / b) ++ [digit (n % b)] := by
  rw [text, Nat.toDigits_of_base_le hb h, List.map_append]
  rfl

/-- A numeral has a digit. -/
@[simp] lemma text_ne_nil (b n : ℕ) : text b n ≠ [] := by
  simp [text]

/-- A padded numeral has the length that was asked for. -/
@[simp] lemma length_padded (b k n : ℕ) : (padded b k n).length = k := by
  induction k generalizing n with
  | zero => rfl
  | succ k ih => simp [padded, ih]

/-- The numbers that `k` digits suffice for. -/
lemma length_text_le_iff (hb : 1 < b) (hk : 0 < k) : (text b n).length ≤ k ↔ n < b ^ k := by
  rw [text, List.length_map]
  exact Nat.length_toDigits_le_iff hb hk

/-- A digit is no null byte. -/
lemma digit_ne_zero : ∀ d < 16, digit d ≠ 0 := by
  decide

/-- A numeral is made of digits. -/
lemma exists_digit_of_mem_text (hb : 1 < b) {c : UInt8} (h : c ∈ text b n) :
    ∃ d < b, c = digit d := by
  induction n using Nat.strong_induction_on with
  | _ n ih =>
    rcases Nat.lt_or_ge n b with hn | hn
    · rw [text_of_lt hn, List.mem_singleton] at h
      exact ⟨n, hn, h⟩
    · rw [text_of_le hb hn, List.mem_append, List.mem_singleton] at h
      rcases h with h | rfl
      · exact ih (n / b) (Nat.div_lt_self (by omega) hb) h
      · exact ⟨n % b, Nat.mod_lt n (by omega), rfl⟩

/-- There is no null byte in a numeral. -/
lemma zero_notMem_text (hb : 1 < b) (hb' : b ≤ 16) : (0 : UInt8) ∉ text b n := by
  intro h
  obtain ⟨d, hd, h0⟩ := exists_digit_of_mem_text hb h
  exact digit_ne_zero d (by omega) h0.symm

/-- The digits of zero. -/
lemma padded_zero (b k : ℕ) : padded b k 0 = List.replicate k (digit 0) := by
  induction k with
  | zero => rfl
  | succ k ih => rw [padded, Nat.zero_div, ih, Nat.zero_mod, List.replicate_succ']

/-- **The digits behind a fill of zeros.** -/
theorem padded_eq_append (hb : 1 < b) (hk : 0 < k) (h : n < b ^ k) :
    padded b k n = List.replicate (k - (text b n).length) (digit 0) ++ text b n := by
  induction k generalizing n with
  | zero => omega
  | succ k ih =>
    rw [padded]
    rcases Nat.lt_or_ge n b with hn | hn
    · rw [text_of_lt hn, Nat.div_eq_of_lt hn, padded_zero, Nat.mod_eq_of_lt hn]
      simp
    · have hdiv : n / b < b ^ k := by
        rw [Nat.div_lt_iff_lt_mul (by omega)]
        rwa [pow_succ] at h
      have hkpos : 0 < k := by
        rcases Nat.eq_zero_or_pos k with rfl | hkpos
        · rw [zero_add, pow_one] at h
          omega
        · exact hkpos
      rw [ih hkpos hdiv, text_of_le hb hn, List.append_assoc, List.length_append,
        List.length_singleton, Nat.add_sub_add_right]

/-- **A number that needs the whole width.** -/
theorem padded_eq_text (hb : 1 < b) (hlo : b ^ k ≤ n) (hhi : n < b ^ (k + 1)) :
    padded b (k + 1) n = text b n := by
  have hlen : k + 1 ≤ (text b n).length := by
    rcases Nat.eq_zero_or_pos k with rfl | hk
    · exact List.length_pos_iff.mpr (text_ne_nil b n)
    · by_contra hlt
      have := (length_text_le_iff hb hk).mp (show (text b n).length ≤ k by omega)
      omega
  rw [padded_eq_append hb (by omega) hhi, Nat.sub_eq_zero_of_le hlen]
  rfl

/-- The last digit of the complement. -/
lemma complement_div_mod (hb : 1 < b) (h : n < b ^ (k + 1)) :
    (b ^ (k + 1) - 1 - n) / b = b ^ k - 1 - n / b ∧ (b ^ (k + 1) - 1 - n) % b = b - 1 - n % b := by
  have hmod := Nat.mod_lt n (show 0 < b by omega)
  have hn := Nat.div_add_mod n b
  have hdiv : n / b < b ^ k := by
    rw [Nat.div_lt_iff_lt_mul (by omega)]
    rwa [pow_succ] at h
  obtain ⟨q, hq⟩ : ∃ q, b ^ k = n / b + 1 + q := ⟨b ^ k - (n / b + 1), by omega⟩
  have hsplit : b ^ (k + 1) - 1 - n = b * q + (b - 1 - n % b) := by
    have hpow : b ^ (k + 1) = b * (n / b) + b + b * q := by
      rw [pow_succ, hq]
      ring
    omega
  have hq' : b ^ k - 1 - n / b = q := by omega
  rw [hsplit, hq']
  constructor
  · rw [Nat.mul_add_div (by omega), Nat.div_eq_of_lt (by omega), Nat.add_zero]
  · rw [Nat.mul_add_mod, Nat.mod_eq_of_lt (by omega)]

/-- **The complements of the digits are the digits of the complement.** -/
theorem map_padded {f : UInt8 → UInt8} (hb : 1 < b) (hf : ∀ d < b, f (digit d) = digit (b - 1 - d))
    (h : n < b ^ k) : (padded b k n).map f = padded b k (b ^ k - 1 - n) := by
  induction k generalizing n with
  | zero => rfl
  | succ k ih =>
    obtain ⟨hdiv, hmod⟩ := complement_div_mod hb h
    have hlt : n / b < b ^ k := by
      rw [Nat.div_lt_iff_lt_mul (by omega)]
      rwa [pow_succ] at h
    rw [padded, padded, List.map_append, ih hlt, hdiv, hmod, List.map_singleton,
      hf _ (Nat.mod_lt n (by omega))]

/-- **The last digits are those of the remainder.** -/
theorem drop_padded (b j k n : ℕ) : (padded b (j + k) n).drop j = padded b k (n % b ^ k) := by
  induction k generalizing n with
  | zero => simp [padded]
  | succ k ih =>
    rw [← Nat.add_assoc, padded, padded, List.drop_append_of_le_length (by simp), ih, pow_succ,
      Nat.mod_mul_left_div_self, Nat.mod_mul_left_mod]

end Numeral
