import Mathlib.Data.BitVec
import Mathlib.Data.Nat.ModEq
import Mathlib.Data.Nat.Prime.Basic
import Mathlib.Algebra.Order.Ring.Nat

set_option autoImplicit false

/-!
# Mixing steps

Steps that can be undone: a run of them forgets nothing, so inputs that differ in one place end in
different states.

## Main definitions

* `Mixing.Reversible` — a step that is injective in the state and in the letter.

## Main results

* `Mixing.Reversible.foldl_ne` — inputs that differ in one letter end in different states.
* `Mixing.mul_injective`, `Mixing.xorShift_injective`, `Mixing.addShift_injective` — the operations
  that such steps are made of.
-/

namespace Mixing

/-! ## Runs -/

section Runs

variable {σ α : Type*} {step : σ → α → σ}

/-- The state can be found again from what it becomes and the letter, and so can the letter from the
two states. -/
structure Reversible (step : σ → α → σ) : Prop where
  state : ∀ a, Function.Injective fun s => step s a
  letter : ∀ s, Function.Injective (step s)

/-- A run keeps different states apart. -/
lemma Reversible.foldl_injective (h : Reversible step) (as : List α) :
    Function.Injective fun s => as.foldl step s := by
  induction as with
  | nil => exact Function.injective_id
  | cons a as ih => exact ih.comp (h.state a)

/-- **One letter makes a difference.** -/
theorem Reversible.foldl_ne (h : Reversible step) (s : σ) (before after : List α) {a b : α}
    (hab : a ≠ b) : (before ++ a :: after).foldl step s ≠ (before ++ b :: after).foldl step s := by
  rw [List.foldl_append, List.foldl_append, List.foldl_cons, List.foldl_cons]
  intro he
  exact hab (h.letter _ (h.foldl_injective after he))

end Runs

/-! ## Operations -/

section Operations

variable {w : ℕ}

/-- Multiplication by an odd number. -/
theorem mul_injective {m : BitVec w} (hm : m.toNat % 2 = 1) :
    Function.Injective fun x : BitVec w => x * m := by
  intro x y hxy
  have hmod : x.toNat * m.toNat ≡ y.toNat * m.toNat [MOD 2 ^ w] := by
    have h := congrArg BitVec.toNat hxy
    rwa [BitVec.toNat_mul, BitVec.toNat_mul] at h
  have hcop : Nat.Coprime (2 ^ w) m.toNat :=
    Nat.Coprime.pow_left w (Nat.coprime_two_left.mpr (Nat.odd_iff.mpr hm))
  have hcancel := Nat.ModEq.cancel_right_of_coprime hcop hmod
  refine BitVec.eq_of_toNat_eq ?_
  exact hcancel.eq_of_lt_of_lt x.isLt y.isLt

/-- A number is added to itself, shifted. -/
theorem addShift_injective {k : ℕ} (hk : 0 < k) :
    Function.Injective fun x : BitVec w => x + x <<< k := by
  rcases Nat.eq_zero_or_pos w with rfl | hw
  · exact fun x y _ => Subsingleton.elim x y
  obtain ⟨k, rfl⟩ : ∃ j, k = j + 1 := ⟨k - 1, by omega⟩
  obtain ⟨v, rfl⟩ : ∃ j, w = j + 1 := ⟨w - 1, by omega⟩
  have hmul : ∀ x : BitVec (v + 1), x + x <<< (k + 1) =
      x * (1 + BitVec.twoPow (v + 1) (k + 1)) := by
    intro x
    rw [BitVec.mul_add, BitVec.shiftLeft_eq_mul_twoPow]
    exact congrArg (· + _) (mul_one x).symm
  have hodd : (1 + BitVec.twoPow (v + 1) (k + 1)).toNat % 2 = 1 := by
    have htwo : (BitVec.twoPow (v + 1) (k + 1)).toNat % 2 = 0 := by
      rw [BitVec.toNat_twoPow, pow_succ 2 v, Nat.mod_mul_left_mod, pow_succ, Nat.mul_mod_left]
    rw [BitVec.toNat_add, pow_succ 2 v, Nat.mod_mul_left_mod, Nat.add_mod, htwo]
    cases v with
    | zero => rfl
    | succ v => simp
  intro x y hxy
  simp only [hmul] at hxy
  exact mul_injective hodd hxy

/-- The upper bits are added to the lower ones. -/
theorem xorShift_injective {k : ℕ} (hk : 0 < k) :
    Function.Injective fun x : BitVec w => x ^^^ x >>> k := by
  intro x y hxy
  -- from the most significant bit on
  have hbit : ∀ n i, w ≤ i + n → x.getLsbD i = y.getLsbD i := by
    intro n
    induction n with
    | zero =>
      intro i hi
      rw [BitVec.getLsbD_of_ge x i hi, BitVec.getLsbD_of_ge y i hi]
    | succ n ih =>
      intro i hi
      have h := congrArg (fun v => BitVec.getLsbD v i) hxy
      simp only [BitVec.getLsbD_xor, BitVec.getLsbD_ushiftRight, ih (k + i) (by omega)] at h
      exact Bool.xor_left_inj.mp h
  exact BitVec.eq_of_getLsbD_eq fun i _ => hbit w i (by omega)

end Operations

end Mixing
