import Mathlib.Data.List.TakeDrop
import Mathlib.Data.Nat.Basic

set_option autoImplicit false

/-!
# Reading a stream block by block

A function that reads a stream by blocks of `k` elements: what it makes of the complete blocks, and
what is left behind them.

## Main definitions

* `Blocks.run` — the function over the first blocks of a list.
* `Blocks.absorb`, `Blocks.rest` — over all complete blocks, and the elements behind them.

## Main results

* `Blocks.absorb_append`, `Blocks.rest_append` — a stream may be cut anywhere, if what is left of
  the first part is put in front of the second one.
-/

namespace Blocks

variable {S α : Type} (f : S → List α → S) (k : ℕ)

/-- The first `n` blocks. -/
def run : ℕ → S → List α → S
  | 0, s, _ => s
  | n + 1, s, xs => run n (f s (xs.take k)) (xs.drop k)

/-- All complete blocks. -/
def absorb (s : S) (xs : List α) : S := run f k (xs.length / k) s xs

/-- The elements behind the complete blocks. -/
def rest (xs : List α) : List α := xs.drop (k * (xs.length / k))

variable {f k} {s : S} {xs ys : List α}

/-- Some blocks, and then some more. -/
lemma run_add (m n : ℕ) (s : S) (xs : List α) :
    run f k (m + n) s xs = run f k n (run f k m s xs) (xs.drop (k * m)) := by
  induction m generalizing s xs with
  | zero => simp [run]
  | succ m ih =>
    rw [Nat.add_right_comm, run, ih, run, List.drop_drop]
    rw [show k + k * m = k * (m + 1) by rw [Nat.mul_succ]; omega]

/-- Elements behind the blocks do not matter. -/
lemma run_append {n : ℕ} (ys : List α) (h : k * n ≤ xs.length) :
    run f k n s (xs ++ ys) = run f k n s xs := by
  induction n generalizing s xs with
  | zero => rfl
  | succ n ih =>
    have hk : k ≤ xs.length := le_trans (Nat.le_mul_of_pos_right k (Nat.succ_pos n)) h
    have hrest : k * n ≤ (xs.drop k).length := by
      rw [List.length_drop]
      rw [Nat.mul_succ] at h
      omega
    rw [run, run, List.take_append_of_le_length hk, List.drop_append_of_le_length hk, ih hrest]

/-- What is left over is shorter than a block. -/
lemma length_rest (xs : List α) : (rest k xs).length = xs.length % k := by
  rw [rest, List.length_drop]
  have := Nat.div_add_mod xs.length k
  omega

/-- Less than a block is left over as a whole. -/
lemma rest_of_lt (h : xs.length < k) : rest k xs = xs := by
  rw [rest, Nat.div_eq_of_lt h, Nat.mul_zero, List.drop_zero]

/-- Less than a block is not absorbed. -/
lemma absorb_of_lt (h : xs.length < k) : absorb f k s xs = s := by
  rw [absorb, Nat.div_eq_of_lt h, run]

/-- The complete blocks of two parts: those of the first part, and those of the second one behind
what is left of the first. -/
lemma blocks_append (hk : 0 < k) (xs ys : List α) :
    (xs ++ ys).length / k = xs.length / k + (rest k xs ++ ys).length / k := by
  have hdm := Nat.div_add_mod xs.length k
  rw [List.length_append, List.length_append, length_rest]
  conv_lhs => rw [← hdm, Nat.add_assoc, Nat.add_comm, Nat.add_mul_div_left _ _ hk, Nat.add_comm]

variable (hk : 0 < k)

include hk

/-- **Cutting a stream.** -/
theorem absorb_append (s : S) (xs ys : List α) :
    absorb f k s (xs ++ ys) = absorb f k (absorb f k s xs) (rest k xs ++ ys) := by
  have hle : k * (xs.length / k) ≤ xs.length := Nat.mul_div_le xs.length k
  rw [absorb, blocks_append hk, run_add, run_append ys hle, List.drop_append_of_le_length hle,
    absorb, absorb, rest]

/-- What is left of a stream is left of its last part, with what was left before it. -/
theorem rest_append (xs ys : List α) : rest k (xs ++ ys) = rest k (rest k xs ++ ys) := by
  have hle : k * (xs.length / k) ≤ xs.length := Nat.mul_div_le xs.length k
  rw [rest, blocks_append hk, Nat.mul_add, ← List.drop_drop, List.drop_append_of_le_length hle]
  rfl

/-- One block leaves nothing. -/
lemma rest_block (h : xs.length = k) : rest k xs = [] := by
  rw [rest, h, Nat.div_self hk, Nat.mul_one, ← h, List.drop_length]

end Blocks
