import Mathlib.Data.List.Nodup
import Mathlib.Data.Int.Notation

set_option autoImplicit false

/-!
# Comparison functions, and duplicates in a sorted list

A comparison function in the style of C returns a negative number, zero or a positive number.  If it
is consistent, a list that is sorted by it has its equal elements next to each other.

## Main definitions

* `Comparator.Consistent` — a comparison function orders the elements.
* `Comparator.adjacentEqual` — are two neighbours in a list equal?

## Main results

* `Comparator.adjacentEqual_eq_false_iff` — in a sorted list no two neighbours are equal exactly if
  no two elements have the same key.
-/

namespace Comparator

variable {α κ : Type*} {cmp : α → α → ℤ}

/-- A comparison function orders the elements; what is neither before nor behind is equal. -/
structure Consistent (cmp : α → α → ℤ) : Prop where
  total : ∀ a b, cmp a b ≤ 0 ∨ cmp b a ≤ 0
  trans : ∀ a b c, cmp a b ≤ 0 → cmp b c ≤ 0 → cmp a c ≤ 0
  zero : ∀ a b, cmp a b ≤ 0 → cmp b a ≤ 0 → cmp a b = 0

/-- A list is sorted by a comparison function. -/
def Sorted (cmp : α → α → ℤ) (xs : List α) : Prop := xs.Pairwise fun a b => cmp a b ≤ 0

/-- Are two neighbours in a list equal? -/
def adjacentEqual (cmp : α → α → ℤ) : List α → Bool
  | a :: b :: xs => cmp a b = 0 || adjacentEqual cmp (b :: xs)
  | _ => false

/-- What is compared may be a part of the elements. -/
lemma Consistent.comap {β : Type*} (h : Consistent cmp) (f : β → α) :
    Consistent fun a b => cmp (f a) (f b) where
  total a b := h.total (f a) (f b)
  trans a b c := h.trans (f a) (f b) (f c)
  zero a b := h.zero (f a) (f b)

/-- In a sorted list, what equals the head equals everything before it. -/
lemma Consistent.eq_zero_of_between (h : Consistent cmp) {a b c : α} (hab : cmp a b ≤ 0)
    (hbc : cmp b c ≤ 0) (hca : cmp c a = 0) : cmp a b = 0 :=
  h.zero a b hab (h.trans b c a hbc (Int.le_of_eq hca))

/-- **A sorted list has equal neighbours exactly if it has a duplicate.**

**Proof sketch.** Induction on the list.  If the head equals a later element, it equals the second
element, which is between the two. -/
theorem adjacentEqual_eq_false_iff (h : Consistent cmp) (key : α → κ) {xs : List α}
    (hs : Sorted cmp xs) (hkey : ∀ a ∈ xs, ∀ b ∈ xs, cmp a b = 0 ↔ key a = key b) :
    adjacentEqual cmp xs = false ↔ (xs.map key).Nodup := by
  induction xs with
  | nil => simp [adjacentEqual]
  | cons a xs ih =>
    obtain ⟨ha, hxs⟩ := List.pairwise_cons.mp hs
    have hrest := ih hxs fun b hb c hc => hkey b (by simp [hb]) c (by simp [hc])
    rw [List.map_cons, List.nodup_cons, ← hrest]
    cases xs with
    | nil => simp [adjacentEqual]
    | cons b xs =>
      have hnext : (∃ c ∈ b :: xs, key c = key a) ↔ cmp a b = 0 := by
        constructor
        · rintro ⟨c, hc, he⟩
          rcases List.mem_cons.mp hc with rfl | hcxs
          · exact (hkey a (by simp) c (by simp)).mpr he.symm
          · have hbc : cmp b c ≤ 0 := (List.pairwise_cons.mp hxs).1 c hcxs
            have hca : cmp c a = 0 := (hkey c (by simp [hcxs]) a (by simp)).mpr he
            exact h.eq_zero_of_between (ha b (by simp)) hbc hca
        · intro hab
          exact ⟨b, by simp, ((hkey a (by simp) b (by simp)).mp hab).symm⟩
      rw [List.mem_map, hnext, adjacentEqual, Bool.or_eq_false_iff, decide_eq_false_iff_not]

end Comparator
