import Mathlib.Data.List.Sort
import Mathlib.Order.Basic

set_option autoImplicit false

/-!
# Successors on a ring

Points with keys on a ring: the successor of a key is the first point whose key is not smaller, or
the first point of all when there is none.

## Main definitions

* `Ring.succ key h l` — the successor of `h` in the list `l` of points, in the order of their keys.

## Main results

* `Ring.succ_filter` — leaving out points does not change the successor, unless it is left out.
* `Ring.eq_filter` — the points that are kept stay in the same order, if their keys are distinct.
* `Ring.succ_eq_getElem` — the successor by its index: the first one whose key is not smaller.
-/

namespace Ring

variable {α κ : Type} [LinearOrder κ] (key : α → κ) {h : κ} {l l' : List α}

/-- The successor of `h` on the ring of the points of `l`, which are in the order of their keys. -/
def succ (h : κ) (l : List α) : Option α := (l.find? fun a => h ≤ key a).or l.head?

variable {key}

/-- Leaving out points does not change the successor, unless it is left out. -/
theorem succ_filter {p : α → Bool} {a : α} (hs : succ key h l = some a) (ha : p a = true) :
    succ key h (l.filter p) = some a := by
  unfold succ at *
  rw [List.find?_filter]
  rcases hf : l.find? (fun a => decide (h ≤ key a)) with _ | b
  · -- no point is behind `h`, with or without those left out
    rw [hf, Option.none_or] at hs
    have hnone : l.find? (fun a => p a ∧ decide (h ≤ key a)) = none := by
      rw [List.find?_eq_none] at hf ⊢
      intro x hx
      simp only [decide_eq_true_eq, not_and] at hf ⊢
      exact fun _ => hf x hx
    rw [hnone, Option.none_or]
    cases l with
    | nil => cases hs
    | cons x l =>
      obtain rfl : x = a := by simpa using hs
      simp [ha]
  · rw [hf, Option.some_or] at hs
    obtain rfl := Option.some.inj hs
    obtain ⟨hb, as, bs, rfl, has⟩ := List.find?_eq_some_iff_append.mp hf
    have hfind : (as ++ b :: bs).find? (fun a => p a ∧ decide (h ≤ key a)) = some b := by
      refine List.find?_eq_some_iff_append.mpr ⟨by simpa [ha] using hb, as, bs, rfl, ?_⟩
      intro x hx
      have := has x hx
      simp_all
    rw [hfind, Option.some_or]

/-- Points in the order of their keys, which are distinct. -/
lemma pairwise_lt (hl : l.Pairwise fun a b => key a ≤ key b) (hd : (l.map key).Nodup) :
    l.Pairwise fun a b => key a < key b := by
  rw [List.Nodup, List.pairwise_map] at hd
  exact (hl.and hd).imp fun h => lt_of_le_of_ne h.1 h.2

/-- The points that are kept stay in the same order, if their keys are distinct. -/
theorem eq_filter {p : α → Bool} (hl : l.Pairwise fun a b => key a ≤ key b)
    (hl' : l'.Pairwise fun a b => key a ≤ key b) (hd : (l.map key).Nodup)
    (hp : l'.Perm (l.filter p)) : l' = l.filter p := by
  have hsub : (l.filter p).Sublist l := List.filter_sublist
  have hd' : (l'.map key).Nodup := (hp.map key).nodup_iff.mpr (hd.sublist (hsub.map key))
  refine hp.eq_of_pairwise ?_ (pairwise_lt hl' hd') ((pairwise_lt hl hd).sublist hsub)
  intro a b _ _ hab hba
  exact absurd hab (not_lt.mpr hba.le)

/-- The successor by its index: the first one whose key is not smaller, or the first one. -/
theorem succ_eq_getElem {r : ℕ} (hr : r ≤ l.length) (hne : l ≠ [])
    (hlt : ∀ i (hi : i < l.length), i < r → key l[i] < h)
    (hle : ∀ hi : r < l.length, h ≤ key l[r]) :
    succ key h l = l[if r = l.length then 0 else r]? := by
  unfold succ
  have hpos := List.length_pos_iff.mpr hne
  by_cases he : r = l.length
  · have hnone : l.find? (fun a => decide (h ≤ key a)) = none := by
      rw [List.find?_eq_none]
      intro x hx
      obtain ⟨i, hi, rfl⟩ := List.mem_iff_getElem.mp hx
      simpa using hlt i hi (by omega)
    rw [hnone, Option.none_or, if_pos he, List.head?_eq_getElem?]
  · have hrlt : r < l.length := by omega
    have hsome : l.find? (fun a => decide (h ≤ key a)) = some l[r] := by
      rw [List.find?_eq_some_iff_getElem]
      refine ⟨by simpa using hle hrlt, r, hrlt, rfl, fun j hj => ?_⟩
      simpa using hlt j (by omega) hj
    rw [hsome, Option.some_or, if_neg he, List.getElem?_eq_getElem hrlt]

end Ring
