import Mathlib.Data.Finset.Basic
import Mathlib.Data.List.Nodup

set_option autoImplicit false

/-!
# Free lists

Objects that are recycled through a free list: an object is taken from the list if there is one,
and from the allocator otherwise; a released object goes back to the list.

## Main definitions

* `Recycler` — the free list, its counter, the objects in use, and those whose memory is allocated.
* `Recycler.Intact` — the list and its counter agree with what is in use and allocated.

## Main results

* `Recycler.Ok.get`, `Recycler.Ok.put`, `Recycler.Ok.discard`, `Recycler.Ok.drain` — the operations
  keep the invariant.
* `Recycler.sweep_intact_iff` — freeing the objects of the list without taking them off it does not,
  unless the list is empty.

## Design

The counter is a number without bound.  As long as it is the length of the list, a counter of `w`
bits counts the same if fewer than `2 ^ w` objects are allocated.
-/

universe u

/-- Objects that are recycled through a free list, head first, and its counter.  Ghosts: the objects
in use, and those whose memory is allocated. -/
structure Recycler (α : Type u) where
  free : List α := []
  nfree : ℕ := 0
  used : Finset α := ∅
  live : Finset α := ∅

namespace Recycler

variable {α : Type u} {r : Recycler α} {a : α}

/-- The counter is the length of the list, no object on the list is in use, and the memory of each
is allocated. -/
structure Intact (r : Recycler α) : Prop where
  nfree : r.nfree = r.free.length
  unused : ∀ a ∈ r.free, a ∉ r.used
  live : ∀ a ∈ r.free, a ∈ r.live

/-- What the operations rely on. -/
structure Ok (r : Recycler α) : Prop extends r.Intact where
  nodup : r.free.Nodup
  used : r.used ⊆ r.live

/-- Nothing was allocated yet. -/
lemma ok_empty : Ok ({} : Recycler α) :=
  { nfree := rfl, unused := by simp, live := by simp, nodup := List.nodup_nil, used := by simp }

variable [DecidableEq α]

/-- Take an object; `fresh` is what the allocator returns if it is asked. -/
def get (fresh : Option α) (r : Recycler α) : Option α × Recycler α :=
  match r.free with
  | a :: rest => (some a, { r with free := rest, nfree := r.nfree - 1, used := insert a r.used })
  | [] =>
    match fresh with
    | none => (none, r)
    | some a => (some a, { r with used := insert a r.used, live := insert a r.live })

/-- Release an object. -/
def put (a : α) (r : Recycler α) : Recycler α :=
  { r with free := a :: r.free, nfree := r.nfree + 1, used := r.used.erase a }

/-- Give an object in use back to the allocator. -/
def discard (a : α) (r : Recycler α) : Recycler α :=
  { r with used := r.used.erase a, live := r.live.erase a }

/-- Take the first object off the list and free it, until the list is empty. -/
def drainList : List α → Recycler α → Recycler α
  | [], r => r
  | a :: rest, r =>
    drainList rest { r with free := rest, nfree := r.nfree - 1, live := r.live.erase a }

/-- Take all objects off the list and free them. -/
def drain (r : Recycler α) : Recycler α := drainList r.free r

/-- Free the objects of a list, and count down for each of them. -/
def sweepList : List α → Recycler α → Recycler α
  | [], r => r
  | a :: rest, r => sweepList rest { r with nfree := r.nfree - 1, live := r.live.erase a }

/-- Free all objects of the list, which stay on it. -/
def sweep (r : Recycler α) : Recycler α := sweepList r.free r

/-- An object is taken from the list. -/
lemma get_of_cons {fresh : Option α} {rest : List α} (hfree : r.free = a :: rest) :
    r.get fresh =
      (some a, { r with free := rest, nfree := r.nfree - 1, used := insert a r.used }) := by
  simp [get, hfree]

/-- An object is asked for from the allocator. -/
lemma get_of_nil {fresh : Option α} (hfree : r.free = []) :
    r.get fresh = match fresh with
      | none => (none, r)
      | some a => (some a, { r with used := insert a r.used, live := insert a r.live }) := by
  unfold get
  split
  · simp_all
  · rfl

/-- An object that is taken is in use, and so are those that were. -/
lemma get_used (r : Recycler α) (fresh : Option α) :
    r.used ⊆ (r.get fresh).2.used ∧ ∀ a, (r.get fresh).1 = some a → a ∈ (r.get fresh).2.used := by
  cases hfree : r.free with
  | cons a rest =>
    rw [get_of_cons hfree]
    refine ⟨Finset.subset_insert a r.used, ?_⟩
    rintro _ ⟨⟩
    exact Finset.mem_insert_self _ _
  | nil =>
    rw [get_of_nil hfree]
    cases fresh with
    | none => exact ⟨Finset.Subset.refl _, by simp⟩
    | some a =>
      refine ⟨Finset.subset_insert a r.used, ?_⟩
      rintro _ ⟨⟩
      exact Finset.mem_insert_self _ _

/-- Taking an object keeps the invariant. -/
theorem Ok.get (h : r.Ok) (fresh : Option α) : (r.get fresh).2.Ok := by
  cases hfree : r.free with
  | cons a rest =>
    have hnodup := h.nodup
    rw [hfree] at hnodup
    obtain ⟨ha, hnodup⟩ := List.nodup_cons.mp hnodup
    have hmem : ∀ x ∈ rest, x ∈ r.free := fun x hx => hfree ▸ List.mem_cons_of_mem a hx
    rw [get_of_cons hfree]
    refine {
      nfree := ?_, unused := ?_, live := fun x hx => h.live x (hmem x hx), nodup := hnodup,
        used := ?_ }
    · simp [h.nfree, hfree]
    · intro x hx
      rw [Finset.mem_insert, not_or]
      refine ⟨?_, h.unused x (hmem x hx)⟩
      rintro rfl
      exact ha hx
    · refine Finset.insert_subset (h.live a ?_) h.used
      rw [hfree]
      exact List.mem_cons_self
  | nil =>
    rw [get_of_nil hfree]
    cases fresh with
    | none => exact h
    | some a =>
      refine { nfree := h.nfree, unused := ?_, live := ?_, nodup := h.nodup, used := ?_ }
      · simp [hfree]
      · simp [hfree]
      · exact Finset.insert_subset_insert a h.used

/-- Releasing an object in use keeps the invariant. -/
theorem Ok.put (h : r.Ok) (ha : a ∈ r.used) : (r.put a).Ok where
  nfree := by simp [Recycler.put, h.nfree]
  unused := by
    intro x hx
    rcases List.mem_cons.mp hx with rfl | hx
    · exact Finset.notMem_erase x r.used
    · exact fun hmem => h.unused x hx (Finset.mem_of_mem_erase hmem)
  live := by
    intro x hx
    rcases List.mem_cons.mp hx with rfl | hx
    · exact h.used ha
    · exact h.live x hx
  nodup := List.nodup_cons.mpr ⟨fun hmem => h.unused a hmem ha, h.nodup⟩
  used := (Finset.erase_subset a r.used).trans h.used

/-- Giving an object in use back to the allocator keeps the invariant. -/
theorem Ok.discard (h : r.Ok) (ha : a ∈ r.used) : (r.discard a).Ok where
  nfree := h.nfree
  unused := fun x hx hmem => h.unused x hx (Finset.mem_of_mem_erase hmem)
  live := by
    intro x hx
    refine Finset.mem_erase.mpr ⟨?_, h.live x hx⟩
    rintro rfl
    exact h.unused x hx ha
  nodup := h.nodup
  used := Finset.erase_subset_erase a h.used

/-- What is left after the first objects of the list are freed and taken off it. -/
theorem Ok.drain (h : r.Ok) : r.drain.Ok := by
  have hlist : ∀ (free : List α) (r : Recycler α), r.free = free → r.Ok →
      (drainList free r).Ok := by
    intro free
    induction free with
    | nil => exact fun r _ hr => hr
    | cons a rest ih =>
      intro r hfree hr
      have hnodup := hr.nodup
      rw [hfree] at hnodup
      obtain ⟨ha, hnodup⟩ := List.nodup_cons.mp hnodup
      have hmem : ∀ x ∈ rest, x ∈ r.free := fun x hx => hfree ▸ List.mem_cons_of_mem a hx
      refine ih _ rfl {
        nfree := ?_, unused := fun x hx => hr.unused x (hmem x hx), live := ?_, nodup := hnodup,
        used := ?_ }
      · simp [hr.nfree, hfree]
      · intro x hx
        refine Finset.mem_erase.mpr ⟨?_, hr.live x (hmem x hx)⟩
        rintro rfl
        exact ha hx
      · intro x hx
        refine Finset.mem_erase.mpr ⟨?_, hr.used hx⟩
        rintro rfl
        exact hr.unused x (by simp [hfree]) hx
  exact hlist r.free r rfl h

/-- Draining the list leaves the objects in use alone. -/
lemma drain_used (r : Recycler α) : r.drain.used = r.used := by
  have hlist : ∀ (free : List α) (r : Recycler α), (drainList free r).used = r.used := by
    intro free
    induction free with
    | nil => exact fun r => rfl
    | cons a rest ih => exact fun r => ih _
  exact hlist r.free r

/-- There is nothing to sweep. -/
lemma sweep_of_nil (hfree : r.free = []) : r.sweep = r := by
  rw [sweep, hfree]
  rfl

/-- The list is left as it is. -/
lemma sweepList_free (free : List α) (r : Recycler α) : (sweepList free r).free = r.free := by
  induction free generalizing r with
  | nil => rfl
  | cons a rest ih => exact ih _

/-- Sweeping frees the memory of every object of the list. -/
lemma sweepList_live (free : List α) (r : Recycler α) :
    ∀ a ∈ free, a ∉ (sweepList free r).live := by
  have hmono : ∀ (free : List α) (r : Recycler α), (sweepList free r).live ⊆ r.live := by
    intro free
    induction free with
    | nil => exact fun r => Finset.Subset.refl _
    | cons a rest ih => exact fun r => (ih _).trans (Finset.erase_subset a _)
  induction free generalizing r with
  | nil => simp
  | cons a rest ih =>
    intro x hx
    rcases List.mem_cons.mp hx with rfl | hx
    · exact fun hmem => Finset.notMem_erase x r.live (hmono rest _ hmem)
    · exact ih _ x hx

/-- **Sweeping keeps the list intact only if it is empty**: an object that stays on it is freed. -/
theorem sweep_intact_iff (h : r.Ok) : r.sweep.Intact ↔ r.free = [] := by
  constructor
  · intro hs
    by_contra hne
    obtain ⟨a, ha⟩ := List.exists_mem_of_ne_nil _ hne
    refine sweepList_live r.free r a ha (hs.live a ?_)
    rwa [sweep, sweepList_free]
  · intro hfree
    rw [sweep_of_nil hfree]
    exact h.toIntact

end Recycler
