import Mathlib.Data.Finset.Card
import GfwProxy.Rbtree.Delete

set_option autoImplicit false

/-!
# The timeout tree over whole runs

## Main definitions

* `GfwProxy.Rbtree.Run` — the states that `rbtree_init`, insertions and deletions lead to.
* `GfwProxy.Rbtree.Holds` — the tree holds exactly the nodes of a set, in the order of their keys.

## Main results

* `GfwProxy.Rbtree.rbtreeMin_total` — `rbtree_min` returns the first node.
* `GfwProxy.Rbtree.Run.correct` — what holds in every state of a run.

## Design

Between two operations the rest of the proxy may write any node that is not in the tree: a node gets
its key before it is inserted.
-/

namespace GfwProxy

namespace Rbtree

open RedBlack Exec

/-- The states that a sequence of operations on the tree leads to, and the nodes that are inserted
and not deleted. -/
inductive Run : Finset NodeId → Rbtree → Prop
  | init {σ σ' : Rbtree} {s : NodeId} (h : rbtreeInit s σ = .ok ((), σ')) : Run ∅ σ'
  | insert {S : Finset NodeId} {σ σ' : Rbtree} {x : NodeId} {fuel : ℕ} (hr : Run S σ) (hx : x ∉ S)
      (hs : x ≠ σ.sentinel) (h : rbtreeInsert fuel x σ = .ok ((), σ')) : Run (insert x S) σ'
  | delete {S : Finset NodeId} {σ σ' : Rbtree} {x : NodeId} {fuel : ℕ} (hr : Run S σ) (hx : x ∈ S)
      (h : rbtreeDelete fuel x σ = .ok ((), σ')) : Run (S.erase x) σ'
  /-- nodes outside the tree are written -/
  | other {S : Finset NodeId} {σ σ' : Rbtree} (hr : Run S σ) (hroot : σ'.root = σ.root)
      (hsent : σ'.sentinel = σ.sentinel)
      (h : ∀ y, y = σ.sentinel ∨ y ∈ S → σ'.node y = σ.node y) : Run S σ'

/-- The links make the tree `T`, which is a red-black tree of the nodes `S` with keys that do not
decrease. -/
structure Holds (σ : Rbtree) (S : Finset NodeId) (T : RBTree NodeId) : Prop where
  shape : Shape σ T
  valid : T.Valid
  sorted : Sorted σ T
  nodes : ∀ x, x ∈ T.toList ↔ x ∈ S

variable {σ σ' : Rbtree} {S : Finset NodeId} {T T' : RBTree NodeId} {x : NodeId}

/-! ## One operation -/

/-- The tree has as many nodes as the set. -/
lemma Holds.card (h : Holds σ S T) : T.toList.length = S.card := by
  have hS : S = ⟨T.toList, h.shape.nodup⟩ := by
    ext x
    exact (h.nodes x).symm
  rw [hS]
  rfl

/-- `rbtree_init` makes an empty tree. -/
lemma init_holds {s : NodeId} (h : rbtreeInit s σ = .ok ((), σ')) : Holds σ' ∅ .nil := by
  obtain rfl : _ = σ' := congrArg Prod.snd (Except.ok.inj h)
  refine ⟨⟨trivial, rfl, List.nodup_nil, List.not_mem_nil, ?_⟩, ⟨rfl, 0, rfl⟩,
    List.Pairwise.nil, ?_⟩
  · exact congrArg Rbnode.red (mod_self _ s fun n => { n with red := false })
  · exact fun x => ⟨fun hx => absurd hx List.not_mem_nil,
      fun hx => absurd hx (Finset.notMem_empty x)⟩

/-- The order of the keys with a new node. -/
lemma Inserted.sorted (hi : Inserted σ x T T') (hk : Keeps σ σ') (hs : Sorted σ T) :
    Sorted σ' T' := by
  obtain ⟨l, r, hT, hT', hl, hr⟩ := hi.toList
  unfold Sorted at hs ⊢
  simp only [hk.key]
  rw [hT, List.pairwise_append] at hs
  rw [hT', List.pairwise_append, List.pairwise_cons]
  refine ⟨hs.1, ⟨fun y hy => (hr y hy).le, hs.2.1⟩, fun y hy z hz => ?_⟩
  rcases List.mem_cons.mp hz with rfl | hz
  · exact hl y hy
  · exact hs.2.2 y hy z hz

/-- The order of the keys without a node. -/
lemma Deleted.sorted (hd : Deleted σ σ' x T T') (hn : T.toList.Nodup) (hs : Sorted σ T) :
    Sorted σ' T' := by
  obtain ⟨l, r, hT, hT'⟩ := hd.toList
  have hsub : T'.toList.Sublist T.toList := by
    rw [hT, hT']
    exact (List.Sublist.refl l).append (List.sublist_cons_self x r)
  have hperm : T.toList.Perm (x :: T'.toList) := by
    rw [hT, hT']
    exact List.perm_middle
  have hx : x ∉ T'.toList := (List.nodup_cons.mp (hperm.nodup_iff.mp hn)).1
  refine List.Pairwise.imp_of_mem ?_ (hs.sublist hsub)
  intro y z hy hz hle
  rw [hd.key y fun hyx => hx (hyx ▸ hy), hd.key z fun hzx => hx (hzx ▸ hz)]
  exact hle

/-- `rbtree_insert` adds the node to the set. -/
lemma insert_holds {fuel : ℕ} (h : Holds σ S T) (hfuel : S.card < fuel) (hx : x ∉ S)
    (hs : x ≠ σ.sentinel) :
    Exec.Total (rbtreeInsert fuel x) (fun _ σ' => ∃ T', Holds σ' (insert x S) T') σ := by
  have hx' : x ∉ T.toList := fun hmem => hx ((h.nodes x).mp hmem)
  have hlen : T.toList.length < fuel := by
    rw [h.card]
    exact hfuel
  refine (rbtreeInsert_total hlen h.shape h.valid h.sorted hx' hs).mono fun _ σ' hr => ?_
  obtain ⟨T', hs', hk', hi⟩ := hr
  refine ⟨T', hs', hi.valid, hi.sorted hk' h.sorted, fun y => ?_⟩
  obtain ⟨l, r, hT, hT', -, -⟩ := hi.toList
  have hy := h.nodes y
  rw [hT, List.mem_append] at hy
  rw [hT', List.mem_append, List.mem_cons, Finset.mem_insert, ← hy]
  tauto

/-- `rbtree_delete` takes the node from the set. -/
lemma delete_holds {fuel : ℕ} (h : Holds σ S T) (hfuel : S.card < fuel) (hx : x ∈ S) :
    Exec.Total (rbtreeDelete fuel x) (fun _ σ' => ∃ T', Holds σ' (S.erase x) T') σ := by
  have hx' : x ∈ T.toList := (h.nodes x).mpr hx
  have hlen : T.toList.length < fuel := by
    rw [h.card]
    exact hfuel
  refine (rbtreeDelete_total hlen h.shape h.valid hx').mono fun _ σ' hr => ?_
  obtain ⟨T', hs', hd⟩ := hr
  obtain ⟨l, r, hT, hT'⟩ := hd.toList
  have hperm : T.toList.Perm (x :: T'.toList) := by
    rw [hT, hT']
    exact List.perm_middle
  have hxT' : x ∉ T'.toList := (List.nodup_cons.mp (hperm.nodup_iff.mp h.shape.nodup)).1
  refine ⟨T', hs', hd.valid, hd.sorted h.shape.nodup h.sorted, fun y => ?_⟩
  rw [Finset.mem_erase, ← h.nodes y, hperm.mem_iff, List.mem_cons]
  constructor
  · intro hy
    exact ⟨fun hyx => hxT' (hyx ▸ hy), Or.inr hy⟩
  · rintro ⟨hyx, rfl | hy⟩
    · exact absurd rfl hyx
    · exact hy

/-- **`rbtree_min`** returns the first node. -/
theorem rbtreeMin_total {fuel : ℕ} (hfuel : T.toList.length ≤ fuel) (hs : Shape σ T) :
    rbtreeMin fuel σ = .ok (T.toList.head?, σ) := by
  suffices hsuff : Exec.Total (rbtreeMin fuel) (fun r σ' => r = T.toList.head? ∧ σ' = σ) σ by
    obtain ⟨r, σ', hr, rfl, rfl⟩ := hsuff
    exact hr
  have hplug : Shape σ (plug [] T) := hs
  unfold rbtreeMin
  refine Exec.Total.get ?_
  cases hroot : T.root? with
  | none =>
    obtain rfl := RBTree.root?_eq_none.mp hroot
    have hempty : σ.root = σ.sentinel := hs.root
    rw [if_pos hempty]
    exact Total.pure ⟨rfl, rfl⟩
  | some z =>
    have hroot' : σ.root = z := by
      rw [hs.root, hroot]
      rfl
    have hz : z ≠ σ.sentinel := hplug.ne_sentinel_of_root hroot
    rw [hroot', if_neg hz]
    refine Exec.Total.bind (nodeMin_total fuel hfuel hplug hroot) fun y σ' hr => Total.pure ?_
    obtain ⟨rfl, j, c, r, rfl, hj⟩ := hr
    rw [toList_plug, hj]
    exact ⟨rfl, rfl⟩

/-! ## Fuel -/

section Fuel

variable (fuel : ℕ)

/-- More fuel does not change the result of the search for the minimum. -/
lemma nodeMin_extends (x : NodeId) :
    Extends (rbtreeNodeMin fuel x) (rbtreeNodeMin (fuel + 1) x) := by
  induction fuel generalizing x with
  | zero => exact Extends.throw
  | succ fuel ih =>
    exact Extends.bind (Extends.refl _) fun y => Extends.bind (Extends.refl _) fun _ =>
      Extends.ite (ih y) (Extends.refl _)

/-- More fuel does not change the result of the search for a place. -/
lemma descend_extends (key : ℤ) (x : NodeId) :
    Extends (rbtreeDescend key fuel x) (rbtreeDescend key (fuel + 1) x) := by
  induction fuel generalizing x with
  | zero => exact Extends.throw
  | succ fuel ih =>
    exact Extends.bind (Extends.refl _) fun _ => Extends.bind (Extends.refl _) fun y =>
      Extends.bind (Extends.refl _) fun _ => Extends.ite (Extends.refl _) (ih y)

/-- More fuel does not change the result of the fix-up after an insertion. -/
lemma insertFixup_extends (x : NodeId) :
    Extends (rbtreeInsertFixup fuel x) (rbtreeInsertFixup (fuel + 1) x) := by
  induction fuel generalizing x with
  | zero => exact Extends.throw
  | succ fuel ih =>
    refine Extends.bind (Extends.refl _) fun _ => Extends.ite (Extends.refl _) ?_
    refine Extends.bind (Extends.refl _) fun _ => Extends.bind (Extends.refl _) fun _ => ?_
    refine Extends.ite ?_ (Extends.refl _)
    exact Extends.bind (Extends.refl _) fun _ => Extends.bind (Extends.refl _) fun _ =>
      Extends.bind (Extends.refl _) ih

/-- More fuel does not change the result of the fix-up after a deletion. -/
lemma deleteFixup_extends (x : NodeId) :
    Extends (rbtreeDeleteFixup fuel x) (rbtreeDeleteFixup (fuel + 1) x) := by
  induction fuel generalizing x with
  | zero => exact Extends.throw
  | succ fuel ih =>
    refine Extends.bind (Extends.refl _) fun _ => Extends.ite ?_ (Extends.refl _)
    exact Extends.bind (Extends.refl _) fun _ => Extends.bind (Extends.refl _) fun _ =>
      Extends.bind (Extends.refl _) ih

/-- More fuel does not change the result of an insertion. -/
lemma insert_extends (x : NodeId) : Extends (rbtreeInsert fuel x) (rbtreeInsert (fuel + 1) x) := by
  refine Extends.bind (Extends.refl _) fun _ => Extends.ite (Extends.refl _) ?_
  refine Extends.bind (Extends.refl _) fun _ => Extends.bind (descend_extends fuel _ _) fun _ => ?_
  refine Extends.bind (Extends.refl _) fun _ => Extends.bind (Extends.refl _) fun _ => ?_
  exact Extends.bind (insertFixup_extends fuel x) fun _ => Extends.refl _

/-- More fuel does not change the result of a deletion. -/
lemma delete_extends (x : NodeId) : Extends (rbtreeDelete fuel x) (rbtreeDelete (fuel + 1) x) := by
  refine Extends.bind ?_ fun r => ?_
  · refine Extends.bind (Extends.refl _) fun _ => Extends.ite (Extends.refl _) ?_
    refine Extends.ite (Extends.refl _) (Extends.bind (Extends.refl _) fun y => ?_)
    exact Extends.bind (nodeMin_extends fuel y) fun _ => Extends.refl _
  · refine Extends.bind (Extends.refl _) fun _ => Extends.ite (Extends.refl _) ?_
    refine Extends.bind (Extends.refl _) fun _ => Extends.bind (Extends.refl _) fun _ => ?_
    have hrest : ∀ red : Bool, Extends
        (do
          rbtreeNodeInit x
          if red then return () else rbtreeDeleteFixup fuel r.2)
        (do
          rbtreeNodeInit x
          if red then return () else rbtreeDeleteFixup (fuel + 1) r.2) := fun red =>
      Extends.bind (Extends.refl _) fun _ => Extends.ite (Extends.refl _)
        (deleteFixup_extends fuel r.2)
    refine Extends.ite ?_ ?_
    · exact Extends.bind (Extends.refl _) fun _ => Extends.bind (Extends.refl _) fun _ => hrest _
    · exact Extends.bind (Extends.refl _) fun _ => Extends.bind (Extends.refl _) fun _ => hrest _

end Fuel

/-! ## Any sequence of operations -/

/-- **In every state of a run the links make a red-black tree of the right nodes.** -/
theorem Run.holds (h : Run S σ) : ∃ T, Holds σ S T := by
  induction h with
  | init h => exact ⟨_, init_holds h⟩
  | @insert S σ σ' x fuel hr hx hs h ih =>
    obtain ⟨T, hT⟩ := ih
    have hfuel : S.card < max fuel (S.card + 1) :=
      lt_of_lt_of_le S.card.lt_succ_self (le_max_right ..)
    have hmono := Extends.mono (insert_extends · x) (le_max_left fuel (S.card + 1))
    exact (insert_holds hT hfuel hx hs).elim (hmono _ _ h)
  | @delete S σ σ' x fuel hr hx h ih =>
    obtain ⟨T, hT⟩ := ih
    have hfuel : S.card < max fuel (S.card + 1) :=
      lt_of_lt_of_le S.card.lt_succ_self (le_max_right ..)
    have hmono := Extends.mono (delete_extends · x) (le_max_left fuel (S.card + 1))
    exact (delete_holds hT hfuel hx).elim (hmono _ _ h)
  | @other S σ σ' hr hroot hsent h ih =>
    obtain ⟨T, hT⟩ := ih
    have hnode : ∀ y ∈ T.toList, σ'.node y = σ.node y :=
      fun y hy => h y (Or.inr ((hT.nodes y).mp hy))
    have hblack : (σ'.node σ.sentinel).red = false := by
      rw [h _ (Or.inl rfl)]
      exact hT.shape.black
    refine ⟨T, hT.shape.congr hroot hsent hblack hnode, hT.valid, ?_, hT.nodes⟩
    refine List.Pairwise.imp_of_mem ?_ hT.sorted
    intro y z hy hz hle
    rw [hnode y hy, hnode z hz]
    exact hle

/-- **The timeout tree is correct in every state of a run.**

**Proof sketch.** Each operation keeps `Holds`, and returns with more fuel than there are nodes; the
first node in order has the least key. -/
theorem Run.correct (h : Run S σ) : (∃ T, Holds σ S T) ∧ ∀ fuel, S.card < fuel →
    (∀ x, x ∉ S → x ≠ σ.sentinel → ∃ σ', rbtreeInsert fuel x σ = .ok ((), σ')) ∧
    (∀ x ∈ S, ∃ σ', rbtreeDelete fuel x σ = .ok ((), σ')) ∧
    ∃ r, rbtreeMin fuel σ = .ok (r, σ) ∧ (r = none ↔ S = ∅) ∧
      ∀ x ∈ r, x ∈ S ∧ ∀ y ∈ S, (σ.node x).key ≤ (σ.node y).key := by
  obtain ⟨T, hT⟩ := h.holds
  refine ⟨⟨T, hT⟩, fun fuel hfuel => ⟨fun x hx hs => ?_, fun x hx => ?_, ?_⟩⟩
  · obtain ⟨_, σ', hr, -⟩ := insert_holds hT hfuel hx hs
    exact ⟨σ', hr⟩
  · obtain ⟨_, σ', hr, -⟩ := delete_holds hT hfuel hx
    exact ⟨σ', hr⟩
  · have hlen : T.toList.length ≤ fuel := by
      rw [hT.card]
      exact hfuel.le
    refine ⟨_, rbtreeMin_total hlen hT.shape, ?_, fun x hx => ?_⟩
    · rw [List.head?_eq_none_iff, ← List.length_eq_zero_iff, hT.card, Finset.card_eq_zero]
    · obtain ⟨l, hl⟩ := List.head?_eq_some_iff.mp hx
      have hsorted := hT.sorted
      rw [Sorted, hl, List.pairwise_cons] at hsorted
      refine ⟨(hT.nodes x).mp (hl ▸ List.mem_cons_self), fun y hy => ?_⟩
      have hmem := (hT.nodes y).mpr hy
      rw [hl] at hmem
      rcases List.mem_cons.mp hmem with rfl | hmem
      · exact le_rfl
      · exact hsorted.1 y hmem

/-- The state that an operation leaves, if it returns. -/
def stateAfter (op : Rb Unit) (σ : Rbtree) : Rbtree :=
  match op σ with
  | .ok r => r.2
  | .error _ => σ

/-- An operation that returns ends in the state after it. -/
lemma eq_stateAfter {op : Rb Unit} (h : (op σ).isOk = true) : op σ = .ok ((), stateAfter op σ) := by
  unfold stateAfter
  cases hr : op σ with
  | error e =>
    rw [hr] at h
    cases h
  | ok r => rfl

/-- Nodes of which 1 and 3 have the same key. -/
def threeNodes : Rbtree where
  root := 0
  sentinel := 0
  node x := { key := if x = 2 then 5 else 7 }

/-- Three insertions and a deletion. -/
theorem threeNodes_correct :
    let σ₁ := stateAfter (rbtreeInit 0) threeNodes
    let σ₂ := stateAfter (rbtreeInsert 9 1) σ₁
    let σ₃ := stateAfter (rbtreeInsert 9 2) σ₂
    let σ₄ := stateAfter (rbtreeInsert 9 3) σ₃
    ∃ T, Holds (stateAfter (rbtreeDelete 9 2) σ₄) {1, 3} T := by
  intro σ₁ σ₂ σ₃ σ₄
  have hrun₁ : Run ∅ σ₁ := .init (eq_stateAfter (by decide +kernel))
  have hrun₂ : Run {1} σ₂ :=
    .insert hrun₁ (by decide) (by decide +kernel) (eq_stateAfter (by decide +kernel))
  have hrun₃ : Run {2, 1} σ₃ :=
    .insert hrun₂ (by decide) (by decide +kernel) (eq_stateAfter (by decide +kernel))
  have hrun₄ : Run {3, 2, 1} σ₄ :=
    .insert hrun₃ (by decide) (by decide +kernel) (eq_stateAfter (by decide +kernel))
  have hrun₅ : Run (({3, 2, 1} : Finset NodeId).erase 2) (stateAfter (rbtreeDelete 9 2) σ₄) :=
    .delete hrun₄ (by decide) (eq_stateAfter (by decide +kernel))
  have hnodes : ({3, 2, 1} : Finset NodeId).erase 2 = {1, 3} := by decide
  rw [hnodes] at hrun₅
  exact (Run.correct hrun₅).1

end Rbtree

end GfwProxy
