import GfwProxy.Proxy.Message
import GfwProxy.Rbtree.Run

set_option autoImplicit false

/-!
# The timeout tree of the proxy

The proxy keeps the requests with a timeout in the order in which the timeout tree has their nodes.
Here the list and the tree go through the operations side by side; the node of a request has the
address of the request.

## Main definitions

* `GfwProxy.Rbtree.Agrees` — the tree has the nodes of the list in its order, with their keys.

## Main results

* `GfwProxy.Rbtree.Agrees.tmoInsert`, `GfwProxy.Rbtree.Agrees.tmoDelete`,
  `GfwProxy.Rbtree.Agrees.head` — an insertion, a deletion and the least node of the tree are those
  of the list.
-/

namespace GfwProxy

namespace Rbtree

open RedBlack Exec

/-- The tree has the nodes of the timeout list in its order, with their keys. -/
structure Agrees (h : Heap) (σ : Rbtree) (T : RBTree NodeId) : Prop where
  shape : Shape σ T
  valid : T.Valid
  sorted : Sorted σ T
  toList : T.toList = h.tmoRbt
  key : ∀ m ∈ h.tmoRbt, (σ.node m).key = (h.msg m).tmoKey

variable {h : Heap} {σ : Rbtree} {T : RBTree NodeId} {m : MsgId} {fuel : ℕ}

/-- A list of which the first part satisfies a predicate and the second part does not. -/
lemma takeWhile_append {p : NodeId → Bool} {l r : List NodeId} (hl : ∀ y ∈ l, p y = true)
    (hr : ∀ y ∈ r, p y = false) : (l ++ r).takeWhile p = l ∧ (l ++ r).dropWhile p = r := by
  rw [List.takeWhile_append_of_pos hl, List.dropWhile_append_of_pos hl]
  cases r with
  | nil => exact ⟨List.append_nil l, rfl⟩
  | cons y r =>
    have hy : ¬p y = true := by
      rw [hr y List.mem_cons_self]
      exact Bool.false_ne_true
    rw [List.takeWhile_cons_of_neg hy, List.dropWhile_cons_of_neg hy, List.append_nil]
    exact ⟨rfl, rfl⟩

/-- The list after an insertion. -/
lemma tmoRbt_tmoInsert {l r : List NodeId} {key : ℤ} (s : ConnId) (hlist : h.tmoRbt = l ++ r)
    (hm : m ∉ h.tmoRbt) (hl : ∀ y ∈ l, (h.msg y).tmoKey ≤ key)
    (hr : ∀ y ∈ r, key < (h.msg y).tmoKey) : (h.tmoInsert m key s).tmoRbt = l ++ m :: r ∧
      ∀ y, ((h.tmoInsert m key s).msg y).tmoKey = if y = m then key else (h.msg y).tmoKey := by
  obtain ⟨h₁, hh₁⟩ : ∃ h₁, h₁ = h.modMsg m fun x => { x with tmoKey := key, tmoData := some s } :=
    ⟨_, rfl⟩
  have hins : h.tmoInsert m key s = { h₁ with
      tmoRbt := h₁.tmoRbt.takeWhile (fun y => (h₁.msg y).tmoKey ≤ key) ++
        m :: h₁.tmoRbt.dropWhile (fun y => (h₁.msg y).tmoKey ≤ key) } := by
    rw [hh₁]
    rfl
  have hself : (h₁.msg m).tmoKey = key := by
    have hmsg : h₁.msg m = { h.msg m with tmoKey := key, tmoData := some s } := by
      rw [hh₁]
      exact Function.update_self ..
    rw [hmsg]
  have hne : ∀ y, y ≠ m → h₁.msg y = h.msg y := by
    intro y hy
    rw [hh₁]
    exact Function.update_of_ne hy ..
  have hnot : ∀ y ∈ h.tmoRbt, y ≠ m := by
    rintro y hy rfl
    exact hm hy
  have hsplit := takeWhile_append (p := fun y => (h₁.msg y).tmoKey ≤ key) (l := l) (r := r)
    (fun y hy => ?_) (fun y hy => ?_)
  · constructor
    · have hlist₁ : h₁.tmoRbt = l ++ r := by
        rw [hh₁]
        exact hlist
      rw [hins]
      show h₁.tmoRbt.takeWhile _ ++ m :: h₁.tmoRbt.dropWhile _ = _
      rw [hlist₁, hsplit.1, hsplit.2]
    · intro y
      rw [hins]
      show (h₁.msg y).tmoKey = _
      split_ifs with hym
      · rw [hym, hself]
      · rw [hne y hym]
  · rw [hne y (hnot y (hlist ▸ List.mem_append_left r hy))]
    exact decide_eq_true (hl y hy)
  · rw [hne y (hnot y (hlist ▸ List.mem_append_right l hy))]
    exact decide_eq_false (not_le.mpr (hr y hy))

/-- **An insertion into the tree is one into the list.** -/
theorem Agrees.tmoInsert (ha : Agrees h σ T) (hm : m ∉ h.tmoRbt) (hs : m ≠ σ.sentinel)
    (hfuel : h.tmoRbt.length < fuel) (s : ConnId) :
    Exec.Total (rbtreeInsert fuel m)
      (fun _ σ' => ∃ T', Agrees (h.tmoInsert m (σ.node m).key s) σ' T') σ := by
  rw [← ha.toList] at hfuel
  have hmT : m ∉ T.toList := by
    rw [ha.toList]
    exact hm
  refine (rbtreeInsert_total hfuel ha.shape ha.valid ha.sorted hmT hs).mono fun _ σ' hr => ?_
  obtain ⟨T', hs', hk', hi⟩ := hr
  obtain ⟨l, r, hT, hT', hl, hr⟩ := hi.toList
  rw [ha.toList] at hT
  have hkey_l : ∀ y ∈ l, (h.msg y).tmoKey ≤ (σ.node m).key := by
    intro y hy
    rw [← ha.key y (hT ▸ List.mem_append_left r hy)]
    exact hl y hy
  have hkey_r : ∀ y ∈ r, (σ.node m).key < (h.msg y).tmoKey := by
    intro y hy
    rw [← ha.key y (hT ▸ List.mem_append_right l hy)]
    exact hr y hy
  obtain ⟨hlist, hkey⟩ := tmoRbt_tmoInsert s hT hm hkey_l hkey_r
  refine ⟨T', hs', hi.valid, hi.sorted hk' ha.sorted, hT'.trans hlist.symm, fun y hy => ?_⟩
  rw [hlist, List.mem_append, List.mem_cons] at hy
  rw [hk'.key, hkey]
  split_ifs with hym
  · rw [hym]
  · refine ha.key y ?_
    rw [hT, List.mem_append]
    tauto

/-- **A deletion from the tree is one from the list.** -/
theorem Agrees.tmoDelete (ha : Agrees h σ T) (hm : m ∈ h.tmoRbt) (hd : (h.msg m).tmoData ≠ none)
    (hfuel : h.tmoRbt.length < fuel) :
    Exec.Total (rbtreeDelete fuel m) (fun _ σ' => ∃ T', Agrees (h.tmoDelete m) σ' T') σ := by
  rw [← ha.toList] at hm hfuel
  refine (rbtreeDelete_total hfuel ha.shape ha.valid hm).mono fun _ σ' hr => ?_
  obtain ⟨T', hs', hdel⟩ := hr
  obtain ⟨l, r, hT, hT'⟩ := hdel.toList
  have hnodup := ha.shape.nodup
  rw [hT] at hnodup
  have hml : m ∉ l := fun h => (List.nodup_append'.mp hnodup).2.2 h List.mem_cons_self
  have hlist : (h.tmoDelete m).tmoRbt = T'.toList := by
    unfold Heap.tmoDelete
    rw [if_neg hd]
    show h.tmoRbt.erase m = T'.toList
    rw [← ha.toList, hT, List.erase_append_right _ hml, List.erase_cons_head, hT']
  have hperm : T.toList.Perm (m :: T'.toList) := by
    rw [hT, hT']
    exact List.perm_middle
  have hmT' : m ∉ T'.toList := (List.nodup_cons.mp (hperm.nodup_iff.mp ha.shape.nodup)).1
  have hkey : ∀ y ∈ T'.toList, (σ'.node y).key = (σ.node y).key := fun y hy =>
    hdel.key y fun hym => hmT' (hym ▸ hy)
  refine ⟨T', hs', hdel.valid, hdel.sorted ha.shape.nodup ha.sorted, hlist.symm, fun y hy => ?_⟩
  rw [hlist] at hy
  have hne : y ≠ m := fun hym => hmT' (hym ▸ hy)
  have hyT : y ∈ h.tmoRbt := by
    rw [← ha.toList, hperm.mem_iff]
    exact List.mem_cons_of_mem m hy
  have hmsg : ((h.tmoDelete m).msg y).tmoKey = (h.msg y).tmoKey := by
    unfold Heap.tmoDelete
    rw [if_neg hd]
    show (Function.update h.msg m _ y).tmoKey = _
    rw [Function.update_of_ne hne]
  rw [hkey y hy, ha.key y hyT, hmsg]

/-- **The least node of the tree is the head of the list.** -/
theorem Agrees.head (ha : Agrees h σ T) (hfuel : h.tmoRbt.length ≤ fuel) :
    rbtreeMin fuel σ = .ok (h.tmoRbt.head?, σ) := by
  rw [← ha.toList] at hfuel ⊢
  exact rbtreeMin_total hfuel ha.shape

end Rbtree

end GfwProxy
