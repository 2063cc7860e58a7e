import GfwProxy.Rbtree.Fixup

set_option autoImplicit false

/-!
# Deletion from the timeout tree

A node with at most one child leaves its place.  A node with two children is replaced by the least
node behind it, which leaves its place first.

## Main definitions

* `GfwProxy.Rbtree.Replaceable` — a node may take the place of another one;
  `GfwProxy.Rbtree.transplanted` is the state after it has.
* `GfwProxy.Rbtree.Deleted` — what a deletion does to the nodes in order.

## Main results

* `GfwProxy.Rbtree.Shape.unlink` — a node leaves its place.
* `GfwProxy.Rbtree.transplant_total` — a node takes the place of another one.
* `GfwProxy.Rbtree.rbtreeDelete_total` — a deletion from a red-black tree.
-/

namespace GfwProxy

namespace Rbtree

open RedBlack Exec

variable {σ σ' : Rbtree} {d : Dir} {c : Bool} {x y : NodeId} {r : Option NodeId}
  {l t u T : RBTree NodeId} {k j : List (Frame NodeId)} {f : Frame NodeId}

/-! ## A node leaves its place -/

/-- Only nodes outside the tree have changed. -/
lemma Shape.congr (hs : Shape σ T) (hroot : σ'.root = σ.root) (hsent : σ'.sentinel = σ.sentinel)
    (hblack : (σ'.node σ.sentinel).red = false) (h : ∀ y ∈ T.toList, σ'.node y = σ.node y) :
    Shape σ' T where
  rep := hs.rep.congr hsent h
  root := by
    rw [hroot, hsent]
    exact hs.root
  nodup := hs.nodup
  sentinel := by
    rw [hsent]
    exact hs.sentinel
  black := by
    rw [hsent]
    exact hblack

/-- The nodes of a tree, once a node with one child is put back above the child. -/
lemma join_nil_perm (k : List (Frame NodeId)) (d : Dir) (c : Bool) (y : NodeId)
    (t : RBTree NodeId) : (plug k (.join d c y t .nil)).toList.Perm (y :: (plug k t).toList) := by
  refine (toList_plug_perm k _).trans (List.Perm.trans ?_ ((toList_plug_perm k t).symm.cons y))
  refine ((RBTree.toList_join_perm d c y t .nil).append_right (nodes k)).trans ?_
  rw [RBTree.toList, List.append_nil]
  exact List.Perm.refl _

/-- The same in order: the node comes between two parts of the list. -/
lemma join_nil_toList (k : List (Frame NodeId)) (d : Dir) (c : Bool) (y : NodeId)
    (t : RBTree NodeId) :
    ∃ l r, (plug k (.join d c y t .nil)).toList = l ++ y :: r ∧ (plug k t).toList = l ++ r := by
  cases d with
  | left =>
    refine ⟨valuesBefore k ++ t.toList, valuesAfter k, ?_, toList_plug k t⟩
    rw [toList_plug]
    simp [RBTree.join, RBTree.toList]
  | right =>
    refine ⟨valuesBefore k, t.toList ++ valuesAfter k, ?_, ?_⟩
    · rw [toList_plug]
      simp [RBTree.join, RBTree.toList]
    · rw [toList_plug, List.append_assoc]

/-- The state after `y`, whose only child is `t`, has left its place and `q` is the parent of
`t`. -/
structure Unlinked (σ σ' : Rbtree) (f : Frame NodeId) (k : List (Frame NodeId)) (t : RBTree NodeId)
    (q : NodeId) : Prop where
  root : σ'.root = σ.root
  sentinel : σ'.sentinel = σ.sentinel
  key : ∀ z, (σ'.node z).key = (σ.node z).key
  above : Above σ' (f :: k) t.root?
  rep : Rep σ' t
  top : (σ'.node (t.root?.getD σ.sentinel)).parent = some q
  black : (σ'.node σ.sentinel).red = false

/-- **A node leaves its place.** -/
lemma Shape.unlink (hs : Shape σ (plug (f :: k) (.join d c y t .nil))) (q : NodeId) :
    Unlinked σ ((σ.filled (f :: k) (t.root?.getD σ.sentinel)).mod (t.root?.getD σ.sentinel)
      fun n => { n with parent := some q }) f k t q := by
  obtain ⟨top, htop⟩ : ∃ top, top = t.root?.getD σ.sentinel := ⟨_, rfl⟩
  obtain ⟨σ', hσ'⟩ : ∃ σ', σ' =
      (σ.filled (f :: k) top).mod top fun n => { n with parent := some q } :=
    ⟨_, rfl⟩
  rw [← htop, ← hσ']
  obtain ⟨hj, hk, hdisj⟩ := nodup_plug.mp hs.nodup
  obtain ⟨⟨hyt, -⟩, ht, -, -⟩ := RedBlack.nodup_join.mp hj
  have hmem : ∀ z ∈ t.toList, z ∈ (RBTree.join d c y t .nil).toList := fun z hz =>
    RBTree.mem_join.mpr (Or.inr (Or.inl hz))
  -- the child, or the sentinel, is not above
  have hne_top : ∀ z ∈ nodes (f :: k), z ≠ top := by
    rintro z hz rfl
    cases hroot : t.root? with
    | none =>
      rw [hroot] at htop
      have hz' : z = σ.sentinel := htop
      exact hs.sentinel (hz' ▸ mem_plug_nodes.mpr (Or.inr hz))
    | some v =>
      rw [hroot] at htop
      have hz' : z = v := htop
      exact hdisj (hmem z (RBTree.root?_mem (hz' ▸ hroot))) hz
  have htop_node : σ'.node top = { σ.node top with parent := some q } := by
    have hne : top ≠ f.val := (hne_top _ List.mem_cons_self).symm
    rw [hσ', mod_self, filled_of_ne]
    rintro _ ⟨⟩
    exact hne
  have hhead : σ'.node f.val = (σ.node f.val).setChild f.dir (some top) := by
    rw [hσ', mod_of_ne (hne_top _ List.mem_cons_self), filled_head rfl]
  have hne : ∀ z, z ≠ top → z ≠ f.val → σ'.node z = σ.node z := by
    intro z hz hzf
    rw [hσ', mod_of_ne hz, filled_of_ne]
    rintro _ ⟨⟩
    exact hzf
  have hsent : σ'.sentinel = σ.sentinel := by
    rw [hσ', mod_sentinel, filled_sentinel]
  obtain ⟨habove, -, hrep⟩ := rep_plug.mp hs.rep
  obtain ⟨-, -, -, hrep_t, -⟩ := rep_join.mp hrep
  have htf : ∀ z ∈ t.toList, z ≠ f.val := by
    rintro z hz rfl
    exact hdisj (hmem _ hz) List.mem_cons_self
  constructor
  · rw [hσ']
    rfl
  · exact hsent
  · intro z
    by_cases hz : z = top
    · rw [hz, htop_node]
    by_cases hzf : z = f.val
    · rw [hzf, hhead, setChild_key]
    · rw [hne z hz hzf]
  · refine habove.refill hsent (fun z hz hzf => hne z (hne_top z hz) (hzf f rfl)) ?_ hk
    rintro _ ⟨⟩
    rw [← htop]
    exact hhead
  · refine hrep_t.congr_root hsent (fun z hz hroot => hne z ?_ (htf z hz))
      (fun z hz => ⟨some q, ?_⟩) ht
    · rintro rfl
      cases hr : t.root? with
      | none =>
        rw [RBTree.root?_eq_none.mp hr] at hz
        exact absurd hz List.not_mem_nil
      | some v =>
        rw [hr] at htop hroot
        exact hroot (congrArg some htop.symm)
    · have hz' : top = z := by
        rw [htop, show t.root? = some z from hz]
        rfl
      rw [← hz', htop_node]
  · rw [← htop, htop_node]
  · by_cases hz : σ.sentinel = top
    · rw [hz, htop_node, ← hz]
      exact hs.black
    · rw [hne _ hz]
      · exact hs.black
      · rintro h
        exact hs.sentinel (h ▸ mem_plug_nodes.mpr (Or.inr List.mem_cons_self))

/-- The tree without the node that has left its place. -/
lemma Unlinked.shape (hs : Shape σ (plug (f :: k) (.join d c y t .nil)))
    (hu : Unlinked σ σ' f k t f.val) : Shape σ' (plug (f :: k) t) ∧ Hung σ' f.val t := by
  have hperm := join_nil_perm (f :: k) d c y t
  have hhangs : Hangs σ' (f :: k) t.root? := by
    intro z hz
    have htop := hu.top
    rwa [show t.root? = some z from hz] at htop
  refine ⟨⟨rep_plug.mpr ⟨hu.above, hhangs, hu.rep⟩, ?_, ?_, ?_, ?_⟩, ?_⟩
  · have hroot := hs.root
    rw [root?_plug] at hroot ⊢
    rw [hu.root, hu.sentinel]
    exact hroot
  · exact (List.nodup_cons.mp (hperm.nodup_iff.mp hs.nodup)).2
  · rw [hu.sentinel]
    exact fun h => hs.sentinel (hperm.mem_iff.mpr (List.mem_cons_of_mem y h))
  · rw [hu.sentinel]
    exact hu.black
  · unfold Hung
    rw [hu.sentinel]
    exact hu.top

/-! ## A node takes the place of another one -/

/-- The root of a hole in a hole. -/
lemma rootAt_append (j : List (Frame NodeId)) (f : Frame NodeId) (k : List (Frame NodeId))
    (r : Option NodeId) : rootAt (j ++ f :: k) r = rootAt k (some f.val) := by
  induction j generalizing r with
  | nil => rfl
  | cons g j ih => exact ih _

/-- Two parts of the tree above the hole. -/
lemma above_append : Above σ (j ++ k) r ↔
    Above σ j r ∧ (j ≠ [] → Hangs σ k (rootAt j r)) ∧ Above σ k (rootAt j r) := by
  induction j generalizing r with
  | nil => exact ⟨fun h => ⟨trivial, fun hj => absurd rfl hj, h⟩, fun h => h.2.2⟩
  | cons f j ih =>
    have hhangs : Hangs σ (j ++ k) (some f.val) ↔
        Hangs σ j (some f.val) ∧ (j = [] → Hangs σ k (some f.val)) := by
      cases j with
      | nil => exact ⟨fun h => ⟨trivial, fun _ => h⟩, fun h => h.2 rfl⟩
      | cons g j => exact ⟨fun h => ⟨h, fun hj => by cases hj⟩, fun h => h.1⟩
    have hroot : j = [] → rootAt (f :: j) r = some f.val := by
      rintro rfl
      rfl
    show (σ.node f.val).red = f.red ∧ (Down σ f.val f.dir r ∧ Down σ f.val f.dir.flip f.sib.root?) ∧
      Up σ f.val f.sib.root? ∧ Rep σ f.sib ∧ Hangs σ (j ++ k) (some f.val) ∧
      Above σ (j ++ k) (some f.val) ↔ _
    rw [hhangs, ih]
    constructor
    · rintro ⟨h₁, h₂, h₃, h₄, ⟨hj, hk⟩, hja, hjk, hka⟩
      refine ⟨⟨h₁, h₂, h₃, h₄, hj, hja⟩, fun _ => ?_, hka⟩
      by_cases hnil : j = []
      · rw [hroot hnil]
        exact hk hnil
      · exact hjk hnil
    · rintro ⟨⟨h₁, h₂, h₃, h₄, hj, hja⟩, hk, hka⟩
      have hk' := hk (List.cons_ne_nil f j)
      exact ⟨h₁, h₂, h₃, h₄, ⟨hj, fun hnil => hroot hnil ▸ hk'⟩, hja, fun _ => hk', hka⟩

/-- The nodes of a tree with a node and its sibling subtree next to a hole. -/
lemma frame_perm (k : List (Frame NodeId)) (d : Dir) (c : Bool) (x : NodeId) (l t : RBTree NodeId) :
    (plug (⟨d, c, x, l⟩ :: k) t).toList.Perm (x :: (t.toList ++ (l.toList ++ nodes k))) :=
  (toList_plug_perm _ t).trans List.perm_middle

/-- Node `y`, which is outside the tree, may take the place of `x` with the subtrees `l` and `u`. -/
structure Replaceable (σ : Rbtree) (x y : NodeId) (c : Bool) (l u : RBTree NodeId)
    (k : List (Frame NodeId)) : Prop where
  sentinel : σ.sentinel ∉ (plug (⟨.right, c, x, l⟩ :: k) u).toList
  nodup : (plug (⟨.right, c, x, l⟩ :: k) u).toList.Nodup
  outside : y ∉ (plug (⟨.right, c, x, l⟩ :: k) u).toList
  ne_sentinel : y ≠ σ.sentinel
  root : σ.root = (rootAt k (some x)).getD σ.sentinel
  above : Above σ (⟨.right, c, x, l⟩ :: k) u.root?

/-- The state after `y` has got the links and the colour of `x`. -/
def copied (σ : Rbtree) (x y : NodeId) : Rbtree :=
  σ.mod y fun m => { m with
    left := (σ.node x).left, right := (σ.node x).right, parent := (σ.node x).parent
    red := (σ.node x).red }

/-- The state after `y` has taken the place of `x`. -/
def transplanted (σ : Rbtree) (x y : NodeId) (l u : RBTree NodeId) (k : List (Frame NodeId)) :
    Rbtree :=
  (((σ.copied x y).filled k y).adopted l.root? y).adopted u.root? y

/-- Copying the links of a node keeps the sentinel. -/
@[simp] lemma copied_sentinel : (σ.copied x y).sentinel = σ.sentinel := rfl

/-- Copying the links of a node keeps the root. -/
@[simp] lemma copied_root : (σ.copied x y).root = σ.root := rfl

/-- Copying the links of a node keeps the other nodes. -/
lemma copied_of_ne {z : NodeId} (hz : z ≠ y) : (σ.copied x y).node z = σ.node z := mod_of_ne hz _

/-- The replacement keeps the sentinel. -/
@[simp] lemma transplanted_sentinel : (σ.transplanted x y l u k).sentinel = σ.sentinel := by
  simp [transplanted]

namespace Replaceable

variable {z : NodeId}

/-- The nodes of the tree are different. -/
lemma parts_nodup (h : Replaceable σ x y c l u k) :
    (x :: (u.toList ++ (l.toList ++ nodes k))).Nodup :=
  (frame_perm k .right c x l u).nodup_iff.mp h.nodup

/-- A node of the tree is neither `y` nor the sentinel. -/
lemma ne_of_mem (h : Replaceable σ x y c l u k)
    (hz : z ∈ x :: (u.toList ++ (l.toList ++ nodes k))) :
    z ≠ y ∧ z ≠ σ.sentinel := by
  have hmem := (frame_perm k .right c x l u).mem_iff.mpr hz
  constructor
  · rintro rfl
    exact h.outside hmem
  · rintro rfl
    exact h.sentinel hmem

/-- The nodes of the left subtree are none of the others. -/
lemma left_ne (h : Replaceable σ x y c l u k) (hz : z ∈ l.toList) :
    z ≠ y ∧ z ≠ σ.sentinel ∧ z ∉ u.toList ∧ z ∉ nodes k := by
  obtain ⟨-, hrest⟩ := List.nodup_cons.mp h.parts_nodup
  obtain ⟨-, hlk, hu⟩ := List.nodup_append'.mp hrest
  obtain ⟨-, -, hk⟩ := List.nodup_append'.mp hlk
  obtain ⟨hy, hs⟩ := h.ne_of_mem (z := z) (by simp [hz])
  exact ⟨hy, hs, fun hzu => hu hzu (List.mem_append_left _ hz), fun hzk => hk hz hzk⟩

/-- The nodes of the right subtree are none of the others. -/
lemma right_ne (h : Replaceable σ x y c l u k) (hz : z ∈ u.toList) :
    z ≠ y ∧ z ≠ σ.sentinel ∧ z ∉ l.toList ∧ z ∉ nodes k := by
  obtain ⟨-, hrest⟩ := List.nodup_cons.mp h.parts_nodup
  obtain ⟨-, -, hu⟩ := List.nodup_append'.mp hrest
  obtain ⟨hy, hs⟩ := h.ne_of_mem (z := z) (by simp [hz])
  exact ⟨hy, hs, fun hzl => hu hz (List.mem_append_left _ hzl),
    fun hzk => hu hz (List.mem_append_right _ hzk)⟩

/-- The nodes above are none of the others. -/
lemma above_ne (h : Replaceable σ x y c l u k) (hz : z ∈ nodes k) :
    z ≠ y ∧ z ≠ σ.sentinel ∧ z ∉ u.toList ∧ z ∉ l.toList := by
  obtain ⟨hy, hs⟩ := h.ne_of_mem (z := z) (by simp [hz])
  exact ⟨hy, hs, fun hzu => (h.right_ne hzu).2.2.2 hz, fun hzl => (h.left_ne hzl).2.2.2 hz⟩

/-- `x` keeps its place while `y` gets its links. -/
lemma place (h : Replaceable σ x y c l u k) : Place (σ.copied x y) k x := by
  obtain ⟨-, -, -, -, hhangs, habove⟩ := h.above
  obtain ⟨hx, -⟩ := List.nodup_cons.mp h.parts_nodup
  have hxk : x ∉ nodes k := fun hxk => hx (by simp [hxk])
  obtain ⟨hxy, hsx⟩ := h.ne_of_mem List.mem_cons_self
  have hplace := habove.place hhangs h.root hxk hsx
  cases k with
  | nil => exact hplace
  | cons f k =>
    obtain ⟨hp₁, hp₂, hp₃, hp₄⟩ := hplace
    have hf : f.val ≠ y := (h.above_ne List.mem_cons_self).1
    exact ⟨hp₁, by rw [copied_of_ne hxy]; exact hp₂, by rw [copied_of_ne hf]; exact hp₃,
      by rw [copied_of_ne hf]; exact hp₄⟩

/-! ### The nodes in the end -/

/-- `y` has the links and the colour of `x`. -/
lemma node_subst (h : Replaceable σ x y c l u k) :
    (σ.transplanted x y l u k).node y = { σ.node y with
      left := (σ.node x).left, right := (σ.node x).right, parent := (σ.node x).parent
      red := (σ.node x).red } := by
  have hyu : y ∉ u.root? := fun hy => (h.right_ne (RBTree.root?_mem hy)).1 rfl
  have hyl : y ∉ l.root? := fun hy => (h.left_ne (RBTree.root?_mem hy)).1 rfl
  unfold transplanted
  rw [adopted_of_not_mem y hyu, adopted_of_not_mem y hyl, filled_of_ne]
  · exact mod_self σ y _
  · rintro f hf rfl
    exact (h.above_ne (head?_val_mem hf)).1 rfl

/-- The parent of the right child is `y`. -/
lemma node_right (h : Replaceable σ x y c l u k) (hz : z ∈ u.root?) :
    (σ.transplanted x y l u k).node z = { σ.node z with parent := some y } := by
  obtain ⟨hzy, -, hzl, hzk⟩ := h.right_ne (RBTree.root?_mem hz)
  unfold transplanted
  rw [adopted_mem y hz, adopted_of_not_mem y fun hl => hzl (RBTree.root?_mem hl), filled_of_ne,
    copied_of_ne hzy]
  rintro f hf rfl
  exact hzk (head?_val_mem hf)

/-- The parent of the left child is `y`. -/
lemma node_left (h : Replaceable σ x y c l u k) (hz : z ∈ l.root?) :
    (σ.transplanted x y l u k).node z = { σ.node z with parent := some y } := by
  obtain ⟨hzy, -, hzu, hzk⟩ := h.left_ne (RBTree.root?_mem hz)
  unfold transplanted
  rw [adopted_of_not_mem y fun hu => hzu (RBTree.root?_mem hu), adopted_mem y hz, filled_of_ne,
    copied_of_ne hzy]
  rintro f hf rfl
  exact hzk (head?_val_mem hf)

/-- The link from above leads to `y`. -/
lemma node_head (h : Replaceable σ x y c l u k) (hf : f ∈ k.head?) :
    (σ.transplanted x y l u k).node f.val = (σ.node f.val).setChild f.dir (some y) := by
  obtain ⟨hfy, -, hfu, hfl⟩ := h.above_ne (head?_val_mem hf)
  unfold transplanted
  rw [adopted_of_not_mem y fun hu => hfu (RBTree.root?_mem hu),
    adopted_of_not_mem y fun hl => hfl (RBTree.root?_mem hl), filled_head hf, copied_of_ne hfy]

/-- The other nodes are as before. -/
lemma node_other (hzy : z ≠ y) (hzu : z ∉ u.root?) (hzl : z ∉ l.root?)
    (hzf : ∀ f ∈ k.head?, z ≠ f.val) : (σ.transplanted x y l u k).node z = σ.node z := by
  unfold transplanted
  rw [adopted_of_not_mem y hzu, adopted_of_not_mem y hzl, filled_of_ne hzf, copied_of_ne hzy]

/-- The root is the one of the tree with `y` in the place of `x`. -/
lemma root_subst (h : Replaceable σ x y c l u k) :
    (σ.transplanted x y l u k).root = (rootAt k (some y)).getD σ.sentinel := by
  unfold transplanted
  rw [adopted_root, adopted_root]
  cases k with
  | nil => rfl
  | cons f k => exact h.root

/-- **`rbtree_delete` puts `y` into the place of `x`.** -/
lemma transplant (h : Replaceable σ x y c l u k) :
    Exec.Total (rbtreeTransplant x y) (fun _ σ' => σ' = σ.transplanted x y l u k) σ := by
  obtain ⟨-, ⟨hdu, hdl⟩, -⟩ := h.above
  have hyl : y ∉ l.root? := fun hy => (h.left_ne (RBTree.root?_mem hy)).1 rfl
  have hy : ((σ.copied x y).filled k y).node y = { σ.node y with
      left := (σ.node x).left, right := (σ.node x).right, parent := (σ.node x).parent
      red := (σ.node x).red } := by
    rw [filled_of_ne]
    · exact mod_self σ y _
    · rintro f hf rfl
      exact (h.above_ne (head?_val_mem hf)).1 rfl
  unfold rbtreeTransplant copyNode
  rw [bind_assoc]
  refine Total.getNode (Total.setNode ?_)
  change Exec.Total _ _ (σ.copied x y)
  refine Total.replace h.place ?_
  refine Total.adopt (r := l.root?) ?_ ?_ ?_ (Total.last (Total.adopt (r := u.root?) ?_ ?_ ?_
    (Total.pure rfl)))
  · rw [filled_sentinel, copied_sentinel]
    exact h.ne_sentinel
  · rw [Down, hy, filled_sentinel, copied_sentinel]
    exact hdl
  · intro z hz
    rw [filled_sentinel, copied_sentinel]
    exact (h.left_ne (RBTree.root?_mem hz)).2.1
  · rw [adopted_sentinel, filled_sentinel, copied_sentinel]
    exact h.ne_sentinel
  · rw [Down, adopted_of_not_mem y hyl, adopted_sentinel, hy, filled_sentinel, copied_sentinel]
    exact hdu
  · intro z hz
    rw [adopted_sentinel, filled_sentinel, copied_sentinel]
    exact (h.right_ne (RBTree.root?_mem hz)).2.1

/-- The sentinel and all keys are kept. -/
lemma keeps (h : Replaceable σ x y c l u k) : Keeps σ (σ.transplanted x y l u k) := by
  refine ⟨transplanted_sentinel, node_other h.ne_sentinel.symm (fun hu => ?_) (fun hl => ?_)
    (fun f hf hs => ?_), fun z => ?_⟩
  · exact (h.right_ne (RBTree.root?_mem hu)).2.1 rfl
  · exact (h.left_ne (RBTree.root?_mem hl)).2.1 rfl
  · exact (h.above_ne (head?_val_mem hf)).2.1 hs.symm
  · by_cases hzy : z = y
    · rw [hzy, h.node_subst]
    by_cases hzu : z ∈ u.root?
    · rw [h.node_right hzu]
    by_cases hzl : z ∈ l.root?
    · rw [h.node_left hzl]
    by_cases hzf : ∃ f ∈ k.head?, z = f.val
    · obtain ⟨f, hf, rfl⟩ := hzf
      rw [h.node_head hf, setChild_key]
    · rw [node_other hzy hzu hzl fun f hf he => hzf ⟨f, hf, he⟩]

/-- The part of the tree above the right subtree. -/
lemma above_subst (h : Replaceable σ x y c l u k) :
    Above (σ.transplanted x y l u k) (⟨.right, c, y, l⟩ :: k) u.root? := by
  obtain ⟨hred, ⟨hdu, hdl⟩, -, hrep, hhangs, habove⟩ := h.above
  obtain ⟨-, hrest⟩ := List.nodup_cons.mp h.parts_nodup
  obtain ⟨-, hlk, -⟩ := List.nodup_append'.mp hrest
  obtain ⟨hnl, hnk, -⟩ := List.nodup_append'.mp hlk
  refine ⟨?_, ⟨?_, ?_⟩, fun z hz => ?_, ?_, ?_, ?_⟩
  · rw [h.node_subst]
    exact hred
  · rw [Down, h.node_subst, transplanted_sentinel]
    exact hdu
  · rw [Down, h.node_subst, transplanted_sentinel]
    exact hdl
  · rw [h.node_left hz]
  · refine hrep.congr_root transplanted_sentinel (fun z hz hroot => ?_)
      (fun z hz => ⟨_, h.node_left hz⟩) hnl
    obtain ⟨hzy, -, hzu, hzk⟩ := h.left_ne hz
    refine node_other hzy (fun hu => hzu (RBTree.root?_mem hu)) hroot ?_
    rintro f hf rfl
    exact hzk (head?_val_mem hf)
  · cases k with
    | nil => trivial
    | cons f k =>
      rintro _ ⟨⟩
      rw [h.node_subst]
      exact hhangs x rfl
  · refine habove.refill transplanted_sentinel (fun z hz hzf => ?_) (fun f hf => h.node_head hf) hnk
    obtain ⟨hzy, -, hzu, hzl⟩ := h.above_ne hz
    exact node_other hzy (fun hu => hzu (RBTree.root?_mem hu))
      (fun hl => hzl (RBTree.root?_mem hl)) hzf

/-- The right subtree. -/
lemma rep_right (h : Replaceable σ x y c l u k) (hrep : Rep σ u) :
    Rep (σ.transplanted x y l u k) u := by
  obtain ⟨-, hrest⟩ := List.nodup_cons.mp h.parts_nodup
  obtain ⟨hnu, -, -⟩ := List.nodup_append'.mp hrest
  refine hrep.congr_root transplanted_sentinel (fun z hz hroot => ?_)
    (fun z hz => ⟨_, h.node_right hz⟩) hnu
  obtain ⟨hzy, -, hzl, hzk⟩ := h.right_ne hz
  refine node_other hzy hroot (fun hl => hzl (RBTree.root?_mem hl)) ?_
  rintro f hf rfl
  exact hzk (head?_val_mem hf)

/-- The tree with `y` in the place of `x`. -/
lemma shape (h : Replaceable σ x y c l u k) (hblack : (σ.node σ.sentinel).red = false)
    (hrep : Rep σ u) :
    Shape (σ.transplanted x y l u k) (plug (⟨.right, c, y, l⟩ :: k) u) := by
  have hperm := frame_perm k .right c x l u
  have hperm_y := frame_perm k .right c y l u
  have hhangs : Hangs (σ.transplanted x y l u k) (⟨.right, c, y, l⟩ :: k) u.root? := by
    intro z hz
    rw [h.node_right hz]
  refine ⟨rep_plug.mpr ⟨h.above_subst, hhangs, h.rep_right hrep⟩, ?_, ?_, ?_, ?_⟩
  · rw [root?_plug, transplanted_sentinel]
    exact h.root_subst
  · obtain ⟨-, hrest⟩ := List.nodup_cons.mp h.parts_nodup
    refine hperm_y.nodup_iff.mpr (List.nodup_cons.mpr ⟨fun hy => ?_, hrest⟩)
    exact h.outside (hperm.mem_iff.mpr (List.mem_cons_of_mem x hy))
  · rw [transplanted_sentinel, hperm_y.mem_iff, List.mem_cons]
    rintro (hy | hs)
    · exact h.ne_sentinel hy.symm
    · exact h.sentinel (hperm.mem_iff.mpr (List.mem_cons_of_mem x hs))
  · rw [transplanted_sentinel, h.keeps.node]
    exact hblack

end Replaceable

/-- **A node takes the place of another one.**  The parent links of the children may be wrong
before. -/
lemma transplant_total (h : Replaceable σ x y c l u k) (hblack : (σ.node σ.sentinel).red = false)
    (hrep : Rep σ u) :
    Exec.Total (rbtreeTransplant x y)
      (fun _ σ' => Shape σ' (plug (⟨.right, c, y, l⟩ :: k) u) ∧ Keeps σ σ') σ := by
  refine h.transplant.mono ?_
  rintro _ σ' rfl
  exact ⟨h.shape hblack hrep, h.keeps⟩

/-! ## The least node -/

/-- **The least node of a subtree.** -/
theorem nodeMin_total (fuel : ℕ) (hfuel : t.toList.length ≤ fuel) (hs : Shape σ (plug k t))
    (hx : x ∈ t.root?) : Exec.Total (rbtreeNodeMin fuel x) (fun y σ' => σ' = σ ∧
      ∃ j c r, t = plug j (.node c .nil y r) ∧ valuesBefore j = []) σ := by
  induction t generalizing k x fuel with
  | nil => exact absurd hx (Option.not_mem_none x)
  | node c l z r ihl _ =>
    obtain rfl : z = x := Option.some.inj hx
    have hlen : l.toList.length + (r.toList.length + 1) ≤ fuel := by
      have hlist : (l.toList ++ z :: r.toList).length ≤ fuel := hfuel
      rwa [List.length_append, List.length_cons] at hlist
    obtain ⟨fuel, rfl⟩ : ∃ n, fuel = n + 1 := Nat.exists_eq_succ_of_ne_zero (by omega)
    have hnext : Shape σ (plug (⟨.left, c, z, r⟩ :: k) l) := hs
    have hdown : Shape σ (plug k (.join .left c z l r)) := hs
    unfold rbtreeNodeMin
    refine hdown.down (Exec.Total.get ?_)
    cases hl : l.root? with
    | none =>
      obtain rfl := RBTree.root?_eq_none.mp hl
      rw [Option.getD_none, if_neg fun h => h rfl]
      exact Total.pure ⟨rfl, [], c, r, rfl, rfl⟩
    | some y =>
      have hy : y ≠ σ.sentinel := hnext.ne_sentinel_of_root hl
      rw [Option.getD_some, if_pos hy]
      refine (ihl fuel (by omega) hnext hl).mono fun y' σ' hr => ?_
      obtain ⟨rfl, j, c', r', rfl, hj⟩ := hr
      refine ⟨rfl, j ++ [⟨.left, c, z, r⟩], c', r', ?_, ?_⟩
      · rw [plug_append]
        rfl
      · rw [valuesBefore_append, hj]
        rfl

/-! ## The deletion -/

/-- What a deletion of `x` does to the keys and to the nodes in order. -/
structure Deleted (σ σ' : Rbtree) (x : NodeId) (T T' : RBTree NodeId) : Prop where
  sentinel : σ'.sentinel = σ.sentinel
  key : ∀ y, y ≠ x → (σ'.node y).key = (σ.node y).key
  valid : T'.Valid
  toList : ∃ l r, T.toList = l ++ x :: r ∧ T'.toList = l ++ r

/-- The end of a deletion: the fix-up, if the node that has left its place was black. -/
lemma deleteFinish_total {N n fuel : ℕ} (hs : Shape σ (plug (f :: k) t)) (hh : Hung σ f.val t)
    (hb : (RBTree.join d c y t .nil).Balanced n) (hslot : c = true → slot (f :: k) = false)
    (hfits : Fits N (f :: k) n) (hfuel : (f :: k).length < fuel) :
    Exec.Total (if c then return () else rbtreeDeleteFixup fuel (t.root?.getD σ.sentinel))
      (fun _ σ' => ∃ T, Shape σ' T ∧ Keeps σ σ' ∧ T.Valid ∧ T.toList = (plug (f :: k) t).toList)
        σ := by
  cases c with
  | true =>
    obtain ⟨hblack, -, hbal, -⟩ := RBTree.balanced_red.mp hb
    rw [if_pos rfl]
    have hred : t.red = true → slot (f :: k) = false := fun h => by
      rw [hblack] at h
      cases h
    obtain ⟨hr, hbal'⟩ := balanced_plug.mpr ⟨n, hbal, hred, hfits⟩
    exact Total.pure ⟨_, hs, Keeps.refl σ, ⟨hr, N, hbal'⟩, rfl⟩
  | false =>
    obtain ⟨-, m, rfl, hbal, -⟩ := RBTree.balanced_join.mp hb
    rw [if_neg Bool.false_ne_true]
    have hhung : ∀ g ∈ (f :: k).head?, Hung σ g.val t := by
      rintro _ ⟨⟩
      exact hh
    have hlen : (if t.red then 0 else (f :: k).length) < fuel := by
      split_ifs
      · omega
      · exact hfuel
    refine (deleteFixup_total fuel hlen hs hhung hbal.deficit hfits).mono fun _ σ' hr => ?_
    obtain ⟨T, hfix, hs', hk'⟩ := hr
    exact ⟨T, hs', hk', hfix.valid hbal.deficit hfits, hfix.toList⟩

/-- A node outside the tree is initialized. -/
lemma Shape.nodeInit (hs : Shape σ T) (hx : x ∉ T.toList) (hsx : x ≠ σ.sentinel) :
    Shape (σ.mod x fun n =>
      { n with left := none, right := none, parent := none, key := 0, data := none }) T := by
  refine hs.congr rfl rfl ?_ fun y hy => ?_
  · rw [mod_of_ne hsx.symm]
    exact hs.black
  · refine mod_of_ne ?_ _
    rintro rfl
    exact hx hy

/-- A node that is not below the link is initialized. -/
lemma Hung.nodeInit {q : NodeId} (hh : Hung σ q t) (hx : x ∉ t.toList) (hsx : x ≠ σ.sentinel) :
    Hung (σ.mod x fun n =>
      { n with left := none, right := none, parent := none, key := 0, data := none }) q t := by
  unfold Hung
  rw [mod_sentinel, mod_of_ne]
  · exact hh
  · cases ht : t.root? with
    | none => exact hsx.symm
    | some z =>
      rintro rfl
      exact hx (RBTree.root?_mem ht)

/-- The root, which has at most one child, is deleted. -/
lemma deleteRoot_total {fuel : ℕ} (hs : Shape σ (.join d c x t .nil))
    (hv : (RBTree.join d c x t .nil).Valid) :
    Exec.Total (rbtreeDeleteAt fuel x x (t.root?.getD σ.sentinel))
      (fun _ σ' => ∃ T', Shape σ' T' ∧ Deleted σ σ' x (.join d c x t .nil) T') σ := by
  have hperm : (RBTree.join d c x t .nil).toList.Perm (x :: t.toList) := join_nil_perm [] d c x t
  obtain ⟨hx, hnodup⟩ := List.nodup_cons.mp (hperm.nodup_iff.mp hs.nodup)
  have hs' : Shape σ (plug [] (.join d c x t .nil)) := hs
  have hsx : x ≠ σ.sentinel := hs'.ne_sentinel_of_root RBTree.root?_join
  have hroot : x = σ.root := hs'.place RBTree.root?_join
  obtain ⟨m, hbal⟩ : ∃ m, t.Balanced m := by
    obtain ⟨-, N, hb⟩ := hv
    obtain ⟨-, m, -, hm, -⟩ := RBTree.balanced_join.mp hb
    exact ⟨m, hm⟩
  unfold rbtreeDeleteAt
  refine Exec.Total.get ?_
  rw [if_pos hroot]
  refine Total.setRoot ?_
  have hrep : Rep { σ with root := t.root?.getD σ.sentinel } t := by
    obtain ⟨-, -, -, hrep_t, -⟩ := hs'.join
    refine Rep.congr ?_ (fun z hz => ?_) hrep_t
    · rfl
    · rfl
  have ht : Shape { σ with root := t.root?.getD σ.sentinel } (plug [] t) :=
    ⟨hrep, rfl, hnodup, fun h => hs.sentinel (hperm.mem_iff.mpr (List.mem_cons_of_mem x h)),
      hs.black⟩
  refine ht.blackTop fun σ₁ hs₁ hk₁ => Total.last (Total.setNode (Total.pure ?_))
  have hx₁ : x ∉ (t.paint false).toList := by
    rw [RBTree.toList_paint]
    exact hx
  have hsx₁ : x ≠ σ₁.sentinel := by
    rw [hk₁.sentinel]
    exact hsx
  refine ⟨t.paint false, hs₁.nodeInit hx₁ hsx₁, hk₁.sentinel, fun y hy => ?_, hbal.valid, ?_⟩
  · rw [mod_of_ne hy]
    exact hk₁.key y
  · rw [RBTree.toList_paint]
    exact join_nil_toList [] d c x t

/-- A node below the root that has at most one child is deleted. -/
lemma deleteBelow_total {fuel : ℕ} (hs : Shape σ (plug (f :: k) (.join d c x t .nil)))
    (hv : (plug (f :: k) (.join d c x t .nil)).Valid) (hfuel : (f :: k).length < fuel) :
    Exec.Total (rbtreeDeleteAt fuel x x (t.root?.getD σ.sentinel))
      (fun _ σ' => ∃ T', Shape σ' T' ∧ Deleted σ σ' x (plug (f :: k) (.join d c x t .nil)) T')
        σ := by
  have hperm := join_nil_perm (f :: k) d c x t
  have hx : x ∉ (plug (f :: k) t).toList := (List.nodup_cons.mp (hperm.nodup_iff.mp hs.nodup)).1
  have hsx : x ≠ σ.sentinel := hs.ne_sentinel_of_root RBTree.root?_join
  obtain ⟨hroot_black, N, hbal⟩ := hv
  obtain ⟨n, hb, hslot, hfits⟩ := balanced_plug.mp ⟨hroot_black, hbal⟩
  unfold rbtreeDeleteAt
  refine Exec.Total.get ?_
  have hplace := hs.place RBTree.root?_join
  rw [if_neg hplace.1]
  unfold rbtreeDeleteBelow
  refine Total.isRed ?_
  rw [hs.join.1]
  refine Total.relink hplace ?_
  rw [if_pos rfl]
  refine Total.getNode ?_
  have hxf : x ≠ f.val := fun h => by
    have hdisj := (nodup_plug.mp hs.nodup).2.2
    exact hdisj (RBTree.mem_join.mpr (Or.inl rfl)) (h ▸ List.mem_cons_self)
  rw [filled_of_ne (by rintro _ ⟨⟩; exact hxf), hplace.2.1]
  refine Total.setNode ?_
  have hu := hs.unlink f.val
  obtain ⟨σ₁, hσ₁⟩ : ∃ σ₁, σ₁ = (σ.filled (f :: k) (t.root?.getD σ.sentinel)).mod
    (t.root?.getD σ.sentinel) fun n => { n with parent := some f.val } := ⟨_, rfl⟩
  rw [← hσ₁] at hu ⊢
  obtain ⟨hs₁, hh₁⟩ := hu.shape hs
  have hsx₁ : x ≠ σ₁.sentinel := by
    rw [hu.sentinel]
    exact hsx
  refine Total.setNode ?_
  have hs₂ := hs₁.nodeInit hx hsx₁
  obtain ⟨σ₂, hσ₂⟩ : ∃ σ₂, σ₂ = σ₁.mod x fun n =>
    { n with left := none, right := none, parent := none, key := 0, data := none } := ⟨_, rfl⟩
  rw [← hσ₂] at hs₂ ⊢
  have hsent₂ : σ₂.sentinel = σ.sentinel := by
    rw [hσ₂, mod_sentinel, hu.sentinel]
  have hh₂ : Hung σ₂ f.val t :=
    hσ₂ ▸ hh₁.nodeInit (fun h => hx (mem_plug_nodes.mpr (Or.inl h))) hsx₁
  rw [← hsent₂]
  refine (deleteFinish_total hs₂ hh₂ hb (fun h => hslot (h ▸ RBTree.red_join)) hfits hfuel).mono
    fun _ σ₃ hr => ?_
  obtain ⟨T', hs₃, hk₃, hv₃, hlist⟩ := hr
  refine ⟨T', hs₃, hk₃.sentinel.trans hsent₂, fun y hy => ?_, hv₃, ?_⟩
  · rw [hk₃.key, hσ₂, mod_of_ne hy]
    exact hu.key y
  · rw [hlist]
    exact join_nil_toList (f :: k) d c x t

/-- A node with at most one child is deleted. -/
lemma deleteOne_total {fuel : ℕ} (hs : Shape σ (plug k (.join d c x t .nil)))
    (hv : (plug k (.join d c x t .nil)).Valid) (hfuel : k.length < fuel) :
    Exec.Total (rbtreeDeleteAt fuel x x (t.root?.getD σ.sentinel))
      (fun _ σ' => ∃ T', Shape σ' T' ∧ Deleted σ σ' x (plug k (.join d c x t .nil)) T') σ := by
  cases k with
  | nil => exact deleteRoot_total hs hv
  | cons f k => exact deleteBelow_total hs hv hfuel

/-- The nodes above the hole, before and after `y` has taken the place of `x`. -/
structure Heads (j k : List (Frame NodeId)) (x y : NodeId) (c : Bool) (l : RBTree NodeId)
    (f f' : Frame NodeId) (k' k'' : List (Frame NodeId)) : Prop where
  before : j ++ ⟨.right, c, x, l⟩ :: k = f :: k'
  after : j ++ ⟨.right, c, y, l⟩ :: k = f' :: k''
  val : f'.val = if f.val = x then y else f.val

/-- There is a node above the hole; it is `x`, or another one. -/
lemma exists_heads (y : NodeId) (hn : (nodes (j ++ ⟨.right, c, x, l⟩ :: k)).Nodup) :
    ∃ f f' k' k'', Heads j k x y c l f f' k' k'' := by
  cases j with
  | nil => exact ⟨_, _, _, _, rfl, rfl, (if_pos rfl).symm⟩
  | cons g j =>
    refine ⟨_, _, _, _, rfl, rfl, (if_neg fun h => ?_).symm⟩
    obtain ⟨hg, -⟩ := List.nodup_cons.mp hn
    refine hg (List.mem_append_right _ ?_)
    have hmem : x ∈ (plug (j ++ ⟨.right, c, x, l⟩ :: k) (.nil : RBTree NodeId)).toList := by
      rw [plug_append]
      exact mem_plug_nodes.mpr (Or.inr List.mem_cons_self)
    rcases mem_plug_nodes.mp hmem with hnil | hmem
    · exact absurd hnil List.not_mem_nil
    · exact h ▸ hmem

/-- The parent link that the child gets. -/
lemma tempParent_run {temp p : NodeId} (hp : (σ.node y).parent = some p) :
    rbtreeTempParent x y temp σ =
      .ok ((), σ.mod temp fun n => { n with parent := some (if p = x then y else p) }) := by
  show (if (σ.node y).parent = some x then setParent _ (some y) else
    setParent _ (σ.node y).parent) _ = _
  rw [hp]
  by_cases hpx : p = x
  · rw [if_pos (congrArg some hpx), if_pos hpx]
    rfl
  · rw [if_neg fun h => hpx (Option.some.inj h), if_neg hpx]
    rfl

section TwoChildren

variable {c' : Bool} {f' : Frame NodeId} {k' k'' : List (Frame NodeId)}

/-- The least node behind `x` is another node than `x` and those above it. -/
lemma Heads.ne (hd : Heads j k x y c l f f' k' k'')
    (hs : Shape σ (plug (j ++ ⟨.right, c, x, l⟩ :: k) (.join .right c' y t .nil))) :
    y ≠ f.val ∧ y ≠ x := by
  have hperm := join_nil_perm (j ++ ⟨.right, c, x, l⟩ :: k) .right c' y t
  obtain ⟨hy, -⟩ := List.nodup_cons.mp (hperm.nodup_iff.mp hs.nodup)
  constructor
  · rintro rfl
    refine hy (mem_plug_nodes.mpr (Or.inr ?_))
    rw [hd.before]
    exact List.mem_cons_self
  · rintro rfl
    refine hy ?_
    rw [plug_append]
    exact mem_plug_nodes.mpr (Or.inr List.mem_cons_self)

/-- The subtree from which `y` has left its place. -/
lemma Unlinked.rep_right (hd : Heads j k x y c l f f' k' k'') (hu : Unlinked σ σ' f k' t f'.val) :
    Rep σ' (plug j t) := by
  have habove := hu.above
  rw [← hd.before] at habove
  refine rep_plug.mpr ⟨(above_append.mp habove).1, ?_, hu.rep⟩
  cases j with
  | nil => trivial
  | cons g j =>
    obtain ⟨rfl, -⟩ := List.cons.inj hd.after
    intro z hz
    have htop := hu.top
    rwa [show t.root? = some z from hz] at htop

/-- `y`, which has left its place, may take that of `x`. -/
lemma Unlinked.replaceable (hd : Heads j k x y c l f f' k' k'')
    (hs : Shape σ (plug (j ++ ⟨.right, c, x, l⟩ :: k) (.join .right c' y t .nil)))
    (hu : Unlinked σ σ' f k' t f'.val) : Replaceable σ' x y c l (plug j t) k := by
  have hperm := join_nil_perm (j ++ ⟨.right, c, x, l⟩ :: k) .right c' y t
  have hplug : plug (j ++ ⟨.right, c, x, l⟩ :: k) t = plug (⟨.right, c, x, l⟩ :: k) (plug j t) :=
    plug_append j _ t
  rw [hplug] at hperm
  obtain ⟨hy, hnodup⟩ := List.nodup_cons.mp (hperm.nodup_iff.mp hs.nodup)
  have habove := hu.above
  rw [← hd.before] at habove
  obtain ⟨-, -, habove⟩ := above_append.mp habove
  rw [← root?_plug] at habove
  refine ⟨?_, hnodup, hy, ?_, ?_, habove⟩
  · rw [hu.sentinel]
    exact fun h => hs.sentinel (hperm.mem_iff.mpr (List.mem_cons_of_mem y h))
  · rw [hu.sentinel]
    exact hs.ne_sentinel_of_root RBTree.root?_join
  · rw [hu.root, hs.root, root?_plug, rootAt_append, hu.sentinel]

/-- The child hangs below the node that is above the hole then. -/
lemma Unlinked.hung (hu : Unlinked σ σ' f k' t f'.val) {σ₂ : Rbtree}
    (hs : Shape σ₂ (plug (f' :: k'') t)) (hk : Keeps σ' σ₂) : Hung σ₂ f'.val t := by
  cases ht : t.root? with
  | none =>
    have htop := hu.top
    unfold Hung
    rw [ht] at htop ⊢
    show (σ₂.node σ₂.sentinel).parent = _
    rw [hk.sentinel, hk.node, hu.sentinel]
    exact htop
  | some z =>
    refine hs.hung fun h => ?_
    rw [h] at ht
    cases ht

/-- A node with two children is deleted: `y` is the least node behind it, and `t` the only child of
`y`. -/
lemma deleteTwo_total {fuel : ℕ}
    (hs : Shape σ (plug (j ++ ⟨.right, c, x, l⟩ :: k) (.join .right c' y t .nil)))
    (hv : (plug (j ++ ⟨.right, c, x, l⟩ :: k) (.join .right c' y t .nil)).Valid)
    (hj : valuesBefore j = []) (hfuel : (j ++ ⟨.right, c, x, l⟩ :: k).length < fuel) :
    Exec.Total (rbtreeDeleteAt fuel x y (t.root?.getD σ.sentinel))
      (fun _ σ' => ∃ T', Shape σ' T' ∧
        Deleted σ σ' x (plug (j ++ ⟨.right, c, x, l⟩ :: k) (.join .right c' y t .nil)) T') σ := by
  obtain ⟨hroot_black, N, hbal⟩ := hv
  obtain ⟨n, hb, hslot, hfits⟩ := balanced_plug.mp ⟨hroot_black, hbal⟩
  obtain ⟨hfits', hslot'⟩ := hfits.val y
  obtain ⟨f, f', k', k'', hd⟩ := exists_heads y (nodup_plug.mp hs.nodup).2.1
  obtain ⟨hyf, hyx⟩ := hd.ne hs
  have hplace : Place σ (f :: k') y := by
    rw [← hd.before]
    exact hs.place RBTree.root?_join
  unfold rbtreeDeleteAt
  refine Exec.Total.get ?_
  rw [if_neg hplace.1]
  unfold rbtreeDeleteBelow
  refine Total.isRed ?_
  rw [hs.join.1]
  -- `y` leaves its place
  refine Total.relink hplace ?_
  rw [if_neg hyx]
  have hparent : ((σ.filled (f :: k') (t.root?.getD σ.sentinel)).node y).parent = some f.val := by
    rw [filled_of_ne (by rintro _ ⟨⟩; exact hyf)]
    exact hplace.2.1
  refine Exec.Total.run (tempParent_run hparent) ?_
  rw [← hd.val]
  have hu := (hd.before ▸ hs : Shape σ (plug (f :: k') (.join .right c' y t .nil))).unlink f'.val
  obtain ⟨σ₁, hσ₁⟩ : ∃ σ₁, σ₁ = (σ.filled (f :: k') (t.root?.getD σ.sentinel)).mod
    (t.root?.getD σ.sentinel) fun n => { n with parent := some f'.val } := ⟨_, rfl⟩
  rw [← hσ₁] at hu ⊢
  -- and takes that of `x`
  have hreplace := hu.replaceable hd hs
  refine Exec.Total.bind (transplant_total hreplace (by rw [hu.sentinel]; exact hu.black)
    (hu.rep_right hd)) fun _ σ₂ hr => ?_
  obtain ⟨hs₂, hk₂⟩ := hr
  have hsx : x ≠ σ₂.sentinel := by
    rw [hk₂.sentinel]
    exact (hreplace.ne_of_mem List.mem_cons_self).2
  have hx : x ∉ (plug (⟨.right, c, y, l⟩ :: k) (plug j t)).toList := by
    rw [(frame_perm k .right c y l (plug j t)).mem_iff, List.mem_cons]
    rintro (h | h)
    · exact hyx h.symm
    · exact (List.nodup_cons.mp hreplace.parts_nodup).1 h
  rw [← plug_append, hd.after] at hs₂ hx
  have hh₂ := hu.hung hs₂ hk₂
  -- `x` is not in the tree any more
  refine Total.setNode ?_
  have hs₃ := hs₂.nodeInit hx hsx
  have hh₃ := hh₂.nodeInit (fun h => hx (mem_plug_nodes.mpr (Or.inl h))) hsx
  obtain ⟨σ₃, hσ₃⟩ : ∃ σ₃, σ₃ = σ₂.mod x fun n =>
    { n with left := none, right := none, parent := none, key := 0, data := none } := ⟨_, rfl⟩
  rw [← hσ₃] at hs₃ hh₃ ⊢
  have hsent₃ : σ₃.sentinel = σ.sentinel := by
    rw [hσ₃, mod_sentinel, hk₂.sentinel, hu.sentinel]
  rw [hd.after] at hfits' hslot'
  have hlen : (f' :: k'').length < fuel := by
    rw [← hd.after]
    simpa using hfuel
  rw [← hsent₃]
  refine (deleteFinish_total hs₃ hh₃ hb (fun h => hslot'.trans (hslot (h ▸ RBTree.red_join))) hfits'
    hlen).mono fun _ σ₄ hr => ?_
  obtain ⟨T', hs₄, hk₄, hv₄, hlist⟩ := hr
  refine ⟨T', hs₄, hk₄.sentinel.trans hsent₃, fun z hz => ?_, hv₄,
    valuesBefore k ++ l.toList, y :: (t.toList ++ valuesAfter j) ++ valuesAfter k, ?_, ?_⟩
  · rw [hk₄.key, hσ₃, mod_of_ne hz, hk₂.key]
    exact hu.key z
  · rw [toList_plug, valuesBefore_append, valuesAfter_append, hj]
    simp [valuesBefore, valuesAfter, RBTree.join, RBTree.toList]
  · rw [hlist, ← hd.after, toList_plug, valuesBefore_append, valuesAfter_append, hj]
    simp [valuesBefore, valuesAfter]

end TwoChildren

/-- **`rbtree_delete`.**

**Proof sketch.** The node is at the root of a subtree; the cases are those of its children. -/
theorem rbtreeDelete_total {fuel : ℕ} (hfuel : T.toList.length < fuel) (hs : Shape σ T)
    (hv : T.Valid) (hx : x ∈ T.toList) :
    Exec.Total (rbtreeDelete fuel x) (fun _ σ' => ∃ T', Shape σ' T' ∧ Deleted σ σ' x T T') σ := by
  obtain ⟨k, c, l, r, rfl⟩ := exists_plug hx
  have hlen := (toList_plug_perm k (.node c l x r)).length_eq
  have hlist : (RBTree.node c l x r).toList = l.toList ++ x :: r.toList := rfl
  rw [List.length_append, hlist, List.length_append, List.length_cons] at hlen
  have hk := length_le_nodes k
  have hright : Shape σ (plug k (.join .right c x r l)) := hs
  have hleft : Shape σ (plug k (.join .left c x l r)) := hs
  obtain ⟨-, ⟨hdl, hdr⟩, -, -, -⟩ := hleft.join
  have hsentinel : ∀ {t : RBTree NodeId} {f : Frame NodeId}, Shape σ (plug (f :: k) t) →
      (some (t.root?.getD σ.sentinel) = some σ.sentinel ↔ t = .nil) := by
    intro t f hs
    constructor
    · intro h
      refine RBTree.root?_eq_none.mp (Option.eq_none_iff_forall_not_mem.mpr fun z hz => ?_)
      rw [show t.root? = some z from hz] at h
      exact hs.ne_sentinel_of_root hz (Option.some.inj h)
    · rintro rfl
      rfl
  have hsl : Shape σ (plug (⟨.left, c, x, r⟩ :: k) l) := hs
  have hsr : Shape σ (plug (⟨.right, c, x, l⟩ :: k) r) := hs
  have hl_iff : (σ.node x).left = some σ.sentinel ↔ l = .nil := by
    rw [← hsentinel hsl]
    exact ⟨fun h => hdl.symm.trans h, fun h => hdl.trans h⟩
  have hr_iff : (σ.node x).right = some σ.sentinel ↔ r = .nil := by
    rw [← hsentinel hsr]
    exact ⟨fun h => hdr.symm.trans h, fun h => hdr.trans h⟩
  unfold rbtreeDelete rbtreeSubst
  rw [bind_assoc]
  refine Exec.Total.get ?_
  by_cases hl : l = .nil
  · -- no left child
    subst hl
    rw [if_pos (hl_iff.mpr rfl), bind_assoc]
    exact hright.down (deleteOne_total hright hv (by omega))
  rw [if_neg fun h => hl (hl_iff.mp h)]
  by_cases hr : r = .nil
  · -- no right child
    subst hr
    rw [if_pos (hr_iff.mpr rfl), bind_assoc]
    exact hleft.down (deleteOne_total hleft hv (by omega))
  · -- two children
    rw [if_neg fun h => hr (hr_iff.mp h), bind_assoc]
    refine hright.down ?_
    obtain ⟨z, hz⟩ : ∃ z, r.root? = some z :=
      Option.ne_none_iff_exists'.mp fun hnone => hr (RBTree.root?_eq_none.mp hnone)
    rw [hz, Option.getD_some, bind_assoc]
    refine Exec.Total.bind (nodeMin_total fuel (by omega) hsr hz) fun y σ₁ hmin => ?_
    obtain ⟨rfl, j, c', t, rfl, hj⟩ := hmin
    have hplug : plug k (.node c l x (plug j (.node c' .nil y t))) =
        plug (j ++ ⟨.right, c, x, l⟩ :: k) (.join .right c' y t .nil) := by
      rw [plug_append]
      rfl
    rw [hplug] at hs hv ⊢
    rw [bind_assoc]
    refine hs.down (deleteTwo_total hs hv hj ?_)
    have hnodes := length_le_nodes (j ++ ⟨.right, c, x, l⟩ :: k)
    have hlen' :=
      (toList_plug_perm (j ++ ⟨.right, c, x, l⟩ :: k) (.join .right c' y t .nil)).length_eq
    rw [← hplug, List.length_append] at hlen'
    omega

end Rbtree

end GfwProxy
