import GfwProxy.Rbtree.Tree

set_option autoImplicit false

/-!
# The tree that the links make

What it means that the nodes at their addresses make a tree, and what the statements of the
operations do to it.

## Main definitions

* `GfwProxy.Rbtree.Rep` — the links and colours of the nodes are those of a tree.
* `GfwProxy.Rbtree.Above`, `GfwProxy.Rbtree.Hangs` — the same for a tree with a hole, and for the
  parent link of the node in the hole.
* `GfwProxy.Rbtree.Shape` — the root, the sentinel and the nodes make a tree.
* `GfwProxy.Rbtree.Keeps` — the keys and the sentinel have not changed.
* `GfwProxy.Rbtree.Rotated`, `GfwProxy.Rbtree.Apart` — what a rotation writes, and what it does not.

## Main results

* `GfwProxy.Rbtree.rep_plug` — a tree is a tree with a hole and the subtree in the hole.
* `GfwProxy.Rbtree.Shape.paint`, `GfwProxy.Rbtree.Shape.rotate` — what a change of a colour and a
  rotation do to the tree.

## Design

The parent link of the root is not part of the shape: a deletion leaves it as it was.  An empty
subtree is the sentinel, whose links are not part of the shape either.
-/

namespace GfwProxy

namespace Rbtree

open RedBlack Exec

/-! ## Shapes -/

/-- The child of `x` in direction `d` is the node `r`, or the sentinel if there is none. -/
def Down (σ : Rbtree) (x : NodeId) (d : Dir) (r : Option NodeId) : Prop :=
  (σ.node x).child d = some (r.getD σ.sentinel)

/-- The parent of the node `r` is `x`. -/
def Up (σ : Rbtree) (x : NodeId) (r : Option NodeId) : Prop :=
  ∀ y ∈ r, (σ.node y).parent = some x

/-- The links and colours of the nodes are those of a tree, up to the parent link of its root. -/
def Rep (σ : Rbtree) : RBTree NodeId → Prop
  | .nil => True
  | .node c l x r => (σ.node x).red = c ∧ (Down σ x .left l.root? ∧ Down σ x .right r.root?) ∧
      (Up σ x l.root? ∧ Up σ x r.root?) ∧ Rep σ l ∧ Rep σ r

/-- The parent link of the node `r` in the hole. -/
def Hangs (σ : Rbtree) : List (Frame NodeId) → Option NodeId → Prop
  | [], _ => True
  | f :: _, r => Up σ f.val r

/-- The links and colours of the nodes are those of a tree with a hole, in which there is the node
`r`, up to the parent link of that node. -/
def Above (σ : Rbtree) : List (Frame NodeId) → Option NodeId → Prop
  | [], _ => True
  | f :: k, r => (σ.node f.val).red = f.red ∧
      (Down σ f.val f.dir r ∧ Down σ f.val f.dir.flip f.sib.root?) ∧ Up σ f.val f.sib.root? ∧
      Rep σ f.sib ∧ Hangs σ k (some f.val) ∧ Above σ k (some f.val)

/-- The root, the sentinel and the nodes make the tree `T`. -/
structure Shape (σ : Rbtree) (T : RBTree NodeId) : Prop where
  rep : Rep σ T
  root : σ.root = T.root?.getD σ.sentinel
  nodup : T.toList.Nodup
  sentinel : σ.sentinel ∉ T.toList
  black : (σ.node σ.sentinel).red = false

/-- The keys and the sentinel have not changed. -/
structure Keeps (σ σ' : Rbtree) : Prop where
  sentinel : σ'.sentinel = σ.sentinel
  node : σ'.node σ.sentinel = σ.node σ.sentinel
  key : ∀ y, (σ'.node y).key = (σ.node y).key

/-- The state after an update of node `x`. -/
def mod (σ : Rbtree) (x : NodeId) (g : Rbnode → Rbnode) : Rbtree :=
  { σ with node := Function.update σ.node x (g (σ.node x)) }

variable {σ σ' σ'' : Rbtree} {d e : Dir} {c c' : Bool} {n m x y : NodeId} {r r' : Option NodeId}
  {t s a b u T : RBTree NodeId} {k : List (Frame NodeId)} {f : Frame NodeId}

/-- The root of an updated tree. -/
@[simp] lemma mod_root (σ : Rbtree) (x : NodeId) (g : Rbnode → Rbnode) :
    (σ.mod x g).root = σ.root := rfl

/-- The sentinel of an updated tree. -/
@[simp] lemma mod_sentinel (σ : Rbtree) (x : NodeId) (g : Rbnode → Rbnode) :
    (σ.mod x g).sentinel = σ.sentinel := rfl

/-- The node that was updated. -/
@[simp] lemma mod_self (σ : Rbtree) (x : NodeId) (g : Rbnode → Rbnode) :
    (σ.mod x g).node x = g (σ.node x) := Function.update_self ..

/-- The other nodes are kept. -/
lemma mod_of_ne (h : y ≠ x) (g : Rbnode → Rbnode) : (σ.mod x g).node y = σ.node y :=
  Function.update_of_ne h ..

section Node

variable (q : Rbnode) (l : Option NodeId)

/-- The child that was set. -/
@[simp] lemma setChild_child : (q.setChild d l).child d = l := by
  cases d <;> rfl

/-- The other child is kept. -/
@[simp] lemma setChild_child_flip : (q.setChild d l).child d.flip = q.child d.flip := by
  cases d <;> rfl

/-- The child is kept when the other one is set. -/
@[simp] lemma setChild_flip_child : (q.setChild d.flip l).child d = q.child d := by
  cases d <;> rfl

/-- The parent is kept when a child is set. -/
@[simp] lemma setChild_parent : (q.setChild d l).parent = q.parent := by
  cases d <;> rfl

/-- The key is kept when a child is set. -/
@[simp] lemma setChild_key : (q.setChild d l).key = q.key := by
  cases d <;> rfl

/-- The colour is kept when a child is set. -/
@[simp] lemma setChild_red : (q.setChild d l).red = q.red := by
  cases d <;> rfl

/-- The children are kept when the parent is set. -/
@[simp] lemma parent_child (p : Option NodeId) : ({ q with parent := p }).child d = q.child d := by
  cases d <;> rfl

/-- The children are kept when the colour is set. -/
@[simp] lemma red_child (c : Bool) : ({ q with red := c }).child d = q.child d := by
  cases d <;> rfl

end Node

/-! ## The rules of the statements -/

section Rules

variable {α : Type} {S : α → Rbtree → Prop} {R : NodeId → Rb α}

/-- The rule of an assignment to a node. -/
protected lemma Total.setNode {g : Rbnode → Rbnode} {R : Unit → Rb α}
    (h : Exec.Total (R ()) S (σ.mod x g)) :
    Exec.Total (setNode x g >>= R) S σ := h

/-- The rule of an assignment to the root. -/
protected lemma Total.setRoot {R : Unit → Rb α} (h : Exec.Total (R ()) S { σ with root := x }) :
    Exec.Total (setRoot x >>= R) S σ := h

/-- The rule of reading a node. -/
protected lemma Total.getNode {R : Rbnode → Rb α} (h : Exec.Total (R (σ.node x)) S σ) :
    Exec.Total (getNode x >>= R) S σ := h

/-- The rule of testing a colour. -/
protected lemma Total.isRed {R : Bool → Rb α} (h : Exec.Total (R (σ.node x).red) S σ) :
    Exec.Total (isRed x >>= R) S σ := h

/-- The rule of following a child link, of a node that is not the sentinel. -/
protected lemma Total.down (hx : x ≠ σ.sentinel) (hy : (σ.node x).child d = some y)
    (h : Exec.Total (R y) S σ) : Exec.Total (down d x >>= R) S σ := by
  have hdown : down d x σ = .ok (y, σ) := by
    show (if x = σ.sentinel then throw .sentinel else follow ((σ.node x).child d) : Rb NodeId) σ = _
    rw [if_neg hx, hy]
    rfl
  exact Exec.Total.run hdown h

/-- The rule of following the parent link, of a node that is not the root. -/
protected lemma Total.up (hx : x ≠ σ.root) (hy : (σ.node x).parent = some y)
    (h : Exec.Total (R y) S σ) :
    Exec.Total (up x >>= R) S σ := by
  have hup : up x σ = .ok (y, σ) := by
    show (if x = σ.root then throw .root else follow (σ.node x).parent : Rb NodeId) σ = _
    rw [if_neg hx, hy]
    rfl
  exact Exec.Total.run hup h

/-- The last statement of a computation. -/
protected lemma Total.last {x : Rb α} (h : Exec.Total (x >>= pure) S σ) : Exec.Total x S σ := by
  rwa [bind_pure] at h

end Rules

/-! ## Trees with a hole -/

/-- Nothing has changed. -/
lemma Keeps.refl (σ : Rbtree) : Keeps σ σ := ⟨rfl, rfl, fun _ => rfl⟩

/-- What is kept twice is kept. -/
lemma Keeps.trans (h : Keeps σ σ') (h' : Keeps σ' σ'') : Keeps σ σ'' := by
  refine ⟨h'.sentinel.trans h.sentinel, ?_, fun y => (h'.key y).trans (h.key y)⟩
  rw [← h.node, ← h.sentinel, h'.node]

/-- The shape of a node, by direction. -/
lemma rep_join : Rep σ (.join d c x t s) ↔ (σ.node x).red = c ∧
    (Down σ x d t.root? ∧ Down σ x d.flip s.root?) ∧ (Up σ x t.root? ∧ Up σ x s.root?) ∧
    Rep σ t ∧ Rep σ s := by
  cases d with
  | left => exact Iff.rfl
  | right =>
    show (σ.node x).red = c ∧ (Down σ x .left s.root? ∧ Down σ x .right t.root?) ∧
      (Up σ x s.root? ∧ Up σ x t.root?) ∧ Rep σ s ∧ Rep σ t ↔ _
    rw [@and_comm (Rep σ s), @and_comm (Up σ x s.root?), @and_comm (Down σ x .left s.root?)]
    rfl

/-- **A tree is a tree with a hole and the subtree in the hole.** -/
theorem rep_plug : Rep σ (plug k t) ↔ Above σ k t.root? ∧ Hangs σ k t.root? ∧ Rep σ t := by
  induction k generalizing t with
  | nil => exact ⟨fun h => ⟨trivial, trivial, h⟩, fun h => h.2.2⟩
  | cons f k ih =>
    rw [plug, ih, rep_join]
    simp only [RBTree.root?_join, Above, Hangs]
    tauto

/-- The root of a tree with the node `r` in the hole. -/
def rootAt : List (Frame NodeId) → Option NodeId → Option NodeId
  | [], r => r
  | f :: k, _ => rootAt k (some f.val)

/-- The root of a tree with its hole filled. -/
lemma root?_plug (k : List (Frame NodeId)) (t : RBTree NodeId) :
    (plug k t).root? = rootAt k t.root? := by
  induction k generalizing t with
  | nil => rfl
  | cons f k ih => rw [plug, ih, RBTree.root?_join, rootAt]

/-- The root is a node outside the hole, if there is one. -/
lemma rootAt_mem (f : Frame NodeId) (k : List (Frame NodeId)) (r : Option NodeId) :
    ∃ z ∈ nodes (f :: k), rootAt (f :: k) r = some z := by
  induction k generalizing f r with
  | nil => exact ⟨f.val, List.mem_cons_self, rfl⟩
  | cons g k ih =>
    obtain ⟨z, hz, hroot⟩ := ih g (some f.val)
    exact ⟨z, List.mem_cons_of_mem _ (List.mem_append_right _ hz), hroot⟩

/-- A subtree depends on its own nodes only. -/
lemma Rep.congr (hs : σ'.sentinel = σ.sentinel) (h : ∀ x ∈ t.toList, σ'.node x = σ.node x)
    (hr : Rep σ t) : Rep σ' t := by
  induction t with
  | nil => trivial
  | node c l x r ihl ihr =>
    obtain ⟨hred, ⟨hdl, hdr⟩, ⟨hul, hur⟩, hl, hr⟩ := hr
    have hx : σ'.node x = σ.node x := h x (List.mem_append_right _ List.mem_cons_self)
    have hleft : ∀ y ∈ l.toList, σ'.node y = σ.node y := fun y hy => h y (List.mem_append_left _ hy)
    have hright : ∀ y ∈ r.toList, σ'.node y = σ.node y := fun y hy =>
      h y (List.mem_append_right _ (List.mem_cons_of_mem x hy))
    refine ⟨by rw [hx]; exact hred, ⟨?_, ?_⟩, ⟨fun y hy => ?_, fun y hy => ?_⟩, ihl hleft hl,
      ihr hright hr⟩
    · rw [Down, hx, hs]
      exact hdl
    · rw [Down, hx, hs]
      exact hdr
    · rw [hleft y (RBTree.root?_mem hy)]
      exact hul y hy
    · rw [hright y (RBTree.root?_mem hy)]
      exact hur y hy

/-- The parent link of the root is not part of a tree. -/
lemma Rep.congr_root (hs : σ'.sentinel = σ.sentinel)
    (h : ∀ x ∈ t.toList, x ∉ t.root? → σ'.node x = σ.node x)
    (hroot : ∀ x ∈ t.root?, ∃ p, σ'.node x = { σ.node x with parent := p }) (hn : t.toList.Nodup)
    (hr : Rep σ t) : Rep σ' t := by
  cases t with
  | nil => trivial
  | node c l x r =>
    obtain ⟨hred, ⟨hdl, hdr⟩, ⟨hul, hur⟩, hl, hr⟩ := hr
    obtain ⟨p, hp⟩ := hroot x rfl
    obtain ⟨hnl, hnr, hdisj⟩ := List.nodup_append'.mp hn
    have hxr := (List.nodup_cons.mp hnr).1
    have hne : ∀ y, y ≠ x → y ∉ (RBTree.node c l x r).root? := fun y hy hr =>
      hy (Option.some.inj hr).symm
    have hleft : ∀ y ∈ l.toList, σ'.node y = σ.node y := by
      intro y hy
      refine h y (List.mem_append_left _ hy) (hne y ?_)
      rintro rfl
      exact hdisj hy List.mem_cons_self
    have hright : ∀ y ∈ r.toList, σ'.node y = σ.node y := by
      intro y hy
      refine h y (List.mem_append_right _ (List.mem_cons_of_mem x hy)) (hne y ?_)
      rintro rfl
      exact hxr hy
    refine ⟨by rw [hp]; exact hred, ⟨?_, ?_⟩, ⟨fun y hy => ?_, fun y hy => ?_⟩, hl.congr hs hleft,
      hr.congr hs hright⟩
    · rw [Down, hp, hs]
      exact hdl
    · rw [Down, hp, hs]
      exact hdr
    · rw [hleft y (RBTree.root?_mem hy)]
      exact hul y hy
    · rw [hright y (RBTree.root?_mem hy)]
      exact hur y hy

/-- A tree with a hole depends on its own nodes only. -/
lemma Above.congr (hs : σ'.sentinel = σ.sentinel) (h : ∀ x ∈ nodes k, σ'.node x = σ.node x)
    (hr : Above σ k r) : Above σ' k r := by
  induction k generalizing r with
  | nil => trivial
  | cons f k ih =>
    obtain ⟨hred, ⟨hd, hds⟩, hus, hsib, hhangs, habove⟩ := hr
    have hf : σ'.node f.val = σ.node f.val := h _ List.mem_cons_self
    have hk : ∀ x ∈ nodes k, σ'.node x = σ.node x := fun x hx =>
      h x (List.mem_cons_of_mem _ (List.mem_append_right _ hx))
    have hs' : ∀ x ∈ f.sib.toList, σ'.node x = σ.node x := fun x hx =>
      h x (List.mem_cons_of_mem _ (List.mem_append_left _ hx))
    refine ⟨by rw [hf]; exact hred, ⟨?_, ?_⟩, fun y hy => ?_, hsib.congr hs hs', ?_, ih hk habove⟩
    · rw [Down, hf, hs]
      exact hd
    · rw [Down, hf, hs]
      exact hds
    · rw [hs' y (RBTree.root?_mem hy)]
      exact hus y hy
    · cases k with
      | nil => trivial
      | cons g k =>
        rintro _ ⟨⟩
        rw [hf]
        exact hhangs _ rfl

/-- Another node in the hole. -/
lemma Above.refill (hs : σ'.sentinel = σ.sentinel)
    (h : ∀ x ∈ nodes k, (∀ f ∈ k.head?, x ≠ f.val) → σ'.node x = σ.node x)
    (hhead : ∀ f ∈ k.head?, σ'.node f.val = (σ.node f.val).setChild f.dir
      (some (r'.getD σ.sentinel)))
    (hn : (nodes k).Nodup) (hr : Above σ k r) : Above σ' k r' := by
  cases k with
  | nil => trivial
  | cons f k =>
    obtain ⟨hred, ⟨hd, hds⟩, hus, hsib, hhangs, habove⟩ := hr
    have hf := hhead f rfl
    obtain ⟨hfn, -⟩ := List.nodup_cons.mp hn
    have hne : ∀ x ∈ f.sib.toList ++ nodes k, σ'.node x = σ.node x := by
      intro x hx
      refine h x (List.mem_cons_of_mem _ hx) ?_
      rintro _ ⟨⟩ rfl
      exact hfn hx
    have hs' : ∀ x ∈ f.sib.toList, σ'.node x = σ.node x := fun x hx =>
      hne x (List.mem_append_left _ hx)
    refine ⟨by rw [hf, setChild_red]; exact hred, ⟨?_, ?_⟩, fun y hy => ?_, hsib.congr hs hs', ?_,
      habove.congr hs fun x hx => hne x (List.mem_append_right _ hx)⟩
    · rw [Down, hf, hs, setChild_child]
    · rw [Down, hf, hs, setChild_child_flip]
      exact hds
    · rw [hs' y (RBTree.root?_mem hy)]
      exact hus y hy
    · cases k with
      | nil => trivial
      | cons g k =>
        rintro _ ⟨⟩
        rw [hf, setChild_parent]
        exact hhangs _ rfl

/-! ## What a shape says about the links -/

/-- A node of the tree is not the sentinel. -/
lemma Shape.ne_sentinel (hs : Shape σ T) (hx : x ∈ T.toList) : x ≠ σ.sentinel := by
  rintro rfl
  exact hs.sentinel hx

/-- The root of a subtree is not the sentinel. -/
lemma Shape.ne_sentinel_of_root (hs : Shape σ (plug k t)) (hx : x ∈ t.root?) : x ≠ σ.sentinel :=
  hs.ne_sentinel (mem_plug_nodes.mpr (Or.inl (RBTree.root?_mem hx)))

/-- The links of a node in the tree, by direction. -/
lemma Shape.join (hs : Shape σ (plug k (.join d c x a b))) : (σ.node x).red = c ∧
    (Down σ x d a.root? ∧ Down σ x d.flip b.root?) ∧ (Up σ x a.root? ∧ Up σ x b.root?) ∧
    Rep σ a ∧ Rep σ b :=
  rep_join.mp (rep_plug.mp hs.rep).2.2

/-- A subtree has the colour of the node at its root, also if that is the sentinel. -/
lemma Shape.red (hs : Shape σ (plug k t)) : (σ.node (t.root?.getD σ.sentinel)).red = t.red := by
  cases t with
  | nil => exact hs.black
  | node c l x r => exact (rep_plug.mp hs.rep).2.2.1

/-- The parent of the root of a subtree is the node above. -/
lemma Shape.parent (hs : Shape σ (plug (f :: k) t)) (hx : x ∈ t.root?) :
    (σ.node x).parent = some f.val :=
  (rep_plug.mp hs.rep).2.1 x hx

/-- The root is above a hole that is not at the root. -/
lemma Shape.root_mem (hs : Shape σ (plug (f :: k) t)) : σ.root ∈ nodes (f :: k) := by
  obtain ⟨z, hz, hroot⟩ := rootAt_mem f k t.root?
  rw [hs.root, root?_plug, hroot]
  exact hz

/-- The root of a subtree below a node is not the root. -/
lemma Shape.ne_root (hs : Shape σ (plug (f :: k) t)) (hx : x ∈ t.root?) : x ≠ σ.root := by
  rintro rfl
  exact (nodup_plug.mp hs.nodup).2.2 (RBTree.root?_mem hx) hs.root_mem

/-- The rule of `up` for the node in the hole. -/
lemma Shape.up {α : Type} {S : α → Rbtree → Prop} {R : NodeId → Rb α}
    (hs : Shape σ (plug (f :: k) t)) (hx : x ∈ t.root?) (h : Exec.Total (R f.val) S σ) :
    Exec.Total (Rbtree.up x >>= R) S σ :=
  Total.up (hs.ne_root hx) (hs.parent hx) h

/-- The rule of `down` for the node in the hole. -/
lemma Shape.down {α : Type} {S : α → Rbtree → Prop} {R : NodeId → Rb α}
    (hs : Shape σ (plug k (.join d c x a b))) (h : Exec.Total (R (a.root?.getD σ.sentinel)) S σ) :
    Exec.Total (Rbtree.down d x >>= R) S σ :=
  Total.down (hs.ne_sentinel_of_root RBTree.root?_join) hs.join.2.1.1 h

/-- The rule of following the other child link. -/
lemma Shape.down_flip {α : Type} {S : α → Rbtree → Prop} {R : NodeId → Rb α}
    (hs : Shape σ (plug k (.join d c x a b))) (h : Exec.Total (R (b.root?.getD σ.sentinel)) S σ) :
    Exec.Total (Rbtree.down d.flip x >>= R) S σ :=
  Total.down (hs.ne_sentinel_of_root RBTree.root?_join) hs.join.2.1.2 h

/-- The same nodes make another tree. -/
lemma Shape.of_rep (hs : Shape σ T) (hkeeps : Keeps σ σ') {T' : RBTree NodeId} (hrep : Rep σ' T')
    (hroot : σ'.root = T'.root?.getD σ.sentinel) (hlist : T'.toList.Perm T.toList) :
    Shape σ' T' where
  rep := hrep
  root := by
    rw [hkeeps.sentinel]
    exact hroot
  nodup := hlist.nodup_iff.mpr hs.nodup
  sentinel := by
    rw [hkeeps.sentinel]
    exact fun h => hs.sentinel (hlist.mem_iff.mp h)
  black := by
    rw [hkeeps.sentinel, hkeeps.node]
    exact hs.black

/-! ## Colours -/

/-- **A node changes its colour.** -/
lemma Shape.paint (hs : Shape σ (plug k t)) (hx : x ∈ t.root?) (c : Bool) :
    Shape (σ.mod x fun n => { n with red := c }) (plug k (t.paint c)) ∧
      Keeps σ (σ.mod x fun n => { n with red := c }) := by
  obtain ⟨σ', hσ'⟩ : ∃ σ', (σ.mod x fun n => { n with red := c }) = σ' := ⟨_, rfl⟩
  have hself : σ'.node x = { σ.node x with red := c } := by
    rw [← hσ', mod_self]
  have hne : ∀ y, y ≠ x → σ'.node y = σ.node y := by
    intro y hy
    rw [← hσ', mod_of_ne hy]
  have hsentinel : σ'.sentinel = σ.sentinel := by
    rw [← hσ', mod_sentinel]
  have hroot : σ'.root = σ.root := by
    rw [← hσ', mod_root]
  rw [hσ']
  have hkeeps : Keeps σ σ' := by
    refine ⟨hsentinel, hne _ (hs.ne_sentinel_of_root hx).symm, fun y => ?_⟩
    rcases eq_or_ne y x with rfl | hy
    · rw [hself]
    · rw [hne y hy]
  refine ⟨hs.of_rep hkeeps ?_ ?_ ?_, hkeeps⟩
  · obtain ⟨habove, hhangs, hrep⟩ := rep_plug.mp hs.rep
    obtain ⟨ht, -, hdisj⟩ := nodup_plug.mp hs.nodup
    refine rep_plug.mpr ⟨?_, ?_, ?_⟩
    · rw [RBTree.root?_paint]
      refine habove.congr hsentinel fun y hy => hne y ?_
      rintro rfl
      exact hdisj (RBTree.root?_mem hx) hy
    · cases k with
      | nil => trivial
      | cons f k =>
        intro y hy
        rw [RBTree.root?_paint] at hy
        rw [Option.mem_unique hy hx, hself]
        exact hhangs x hx
    · cases t with
      | nil => trivial
      | node c' l z r =>
        obtain rfl : z = x := Option.some.inj hx
        obtain ⟨hl, hr, hlr⟩ := List.nodup_append'.mp ht
        have hzl : ∀ y ∈ l.toList, σ'.node y = σ.node y := by
          refine fun y hy => hne y ?_
          rintro rfl
          exact hlr hy List.mem_cons_self
        have hzr : ∀ y ∈ r.toList, σ'.node y = σ.node y := by
          refine fun y hy => hne y ?_
          rintro rfl
          exact (List.nodup_cons.mp hr).1 hy
        obtain ⟨-, ⟨hdl, hdr⟩, ⟨hul, hur⟩, hlrep, hrrep⟩ := hrep
        refine ⟨by rw [hself], ⟨?_, ?_⟩, ⟨fun y hy => ?_, fun y hy => ?_⟩,
          hlrep.congr hsentinel hzl, hrrep.congr hsentinel hzr⟩
        · rw [Down, hself, hsentinel]
          exact hdl
        · rw [Down, hself, hsentinel]
          exact hdr
        · rw [hzl y (RBTree.root?_mem hy)]
          exact hul y hy
        · rw [hzr y (RBTree.root?_mem hy)]
          exact hur y hy
  · rw [hroot, root?_plug, RBTree.root?_paint, ← root?_plug]
    exact hs.root
  · exact List.Perm.of_eq (toList_plug_congr (RBTree.toList_paint c t))

/-! ## Taking the place of a node -/

/-- The state after the node `r` got the parent `p`. -/
def adopted (σ : Rbtree) (r : Option NodeId) (p : NodeId) : Rbtree :=
  match r with
  | none => σ
  | some y => σ.mod y fun n => { n with parent := some p }

/-- The state after `y` was put into the hole. -/
def filled (σ : Rbtree) (k : List (Frame NodeId)) (y : NodeId) : Rbtree :=
  match k with
  | [] => { σ with root := y }
  | f :: _ => σ.mod f.val (Rbnode.setChild f.dir (some y))

/-- `x` is the node in the hole, as far as the links above it tell. -/
def Place (σ : Rbtree) (k : List (Frame NodeId)) (x : NodeId) : Prop :=
  match k with
  | [] => x = σ.root
  | f :: _ => x ≠ σ.root ∧ (σ.node x).parent = some f.val ∧ (σ.node f.val).child f.dir = some x ∧
      (σ.node f.val).child f.dir.flip ≠ some x

/-- Setting the parent of a child keeps the sentinel. -/
@[simp] lemma adopted_sentinel (p : NodeId) : (σ.adopted r p).sentinel = σ.sentinel := by
  cases r <;> rfl

/-- Setting the parent of a child keeps the root. -/
@[simp] lemma adopted_root (p : NodeId) : (σ.adopted r p).root = σ.root := by
  cases r <;> rfl

/-- The child has its new parent. -/
lemma adopted_mem (p : NodeId) (h : y ∈ r) :
    (σ.adopted r p).node y = { σ.node y with parent := some p } := by
  obtain rfl : r = some y := h
  exact mod_self σ y fun n => { n with parent := some p }

/-- The other nodes are kept. -/
lemma adopted_of_not_mem (p : NodeId) (h : y ∉ r) : (σ.adopted r p).node y = σ.node y := by
  cases r with
  | none => rfl
  | some z =>
    have hne : y ≠ z := fun hy => h (congrArg some hy.symm)
    exact mod_of_ne hne fun n => { n with parent := some p }

/-- Filling a hole keeps the sentinel. -/
@[simp] lemma filled_sentinel : (σ.filled k y).sentinel = σ.sentinel := by
  cases k <;> rfl

/-- The node above the hole has its new child. -/
lemma filled_head (h : f ∈ k.head?) :
    (σ.filled k y).node f.val = (σ.node f.val).setChild f.dir (some y) := by
  cases k with
  | nil => cases h
  | cons g k =>
    obtain rfl : g = f := Option.some.inj h
    exact mod_self σ _ _

/-- The other nodes are kept. -/
lemma filled_of_ne (h : ∀ f ∈ k.head?, x ≠ f.val) : (σ.filled k y).node x = σ.node x := by
  cases k with
  | nil => rfl
  | cons g k => exact mod_of_ne (h g rfl) _

/-- The place of a node in the hole. -/
lemma Above.place (habove : Above σ k (some x)) (hhangs : Hangs σ k (some x))
    (hroot : σ.root = (rootAt k (some x)).getD σ.sentinel) (hx : x ∉ nodes k)
    (hsx : x ≠ σ.sentinel) : Place σ k x := by
  cases k with
  | nil => exact hroot.symm
  | cons f k =>
    obtain ⟨-, ⟨hd, hds⟩, -, -, -, -⟩ := habove
    refine ⟨?_, hhangs x rfl, hd, ?_⟩
    · obtain ⟨z, hz, hroot'⟩ := rootAt_mem f k (some x)
      rw [hroot, hroot']
      rintro rfl
      exact hx hz
    · rw [hds]
      intro h
      obtain hsib := Option.some.inj h
      cases hz : f.sib.root? with
      | none =>
        rw [hz] at hsib
        exact hsx hsib.symm
      | some z =>
        rw [hz] at hsib
        obtain rfl : z = x := hsib
        exact hx (List.mem_cons_of_mem _ (List.mem_append_left _ (RBTree.root?_mem hz)))

/-- The place of the root of a subtree. -/
lemma Shape.place (hs : Shape σ (plug k t)) (hx : x ∈ t.root?) : Place σ k x := by
  obtain ⟨habove, hhangs, -⟩ := rep_plug.mp hs.rep
  have hroot := hs.root
  have ht : t.root? = some x := hx
  rw [root?_plug, ht] at hroot
  rw [ht] at habove hhangs
  exact habove.place hhangs hroot ((nodup_plug.mp hs.nodup).2.2 (RBTree.root?_mem hx))
    (hs.ne_sentinel_of_root hx)

section Rules

variable {α : Type} {S : α → Rbtree → Prop} {R : Unit → Rb α}

/-- The rule of `adopt`. -/
protected lemma Total.adopt {p : NodeId} (hx : x ≠ σ.sentinel) (hd : Down σ x d r)
    (hr : ∀ y ∈ r, y ≠ σ.sentinel) (h : Exec.Total (R ()) S (σ.adopted r p)) :
    Exec.Total (adopt d x p >>= R) S σ := by
  have hadopt : Rbtree.adopt d x p σ = .ok ((), σ.adopted r p) := by
    unfold Rbtree.adopt
    cases r with
    | none =>
      show (if (σ.node x).child d ≠ some σ.sentinel then _ else return () : Rb Unit) σ = _
      rw [if_neg fun hne => hne hd]
      rfl
    | some y =>
      have hy : (σ.node x).child d = some y := hd
      have hne : (σ.node x).child d ≠ some σ.sentinel := by
        rw [hy]
        exact fun h => hr y rfl (Option.some.inj h)
      show (if (σ.node x).child d ≠ some σ.sentinel then _ else return () : Rb Unit) σ = _
      rw [if_pos hne]
      show (if x = σ.sentinel then throw .sentinel else follow ((σ.node x).child d) : Rb NodeId)
        σ >>= _ = _
      rw [if_neg hx, hy]
      rfl
  exact Exec.Total.run hadopt h

/-- The rule of `relink`. -/
protected lemma Total.relink (hp : Place σ (f :: k) x)
    (h : Exec.Total (R ()) S (σ.filled (f :: k) y)) :
    Exec.Total (relink d x y >>= R) S σ := by
  obtain ⟨hroot, hparent, hchild, hother⟩ := hp
  unfold Rbtree.relink
  rw [bind_assoc]
  refine Total.up hroot hparent ?_
  rw [bind_assoc]
  refine Total.getNode ?_
  rcases eq_or_ne f.dir d with rfl | hne
  · rw [if_pos hchild]
    exact Total.setNode h
  · have hflip := RedBlack.Dir.eq_flip_of_ne hne
    rw [hflip, RedBlack.Dir.flip_flip] at hother
    rw [if_neg hother, ← hflip]
    exact Total.setNode h

/-- The rule of `replace`. -/
protected lemma Total.replace (hp : Place σ k x) (h : Exec.Total (R ()) S (σ.filled k y)) :
    Exec.Total (replace d x y >>= R) S σ := by
  unfold Rbtree.replace
  rw [bind_assoc]
  refine Exec.Total.get ?_
  cases k with
  | nil =>
    have hroot : x = σ.root := hp
    rw [if_pos hroot]
    exact Total.setRoot h
  | cons f k =>
    rw [if_neg hp.1]
    exact Total.relink hp h

end Rules

/-! ## Rotations -/

/-- What a rotation at `n` writes: `m` is the child that becomes its parent, `r` the inner child of
`m`. -/
structure Rotated (σ σ' : Rbtree) (d : Dir) (k : List (Frame NodeId)) (n m : NodeId)
    (r : Option NodeId) : Prop where
  sentinel : σ'.sentinel = σ.sentinel
  root : σ'.root = if k.isEmpty then m else σ.root
  node : σ'.node n =
    { (σ.node n).setChild d.flip (some (r.getD σ.sentinel)) with parent := some m }
  temp : σ'.node m = { (σ.node m).setChild d (some n) with parent := (σ.node n).parent }
  inner : ∀ y ∈ r, σ'.node y = { σ.node y with parent := some n }
  above : ∀ f ∈ k.head?, σ'.node f.val = (σ.node f.val).setChild f.dir (some m)
  others : ∀ y, y ≠ n → y ≠ m → y ∉ r → (∀ f ∈ k.head?, y ≠ f.val) → σ'.node y = σ.node y

/-- The nodes that a rotation writes are different. -/
structure Distinct (k : List (Frame NodeId)) (n m : NodeId) (r : Option NodeId) : Prop where
  ne : n ≠ m
  inner_node : n ∉ r
  inner_temp : m ∉ r
  node : ∀ f ∈ k.head?, n ≠ f.val
  temp : ∀ f ∈ k.head?, m ≠ f.val
  inner : ∀ f ∈ k.head?, f.val ∉ r

/-- The node above the hole is one of the nodes of the tree. -/
lemma head?_val_mem (h : f ∈ k.head?) : f.val ∈ nodes k := by
  cases k with
  | nil => cases h
  | cons g k =>
    obtain rfl : g = f := Option.some.inj h
    exact List.mem_cons_self

/-- The nodes that a rotation touches are distinct. -/
lemma Shape.distinct (hs : Shape σ (plug k (.join d c n a (.join e c' m b u)))) :
    Distinct k n m b.root? := by
  obtain ⟨ht, hk, hdisj⟩ := nodup_plug.mp hs.nodup
  obtain ⟨⟨hna, hnj⟩, ha, hj, haj⟩ := RedBlack.nodup_join.mp ht
  obtain ⟨⟨hmb, -⟩, -, -, -⟩ := RedBlack.nodup_join.mp hj
  have hn : n ∈ (RBTree.join d c n a (.join e c' m b u)).toList := RBTree.mem_join.mpr (Or.inl rfl)
  have hinner : ∀ y, y ∈ (RBTree.join e c' m b u).toList →
      y ∈ (RBTree.join d c n a (.join e c' m b u)).toList := fun y hy =>
    RBTree.mem_join.mpr (Or.inr (Or.inr hy))
  have hm : m ∈ (RBTree.join e c' m b u).toList := RBTree.mem_join.mpr (Or.inl rfl)
  have hb : ∀ y ∈ b.root?, y ∈ (RBTree.join e c' m b u).toList := fun y hy =>
    RBTree.mem_join.mpr (Or.inr (Or.inl (RBTree.root?_mem hy)))
  constructor
  · rintro rfl
    exact hnj hm
  · exact fun h => hnj (hb n h)
  · exact fun h => hmb (RBTree.root?_mem h)
  · rintro f hf rfl
    exact hdisj hn (head?_val_mem hf)
  · rintro f hf rfl
    exact hdisj (hinner _ hm) (head?_val_mem hf)
  · exact fun f hf h => hdisj (hinner _ (hb _ h)) (head?_val_mem hf)

/-- The statements of a rotation. -/
lemma rotate_rotated (hd : Distinct k n m r) (hn : n ≠ σ.sentinel) (hm : m ≠ σ.sentinel)
    (hr : ∀ y ∈ r, y ≠ σ.sentinel) (hchild : (σ.node n).child d.flip = some m)
    (hinner : Down σ m d r) (hp : Place σ k n) :
    Exec.Total (rotate d n) (fun _ σ' => Rotated σ σ' d k n m r) σ := by
  unfold rotate
  refine Total.down hn hchild (Total.getNode (Total.setNode ?_))
  rw [hinner]
  obtain ⟨σ₁, h₁⟩ : ∃ σ₁, σ₁ = σ.mod n (Rbnode.setChild d.flip (some (r.getD σ.sentinel))) :=
    ⟨_, rfl⟩
  have hnode₁ : ∀ y, y ≠ n → σ₁.node y = σ.node y := by
    intro y hy
    rw [h₁, mod_of_ne hy]
  have hn₁ : σ₁.node n = (σ.node n).setChild d.flip (some (r.getD σ.sentinel)) := by
    rw [h₁, mod_self]
  have hs₁ : σ₁.sentinel = σ.sentinel := by
    rw [h₁, mod_sentinel]
  have hr₁ : σ₁.root = σ.root := by
    rw [h₁, mod_root]
  rw [← h₁]
  have hdown₁ : Down σ₁ m d r := by
    rw [Down, hnode₁ m hd.ne.symm, hs₁]
    exact hinner
  refine Total.adopt (by rw [hs₁]; exact hm) hdown₁ (by rw [hs₁]; exact hr) ?_
  obtain ⟨σ₂, h₂⟩ : ∃ σ₂, σ₂ = σ₁.adopted r n := ⟨_, rfl⟩
  have hnode₂ : ∀ y, y ∉ r → σ₂.node y = σ₁.node y := by
    intro y hy
    rw [h₂, adopted_of_not_mem n hy]
  have hinner₂ : ∀ y ∈ r, σ₂.node y = { σ₁.node y with parent := some n } := by
    intro y hy
    rw [h₂, adopted_mem n hy]
  have hs₂ : σ₂.sentinel = σ.sentinel := by
    rw [h₂, adopted_sentinel, hs₁]
  have hr₂ : σ₂.root = σ.root := by
    rw [h₂, adopted_root, hr₁]
  rw [← h₂]
  refine Total.getNode (Total.setNode ?_)
  have hparent : (σ₂.node n).parent = (σ.node n).parent := by
    rw [hnode₂ n hd.inner_node, hn₁, setChild_parent]
  rw [hparent]
  obtain ⟨σ₃, h₃⟩ : ∃ σ₃, σ₃ = σ₂.mod m fun q => { q with parent := (σ.node n).parent } := ⟨_, rfl⟩
  have hnode₃ : ∀ y, y ≠ m → σ₃.node y = σ₂.node y := by
    intro y hy
    rw [h₃, mod_of_ne hy]
  have hm₃ : σ₃.node m = { σ₂.node m with parent := (σ.node n).parent } := by
    rw [h₃, mod_self]
  have hs₃ : σ₃.sentinel = σ.sentinel := by
    rw [h₃, mod_sentinel, hs₂]
  have hr₃ : σ₃.root = σ.root := by
    rw [h₃, mod_root, hr₂]
  rw [← h₃]
  have hhead₃ : ∀ f ∈ k.head?, σ₃.node f.val = σ.node f.val := by
    intro f hf
    rw [hnode₃ _ (hd.temp f hf).symm, hnode₂ _ (hd.inner f hf), hnode₁ _ (hd.node f hf).symm]
  have hplace : Place σ₃ k n := by
    cases k with
    | nil => exact Eq.trans hp hr₃.symm
    | cons f k =>
      have hf := hhead₃ f rfl
      refine ⟨by rw [hr₃]; exact hp.1, ?_, by rw [hf]; exact hp.2.2.1, by rw [hf]; exact hp.2.2.2⟩
      rw [hnode₃ n hd.ne, hparent]
      exact hp.2.1
  refine Total.replace hplace (Total.setNode (Total.last (Total.setNode (Total.pure ?_))))
  -- the node that each address holds in the end
  have hfill : ∀ y, (∀ f ∈ k.head?, y ≠ f.val) → (σ₃.filled k m).node y = σ₃.node y := fun y hy =>
    filled_of_ne hy
  have hm_fill : (σ₃.filled k m).node m = { σ.node m with parent := (σ.node n).parent } := by
    rw [hfill m hd.temp, hm₃, hnode₂ m hd.inner_temp, hnode₁ m hd.ne.symm]
  have hn_fill : (σ₃.filled k m).node n =
      (σ.node n).setChild d.flip (some (r.getD σ.sentinel)) := by
    rw [hfill n hd.node, hnode₃ n hd.ne, hnode₂ n hd.inner_node, hn₁]
  constructor
  · rw [mod_sentinel, mod_sentinel, filled_sentinel, hs₃]
  · rw [mod_root, mod_root]
    cases k with
    | nil => rfl
    | cons f k => exact hr₃
  · rw [mod_self, mod_of_ne hd.ne, hn_fill]
  · rw [mod_of_ne hd.ne.symm, mod_self, hm_fill]
    cases d <;> rfl
  · intro y hy
    have hyn : y ≠ n := fun h => hd.inner_node (h ▸ hy)
    have hym : y ≠ m := fun h => hd.inner_temp (h ▸ hy)
    have hyf : ∀ f ∈ k.head?, y ≠ f.val := fun f hf h => hd.inner f hf (h ▸ hy)
    rw [mod_of_ne hyn, mod_of_ne hym, hfill y hyf, hnode₃ y hym, hinner₂ y hy, hnode₁ y hyn]
  · intro f hf
    rw [mod_of_ne (hd.node f hf).symm, mod_of_ne (hd.temp f hf).symm, filled_head hf, hhead₃ f hf]
  · intro y hyn hym hyr hyf
    rw [mod_of_ne hyn, mod_of_ne hym, hfill y hyf, hnode₃ y hym, hnode₂ y hyr, hnode₁ y hyn]

/-- A rotation leaves the three subtrees below it, but for the parent of the inner one, and the
nodes above it, but for the child of the nearest one, as they are. -/
structure Apart (σ σ' : Rbtree) (k : List (Frame NodeId)) (a b u : RBTree NodeId) : Prop where
  outer : ∀ y ∈ a.toList, σ'.node y = σ.node y
  inner : ∀ y ∈ b.toList, y ∉ b.root? → σ'.node y = σ.node y
  far : ∀ y ∈ u.toList, σ'.node y = σ.node y
  above : ∀ y ∈ nodes k, (∀ f ∈ k.head?, y ≠ f.val) → σ'.node y = σ.node y

/-- The nodes that a rotation does not write. -/
lemma Rotated.apart (hs : Shape σ (plug k (.join d c n a (.join d c' m b u))))
    (hr : Rotated σ σ' d k n m b.root?) : Apart σ σ' k a b u := by
  obtain ⟨ht, hk, hdisj⟩ := nodup_plug.mp hs.nodup
  obtain ⟨⟨hna, hnj⟩, ha, hj, haj⟩ := RedBlack.nodup_join.mp ht
  obtain ⟨⟨hmb, hmu⟩, hb, hu, hbu⟩ := RedBlack.nodup_join.mp hj
  have hmem_a : ∀ y ∈ a.toList, y ∈ (RBTree.join d c n a (.join d c' m b u)).toList := fun y hy =>
    RBTree.mem_join.mpr (Or.inr (Or.inl hy))
  have hmem_j : ∀ y ∈ (RBTree.join d c' m b u).toList,
      y ∈ (RBTree.join d c n a (.join d c' m b u)).toList := fun y hy =>
    RBTree.mem_join.mpr (Or.inr (Or.inr hy))
  have hj_m : m ∈ (RBTree.join d c' m b u).toList := RBTree.mem_join.mpr (Or.inl rfl)
  have hj_b : ∀ y ∈ b.toList, y ∈ (RBTree.join d c' m b u).toList := fun y hy =>
    RBTree.mem_join.mpr (Or.inr (Or.inl hy))
  have hj_u : ∀ y ∈ u.toList, y ∈ (RBTree.join d c' m b u).toList := fun y hy =>
    RBTree.mem_join.mpr (Or.inr (Or.inr hy))
  have hmem_n : n ∈ (RBTree.join d c n a (.join d c' m b u)).toList :=
    RBTree.mem_join.mpr (Or.inl rfl)
  have hhead : ∀ y ∈ (RBTree.join d c n a (.join d c' m b u)).toList, ∀ f ∈ k.head?, y ≠ f.val := by
    rintro y hy f hf rfl
    exact hdisj hy (head?_val_mem hf)
  constructor
  case outer =>
    intro y hy
    refine hr.others y ?_ ?_ (fun h => ?_) (hhead y (hmem_a y hy))
    · rintro rfl
      exact hna hy
    · rintro rfl
      exact haj hy hj_m
    · exact haj hy (hj_b y (RBTree.root?_mem h))
  case far =>
    intro y hy
    refine hr.others y ?_ ?_ (fun h => ?_) (hhead y (hmem_j y (hj_u y hy)))
    · rintro rfl
      exact hnj (hj_u y hy)
    · rintro rfl
      exact hmu hy
    · exact hbu (RBTree.root?_mem h) hy
  case inner =>
    intro y hy hroot
    refine hr.others y ?_ ?_ hroot (hhead y (hmem_j y (hj_b y hy)))
    · rintro rfl
      exact hnj (hj_b y hy)
    · rintro rfl
      exact hmb hy
  case above =>
    intro y hy hyf
    refine hr.others y ?_ ?_ (fun h => ?_) hyf
    · rintro rfl
      exact hdisj hmem_n hy
    · rintro rfl
      exact hdisj (hmem_j y hj_m) hy
    · exact hdisj (hmem_j y (hj_b y (RBTree.root?_mem h))) hy

/-- A rotation changes neither the keys nor the sentinel. -/
lemma Rotated.keeps (hs : Shape σ (plug k (.join d c n a (.join d c' m b u))))
    (hr : Rotated σ σ' d k n m b.root?) : Keeps σ σ' := by
  have hsent : ∀ y ∈ (RBTree.join d c n a (.join d c' m b u)).toList, y ≠ σ.sentinel := fun y hy =>
    hs.ne_sentinel (mem_plug_nodes.mpr (Or.inl hy))
  have hnode : n ≠ σ.sentinel := hsent n (by simp [RBTree.mem_join])
  have htemp : m ≠ σ.sentinel := hsent m (by simp [RBTree.mem_join])
  have hinner : ∀ y ∈ b.root?, y ≠ σ.sentinel := fun y hy =>
    hsent y (by simp [RBTree.mem_join, RBTree.root?_mem hy])
  refine ⟨hr.sentinel, ?_, fun y => ?_⟩
  · refine hr.others _ hnode.symm htemp.symm (fun h => hinner _ h rfl) fun f hf h => ?_
    exact hs.sentinel (h ▸ mem_plug_nodes.mpr (Or.inr (head?_val_mem hf)))
  · by_cases hyn : y = n
    · rw [hyn, hr.node]
      exact setChild_key ..
    by_cases hym : y = m
    · rw [hym, hr.temp]
      exact setChild_key ..
    by_cases hyb : y ∈ b.root?
    · rw [hr.inner y hyb]
    by_cases hyf : ∃ f ∈ k.head?, y = f.val
    · obtain ⟨f, hf, rfl⟩ := hyf
      rw [hr.above f hf]
      exact setChild_key ..
    · rw [hr.others y hyn hym hyb fun f hf h => hyf ⟨f, hf, h⟩]

/-- The links of the rotated tree.

**Proof sketch.** The tree is put together from the parts above and below the two nodes, which are
as they were (`Rotated.apart`), and from the links of the two nodes, which were written. -/
lemma Rotated.rep (hs : Shape σ (plug k (.join d c n a (.join d c' m b u))))
    (hr : Rotated σ σ' d k n m b.root?) :
    Rep σ' (plug k (.join d c' m (.join d c n a b) u)) := by
  obtain ⟨ht, hk, -⟩ := nodup_plug.mp hs.nodup
  obtain ⟨-, -, hj, -⟩ := RedBlack.nodup_join.mp ht
  obtain ⟨-, hb, -, -⟩ := RedBlack.nodup_join.mp hj
  have hapart := hr.apart hs
  obtain ⟨habove, hhangs, hrep⟩ := rep_plug.mp hs.rep
  obtain ⟨hred_n, ⟨hda, hdm⟩, ⟨hua, hum⟩, hrep_a, hrep_j⟩ := rep_join.mp hrep
  obtain ⟨hred_m, ⟨hdb, hdu⟩, ⟨hub, huu⟩, hrep_b, hrep_u⟩ := rep_join.mp hrep_j
  rw [RBTree.root?_join] at hdm hum habove hhangs
  refine rep_plug.mpr ⟨?_, ?_, rep_join.mpr ⟨?_, ⟨?_, ?_⟩, ⟨?_, ?_⟩, rep_join.mpr
    ⟨?_, ⟨?_, ?_⟩, ⟨?_, ?_⟩, ?_, ?_⟩, ?_⟩⟩
  · rw [RBTree.root?_join]
    exact habove.refill hr.sentinel hapart.above hr.above hk
  · cases k with
    | nil => trivial
    | cons f k =>
      rw [RBTree.root?_join]
      rintro _ ⟨⟩
      rw [hr.temp]
      exact hhangs n rfl
  · rw [hr.temp]
    exact (setChild_red ..).trans hred_m
  · rw [RBTree.root?_join, Down, hr.temp, parent_child, setChild_child]
    rfl
  · rw [Down, hr.temp, parent_child, setChild_child_flip, hr.sentinel]
    exact hdu
  · rw [RBTree.root?_join]
    rintro _ ⟨⟩
    rw [hr.node]
  · intro y hy
    rw [hapart.far y (RBTree.root?_mem hy)]
    exact huu y hy
  · rw [hr.node]
    exact (setChild_red ..).trans hred_n
  · rw [Down, hr.node, parent_child, setChild_flip_child, hr.sentinel]
    exact hda
  · rw [Down, hr.node, parent_child, setChild_child, hr.sentinel]
  · intro y hy
    rw [hapart.outer y (RBTree.root?_mem hy)]
    exact hua y hy
  · intro y hy
    rw [hr.inner y hy]
  · exact hrep_a.congr hr.sentinel hapart.outer
  · exact hrep_b.congr_root hr.sentinel hapart.inner (fun y hy => ⟨_, hr.inner y hy⟩) hb
  · exact hrep_u.congr hr.sentinel hapart.far

/-- What a rotation makes of the tree. -/
lemma Rotated.shape (hs : Shape σ (plug k (.join d c n a (.join d c' m b u))))
    (hr : Rotated σ σ' d k n m b.root?) :
    Shape σ' (plug k (.join d c' m (.join d c n a b) u)) ∧ Keeps σ σ' := by
  have hkeeps := hr.keeps hs
  refine ⟨hs.of_rep hkeeps (hr.rep hs) ?_ ?_, hkeeps⟩
  · rw [hr.root, root?_plug, RBTree.root?_join]
    cases k with
    | nil => rfl
    | cons f k =>
      have hroot := hs.root
      rw [root?_plug] at hroot
      exact hroot
  · refine List.Perm.of_eq (toList_plug_congr ?_)
    cases d <;> simp [RBTree.join, RBTree.toList]

/-- **A rotation.** -/
lemma Shape.rotate {α : Type} {S : α → Rbtree → Prop} {R : Unit → Rb α}
    (hs : Shape σ (plug k (.join d c n a (.join d c' m b u))))
    (h : ∀ σ', Shape σ' (plug k (.join d c' m (.join d c n a b) u)) → Keeps σ σ' →
      Exec.Total (R ()) S σ') : Exec.Total (Rbtree.rotate d n >>= R) S σ := by
  obtain ⟨-, ⟨-, hdm⟩, -, -, hj⟩ := hs.join
  obtain ⟨-, ⟨hdb, -⟩, -, -, -⟩ := rep_join.mp hj
  have hmem : ∀ y ∈ (RBTree.join d c' m b u).toList, y ≠ σ.sentinel := fun y hy =>
    hs.ne_sentinel (mem_plug_nodes.mpr (Or.inl (RBTree.mem_join.mpr (Or.inr (Or.inr hy)))))
  have hplace : Place σ k n := hs.place RBTree.root?_join
  refine Exec.Total.bind (rotate_rotated hs.distinct (hs.ne_sentinel_of_root RBTree.root?_join)
    (hmem m (RBTree.mem_join.mpr (Or.inl rfl))) (fun y hy =>
      hmem y (RBTree.mem_join.mpr (Or.inr (Or.inl (RBTree.root?_mem hy))))) ?_ hdb hplace)
    fun _ σ' hr => ?_
  · rw [hdm, RBTree.root?_join]
    rfl
  · obtain ⟨hshape, hkeeps⟩ := hr.shape hs
    exact h σ' hshape hkeeps

end Rbtree

end GfwProxy
