import Mathlib.Data.List.Nodup

set_option autoImplicit false

/-!
# Red-black trees with a hole

Red-black trees over any type, and the trees in which one subtree is missing.  The fix-ups of an
insertion and of a deletion are relations between such a tree with a hole, the subtree in the hole,
and the tree that comes out.

## Main definitions

* `RedBlack.RBTree` — trees with a colour at each node; `RedBlack.RBTree.join` builds a node from
  its child in one direction and the other one, so that mirrored cases are one case.
* `RedBlack.RBTree.Balanced n`, `RedBlack.RBTree.Valid` — the invariant.
* `RedBlack.Frame`, `RedBlack.plug` — the path from the hole up to the root.
* `RedBlack.InsertFix`, `RedBlack.DeleteFix` — the fix-ups.

## Main results

* `RedBlack.balanced_plug` — a tree is balanced exactly if the subtree fits into the rest of it.
* `RedBlack.InsertFix.valid`, `RedBlack.DeleteFix.valid` — the fix-ups make a valid tree.
* `RedBlack.InsertFix.toList`, `RedBlack.DeleteFix.toList` — they keep the order.

## Design

The parent of the root counts as red (`RedBlack.slot`).  With this convention the root is black for
the same reason for which no red node has a red child.
-/

namespace RedBlack

/-- The direction of a child. -/
inductive Dir
  | left
  | right
  deriving DecidableEq, Repr

/-- The other direction. -/
def Dir.flip : Dir → Dir
  | left => right
  | right => left

/-- Both directions turned round. -/
@[simp] lemma Dir.flip_flip (d : Dir) : d.flip.flip = d := by
  cases d <;> rfl

/-- There are two directions. -/
lemma Dir.eq_flip_of_ne {d e : Dir} (h : e ≠ d) : e = d.flip := by
  cases d <;> cases e <;> first | rfl | exact absurd rfl h

/-- A binary tree with a colour at each node. -/
inductive RBTree (α : Type)
  | nil
  | node (red : Bool) (l : RBTree α) (x : α) (r : RBTree α)
  deriving Repr

namespace RBTree

variable {α : Type}

/-- The values in order. -/
def toList : RBTree α → List α
  | nil => []
  | node _ l x r => l.toList ++ x :: r.toList

/-- The value at the root. -/
def root? : RBTree α → Option α
  | nil => none
  | node _ _ x _ => some x

/-- Whether the root is red.  The empty tree is black. -/
def red : RBTree α → Bool
  | nil => false
  | node c _ _ _ => c

/-- The tree with another colour at the root. -/
def paint (c : Bool) : RBTree α → RBTree α
  | nil => nil
  | node _ l x r => node c l x r

/-- The node with child `t` in direction `d`, and the other child `s`. -/
def join (d : Dir) (c : Bool) (x : α) (t s : RBTree α) : RBTree α :=
  match d with
  | .left => node c t x s
  | .right => node c s x t

/-- No red node has a red child, and there are `n` black nodes on each path from the root to an
empty tree. -/
def Balanced : ℕ → RBTree α → Prop
  | n, nil => n = 0
  | n, node c l _ r => (c = true → l.red = false ∧ r.red = false) ∧
      ∃ m, n = m + (if c then 0 else 1) ∧ Balanced m l ∧ Balanced m r

/-- A red-black tree. -/
def Valid (t : RBTree α) : Prop := t.red = false ∧ ∃ n, t.Balanced n

section Join

variable {d : Dir} {c : Bool} {x : α} {t s : RBTree α} {n : ℕ}

/-- The subtrees of a node in the other order. -/
lemma join_flip (d : Dir) (c : Bool) (x : α) (t s : RBTree α) :
    join d.flip c x t s = join d c x s t := by
  cases d <;> rfl

/-- The root of a tree. -/
@[simp] lemma root?_join : (join d c x t s).root? = some x := by
  cases d <;> rfl

/-- The colour of a root. -/
@[simp] lemma red_join : (join d c x t s).red = c := by
  cases d <;> rfl

/-- The root is painted. -/
@[simp] lemma paint_join (c' : Bool) : (join d c x t s).paint c' = join d c' x t s := by
  cases d <;> rfl

/-- Painting keeps the root. -/
@[simp] lemma root?_paint (c' : Bool) (t : RBTree α) : (t.paint c').root? = t.root? := by
  cases t <;> rfl

/-- Painting keeps the nodes in order. -/
@[simp] lemma toList_paint (c' : Bool) (t : RBTree α) : (t.paint c').toList = t.toList := by
  cases t <;> rfl

/-- A tree that was painted black is black. -/
@[simp] lemma red_paint_false (t : RBTree α) : (t.paint false).red = false := by
  cases t <;> rfl

/-- A black tree is not changed. -/
lemma paint_false_of_black (h : t.red = false) : t.paint false = t := by
  cases t with
  | nil => rfl
  | node c l x r =>
    have hc : c = false := h
    rw [hc]
    rfl

/-- A tree that is not empty has a child in each direction. -/
lemma exists_join (d : Dir) (h : t ≠ nil) : ∃ x a b, t = join d t.red x a b := by
  cases t with
  | nil => exact absurd rfl h
  | node c l x r =>
    cases d with
    | left => exact ⟨x, l, r, rfl⟩
    | right => exact ⟨x, r, l, rfl⟩

/-- A node is not the empty tree. -/
lemma join_ne_nil : join d c x t s ≠ nil := by
  cases d <;> exact fun h => by cases h

/-- The nodes of a tree. -/
lemma mem_join {y : α} : y ∈ (join d c x t s).toList ↔ y = x ∨ y ∈ t.toList ∨ y ∈ s.toList := by
  cases d with
  | left =>
    show y ∈ t.toList ++ x :: s.toList ↔ _
    simp only [List.mem_append, List.mem_cons]
    tauto
  | right =>
    show y ∈ s.toList ++ x :: t.toList ↔ _
    simp only [List.mem_append, List.mem_cons]
    tauto

/-- The nodes of a tree, in either direction. -/
lemma toList_join_perm (d : Dir) (c : Bool) (x : α) (t s : RBTree α) :
    (join d c x t s).toList.Perm (x :: (t.toList ++ s.toList)) := by
  cases d with
  | left => exact List.perm_middle
  | right => exact List.perm_middle.trans (List.perm_append_comm.cons x)

/-- Only the empty tree has no root. -/
lemma root?_eq_none : t.root? = none ↔ t = nil := by
  cases t <;> simp [root?]

/-- The root is a node of the tree. -/
lemma root?_mem {y : α} (h : y ∈ t.root?) : y ∈ t.toList := by
  cases t with
  | nil => exact absurd h (Option.not_mem_none y)
  | node c l x r =>
    obtain rfl := Option.some.inj h
    exact List.mem_append_right _ List.mem_cons_self

/-- A balanced tree has balanced subtrees of one height, black ones below a red root. -/
lemma balanced_join : (join d c x t s).Balanced n ↔ (c = true → t.red = false ∧ s.red = false) ∧
    ∃ m, n = m + (if c then 0 else 1) ∧ t.Balanced m ∧ s.Balanced m := by
  cases d with
  | left => rfl
  | right =>
    show (c = true → s.red = false ∧ t.red = false) ∧
      (∃ m, n = m + (if c then 0 else 1) ∧ s.Balanced m ∧ t.Balanced m) ↔ _
    simp only [and_comm]

/-- A balanced tree with a red root. -/
@[simp] lemma balanced_red : (join d true x t s).Balanced n ↔
    t.red = false ∧ s.red = false ∧ t.Balanced n ∧ s.Balanced n := by
  rw [balanced_join]
  simp [and_assoc]

/-- A balanced tree with a black root. -/
@[simp] lemma balanced_black :
    (join d false x t s).Balanced (n + 1) ↔ t.Balanced n ∧ s.Balanced n := by
  rw [balanced_join]
  simp

/-- A red tree that is painted black has one more black node on each path. -/
lemma Balanced.paint_red (h : t.Balanced n) (hr : t.red = true) :
    (t.paint false).Balanced (n + 1) := by
  cases t with
  | nil => cases hr
  | node c l x r =>
    have hc : c = true := hr
    subst hc
    obtain ⟨-, m, hm, hl, hr⟩ := h
    obtain rfl : n = m := hm
    exact ⟨fun h => absurd h Bool.false_ne_true, n, rfl, hl, hr⟩

/-- Painting the root black keeps the balance. -/
lemma Balanced.paint_false (h : t.Balanced n) : ∃ m, (t.paint false).Balanced m := by
  by_cases hr : t.red = true
  · exact ⟨n + 1, h.paint_red hr⟩
  · rw [paint_false_of_black (Bool.eq_false_iff.mpr hr)]
    exact ⟨n, h⟩

/-- A balanced tree with its root painted black is a red-black tree. -/
lemma Balanced.valid (h : t.Balanced n) : (t.paint false).Valid :=
  ⟨red_paint_false t, h.paint_false⟩

/-- A tree with a black node on each path is not empty. -/
lemma Balanced.ne_nil (h : t.Balanced (n + 1)) : t ≠ nil := by
  rintro rfl
  exact absurd h n.succ_ne_zero

end Join

end RBTree

open RedBlack.RBTree

/-- A node above the hole: the direction of the hole, the colour, the value, and the other child. -/
structure Frame (α : Type) where
  dir : Dir
  red : Bool
  val : α
  sib : RBTree α

variable {α : Type}

/-- The tree with subtree `t` in the hole under the frames, innermost first. -/
def plug : List (Frame α) → RBTree α → RBTree α
  | [], t => t
  | f :: k, t => plug k (join f.dir f.red f.val t f.sib)

/-- Whether the subtree in the hole has to be black. -/
def slot : List (Frame α) → Bool
  | [] => true
  | f :: _ => f.red

/-- A subtree with `n` black nodes on each path fits into the hole of a tree with `N`. -/
def Fits (N : ℕ) : List (Frame α) → ℕ → Prop
  | [], n => n = N
  | f :: k, n => f.sib.Balanced n ∧ (f.red = true → f.sib.red = false ∧ slot k = false) ∧
      Fits N k (n + if f.red then 0 else 1)

/-- The values outside the hole. -/
def nodes : List (Frame α) → List α
  | [] => []
  | f :: k => f.val :: (f.sib.toList ++ nodes k)

/-- The values before the hole. -/
def valuesBefore : List (Frame α) → List α
  | [] => []
  | f :: k =>
    match f.dir with
    | .left => valuesBefore k
    | .right => valuesBefore k ++ (f.sib.toList ++ [f.val])

/-- The values behind the hole. -/
def valuesAfter : List (Frame α) → List α
  | [] => []
  | f :: k =>
    match f.dir with
    | .left => f.val :: f.sib.toList ++ valuesAfter k
    | .right => valuesAfter k

section Plug

variable {d : Dir} {c : Bool} {x : α} {t s : RBTree α} {k : List (Frame α)} {f : Frame α} {n N : ℕ}

/-- The nodes of a tree in order: those before the hole, in it and behind it. -/
lemma toList_plug (k : List (Frame α)) (t : RBTree α) :
    (plug k t).toList = valuesBefore k ++ t.toList ++ valuesAfter k := by
  induction k generalizing t with
  | nil => simp [plug, valuesBefore, valuesAfter]
  | cons f k ih =>
    obtain ⟨d, c, x, s⟩ := f
    rw [plug, ih]
    cases d <;> simp [join, valuesBefore, valuesAfter, RBTree.toList]

/-- The nodes of a tree: those in the hole and those around it. -/
lemma toList_plug_perm (k : List (Frame α)) (t : RBTree α) :
    (plug k t).toList.Perm (t.toList ++ nodes k) := by
  induction k generalizing t with
  | nil => exact List.Perm.of_eq (List.append_nil _).symm
  | cons f k ih =>
    have hjoin := (toList_join_perm f.dir f.red f.val t f.sib).append_right (nodes k)
    refine (ih _).trans (hjoin.trans ?_)
    rw [nodes, List.cons_append, List.append_assoc]
    exact List.perm_middle.symm

/-- A hole in a hole. -/
lemma plug_append (j k : List (Frame α)) (t : RBTree α) : plug (j ++ k) t = plug k (plug j t) := by
  induction j generalizing t with
  | nil => rfl
  | cons f j ih => exact ih _

/-- The nodes before a hole in a hole. -/
lemma valuesBefore_append (j k : List (Frame α)) :
    valuesBefore (j ++ k) = valuesBefore k ++ valuesBefore j := by
  induction j with
  | nil => exact (List.append_nil _).symm
  | cons f j ih =>
    obtain ⟨d, c, x, s⟩ := f
    cases d with
    | left => exact ih
    | right =>
      show valuesBefore (j ++ k) ++ (s.toList ++ [x]) =
        valuesBefore k ++ (valuesBefore j ++ (s.toList ++ [x]))
      rw [ih, List.append_assoc]

/-- The nodes behind a hole in a hole. -/
lemma valuesAfter_append (j k : List (Frame α)) :
    valuesAfter (j ++ k) = valuesAfter j ++ valuesAfter k := by
  induction j with
  | nil => rfl
  | cons f j ih =>
    obtain ⟨d, c, x, s⟩ := f
    cases d with
    | left =>
      show x :: s.toList ++ valuesAfter (j ++ k) = (x :: s.toList ++ valuesAfter j) ++ valuesAfter k
      rw [ih, List.append_assoc]
    | right => exact ih

/-- The nodes in the hole and those around it are different. -/
lemma nodup_plug : (plug k t).toList.Nodup ↔
    t.toList.Nodup ∧ (nodes k).Nodup ∧ t.toList.Disjoint (nodes k) := by
  rw [(toList_plug_perm k t).nodup_iff, List.nodup_append']

/-- The nodes of the subtrees are different, and other ones than the root. -/
lemma nodup_join : (join d c x t s).toList.Nodup ↔ (x ∉ t.toList ∧ x ∉ s.toList) ∧
    t.toList.Nodup ∧ s.toList.Nodup ∧ t.toList.Disjoint s.toList := by
  rw [(toList_join_perm d c x t s).nodup_iff, List.nodup_cons, List.nodup_append', List.mem_append,
    not_or]

/-- A node is in the hole or around it. -/
lemma mem_plug_nodes {y : α} : y ∈ (plug k t).toList ↔ y ∈ t.toList ∨ y ∈ nodes k := by
  rw [(toList_plug_perm k t).mem_iff, List.mem_append]

/-- The subtree in the hole may be replaced by one with the same values. -/
lemma toList_plug_congr (h : t.toList = s.toList) : (plug k t).toList = (plug k s).toList := by
  rw [toList_plug, toList_plug, h]

/-- **A tree is balanced exactly if the subtree fits into the rest of it.** -/
theorem balanced_plug : ((plug k t).red = false ∧ (plug k t).Balanced N) ↔
    ∃ n, t.Balanced n ∧ (t.red = true → slot k = false) ∧ Fits N k n := by
  induction k generalizing t with
  | nil =>
    show t.red = false ∧ t.Balanced N ↔ ∃ n, t.Balanced n ∧ (t.red = true → true = false) ∧ n = N
    constructor
    · rintro ⟨hr, hb⟩
      refine ⟨N, hb, fun h => ?_, rfl⟩
      rw [hr] at h
      cases h
    · rintro ⟨n, hb, hr, rfl⟩
      exact ⟨Bool.eq_false_iff.mpr fun h => Bool.noConfusion (hr h), hb⟩
  | cons f k ih =>
    rw [plug, ih]
    simp only [red_join, balanced_join, Fits, slot]
    constructor
    · rintro ⟨n, ⟨hred, m, rfl, ht, hs⟩, hslot, hfits⟩
      refine ⟨m, ht, fun h => ?_, hs, fun hf => ⟨(hred hf).2, hslot hf⟩, hfits⟩
      refine Bool.eq_false_iff.mpr fun hf => ?_
      rw [(hred hf).1] at h
      cases h
    · rintro ⟨m, ht, hblack, hs, hred, hfits⟩
      refine ⟨_, ⟨fun hf => ⟨?_, (hred hf).1⟩, m, rfl, ht, hs⟩, fun hf => (hred hf).2, hfits⟩
      refine Bool.eq_false_iff.mpr fun h => ?_
      rw [hblack h] at hf
      cases hf

/-- A red frame that fits has a black frame above it. -/
lemma Fits.above (h : Fits N (f :: k) n) (hf : f.red = true) :
    ∃ g k', k = g :: k' ∧ g.red = false := by
  have hslot := (h.2.1 hf).2
  cases k with
  | nil => cases hslot
  | cons g k' => exact ⟨g, k', rfl, hslot⟩

/-- The subtree in the hole is balanced and black where it has to be. -/
lemma Fits.balanced (h : Fits N k n) (ht : t.Balanced n) (hr : t.red = true → slot k = false) :
    (plug k t).Balanced N :=
  (balanced_plug.mpr ⟨n, ht, hr, h⟩).2

/-- The value of a frame does not matter. -/
lemma Fits.val {e : Dir} {j : List (Frame α)} (y : α) (h : Fits N (j ++ ⟨e, c, x, s⟩ :: k) n) :
    Fits N (j ++ ⟨e, c, y, s⟩ :: k) n ∧
      slot (j ++ ⟨e, c, y, s⟩ :: k) = slot (j ++ ⟨e, c, x, s⟩ :: k) := by
  induction j generalizing n with
  | nil => exact ⟨h, rfl⟩
  | cons f j ih =>
    obtain ⟨hs, hred, hk⟩ := h
    obtain ⟨hfits, hslot⟩ := ih hk
    exact ⟨⟨hs, fun hf => ⟨(hred hf).1, hslot.trans (hred hf).2⟩, hfits⟩, rfl⟩

/-- Every value of a tree is at the root of a subtree. -/
lemma exists_plug (h : x ∈ t.toList) : ∃ k c l r, t = plug k (node c l x r) := by
  suffices hsuff : ∀ k, ∃ k' c l r, plug k t = plug k' (node c l x r) from hsuff []
  induction t with
  | nil => exact absurd h List.not_mem_nil
  | node c l y r ihl ihr =>
    intro k
    rcases List.mem_append.mp h with hl | hr
    · exact ihl hl (⟨.left, c, y, r⟩ :: k)
    · rcases List.mem_cons.mp hr with rfl | hr
      · exact ⟨k, c, l, r, rfl⟩
      · exact ihr hr (⟨.right, c, y, l⟩ :: k)

end Plug

/-! ## The fix-up of an insertion -/

/-- The fix-up with the red subtree `z` in the hole, and the tree that comes out. -/
inductive InsertFix : RBTree α → List (Frame α) → RBTree α → Prop
  | root (z : RBTree α) : InsertFix z [] (z.paint false)
  | black (z : RBTree α) (f : Frame α) (k : List (Frame α)) (hf : f.red = false) :
      InsertFix z (f :: k) ((plug (f :: k) z).paint false)
  /-- the uncle is red: the red colour moves up to the grandparent -/
  | uncle {z : RBTree α} {d e : Dir} {c : Bool} {p g : α} {s u : RBTree α} {k : List (Frame α)}
      {T : RBTree α} (hu : u.red = true)
      (h : InsertFix (join d true g (join e false p z s) (u.paint false)) k T) :
      InsertFix z (⟨e, true, p, s⟩ :: ⟨d, c, g, u⟩ :: k) T
  /-- the subtree is the inner grandchild: two rotations -/
  | inner (d : Dir) (c : Bool) (x p g : α) (a b s u : RBTree α) (k : List (Frame α))
      (hu : u.red = false) : InsertFix (join d true x a b)
      (⟨d.flip, true, p, s⟩ :: ⟨d, c, g, u⟩ :: k)
        ((plug k (join d false x (join d true p s a) (join d true g b u))).paint false)
  /-- the subtree is the outer grandchild: one rotation -/
  | outer (z : RBTree α) (d : Dir) (c : Bool) (p g : α) (s u : RBTree α) (k : List (Frame α))
      (hu : u.red = false) :
      InsertFix z (⟨d, true, p, s⟩ :: ⟨d, c, g, u⟩ :: k)
        ((plug k (join d false p z (join d true g s u))).paint false)

section InsertFix

variable {z T : RBTree α} {k : List (Frame α)} {n N : ℕ}

/-- **The fix-up of an insertion keeps the order.** -/
theorem InsertFix.toList (h : InsertFix z k T) : T.toList = (plug k z).toList := by
  induction h with
  | root z => rw [toList_paint]; rfl
  | black z f k hf => rw [toList_paint]
  | @uncle z d e c p g s u k T hu h ih =>
    rw [ih, plug, plug]
    refine toList_plug_congr ?_
    cases d <;> cases e <;> simp [join, RBTree.toList]
  | inner d c x p g a b s u k hu =>
    rw [toList_paint, plug, plug]
    refine toList_plug_congr ?_
    cases d <;> simp [join, RBTree.toList, Dir.flip]
  | outer z d c p g s u k hu =>
    rw [toList_paint, plug, plug]
    refine toList_plug_congr ?_
    cases d <;> simp [join, RBTree.toList]

/-- **The fix-up of an insertion makes a red-black tree.**

**Proof sketch.** Induction on the fix-up.  Where it goes on, the grandparent is the root of a red
subtree with as many black nodes on each path as before; where it stops, the subtree in the hole is
black, or its parent is. -/
theorem InsertFix.valid (h : InsertFix z k T) (hb : z.Balanced n) (hfits : Fits N k n) :
    T.Valid := by
  induction h generalizing n with
  | root z => exact hb.valid
  | black z f k hf => exact (hfits.balanced hb fun _ => hf).valid
  | @uncle z d e c p g s u k T hu h ih =>
    obtain ⟨hs, hp, hu', hg, hk⟩ := hfits
    obtain rfl : c = false := (hp rfl).2
    refine ih ?_ hk
    simp only [if_false, Bool.false_eq_true, balanced_red, red_join, red_paint_false,
      balanced_black, true_and]
    exact ⟨⟨hb, hs⟩, hu'.paint_red hu⟩
  | inner d c x p g a b s u k hu =>
    obtain ⟨hs, hp, hu', hg, hk⟩ := hfits
    obtain rfl : c = false := (hp rfl).2
    obtain ⟨ha, hb, hab, hbb⟩ := balanced_red.mp hb
    refine (hk.balanced ?_ fun h => ?_).valid
    · exact balanced_black.mpr ⟨balanced_red.mpr ⟨(hp rfl).1, ha, hs, hab⟩,
        balanced_red.mpr ⟨hb, hu, hbb, hu'⟩⟩
    · rw [red_join] at h
      cases h
  | outer z d c p g s u k hu =>
    obtain ⟨hs, hp, hu', hg, hk⟩ := hfits
    obtain rfl : c = false := (hp rfl).2
    refine (hk.balanced ?_ fun h => ?_).valid
    · exact balanced_black.mpr ⟨hb, balanced_red.mpr ⟨(hp rfl).1, hu, hs, hu'⟩⟩
    · rw [red_join] at h
      cases h

end InsertFix

/-! ## The fix-up of a deletion -/

/-- The fix-up with the subtree `t` in the hole, from whose paths a black node is missing, and the
tree that comes out. -/
inductive DeleteFix : RBTree α → List (Frame α) → RBTree α → Prop
  | root (t : RBTree α) : DeleteFix t [] (t.paint false)
  | red (t : RBTree α) (k : List (Frame α)) (ht : t.red = true) : DeleteFix t k
      (plug k (t.paint false))
  /-- the sibling is red: it becomes the grandparent, and its inner child the sibling -/
  | sibling {t : RBTree α} {d : Dir} {p w : α} {near far : RBTree α} {k : List (Frame α)}
      {T : RBTree α} {c : Bool} (ht : t.red = false)
      (h : DeleteFix t (⟨d, true, p, near⟩ :: ⟨d, false, w, far⟩ :: k) T) :
      DeleteFix t (⟨d, c, p, join d true w near far⟩ :: k) T
  /-- both children of the sibling are black: the missing node moves up to the parent -/
  | recolour {t : RBTree α} {d : Dir} {p w : α} {near far : RBTree α} {k : List (Frame α)}
      {T : RBTree α} {c : Bool} (ht : t.red = false) (hn : near.red = false) (hf : far.red = false)
      (h : DeleteFix (join d c p t (join d true w near far)) k T) :
      DeleteFix t (⟨d, c, p, join d false w near far⟩ :: k) T
  /-- the inner child of the sibling is red: two rotations -/
  | near (t : RBTree α) (d : Dir) (c : Bool) (p w x : α) (a b far : RBTree α) (k : List (Frame α))
      (ht : t.red = false) (hf : far.red = false) :
      DeleteFix t (⟨d, c, p, join d false w (join d true x a b) far⟩ :: k)
        ((plug k (join d c x (join d false p t a) (join d false w b far))).paint false)
  /-- the outer child of the sibling is red: one rotation -/
  | far (t : RBTree α) (d : Dir) (c : Bool) (p w : α) (near far : RBTree α) (k : List (Frame α))
      (ht : t.red = false) (hf : far.red = true) :
      DeleteFix t (⟨d, c, p, join d false w near far⟩ :: k)
        ((plug k (join d c w (join d false p t near) (far.paint false))).paint false)

/-- The subtree `t` has `n` black nodes on each path, or one more once its root is painted black. -/
def Deficit (n : ℕ) (t : RBTree α) : Prop :=
  (t.red = true → (t.paint false).Balanced (n + 1)) ∧ (t.red = false → t.Balanced n)

section DeleteFix

variable {t T : RBTree α} {k : List (Frame α)} {f : Frame α} {n N : ℕ}

/-- A balanced tree, as a subtree that lacks a black node. -/
lemma RBTree.Balanced.deficit (h : t.Balanced n) : Deficit n t :=
  ⟨h.paint_red, fun _ => h⟩

/-- The sibling of a subtree from whose paths a black node is missing is not empty. -/
lemma Fits.sib_ne_nil (h : Fits N (f :: k) (n + 1)) : f.sib ≠ nil :=
  h.1.ne_nil

/-- The grandchildren of a red sibling. -/
lemma Fits.sibling {d : Dir} {c : Bool} {p w : α} {near far : RBTree α}
    (h : Fits N (⟨d, c, p, join d true w near far⟩ :: k) (n + 1)) : c = false ∧
    Fits N (⟨d, true, p, near⟩ :: ⟨d, false, w, far⟩ :: k) (n + 1) := by
  obtain ⟨hb, hred, hk⟩ := h
  obtain ⟨hn, hf, hnb, hfb⟩ := balanced_red.mp hb
  obtain rfl : c = false := by
    refine Bool.eq_false_iff.mpr fun hc => ?_
    have hw := (hred hc).1
    rw [red_join] at hw
    cases hw
  exact ⟨rfl, hnb, fun _ => ⟨hn, rfl⟩, hfb, fun h => absurd h Bool.false_ne_true, hk⟩

/-- The parent of a black sibling with black children, which is painted red. -/
lemma Fits.recolour {d : Dir} {c : Bool} {p w : α} {near far : RBTree α}
    (h : Fits N (⟨d, c, p, join d false w near far⟩ :: k) (n + 1)) (hd : Deficit n t)
    (ht : t.red = false) (hn : near.red = false) (hf : far.red = false) :
    ∃ m, Deficit m (join d c p t (join d true w near far)) ∧ Fits N k (m + 1) := by
  obtain ⟨hb, hred, hk⟩ := h
  obtain ⟨hnb, hfb⟩ := balanced_black.mp hb
  have hw : (join d true w near far).Balanced n := balanced_red.mpr ⟨hn, hf, hnb, hfb⟩
  cases c with
  | true =>
    refine ⟨n, ⟨fun _ => ?_, fun h => ?_⟩, hk⟩
    · rw [paint_join]
      exact balanced_black.mpr ⟨hd.2 ht, hw⟩
    · rw [red_join] at h
      cases h
  | false =>
    refine ⟨n + 1, ⟨fun h => ?_, fun _ => ?_⟩, hk⟩
    · rw [red_join] at h
      cases h
    · exact balanced_black.mpr ⟨hd.2 ht, hw⟩

/-- **The fix-up of a deletion keeps the order.** -/
theorem DeleteFix.toList (h : DeleteFix t k T) : T.toList = (plug k t).toList := by
  induction h with
  | root t => rw [toList_paint]; rfl
  | red t k ht => exact toList_plug_congr (toList_paint false t)
  | @sibling t d p w near far k T c ht h ih =>
    rw [ih, plug, plug, plug]
    refine toList_plug_congr ?_
    cases d <;> simp [join, RBTree.toList]
  | @recolour t d p w near far k T c ht hn hf h ih =>
    rw [ih, plug]
    refine toList_plug_congr ?_
    cases d <;> simp [join, RBTree.toList]
  | near t d c p w x a b far k ht hf =>
    rw [toList_paint, plug]
    refine toList_plug_congr ?_
    cases d <;> simp [join, RBTree.toList]
  | far t d c p w near far k ht hf =>
    rw [toList_paint, plug]
    refine toList_plug_congr ?_
    cases d <;> simp [join, RBTree.toList]

/-- **The fix-up of a deletion makes a red-black tree.**

**Proof sketch.** Induction on the fix-up.  Where it goes on, the black node is missing on the paths
of a larger subtree, or the sibling is black from now on; where it stops, the subtree that takes the
place of the parent has the colour of the parent and the black node that was missing. -/
theorem DeleteFix.valid (h : DeleteFix t k T) (hd : Deficit n t) (hfits : Fits N k (n + 1)) :
    T.Valid := by
  induction h generalizing n with
  | root t =>
    by_cases ht : t.red = true
    · exact ⟨red_paint_false t, n + 1, hd.1 ht⟩
    · exact (hd.2 (Bool.eq_false_iff.mpr ht)).valid
  | red t k ht =>
    have hblack : (t.paint false).red = true → slot k = false := fun h =>
      absurd ((red_paint_false t).symm.trans h) Bool.false_ne_true
    obtain ⟨hr, hb⟩ := balanced_plug.mpr ⟨n + 1, hd.1 ht, hblack, hfits⟩
    exact ⟨hr, N, hb⟩
  | sibling ht h ih => exact ih hd hfits.sibling.2
  | recolour ht hn hf h ih =>
    obtain ⟨m, hm, hk⟩ := hfits.recolour hd ht hn hf
    exact ih hm hk
  | near t d c p w x a b far k ht hf =>
    obtain ⟨hs, hred, hk⟩ := hfits
    obtain ⟨hx, hfb⟩ := balanced_black.mp hs
    obtain ⟨-, -, hab, hbb⟩ := balanced_red.mp hx
    refine (hk.balanced (balanced_join.mpr ⟨fun _ => ⟨red_join, red_join⟩, n + 1, rfl,
      balanced_black.mpr ⟨hd.2 ht, hab⟩, balanced_black.mpr ⟨hbb, hfb⟩⟩) fun h => ?_).valid
    rw [red_join] at h
    exact (hred h).2
  | far t d c p w near far k ht hf =>
    obtain ⟨hs, hred, hk⟩ := hfits
    obtain ⟨hnb, hfb⟩ := balanced_black.mp hs
    refine (hk.balanced (balanced_join.mpr ⟨fun _ => ⟨red_join, red_paint_false far⟩, n + 1, rfl,
      balanced_black.mpr ⟨hd.2 ht, hnb⟩, hfb.paint_red hf⟩) fun h => ?_).valid
    rw [red_join] at h
    exact (hred h).2

end DeleteFix

end RedBlack
