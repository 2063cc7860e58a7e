import Mathlib.Data.Int.Order.Basic
import Mathlib.Data.Nat.Basic
import GfwProxy.Rbtree.Shape

set_option autoImplicit false

/-!
# Insertion into the timeout tree

## Main results

* `GfwProxy.Rbtree.insertFixup_total` — the loop of the fix-up makes the tree that
  `RedBlack.InsertFix` describes.
* `GfwProxy.Rbtree.descend_total` — the search finds the hole behind all keys that are not greater.
* `GfwProxy.Rbtree.rbtreeInsert_total` — an insertion into a sorted red-black tree.
-/

namespace GfwProxy

namespace Rbtree

open RedBlack Exec

variable {σ σ' : Rbtree} {d e : Dir} {c : Bool} {g p x y : NodeId} {r : Option NodeId}
  {s t u z T : RBTree NodeId} {k : List (Frame NodeId)} {f : Frame NodeId}

/-! ## The fix-up -/

/-- The rule of `rbtree_red` and `rbtree_black`. -/
lemma Shape.setRed {α : Type} {S : α → Rbtree → Prop} {R : Unit → Rb α} (hs : Shape σ (plug k t))
    (hx : x ∈ t.root?) (h : ∀ σ', Shape σ' (plug k (t.paint c)) → Keeps σ σ' →
      Exec.Total (R ()) S σ') :
    Exec.Total (setNode x (fun n => { n with red := c }) >>= R) S σ := by
  obtain ⟨hshape, hkeeps⟩ := hs.paint hx c
  exact Total.setNode (h _ hshape hkeeps)

/-- A node is the child of its parent in the direction of its frame. -/
lemma Shape.side (hs : Shape σ (plug (f :: k) t)) (hx : x ∈ t.root?) :
    (if (σ.node f.val).left = some x then Dir.left else .right) = f.dir := by
  obtain ⟨-, -, hchild, hother⟩ := hs.place hx
  cases hd : f.dir with
  | left =>
    rw [hd] at hchild
    exact if_pos hchild
  | right =>
    rw [hd] at hother
    exact if_neg hother

/-- The other child of the node above the hole. -/
lemma plug_sib (k : List (Frame NodeId)) (d : Dir) (c : Bool) (p : NodeId) (t s : RBTree NodeId) :
    plug (⟨d, c, p, s⟩ :: k) t = plug (⟨d.flip, c, p, t⟩ :: k) s := by
  rw [plug, plug, RBTree.join_flip]

/-- The last rotation of a round. -/
lemma insertOuter_total (hs : Shape σ (plug (⟨d, true, p, s⟩ :: ⟨d, c, g, u⟩ :: k) z))
    (hx : x ∈ z.root?) :
    Exec.Total (rbtreeInsertOuter d x) (fun y σ' => y = x ∧
      Shape σ' (plug (⟨d, false, p, .join d true g s u⟩ :: k) z) ∧ Keeps σ σ') σ := by
  unfold rbtreeInsertOuter
  refine hs.up hx ?_
  have hp : Shape σ (plug (⟨d, c, g, u⟩ :: k) (.join d true p z s)) := hs
  refine hp.setRed RBTree.root?_join fun σ₁ hs₁ hk₁ => ?_
  rw [RBTree.paint_join] at hs₁
  refine hs₁.up RBTree.root?_join ?_
  have hg : Shape σ₁ (plug k (.join d c g (.join d false p z s) u)) := hs₁
  refine hg.setRed RBTree.root?_join fun σ₂ hs₂ hk₂ => ?_
  rw [RBTree.paint_join, ← RBTree.join_flip, ← RBTree.join_flip d false] at hs₂
  refine hs₂.rotate fun σ₃ hs₃ hk₃ => Total.pure ⟨rfl, ?_, (hk₁.trans hk₂).trans hk₃⟩
  rwa [RBTree.join_flip, RBTree.join_flip] at hs₃

/-- A round of the fix-up with a red uncle. -/
lemma insertRound_uncle (hs : Shape σ (plug (⟨e, true, p, s⟩ :: ⟨d, c, g, u⟩ :: k) z))
    (hx : x ∈ z.root?) (hu : u.red = true) :
    Exec.Total (rbtreeInsertRound d x) (fun y σ' => y = g ∧
      Shape σ' (plug k (.join d true g (.join e false p z s) (u.paint false))) ∧ Keeps σ σ') σ := by
  unfold rbtreeInsertRound
  refine hs.up hx ?_
  have hp : Shape σ (plug (⟨d, c, g, u⟩ :: k) (.join e true p z s)) := hs
  refine hp.up RBTree.root?_join ?_
  have hg : Shape σ (plug k (.join d c g (.join e true p z s) u)) := hs
  have hg' := hs
  rw [plug, plug_sib] at hg'
  refine hg.down_flip (Total.isRed ?_)
  rw [hg'.red, if_pos hu]
  -- the uncle is a node
  obtain ⟨y, hy⟩ : ∃ y, u.root? = some y := by
    refine Option.ne_none_iff_exists'.mp fun hnone => ?_
    rw [RBTree.root?_eq_none.mp hnone] at hu
    cases hu
  rw [hy]
  refine hp.setRed RBTree.root?_join fun σ₁ hs₁ hk₁ => ?_
  rw [RBTree.paint_join, plug_sib] at hs₁
  refine hs₁.setRed hy fun σ₂ hs₂ hk₂ => ?_
  rw [← plug_sib] at hs₂
  have hg₂ : Shape σ₂ (plug k (.join d c g (.join e false p z s) (u.paint false))) := hs₂
  refine hg₂.setRed RBTree.root?_join fun σ₃ hs₃ hk₃ => ?_
  rw [RBTree.paint_join] at hs₃
  exact Total.pure ⟨rfl, hs₃, (hk₁.trans hk₂).trans hk₃⟩

/-- A round of the fix-up with a black uncle, after which the parent of the node is black. -/
lemma insertRound_black (hs : Shape σ (plug (⟨e, true, p, s⟩ :: ⟨d, c, g, u⟩ :: k) z))
    (hx : x ∈ z.root?) (hz : z.red = true) (hu : u.red = false) :
    Exec.Total (rbtreeInsertRound d x) (fun y σ' => ∃ f z', y ∈ z'.root? ∧ f.red = false ∧
      Shape σ' (plug (f :: k) z') ∧ Keeps σ σ' ∧
      InsertFix z (⟨e, true, p, s⟩ :: ⟨d, c, g, u⟩ :: k) ((plug (f :: k) z').paint false)) σ := by
  unfold rbtreeInsertRound
  refine hs.up hx ?_
  have hp : Shape σ (plug (⟨d, c, g, u⟩ :: k) (.join e true p z s)) := hs
  refine hp.up RBTree.root?_join ?_
  have hg : Shape σ (plug k (.join d c g (.join e true p z s) u)) := hs
  have hg' := hs
  rw [plug, plug_sib] at hg'
  refine hg.down_flip (Total.isRed ?_)
  rw [hg'.red, if_neg (Bool.eq_false_iff.mp hu)]
  unfold rbtreeInsertInner
  rw [bind_assoc]
  refine hs.up hx ?_
  rw [bind_assoc]
  refine Total.getNode ?_
  obtain ⟨-, -, hchild, hother⟩ := hs.place hx
  rcases eq_or_ne e d with rfl | hne
  · -- outer grandchild
    rw [if_neg hother]
    refine (insertOuter_total hs hx).mono fun y σ' hr => ?_
    obtain ⟨rfl, hs', hk'⟩ := hr
    exact ⟨_, z, hx, rfl, hs', hk', .outer z e c p g s u k hu⟩
  · -- inner grandchild
    obtain rfl := Dir.eq_flip_of_ne hne
    rw [if_pos hchild, bind_assoc]
    obtain ⟨x', a, b, hz'⟩ := RBTree.exists_join (t := z) d fun h => by
      rw [h] at hx
      exact absurd hx (Option.not_mem_none x)
    rw [hz] at hz'
    subst hz'
    obtain rfl : x' = x := Option.some.inj (RBTree.root?_join.symm.trans hx)
    rw [RBTree.join_flip] at hp
    refine hp.rotate fun σ₁ hs₁ hk₁ => ?_
    have hs₂ : Shape σ₁ (plug (⟨d, true, x', b⟩ :: ⟨d, c, g, u⟩ :: k) (.join d true p s a)) := hs₁
    refine (insertOuter_total hs₂ RBTree.root?_join).mono fun y σ' hr => ?_
    obtain ⟨rfl, hs', hk'⟩ := hr
    exact ⟨_, _, RBTree.root?_join, rfl, hs', hk₁.trans hk', .inner d c x' y g a b s u k hu⟩

/-- **The loop of the fix-up.**

**Proof sketch.** Induction on the rounds.  A red uncle takes two frames away; with a black uncle
the loop ends in the next round, as it does at the root or under a black parent. -/
theorem insertFixup_total {N n : ℕ} (fuel : ℕ) (hfuel : k.length < fuel) (hs : Shape σ (plug k z))
    (hx : x ∈ z.root?) (hz : z.red = true) (hfits : Fits N k n) :
    Exec.Total (rbtreeInsertFixup fuel x)
      (fun _ σ' => ∃ T, Shape σ' T ∧ InsertFix z k (T.paint false) ∧ Keeps σ σ') σ := by
  have hblack : ∀ {σ : Rbtree} {f : Frame NodeId} {k : List (Frame NodeId)}
      {z : RBTree NodeId} {x : NodeId} (fuel : ℕ),
      Shape σ (plug (f :: k) z) → x ∈ z.root? → f.red = false →
      Exec.Total (rbtreeInsertFixup (fuel + 1) x) (fun _ σ' => σ' = σ) σ := by
    intro σ f k z x fuel hs hx hf
    unfold rbtreeInsertFixup
    refine Exec.Total.get ?_
    rw [if_neg (hs.ne_root hx)]
    refine hs.up hx (Total.isRed ?_)
    have hred : (σ.node f.val).red = false := (rep_plug.mp hs.rep).1.1.trans hf
    rw [hred]
    exact Total.pure rfl
  induction fuel generalizing k z x σ n with
  | zero => exact absurd hfuel (Nat.not_lt_zero _)
  | succ fuel ih =>
    cases k with
    | nil =>
      have hroot : x = σ.root := hs.place hx
      unfold rbtreeInsertFixup
      refine Exec.Total.get ?_
      rw [if_pos hroot]
      exact Total.pure ⟨z, hs, .root z, Keeps.refl σ⟩
    | cons f k =>
      by_cases hf : f.red = true
      · obtain ⟨h, k, rfl, hh⟩ := hfits.above hf
        obtain ⟨e, cf, p, s⟩ := f
        obtain ⟨d, c, g, u⟩ := h
        obtain rfl : cf = true := hf
        obtain ⟨-, -, -, -, hk⟩ := hfits
        unfold rbtreeInsertFixup
        refine Exec.Total.get ?_
        rw [if_neg (hs.ne_root hx)]
        have hp : Shape σ (plug (⟨d, c, g, u⟩ :: k) (.join e true p z s)) := hs
        refine hs.up hx (Total.isRed ?_)
        rw [hp.join.1, if_pos rfl]
        refine hp.up RBTree.root?_join (Total.getNode ?_)
        rw [hp.side RBTree.root?_join]
        by_cases hu : u.red = true
        · refine Exec.Total.bind (insertRound_uncle hs hx hu) fun y σ₁ hr => ?_
          obtain ⟨rfl, hs₁, hk₁⟩ := hr
          have hlen : k.length < fuel := by
            simp only [List.length_cons] at hfuel
            omega
          refine (ih hlen hs₁ RBTree.root?_join RBTree.red_join hk).mono fun _ σ₂ hr => ?_
          obtain ⟨T, hT, hfix, hk₂⟩ := hr
          exact ⟨T, hT, .uncle hu hfix, hk₁.trans hk₂⟩
        · have hu' : u.red = false := Bool.eq_false_iff.mpr hu
          refine Exec.Total.bind (insertRound_black hs hx hz hu') fun y σ₁ hr => ?_
          obtain ⟨f, z', hy, hf', hs₁, hk₁, hfix⟩ := hr
          obtain ⟨fuel, rfl⟩ : ∃ n, fuel = n + 1 := by
            refine Nat.exists_eq_succ_of_ne_zero fun h => ?_
            rw [h] at hfuel
            simp at hfuel
          refine (hblack fuel hs₁ hy hf').mono fun _ σ₂ hr => ?_
          obtain rfl := hr
          exact ⟨_, hs₁, hfix, hk₁⟩
      · have hf' : f.red = false := Bool.eq_false_iff.mpr hf
        refine (hblack fuel hs hx hf').mono fun _ σ' hr => ?_
        obtain rfl := hr
        exact ⟨_, hs, .black z f k hf', Keeps.refl σ'⟩

/-! ## The search -/

/-- The keys do not decrease. -/
def Sorted (σ : Rbtree) (T : RBTree NodeId) : Prop :=
  T.toList.Pairwise fun x y => (σ.node x).key ≤ (σ.node y).key

/-- The hole behind all nodes with a key of at most `key`. -/
def Behind (σ : Rbtree) (key : ℤ) (k : List (Frame NodeId)) : Prop :=
  (∀ y ∈ valuesBefore k, (σ.node y).key ≤ key) ∧ ∀ y ∈ valuesAfter k, key < (σ.node y).key

/-- The search goes on in the left subtree. -/
lemma Behind.left {key : ℤ} {l r : RBTree NodeId} (hb : Behind σ key k)
    (hsorted : Sorted σ (plug k (.node c l x r))) (hkey : key < (σ.node x).key) :
    Behind σ key (⟨.left, c, x, r⟩ :: k) := by
  refine ⟨hb.1, fun y hy => ?_⟩
  rw [Sorted, toList_plug] at hsorted
  have hx := (List.pairwise_append.mp (List.pairwise_append.mp hsorted).1).2.1
  have hxr := (List.pairwise_cons.mp (List.pairwise_append.mp hx).2.1).1
  rcases List.mem_append.mp hy with hy | hy
  · rcases List.mem_cons.mp hy with rfl | hy
    · exact hkey
    · exact lt_of_lt_of_le hkey (hxr y hy)
  · exact hb.2 y hy

/-- The search goes on in the right subtree. -/
lemma Behind.right {key : ℤ} {l r : RBTree NodeId} (hb : Behind σ key k)
    (hsorted : Sorted σ (plug k (.node c l x r))) (hkey : (σ.node x).key ≤ key) :
    Behind σ key (⟨.right, c, x, l⟩ :: k) := by
  refine ⟨fun y hy => ?_, hb.2⟩
  rw [Sorted, toList_plug] at hsorted
  have hx := (List.pairwise_append.mp (List.pairwise_append.mp hsorted).1).2.1
  have hlx := (List.pairwise_append.mp hx).2.2
  rcases List.mem_append.mp hy with hy | hy
  · exact hb.1 y hy
  · rcases List.mem_append.mp hy with hy | hy
    · exact le_trans (hlx y hy x List.mem_cons_self) hkey
    · obtain rfl := List.mem_singleton.mp hy
      exact hkey

/-- **The search** returns the node above a hole behind all keys that are not greater.

**Proof sketch.** Induction on the subtree that the search has come to. -/
theorem descend_total {key : ℤ} (fuel : ℕ) (hfuel : t.toList.length ≤ fuel)
    (hs : Shape σ (plug k t)) (hx : x ∈ t.root?) (hsorted : Sorted σ (plug k t))
    (hb : Behind σ key k) :
    Exec.Total (rbtreeDescend key fuel x) (fun r σ' => σ' = σ ∧ ∃ f k', r = (f.val, f.dir) ∧
      plug k t = plug (f :: k') .nil ∧ Behind σ key (f :: k')) σ := by
  induction t generalizing k x fuel with
  | nil => exact absurd hx (Option.not_mem_none x)
  | node c l z r ihl ihr =>
    obtain rfl : z = x := Option.some.inj hx
    have hlen : l.toList.length + (r.toList.length + 1) ≤ fuel := by
      have hlist : (l.toList ++ z :: r.toList).length ≤ fuel := hfuel
      rwa [List.length_append, List.length_cons] at hlist
    obtain ⟨fuel, rfl⟩ : ∃ n, fuel = n + 1 := Nat.exists_eq_succ_of_ne_zero (by omega)
    unfold rbtreeDescend
    refine Total.getNode ?_
    dsimp only
    by_cases hkey : key < (σ.node z).key
    · have hnext : Shape σ (plug (⟨.left, c, z, r⟩ :: k) l) := hs
      have hdown : Shape σ (plug k (.join .left c z l r)) := hs
      rw [if_pos hkey]
      refine hdown.down (Exec.Total.get ?_)
      cases hl : l.root? with
      | none =>
        obtain rfl := RBTree.root?_eq_none.mp hl
        rw [Option.getD_none, if_pos rfl]
        exact Total.pure ⟨rfl, _, k, rfl, rfl, hb.left hsorted hkey⟩
      | some y =>
        have hy : y ≠ σ.sentinel := hnext.ne_sentinel_of_root hl
        rw [Option.getD_some, if_neg hy]
        exact ihl fuel (by omega) hnext hl hsorted (hb.left hsorted hkey)
    · have hnext : Shape σ (plug (⟨.right, c, z, l⟩ :: k) r) := hs
      have hdown : Shape σ (plug k (.join .right c z r l)) := hs
      rw [if_neg hkey]
      refine hdown.down (Exec.Total.get ?_)
      cases hr : r.root? with
      | none =>
        obtain rfl := RBTree.root?_eq_none.mp hr
        rw [Option.getD_none, if_pos rfl]
        exact Total.pure ⟨rfl, _, k, rfl, rfl, hb.right hsorted (not_lt.mp hkey)⟩
      | some y =>
        have hy : y ≠ σ.sentinel := hnext.ne_sentinel_of_root hr
        rw [Option.getD_some, if_neg hy]
        exact ihr fuel (by omega) hnext hr hsorted (hb.right hsorted (not_lt.mp hkey))

/-! ## The insertion -/

/-- A new node in the hole. -/
lemma Shape.leaf (hs : Shape σ (plug (f :: k) .nil)) (hx : x ∉ (plug (f :: k) .nil).toList)
    (hsx : x ≠ σ.sentinel) (hσ' : σ' = (σ.mod f.val (Rbnode.setChild f.dir (some x))).mod x fun n =>
      { n with
        parent := some f.val
        left := some σ.sentinel
        right := some σ.sentinel
        red := true }) :
    Shape σ' (plug (f :: k) (.node true .nil x .nil)) ∧ Keeps σ σ' := by
  have hmem : ∀ y ∈ nodes (f :: k), y ≠ x := by
    rintro y hy rfl
    exact hx (mem_plug_nodes.mpr (Or.inr hy))
  have hxf : x ≠ f.val := (hmem _ List.mem_cons_self).symm
  have hself : σ'.node x = { σ.node x with
      parent := some f.val, left := some σ.sentinel, right := some σ.sentinel, red := true } := by
    rw [hσ', mod_self, mod_of_ne hxf]
  have hhead : σ'.node f.val = (σ.node f.val).setChild f.dir (some x) := by
    rw [hσ', mod_of_ne hxf.symm, mod_self]
  have hne : ∀ y, y ≠ x → y ≠ f.val → σ'.node y = σ.node y := by
    intro y hyx hyf
    rw [hσ', mod_of_ne hyx, mod_of_ne hyf]
  have hsent : σ'.sentinel = σ.sentinel := by
    rw [hσ', mod_sentinel, mod_sentinel]
  have hfs : f.val ≠ σ.sentinel :=
    hs.ne_sentinel (mem_plug_nodes.mpr (Or.inr List.mem_cons_self))
  have hkeeps : Keeps σ σ' := by
    refine ⟨hsent, hne _ hsx.symm hfs.symm, fun y => ?_⟩
    by_cases hyx : y = x
    · rw [hyx, hself]
    by_cases hyf : y = f.val
    · rw [hyf, hhead, setChild_key]
    · rw [hne y hyx hyf]
  have hlist : (plug (f :: k) (.node true .nil x .nil)).toList.Perm
      (x :: (plug (f :: k) .nil).toList) :=
    (toList_plug_perm (f :: k) (.node true .nil x .nil)).trans
      ((toList_plug_perm (f :: k) .nil).symm.cons x)
  refine ⟨⟨?_, ?_, ?_, ?_, ?_⟩, hkeeps⟩
  · refine rep_plug.mpr ⟨?_, ?_, ?_⟩
    · refine (rep_plug.mp hs.rep).1.refill hsent (fun y hy hyf => hne y (hmem y hy) (hyf f rfl)) ?_
        (nodup_plug.mp hs.nodup).2.1
      rintro _ ⟨⟩
      exact hhead
    · rintro _ ⟨⟩
      rw [hself]
    · refine ⟨by rw [hself], ⟨?_, ?_⟩, ⟨fun y hy => ?_, fun y hy => ?_⟩, trivial, trivial⟩
      · rw [Down, hself, hsent]
        rfl
      · rw [Down, hself, hsent]
        rfl
      · exact absurd hy (Option.not_mem_none y)
      · exact absurd hy (Option.not_mem_none y)
  · have hroot := hs.root
    rw [root?_plug] at hroot ⊢
    rw [hsent, hσ']
    exact hroot
  · refine hlist.nodup_iff.mpr (List.nodup_cons.mpr ⟨hx, hs.nodup⟩)
  · rw [hsent, hlist.mem_iff, List.mem_cons]
    rintro (h | h)
    · exact hsx h.symm
    · exact hs.sentinel h
  · rw [hsent, hkeeps.node]
    exact hs.black

variable (σ') in
/-- A new node in an empty tree. -/
lemma Shape.single (hs : Shape σ .nil) (hsx : x ≠ σ.sentinel)
    (hnode : σ'.node = (σ.mod x fun n => { n with
      parent := none, left := some σ.sentinel, right := some σ.sentinel, red := false }).node)
    (hsent : σ'.sentinel = σ.sentinel) (hroot : σ'.root = x) :
    Shape σ' (.node false .nil x .nil) ∧ Keeps σ σ' := by
  have hself : σ'.node x = { σ.node x with
      parent := none, left := some σ.sentinel, right := some σ.sentinel, red := false } := by
    rw [hnode, mod_self]
  have hne : ∀ y, y ≠ x → σ'.node y = σ.node y := by
    intro y hy
    rw [hnode, mod_of_ne hy]
  have hkeeps : Keeps σ σ' := by
    refine ⟨hsent, hne _ hsx.symm, fun y => ?_⟩
    rcases eq_or_ne y x with rfl | hy
    · rw [hself]
    · rw [hne y hy]
  refine ⟨⟨⟨by rw [hself], ⟨?_, ?_⟩, ⟨?_, ?_⟩, trivial, trivial⟩, hroot,
    List.nodup_singleton x, ?_, ?_⟩, hkeeps⟩
  · rw [Down, hself, hsent]
    rfl
  · rw [Down, hself, hsent]
    rfl
  · exact fun y hy => absurd hy (Option.not_mem_none y)
  · exact fun y hy => absurd hy (Option.not_mem_none y)
  · rw [hsent]
    exact fun h => hsx (List.mem_singleton.mp h).symm
  · rw [hsent, hkeeps.node]
    exact hs.black

/-- There are no more frames than nodes. -/
lemma length_le_nodes (k : List (Frame NodeId)) : k.length ≤ (nodes k).length := by
  induction k with
  | nil => exact le_rfl
  | cons f k ih =>
    simp only [nodes, List.length_cons, List.length_append]
    omega

/-- The root of a tree is painted black. -/
lemma Shape.blackRoot {α : Type} {S : α → Rbtree → Prop} {R : Unit → Rb α} (hs : Shape σ T)
    (hT : T ≠ .nil) (h : ∀ σ', Shape σ' (T.paint false) → Keeps σ σ' → Exec.Total (R ()) S σ') :
    Exec.Total (paintBlack σ.root >>= R) S σ := by
  obtain ⟨y, hy⟩ : ∃ y, T.root? = some y :=
    Option.ne_none_iff_exists'.mp fun hnone => hT (RBTree.root?_eq_none.mp hnone)
  have hroot : σ.root = y := by
    rw [hs.root, hy]
    rfl
  have hplug : Shape σ (plug [] T) := hs
  rw [hroot]
  exact hplug.setRed hy h

/-- What an insertion does to the nodes in order. -/
structure Inserted (σ : Rbtree) (x : NodeId) (T T' : RBTree NodeId) : Prop where
  valid : T'.Valid
  toList : ∃ l r, T.toList = l ++ r ∧ T'.toList = l ++ x :: r ∧
    (∀ y ∈ l, (σ.node y).key ≤ (σ.node x).key) ∧ ∀ y ∈ r, (σ.node x).key < (σ.node y).key

/-- **`rbtree_insert`.**

**Proof sketch.** The search leaves a hole behind all keys that are not greater; the new node in it
is a red subtree that fits in as far as the number of black nodes is concerned. -/
theorem rbtreeInsert_total {fuel : ℕ} (hfuel : T.toList.length < fuel) (hs : Shape σ T)
    (hv : T.Valid) (hsorted : Sorted σ T) (hx : x ∉ T.toList) (hsx : x ≠ σ.sentinel) :
    Exec.Total (rbtreeInsert fuel x)
      (fun _ σ' => ∃ T', Shape σ' T' ∧ Keeps σ σ' ∧ Inserted σ x T T') σ := by
  unfold rbtreeInsert
  refine Exec.Total.get ?_
  cases hroot : T.root? with
  | none =>
    obtain rfl := RBTree.root?_eq_none.mp hroot
    have hempty : σ.root = σ.sentinel := hs.root
    rw [if_pos hempty]
    refine Total.setNode (Total.last (Total.setRoot (Total.pure ?_)))
    obtain ⟨hs', hk'⟩ := hs.single { (σ.mod x fun n => { n with
      parent := none, left := some σ.sentinel, right := some σ.sentinel, red := false }) with
        root := x } hsx rfl rfl rfl
    refine ⟨_, hs', hk', ⟨rfl, 1, by decide, 0, rfl, rfl, rfl⟩, [], [], rfl, rfl, ?_, ?_⟩
    · exact fun y hy => absurd hy List.not_mem_nil
    · exact fun y hy => absurd hy List.not_mem_nil
  | some z =>
    have hroot' : σ.root = z := by
      rw [hs.root, hroot]
      rfl
    have hplug : Shape σ (plug [] T) := hs
    have hz : z ≠ σ.sentinel := hplug.ne_sentinel_of_root hroot
    rw [hroot', if_neg hz]
    unfold rbtreeInsertBelow
    refine Exec.Total.get ?_
    rw [hroot']
    refine Exec.Total.bind (descend_total fuel (le_of_lt hfuel) hplug hroot hsorted
      ⟨fun y hy => absurd hy List.not_mem_nil, fun y hy => absurd hy List.not_mem_nil⟩)
      fun r σ₁ hr => ?_
    obtain ⟨rfl, f, k, rfl, hT, hb⟩ := hr
    obtain rfl : T = plug (f :: k) .nil := hT
    refine Total.setNode (Total.setNode ?_)
    obtain ⟨hs₂, hk₂⟩ := hs.leaf hx hsx rfl
    -- the hole takes a subtree without black nodes
    obtain ⟨hblack, N, hbal⟩ := hv
    obtain ⟨n, hn, -, hfits⟩ := balanced_plug.mp ⟨hblack, hbal⟩
    obtain rfl : n = 0 := hn
    have hlen : (f :: k).length < fuel := by
      have hlist := (toList_plug_perm (f :: k) (.nil : RBTree NodeId)).length_eq
      exact lt_of_le_of_lt (length_le_nodes _) (lt_of_eq_of_lt hlist.symm hfuel)
    refine Exec.Total.bind (insertFixup_total fuel hlen hs₂ rfl rfl hfits) fun _ σ₃ hr => ?_
    obtain ⟨T₃, hs₃, hfix, hk₃⟩ := hr
    have hlist := hfix.toList
    rw [RBTree.toList_paint, toList_plug] at hlist
    have hT₃ : T₃ ≠ .nil := by
      rintro rfl
      simp [RBTree.toList] at hlist
    refine Exec.Total.get (Total.last (hs₃.blackRoot hT₃ fun σ₄ hs₄ hk₄ => Total.pure ?_))
    have hleaf : (RBTree.node true .nil x .nil : RBTree NodeId).Balanced 0 :=
      ⟨fun _ => ⟨rfl, rfl⟩, 0, rfl, rfl, rfl⟩
    refine ⟨_, hs₄, (hk₂.trans hk₃).trans hk₄, hfix.valid hleaf hfits,
      valuesBefore (f :: k), valuesAfter (f :: k), ?_, ?_, hb.1, hb.2⟩
    · rw [toList_plug, RBTree.toList, List.append_nil]
    · rw [RBTree.toList_paint, hlist]
      simp [RBTree.toList]

end Rbtree

end GfwProxy
