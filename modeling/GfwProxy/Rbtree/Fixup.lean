import GfwProxy.Rbtree.Insert

set_option autoImplicit false

/-!
# The fix-up of a deletion from the timeout tree

## Main definitions

* `GfwProxy.Rbtree.Hung` — the parent link of the node in the hole, or of the sentinel in its place.

## Main results

* `GfwProxy.Rbtree.deleteFixup_total` — the loop of the fix-up makes the tree that
  `RedBlack.DeleteFix` describes.

## Design

The sentinel stands for the empty subtree in the hole, and its parent link is written for the
fix-up.
-/

namespace GfwProxy

namespace Rbtree

open RedBlack Exec

variable {σ σ' : Rbtree} {d : Dir} {c : Bool} {p w x y : NodeId} {r : Option NodeId}
  {a b s t u near far T : RBTree NodeId} {k j : List (Frame NodeId)} {f : Frame NodeId}

/-! ## The hole -/

/-- The node in the hole, or the sentinel in its place, has the parent `p`. -/
def Hung (σ : Rbtree) (p : NodeId) (t : RBTree NodeId) : Prop :=
  (σ.node (t.root?.getD σ.sentinel)).parent = some p

/-- A subtree in a shape hangs on its parent. -/
lemma Shape.hung (hs : Shape σ (plug (f :: k) t)) (ht : t ≠ .nil) : Hung σ f.val t := by
  cases t with
  | nil => exact absurd rfl ht
  | node c l x r => exact hs.parent rfl

/-- What hangs on a node still does in a later shape. -/
lemma Hung.keeps (hh : Hung σ p t) (hk : Keeps σ σ') (hs : Shape σ' (plug (f :: k) t))
    (hf : f.val = p) : Hung σ' p t := by
  cases t with
  | nil =>
    show (σ'.node σ'.sentinel).parent = _
    rw [hk.sentinel, hk.node]
    exact hh
  | node c l x r => exact hf ▸ hs.parent rfl

/-- The node in the hole, or the sentinel in its place, is not the root. -/
lemma Shape.top_ne_root (hs : Shape σ (plug (f :: k) t)) : t.root?.getD σ.sentinel ≠ σ.root := by
  cases ht : t.root? with
  | none =>
    show σ.sentinel ≠ σ.root
    intro h
    exact hs.sentinel (h ▸ mem_plug_nodes.mpr (Or.inr hs.root_mem))
  | some x => exact hs.ne_root ht

/-- The rule of `up` for the hole. -/
lemma Shape.upTop {α : Type} {S : α → Rbtree → Prop} {R : NodeId → Rb α}
    (hs : Shape σ (plug (f :: k) t)) (hh : Hung σ f.val t) (h : Exec.Total (R f.val) S σ) :
    Exec.Total (Rbtree.up (t.root?.getD σ.sentinel) >>= R) S σ :=
  Total.up hs.top_ne_root hh h

/-- The hole is on one side only, if there is a node on the other. -/
lemma Shape.sideTop (hs : Shape σ (plug (f :: k) t)) (hsib : f.sib ≠ .nil) :
    (if (σ.node f.val).left = some (t.root?.getD σ.sentinel) then Dir.left else .right) =
    f.dir := by
  obtain ⟨-, ⟨hd, hds⟩, -, -, -, -⟩ := (rep_plug.mp hs.rep).1
  obtain ⟨y, hy⟩ : ∃ y, f.sib.root? = some y :=
    Option.ne_none_iff_exists'.mp fun hnone => hsib (RBTree.root?_eq_none.mp hnone)
  have hmem : y ∈ nodes (f :: k) :=
    List.mem_cons_of_mem _ (List.mem_append_left _ (RBTree.root?_mem hy))
  have hne : y ≠ t.root?.getD σ.sentinel := by
    cases ht : t.root? with
    | none =>
      rintro rfl
      exact hs.sentinel (mem_plug_nodes.mpr (Or.inr hmem))
    | some x =>
      rintro rfl
      exact (nodup_plug.mp hs.nodup).2.2 (RBTree.root?_mem ht) hmem
  rw [hy] at hds
  cases hdir : f.dir with
  | left =>
    rw [hdir] at hd
    exact if_pos hd
  | right =>
    rw [hdir] at hds
    refine if_neg fun h => hne ?_
    exact Option.some.inj (hds.symm.trans h)

/-- The node in the hole, or the sentinel in its place, is painted black. -/
lemma Shape.blackTop {α : Type} {S : α → Rbtree → Prop} {R : Unit → Rb α} (hs : Shape σ (plug k t))
    (h : ∀ σ', Shape σ' (plug k (t.paint false)) → Keeps σ σ' → Exec.Total (R ()) S σ') :
    Exec.Total (paintBlack (t.root?.getD σ.sentinel) >>= R) S σ := by
  cases ht : t.root? with
  | none =>
    obtain rfl := RBTree.root?_eq_none.mp ht
    refine Total.setNode (h _ ?_ ?_)
    all_goals
      have hsame : (σ.mod σ.sentinel fun n => { n with red := false }) = σ := by
        have hred := hs.black
        unfold mod
        rw [Function.update_eq_self_iff.mpr]
        rw [← hred]
      rw [Option.getD_none, hsame]
    · exact hs
    · exact Keeps.refl σ
  | some x => exact hs.setRed ht h

/-! ## The fix-up -/

/-- The sibling of the hole is red. -/
lemma deleteSibling_red
    (hs : Shape σ (plug (⟨d, c, p, .join d true w near far⟩ :: k) t)) (hh : Hung σ p t) :
    Exec.Total (rbtreeDeleteSibling d (t.root?.getD σ.sentinel))
      (fun y σ' => y = near.root?.getD σ.sentinel ∧
      Shape σ' (plug (⟨d, true, p, near⟩ :: ⟨d, false, w, far⟩ :: k) t) ∧ Hung σ' p t ∧
      Keeps σ σ') σ := by
  unfold rbtreeDeleteSibling
  refine hs.upTop hh ?_
  have hp : Shape σ (plug k (.join d c p t (.join d true w near far))) := hs
  refine hp.down_flip (Total.isRed ?_)
  have hw := hs
  rw [plug_sib] at hw
  rw [hw.red, RBTree.red_join, if_pos rfl, RBTree.root?_join, Option.getD_some]
  refine hw.setRed RBTree.root?_join fun σ₁ hs₁ hk₁ => ?_
  rw [RBTree.paint_join, ← plug_sib] at hs₁
  have hp₁ : Shape σ₁ (plug k (.join d c p t (.join d false w near far))) := hs₁
  refine hp₁.setRed RBTree.root?_join fun σ₂ hs₂ hk₂ => ?_
  rw [RBTree.paint_join] at hs₂
  refine hs₂.rotate fun σ₃ hs₃ hk₃ => ?_
  have hk := (hk₁.trans hk₂).trans hk₃
  have hs' : Shape σ₃ (plug (⟨d, true, p, near⟩ :: ⟨d, false, w, far⟩ :: k) t) := hs₃
  have hh' : Hung σ₃ p t := hh.keeps hk hs' rfl
  rw [← hk.sentinel]
  refine hs'.upTop hh' (Total.last ?_)
  have hp' : Shape σ₃ (plug (⟨d, false, w, far⟩ :: k) (.join d true p t near)) := hs'
  exact hp'.down_flip (Total.pure ⟨rfl, hs', hh', hk⟩)

/-- Whether both children of the node in the hole are black. -/
lemma blackChildren_total {α : Type} {S : α → Rbtree → Prop} {R : Bool → Rb α}
    (hs : Shape σ (plug k (.join d c w near far)))
    (h : Exec.Total (R (!near.red && !far.red)) S σ) :
    Exec.Total (rbtreeBlackChildren w >>= R) S σ := by
  -- the source looks at the left child first
  have hleft : ∀ {a b : RBTree NodeId}, Shape σ (plug k (.join .left c w a b)) →
      Exec.Total (R (!a.red && !b.red)) S σ → Exec.Total (rbtreeBlackChildren w >>= R) S σ := by
    intro a b hs h
    have ha : Shape σ (plug (⟨.left, c, w, b⟩ :: k) a) := hs
    have hb : Shape σ (plug (⟨.right, c, w, a⟩ :: k) b) := hs
    unfold rbtreeBlackChildren
    rw [bind_assoc]
    refine hs.down ?_
    rw [bind_assoc]
    refine Total.isRed ?_
    rw [ha.red]
    cases hred : a.red with
    | true =>
      rw [hred] at h
      exact h
    | false =>
      rw [hred] at h
      rw [if_neg Bool.false_ne_true, bind_assoc]
      refine hs.down_flip ?_
      rw [bind_assoc]
      refine Total.isRed ?_
      rw [hb.red]
      exact h
  cases d with
  | left => exact hleft hs h
  | right =>
    rw [Bool.and_comm] at h
    exact hleft (a := far) (b := near) hs h

/-- The sibling of the hole is black, its outer child too, and its inner child is red. -/
lemma deleteOuter_black {y : NodeId}
    (hs : Shape σ (plug (⟨d, c, p, .join d false w (.join d true y a b) far⟩ :: k) t))
    (hh : Hung σ p t) (hfar : far.red = false) :
    Exec.Total (rbtreeDeleteOuter d (t.root?.getD σ.sentinel) w) (fun z σ' => z = y ∧
      Shape σ' (plug (⟨d, c, p, .join d false y a (.join d true w b far)⟩ :: k) t) ∧ Hung σ' p t ∧
      Keeps σ σ') σ := by
  have hw := hs
  rw [plug_sib] at hw
  have hf := hw
  rw [← RBTree.join_flip] at hf
  have hfar' : Shape σ (plug (⟨d.flip, false, w, .join d true y a b⟩ ::
    ⟨d.flip, c, p, t⟩ :: k) far) := hf
  unfold rbtreeDeleteOuter
  refine hw.down_flip (Total.isRed ?_)
  rw [hfar'.red, hfar, Bool.not_false, if_pos rfl]
  refine hw.down ?_
  rw [RBTree.root?_join, Option.getD_some]
  have hy : Shape σ (plug (⟨d, false, w, far⟩ :: ⟨d.flip, c, p, t⟩ :: k) (.join d true y a b)) := hw
  refine hy.setRed RBTree.root?_join fun σ₁ hs₁ hk₁ => ?_
  rw [RBTree.paint_join] at hs₁
  have hw₁ : Shape σ₁ (plug (⟨d.flip, c, p, t⟩ :: k) (.join d false w (.join d false y a b) far)) :=
    hs₁
  refine hw₁.setRed RBTree.root?_join fun σ₂ hs₂ hk₂ => ?_
  rw [RBTree.paint_join, ← RBTree.join_flip, ← RBTree.join_flip d false] at hs₂
  refine hs₂.rotate fun σ₃ hs₃ hk₃ => ?_
  rw [RBTree.join_flip, RBTree.join_flip, ← plug_sib] at hs₃
  have hk := (hk₁.trans hk₂).trans hk₃
  have hh' := hh.keeps hk hs₃ rfl
  rw [← hk.sentinel]
  refine hs₃.upTop hh' (Total.last ?_)
  have hp' : Shape σ₃ (plug k (.join d c p t (.join d false y a (.join d true w b far)))) := hs₃
  refine hp'.down_flip (Total.pure ⟨?_, hs₃, hh', hk⟩)
  rw [RBTree.root?_join]
  rfl

/-- The outer child of the sibling is red. -/
lemma deleteOuter_red
    (hs : Shape σ (plug (⟨d, c, p, .join d false w near far⟩ :: k) t)) (hfar : far.red = true)
    (x : NodeId) : Exec.Total (rbtreeDeleteOuter d x w) (fun z σ' => z = w ∧ σ' = σ) σ := by
  have hw := hs
  rw [plug_sib] at hw
  have hf := hw
  rw [← RBTree.join_flip] at hf
  have hfar' : Shape σ (plug (⟨d.flip, false, w, near⟩ :: ⟨d.flip, c, p, t⟩ :: k) far) := hf
  unfold rbtreeDeleteOuter
  refine hw.down_flip (Total.isRed ?_)
  rw [hfar'.red, hfar, Bool.not_true, if_neg Bool.false_ne_true]
  exact Total.pure ⟨rfl, rfl⟩

/-- The last rotation of a round. -/
lemma deleteLast_total (hs : Shape σ (plug (⟨d, c, p, .join d false w near far⟩ :: k) t))
    (hh : Hung σ p t) (hfar : far.red = true) :
    Exec.Total (rbtreeDeleteLast d (t.root?.getD σ.sentinel) w) (fun z σ' => z = σ'.root ∧
      Shape σ' (plug k (.join d c w (.join d false p t near) (far.paint false))) ∧ Keeps σ σ')
      σ := by
  unfold rbtreeDeleteLast
  refine hs.upTop hh ?_
  have hp : Shape σ (plug k (.join d c p t (.join d false w near far))) := hs
  have hred : (σ.node p).red = c := hp.join.1
  have hw := hs
  rw [plug_sib] at hw
  unfold copyColor
  rw [bind_assoc]
  refine Total.getNode ?_
  rw [hred]
  refine hw.setRed RBTree.root?_join fun σ₁ hs₁ hk₁ => ?_
  rw [RBTree.paint_join, ← plug_sib] at hs₁
  have hp₁ : Shape σ₁ (plug k (.join d c p t (.join d c w near far))) := hs₁
  refine hp₁.setRed RBTree.root?_join fun σ₂ hs₂ hk₂ => ?_
  rw [RBTree.paint_join, ← RBTree.join_flip] at hs₂
  have hw₂ : Shape σ₂ (plug (⟨d.flip, false, p, t⟩ :: k) (.join d c w near far)) := hs₂
  refine hw₂.down_flip ?_
  -- the outer child is a node
  obtain ⟨y, hy⟩ : ∃ y, far.root? = some y := by
    refine Option.ne_none_iff_exists'.mp fun hnone => ?_
    rw [RBTree.root?_eq_none.mp hnone] at hfar
    cases hfar
  rw [hy, Option.getD_some]
  rw [← RBTree.join_flip] at hw₂
  have hf₂ : Shape σ₂ (plug (⟨d.flip, c, w, near⟩ :: ⟨d.flip, false, p, t⟩ :: k) far) := hw₂
  refine hf₂.setRed hy fun σ₃ hs₃ hk₃ => ?_
  have hp₃ : Shape σ₃ (plug k (.join d.flip false p (.join d.flip c w (far.paint false) near) t)) :=
    hs₃
  rw [RBTree.join_flip, RBTree.join_flip] at hp₃
  refine hp₃.rotate fun σ₄ hs₄ hk₄ => Exec.Total.get (Total.pure ⟨rfl, hs₄, ?_⟩)
  exact ((hk₁.trans hk₂).trans hk₃).trans hk₄

/-- A round with a black sibling: the node moves up to the parent, or the tree is mended and the
next round starts at the root. -/
lemma deleteBlack_total (hs : Shape σ (plug (⟨d, c, p, .join d false w near far⟩ :: k) t))
    (hh : Hung σ p t) (ht : t.red = false) :
    Exec.Total (rbtreeDeleteBlack d (t.root?.getD σ.sentinel) w) (fun z σ' => Keeps σ σ' ∧
      ((z = p ∧ near.red = false ∧ far.red = false ∧
          Shape σ' (plug k (.join d c p t (.join d true w near far)))) ∨
        ∃ T, z = σ'.root ∧ Shape σ' T ∧
          DeleteFix t (⟨d, c, p, .join d false w near far⟩ :: k) (T.paint false))) σ := by
  have hw := hs
  rw [plug_sib] at hw
  unfold rbtreeDeleteBlack
  refine blackChildren_total hw ?_
  by_cases hboth : near.red = false ∧ far.red = false
  · obtain ⟨hn, hf⟩ := hboth
    have hyes : (!near.red && !far.red) = true := by
      rw [hn, hf]
      rfl
    rw [hyes, if_pos rfl]
    refine hw.setRed RBTree.root?_join fun σ₁ hs₁ hk₁ => ?_
    rw [RBTree.paint_join, ← plug_sib] at hs₁
    have hh₁ := hh.keeps hk₁ hs₁ rfl
    rw [← hk₁.sentinel]
    exact Total.last (hs₁.upTop hh₁ (Total.pure ⟨hk₁, Or.inl ⟨rfl, hn, hf, hs₁⟩⟩))
  · have hnot : (!near.red && !far.red) = false := by
      refine Bool.eq_false_iff.mpr fun h => hboth ?_
      simpa using h
    rw [hnot, if_neg Bool.false_ne_true]
    by_cases hf : far.red = true
    · refine Exec.Total.bind (deleteOuter_red hs hf _) fun z σ₁ hr => ?_
      obtain ⟨rfl, rfl⟩ := hr
      refine (deleteLast_total hs hh hf).mono fun z σ' hr => ?_
      obtain ⟨hz, hs', hk'⟩ := hr
      exact ⟨hk', Or.inr ⟨_, hz, hs', .far t d c p _ near far k ht hf⟩⟩
    · have hf' : far.red = false := Bool.eq_false_iff.mpr hf
      have hn : near.red = true := by
        by_contra hn
        exact hboth ⟨Bool.eq_false_iff.mpr hn, hf'⟩
      obtain ⟨y, a, b, hnear⟩ := RBTree.exists_join (t := near) d fun h => by
        rw [h] at hn
        cases hn
      rw [hn] at hnear
      subst hnear
      refine Exec.Total.bind (deleteOuter_black hs hh hf') fun z σ₁ hr => ?_
      obtain ⟨rfl, hs₁, hh₁, hk₁⟩ := hr
      rw [← hk₁.sentinel]
      refine (deleteLast_total hs₁ hh₁ RBTree.red_join).mono fun y σ' hr => ?_
      obtain ⟨hz, hs', hk'⟩ := hr
      rw [RBTree.paint_join] at hs'
      exact ⟨hk₁.trans hk', Or.inr ⟨_, hz, hs',
        .near t d c p w z a b far k ht hf'⟩⟩

/-- The sibling of the hole is black. -/
lemma deleteSibling_black
    (hs : Shape σ (plug (⟨d, c, p, .join d false w near far⟩ :: k) t)) (hh : Hung σ p t) :
    Exec.Total (rbtreeDeleteSibling d (t.root?.getD σ.sentinel))
      (fun y σ' => y = w ∧ σ' = σ) σ := by
  unfold rbtreeDeleteSibling
  refine hs.upTop hh ?_
  have hp : Shape σ (plug k (.join d c p t (.join d false w near far))) := hs
  have hw := hs
  rw [plug_sib] at hw
  refine hp.down_flip (Total.isRed ?_)
  rw [hw.red, RBTree.red_join, if_neg Bool.false_ne_true, RBTree.root?_join]
  exact Total.pure ⟨rfl, rfl⟩

/-- The last round. -/
lemma deleteFixup_exit (fuel : ℕ) (hs : Shape σ (plug k t))
    (hexit : t.root?.getD σ.sentinel = σ.root ∨ t.red = true) :
    Exec.Total (rbtreeDeleteFixup (fuel + 1) (t.root?.getD σ.sentinel))
      (fun _ σ' => Shape σ' (plug k (t.paint false)) ∧ Keeps σ σ') σ := by
  unfold rbtreeDeleteFixup
  refine Exec.Total.get ?_
  have hnot : ¬(t.root?.getD σ.sentinel ≠ σ.root ∧
      (σ.node (t.root?.getD σ.sentinel)).red = false) := by
    rintro ⟨hroot, hred⟩
    rw [hs.red] at hred
    rcases hexit with he | he
    · exact hroot he
    · rw [he] at hred
      cases hred
  rw [if_neg hnot]
  exact Total.last (hs.blackTop fun σ' hs' hk' => Total.pure ⟨hs', hk'⟩)

/-- **The loop of the fix-up.**

**Proof sketch.** Induction on the rounds.  A round with a black sibling takes a frame away or mends
the tree; after a round with a red sibling that does not mend the tree, the parent is red, and the
next round is the last one. -/
theorem deleteFixup_total {N n : ℕ} (fuel : ℕ) (hfuel : (if t.red then 0 else k.length) < fuel)
    (hs : Shape σ (plug k t)) (hh : ∀ f ∈ k.head?, Hung σ f.val t) (hd : Deficit n t)
    (hfits : Fits N k (n + 1)) :
    Exec.Total (rbtreeDeleteFixup fuel (t.root?.getD σ.sentinel))
      (fun _ σ' => ∃ T, DeleteFix t k T ∧ Shape σ' T ∧ Keeps σ σ') σ := by
  induction fuel generalizing k t σ n with
  | zero => exact absurd hfuel (Nat.not_lt_zero _)
  | succ fuel ih =>
    cases ht : t.red with
    | true =>
      refine (deleteFixup_exit fuel hs (Or.inr ht)).mono fun _ σ' hr => ?_
      exact ⟨_, .red t k ht, hr.1, hr.2⟩
    | false =>
      cases k with
      | nil =>
        refine (deleteFixup_exit fuel hs (Or.inl hs.root.symm)).mono fun _ σ' hr => ?_
        exact ⟨_, .root t, hr.1, hr.2⟩
      | cons f k =>
        have hlen : k.length < fuel := by
          rw [ht, if_neg Bool.false_ne_true, List.length_cons] at hfuel
          omega
        -- a round with a black sibling, and the rounds behind it
        have hround : ∀ {σ : Rbtree} {d : Dir} {c : Bool} {p w : NodeId} {near far : RBTree NodeId}
            {k : List (Frame NodeId)},
            Shape σ (plug (⟨d, c, p, .join d false w near far⟩ :: k) t) → Hung σ p t →
            Fits N (⟨d, c, p, .join d false w near far⟩ :: k) (n + 1) →
            (if c then 0 else k.length) < fuel →
            Exec.Total (rbtreeDeleteBlack d (t.root?.getD σ.sentinel) w >>= rbtreeDeleteFixup fuel)
              (fun _ σ' => ∃ T, DeleteFix t (⟨d, c, p, .join d false w near far⟩ :: k) T ∧
                Shape σ' T ∧ Keeps σ σ') σ := by
          intro σ d c p w near far k hs hh hfits hfuel
          refine Exec.Total.bind (deleteBlack_total hs hh ht) fun z σ₁ hr => ?_
          obtain ⟨hk₁, ⟨rfl, hn, hf, hs₁⟩ | ⟨T, rfl, hs₁, hfix⟩⟩ := hr
          · obtain ⟨m, hm, hk⟩ := hfits.recolour hd ht hn hf
            have hroot : (RBTree.join d c z t (.join d true w near far)).root?.getD σ₁.sentinel =
                z := by
              rw [RBTree.root?_join]
              rfl
            have hnext := ih (t := .join d c z t (.join d true w near far))
              (by rw [RBTree.red_join]; exact hfuel) hs₁ (fun f hf => ?_) hm hk
            · rw [hroot] at hnext
              refine hnext.mono fun _ σ₂ hr => ?_
              obtain ⟨T, hT, hs₂, hk₂⟩ := hr
              exact ⟨T, .recolour ht hn hf hT, hs₂, hk₁.trans hk₂⟩
            · cases k with
              | nil => cases hf
              | cons g k =>
                obtain rfl : g = f := Option.some.inj hf
                exact hs₁.hung RBTree.join_ne_nil
          · obtain ⟨fuel, rfl⟩ : ∃ n, fuel = n + 1 := Nat.exists_eq_succ_of_ne_zero (by omega)
            have hplug : Shape σ₁ (plug [] T) := hs₁
            have hexit := deleteFixup_exit fuel hplug (Or.inl hs₁.root.symm)
            rw [← hs₁.root] at hexit
            refine hexit.mono fun _ σ₂ hr => ?_
            exact ⟨_, hfix, hr.1, hk₁.trans hr.2⟩
        have hhung : Hung σ f.val t := hh f rfl
        unfold rbtreeDeleteFixup
        refine Exec.Total.get ?_
        have hred := hs.red
        rw [ht] at hred
        rw [if_pos ⟨hs.top_ne_root, hred⟩]
        refine hs.upTop hhung (Total.getNode ?_)
        rw [hs.sideTop hfits.sib_ne_nil]
        unfold rbtreeDeleteRound
        rw [bind_assoc]
        obtain ⟨w, near, far, hsib⟩ := RBTree.exists_join f.dir hfits.sib_ne_nil
        obtain ⟨d, c, p, s⟩ := f
        dsimp only at hsib hhung ⊢
        cases hw : s.red with
        | false =>
          rw [hw] at hsib
          subst hsib
          refine Exec.Total.bind (deleteSibling_black hs hhung) fun z σ₁ hr => ?_
          obtain ⟨rfl, rfl⟩ := hr
          refine hround hs hhung hfits ?_
          split_ifs
          · omega
          · exact hlen
        | true =>
          rw [hw] at hsib
          subst hsib
          obtain ⟨rfl, hfits'⟩ := hfits.sibling
          refine Exec.Total.bind (deleteSibling_red hs hhung) fun z σ₁ hr => ?_
          obtain ⟨rfl, hs₁, hh₁, hk₁⟩ := hr
          obtain ⟨w', near', far', hnear⟩ := RBTree.exists_join d hfits'.sib_ne_nil
          dsimp only at hnear
          have hblack : near.red = false := (hfits'.2.1 rfl).1
          rw [hblack] at hnear
          subst hnear
          rw [RBTree.root?_join, Option.getD_some, ← hk₁.sentinel]
          refine (hround hs₁ hh₁ hfits' ?_).mono fun _ σ₂ hr => ?_
          · rw [if_pos rfl]
            omega
          · obtain ⟨T, hT, hs₂, hk₂⟩ := hr
            exact ⟨T, .sibling ht hT, hs₂, hk₁.trans hk₂⟩

end Rbtree

end GfwProxy
