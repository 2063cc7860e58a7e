import GfwProxy.Net.Pairing

set_option autoImplicit false

/-!
# Message ids

Every message gets an id of its own.  No message is released twice, and no request is linked to two
responses.

## Main definitions

* `GfwProxy.Ids` — the invariant of the ids.

## Main results

* `GfwProxy.SendMoves.ids` — the moves keep it.

## Design

The log holds the ids of the messages that have been released and linked so far, also of those whose
object is in use again.
-/

namespace GfwProxy

open Function

variable {n n' : Net} {c s : ConnId} {m : MsgId}

/-- The message that was released. -/
def Ev.released : Ev → Option ℕ
  | .release id => some id
  | _ => none

/-- The request that was linked to a response. -/
def Ev.linked : Ev → Option ℕ
  | .link id _ => some id
  | _ => none

/-- The ids of the messages that have been released. -/
def Net.released (n : Net) : List ℕ := n.a.log.filterMap Ev.released

/-- The ids of the requests that have been linked to a response. -/
def Net.linked (n : Net) : List ℕ := n.a.log.filterMap Ev.linked

/-- Message `m` is in use. -/
abbrev Net.Live (n : Net) (m : MsgId) : Prop := n.g.place m ≠ .free

/-- **The invariant of the ids.** -/
structure Ids (n : Net) : Prop where
  le : ∀ m, n.Live m → n.m.id m ≤ n.a.msgId
  inj : ∀ x y, n.Live x → n.Live y → n.m.id x = n.m.id y → x = y
  released : ∀ i ∈ n.released, i ≤ n.a.msgId ∧ ∀ m, n.Live m → n.m.id m ≠ i
  linked : ∀ i ∈ n.linked, i ≤ n.a.msgId ∧ ∀ m, n.Live m → n.m.id m = i → n.m.done m = true
  released_once : n.released.Nodup
  linked_once : n.linked.Nodup

/-- Nothing is allocated, released or linked. -/
structure Net.SameIds (n n' : Net) : Prop where
  live : ∀ m, n'.Live m → n.Live m
  id : ∀ m, n'.Live m → n'.m.id m = n.m.id m
  done : ∀ m, n'.Live m → n.m.done m = true → n'.m.done m = true
  msgId : n.a.msgId ≤ n'.a.msgId
  released : n'.released = n.released
  linked : n'.linked = n.linked

/-- The ids are the same. -/
lemma Ids.frame (hi : Ids n) (h : n.SameIds n') : Ids n' where
  le m hm := by
    rw [h.id m hm]
    exact (hi.le m (h.live m hm)).trans h.msgId
  inj x y hx hy he := by
    rw [h.id x hx, h.id y hy] at he
    exact hi.inj x y (h.live x hx) (h.live y hy) he
  released i hmem := by
    rw [h.released] at hmem
    obtain ⟨hle, hne⟩ := hi.released i hmem
    refine ⟨hle.trans h.msgId, fun m hm => ?_⟩
    rw [h.id m hm]
    exact hne m (h.live m hm)
  linked i hmem := by
    rw [h.linked] at hmem
    obtain ⟨hle, hdone⟩ := hi.linked i hmem
    refine ⟨hle.trans h.msgId, fun m hm he => h.done m hm (hdone m (h.live m hm) ?_)⟩
    rwa [h.id m hm] at he
  released_once := h.released ▸ hi.released_once
  linked_once := h.linked ▸ hi.linked_once

/-- Neither the ids nor the verdicts change, and the log grows by nothing of interest. -/
lemma Ids.same (hi : Ids n) (hp : ∀ m, n'.Live m → n.Live m) (hid : n'.m.id = n.m.id)
    (hd : ∀ m, n.m.done m = true → n'.m.done m = true) (ha : n.a.msgId ≤ n'.a.msgId)
    (hr : n'.released = n.released) (hl : n'.linked = n.linked) : Ids n' :=
  hi.frame ⟨hp, fun m _ => congrFun hid m, fun m _ => hd m, ha, hr, hl⟩

/-- A message in use is put in another place. -/
lemma Ids.move (hi : Ids n) (x : Place) (hm : n.Live m) : Ids (n.move m x) := by
  refine hi.same (fun y hy => ?_) rfl (fun _ => id) le_rfl rfl rfl
  rcases eq_or_ne y m with rfl | hne
  · exact hm
  · simpa [Net.Live, Net.move, hne] using hy

/-- The timers do not matter. -/
lemma Ids.tmoDelete (hi : Ids n) (m : MsgId) : Ids (n.tmoDelete m) := by
  unfold Net.tmoDelete
  split
  · exact hi
  · exact hi.same (fun _ => id) rfl (fun _ => id) le_rfl rfl rfl

/-- Logging and taking a message out of the tree commute. -/
lemma Net.emit_tmoDelete (n : Net) (e : Ev) (m : MsgId) :
    (n.emit e).tmoDelete m = (n.tmoDelete m).emit e := by
  unfold Net.tmoDelete Net.emit
  split <;> rfl

/-- A request is done. -/
lemma Ids.finish (hi : Ids n) (m : MsgId) : Ids (n.finish m) := by
  refine hi.same (fun _ => id) rfl (fun y hy => ?_) le_rfl rfl rfl
  rcases eq_or_ne y m with rfl | hne
  · exact update_self _ _ _
  · simpa [Net.finish, hne] using hy

/-- A fragment is counted. -/
lemma Ids.count (hi : Ids n) (m : MsgId) (b : Bool) : Ids (n.count m b) := by
  unfold Net.count
  split
  · exact hi
  · exact hi.same (fun _ => id) rfl (fun _ => id) le_rfl rfl rfl

/-- A request is in error. -/
lemma Ids.fail (hi : Ids n) (m : MsgId) (b : Bool) : Ids (n.fail m b) :=
  hi.same (fun _ => id) rfl (fun _ => id) le_rfl rfl rfl

/-- A request is done, counted and perhaps in error. -/
lemma Ids.settle (hi : Ids n) (m : MsgId) (b e : Bool) (c : ConnId) :
    Ids ((((n.finish m).count m b).fail m e).setDue c) :=
  (((hi.finish m).count m b).fail m e).same (fun _ => id) rfl (fun _ => id) le_rfl rfl rfl

/-- A message in use is released. -/
lemma Ids.put (hi : Ids n) (hm : n.Live m) : Ids (n.put m) := by
  have hlive : ∀ y, (n.put m).Live y → y ≠ m ∧ n.Live y := by
    intro y hy
    have hne : y ≠ m := by
      rintro rfl
      simp [Net.put] at hy
    exact ⟨hne, by simpa [Net.put, hne] using hy⟩
  have hreleased : (n.put m).released = n.m.id m :: n.released := rfl
  have hnew : n.m.id m ∉ n.released := fun hmem => (hi.released _ hmem).2 m hm rfl
  refine ⟨fun y hy => hi.le y (hlive y hy).2,
    fun x y hx hy => hi.inj x y (hlive x hx).2 (hlive y hy).2, fun i hmem => ?_, fun i hmem => ?_,
      ?_, hi.linked_once⟩
  · rw [hreleased, List.mem_cons] at hmem
    rcases hmem with rfl | hmem
    · exact ⟨hi.le m hm, fun y hy he => (hlive y hy).1 (hi.inj y m (hlive y hy).2 hm he)⟩
    · exact ⟨(hi.released i hmem).1, fun y hy => (hi.released i hmem).2 y (hlive y hy).2⟩
  · exact ⟨(hi.linked i hmem).1, fun y hy => (hi.linked i hmem).2 y (hlive y hy).2⟩
  · rw [hreleased]
    exact List.nodup_cons.mpr ⟨hnew, hi.released_once⟩

/-- A message is allocated, with the next id. -/
lemma Ids.newMsg (hi : Ids n) {x : Msg} (hid : x.id = n.a.msgId + 1) :
    Ids { n with
      m := n.m.set m x
      a.msgId := n.a.msgId + 1
      g.place := update n.g.place m .hand } := by
  have hold : ∀ y, y ≠ m → update n.g.place m .hand y ≠ .free →
      n.Live y ∧ (n.m.set m x).id y = n.m.id y ∧ (n.m.set m x).done y = n.m.done y := by
    intro y hne hy
    rw [update_of_ne hne] at hy
    exact ⟨hy, by simp [MsgCols.set, hne], by simp [MsgCols.set, hne]⟩
  have hself : (n.m.set m x).id m = n.a.msgId + 1 := by simp [MsgCols.set, hid]
  refine ⟨fun y hy => ?_, fun y z hy hz he => ?_, fun i hmem => ?_, fun i hmem => ?_,
    hi.released_once, hi.linked_once⟩
  · rcases eq_or_ne y m with rfl | hne
    · exact hself.le
    · obtain ⟨hlive, hid', -⟩ := hold y hne hy
      exact hid'.le.trans ((hi.le y hlive).trans (Nat.le_succ _))
  · have hne : ∀ w, w ≠ m → update n.g.place m .hand w ≠ .free →
        (n.m.set m x).id w ≠ (n.m.set m x).id m := by
      intro w hw hwl heq
      obtain ⟨hlive, hid', -⟩ := hold w hw hwl
      have hle := hi.le w hlive
      rw [hid', hself] at heq
      omega
    rcases eq_or_ne y m with rfl | hym
    · by_contra hzy
      exact hne z (Ne.symm hzy) hz he.symm
    rcases eq_or_ne z m with rfl | hzm
    · exact absurd he (hne y hym hy)
    obtain ⟨hyl, hyid, -⟩ := hold y hym hy
    obtain ⟨hzl, hzid, -⟩ := hold z hzm hz
    exact hi.inj y z hyl hzl (hyid.symm.trans (he.trans hzid))
  · obtain ⟨hle, hne⟩ := hi.released i hmem
    refine ⟨hle.trans (Nat.le_succ _), fun y hy he => ?_⟩
    rcases eq_or_ne y m with rfl | hym
    · have hi' : n.a.msgId + 1 = i := hself.symm.trans he
      omega
    · obtain ⟨hyl, hyid, -⟩ := hold y hym hy
      exact hne y hyl (hyid.symm.trans he)
  · obtain ⟨hle, hdone⟩ := hi.linked i hmem
    refine ⟨hle.trans (Nat.le_succ _), fun y hy he => ?_⟩
    rcases eq_or_ne y m with rfl | hym
    · have hi' : n.a.msgId + 1 = i := hself.symm.trans he
      omega
    · obtain ⟨hyl, hyid, hyd⟩ := hold y hym hy
      exact hyd.trans (hdone y hyl (hyid.symm.trans he))

/-- Request `p`, which is not done, is linked to a response and done. -/
lemma Ids.linkDone (hi : Ids n) (p : MsgId) (b : Bool) (hp : n.Live p) (hd : n.m.done p = false) :
    Ids ((n.emit (.link (n.m.id p) b)).finish p) := by
  have hlinked : ((n.emit (.link (n.m.id p) b)).finish p).linked = n.m.id p :: n.linked := rfl
  have hnew : n.m.id p ∉ n.linked := by
    intro hmem
    rw [(hi.linked _ hmem).2 p hp rfl] at hd
    cases hd
  have hdone : ∀ y, n.m.done y = true → update n.m.done p true y = true := by
    intro y hy
    rcases eq_or_ne y p with rfl | hne
    · exact update_self _ _ _
    · rwa [update_of_ne hne]
  refine ⟨hi.le, hi.inj, hi.released, fun i hmem => ?_, hi.released_once, ?_⟩
  · rw [hlinked, List.mem_cons] at hmem
    rcases hmem with rfl | hmem
    · refine ⟨hi.le p hp, fun y hy he => ?_⟩
      obtain rfl := hi.inj y p hy hp he
      exact update_self _ _ _
    · exact ⟨(hi.linked i hmem).1, fun y hy he => hdone y ((hi.linked i hmem).2 y hy he)⟩
  · rw [hlinked]
    exact List.nodup_cons.mpr ⟨hnew, hi.linked_once⟩

/-- A move of a server connection keeps the ids. -/
lemma ServerMove.ids (h : ServerMove n n') (hi : Inv n) (hd : Ids n) : Ids n' := by
  cases h with
  | note e he =>
    refine hd.same (fun _ => id) rfl (fun _ => id) le_rfl ?_ ?_
    all_goals
      cases e <;> first
        | rfl
        | cases he
  | abandon s p i ho ha =>
    refine hd.same (fun m hm => ?_) rfl (fun _ => id) le_rfl rfl rfl
    intro hfree
    exact hm (show Net.afterAbandon s (n.g.place m) = .free by rw [hfree]; rfl)
  | dropIn s m hm =>
    have h₁ : Ids (n.deqIn s m) := hd.same (fun _ => id) rfl (fun _ => id) le_rfl rfl rfl
    exact (h₁.tmoDelete m).put (by simp [Net.deqIn, hm])
  | dropOut s m hm hs =>
    have h₁ : Ids ((n.tmoDelete m).deqOut s m) :=
      (hd.tmoDelete m).same (fun _ => id) rfl (fun _ => id) le_rfl rfl rfl
    exact h₁.put (by simp [Net.deqOut, hm])
  | failIn s c m b hm hc =>
    have h₁ : Ids (n.deqIn s m) := hd.same (fun _ => id) rfl (fun _ => id) le_rfl rfl rfl
    exact (h₁.move (m := m) _ (by simp [Net.deqIn, hm])).settle m b true c
  | failOut s c m b hm hc hs =>
    have h₁ : Ids ((n.tmoDelete m).deqOut s m) :=
      (hd.tmoDelete m).same (fun _ => id) rfl (fun _ => id) le_rfl rfl rfl
    exact (h₁.move (m := m) _ (by simp [Net.deqOut, hm])).settle m b true c
  | discardRsp s m hs hr =>
    have hplace := (hi.queues.rmsg s hs.isOpen m).mp hr
    have h₁ : Ids { n with c.rmsg := update n.c.rmsg s none } :=
      hd.same (fun _ => id) rfl (fun _ => id) le_rfl rfl rfl
    exact h₁.put (by simp [hplace])
  | _ => exact hd.same (fun _ => id) rfl (fun _ => id) le_rfl rfl rfl

/-- A message in use goes to another place, and nothing else happens to the ids. -/
lemma Ids.goes (hi : Ids n) (x : Place) (hm : n'.Live m) (hp : n'.g.place = n.g.place)
    (hid : n'.m.id = n.m.id) (hd : n'.m.done = n.m.done) (ha : n'.a.msgId = n.a.msgId)
    (hlog : n'.a.log = n.a.log) : Ids (n'.move m x) := by
  have h₁ : Ids n' := by
    refine hi.same (fun y hy => ?_) hid (fun y hy => ?_) ha.ge ?_ ?_
    · rwa [Net.Live, ← hp]
    · rwa [hd]
    · rw [Net.released, Net.released, hlog]
    · rw [Net.linked, Net.linked, hlog]
  exact h₁.move x hm

/-- The proxy answers a request itself. -/
lemma Ids.reply (hi : Ids n) {c : ConnId} {r : MsgId} (subs : List MsgId) (due : Set ConnId)
    (hm : n.Live m) (hr : n.Live r) (hmr : m ≠ r) :
    Ids ({ ((n.link m r).finish m).enqOut c m with g.pend := subs, g.due := due }
      |>.move m (.req (some c) none) |>.move r (.rsp m)) := by
  have h₀ : Ids (n.link m r) := hi.same (fun _ => id) rfl (fun _ => id) le_rfl rfl rfl
  have h₁ : Ids { ((n.link m r).finish m).enqOut c m with g.pend := subs, g.due := due } :=
    (h₀.finish m).same (fun _ => id) rfl (fun _ => id) le_rfl rfl rfl
  refine (h₁.move (m := m) _ hm).move _ ?_
  simpa [Net.Live, Net.move, Net.enqOut, Net.finish, Net.link, hmr.symm] using hr

/-- The proxy fails to answer a request itself. -/
lemma Ids.failReply (hi : Ids n) (c : ConnId) (subs : List MsgId) (hm : n.Live m) :
    Ids ({ ((n.enqOut c m).finish m).fail m true with g.pend := subs }.setDue c
      |>.move m (.req (some c) none)) := by
  have h₀ : Ids (n.enqOut c m) := hi.same (fun _ => id) rfl (fun _ => id) le_rfl rfl rfl
  have h₁ : Ids ({ ((n.enqOut c m).finish m).fail m true with g.pend := subs }.setDue c) :=
    ((h₀.finish m).fail m true).same (fun _ => id) rfl (fun _ => id) le_rfl rfl rfl
  exact h₁.move _ hm

/-- Response `m` is received for request `p`, which is linked to it. -/
lemma Ids.respond (hi : Ids n) {c : ConnId} {p : MsgId} (b e : Bool) (hp : n.Live p)
    (hd : n.m.done p = false) (hm : n.Live m) (hne : m ≠ p) :
    Ids ((({ (((((((n.emit (.link (n.m.id p) false)).tmoDelete p).deqOut s p).move p
      (.req (some c) none)).finish p).count p b).fail p e) with
        c.answers := update n.c.answers s
          (n.c.answers s ++ [Answer.linked (n.m.id p)]) }.link p m).move m (.rsp p)).setDue c) := by
  -- it makes no difference whether the link is logged first
  have h₁ : Ids (((n.tmoDelete p).deqOut s p).move p (.req (some c) none)) := by
    have h₀ : Ids ((n.tmoDelete p).deqOut s p) :=
      (hi.tmoDelete p).same (fun _ => id) rfl (fun _ => id) le_rfl rfl rfl
    exact h₀.move _ (by simpa [Net.Live, Net.deqOut] using hp)
  have h₂ := h₁.linkDone p false (by simp [Net.move]) (by simpa [Net.move, Net.deqOut] using hd)
  have hid : (((n.tmoDelete p).deqOut s p).move p (.req (some c) none)).m.id p = n.m.id p := by
    simp [Net.move, Net.deqOut]
  rw [hid] at h₂
  have hlive : (((((((n.tmoDelete p).deqOut s p).move p (.req (some c) none)).emit
      (.link (n.m.id p) false)).finish p).count p b).fail p e).Live m := by
    simpa [Net.Live, Net.fail, Net.finish, Net.emit, Net.move, Net.deqOut, hne] using hm
  rw [Net.emit_tmoDelete]
  exact (((h₂.count p b).fail p e).move (.rsp p) hlive).same (fun _ => id) rfl (fun _ => id) le_rfl
    rfl rfl

/-- A response to request `p`, whose client is closed, is swallowed with it. -/
lemma Ids.swallowed (hi : Ids n) {p : MsgId} (hp : n.Live p) :
    Ids ({ ((n.tmoDelete p).deqOut s p).finish p with
      c.answers := update n.c.answers s
        (n.c.answers s ++ [Answer.swallowed (n.m.id p)]) }.put p) := by
  have h₀ : Ids ((n.tmoDelete p).deqOut s p) :=
    (hi.tmoDelete p).same (fun _ => id) rfl (fun _ => id) le_rfl rfl rfl
  have h₁ : Ids { ((n.tmoDelete p).deqOut s p).finish p with
      c.answers := update n.c.answers s (n.c.answers s ++ [Answer.swallowed (n.m.id p)]) } :=
    (h₀.finish p).same (fun _ => id) rfl (fun _ => id) le_rfl rfl rfl
  exact h₁.put (by simpa [Net.Live, Net.finish, Net.deqOut] using hp)

/-- **A move keeps the ids.** -/
lemma Move.ids (h : Move n n') (hi : Inv n) (hd : Ids n) : Ids n' := by
  cases h with
  | server h => exact h.ids hi hd
  | bumpMsg => exact hd.same (fun _ => id) rfl (fun _ => id) (Nat.le_succ _) rfl rfl
  | newMsg m x hm hid hx => exact hd.newMsg hid
  | read c m hm hp hc hr ho hb hf hf' => exact hd.goes _ (by simp [hm]) rfl rfl rfl rfl rfl
  | unread c m hc hr =>
    have hplace := (hi.queues.rmsg c hc m).mp hr
    exact hd.goes _ (by simp [hplace]) rfl rfl rfl rfl rfl
  | put m hm hp ht hn => exact hd.put (by simp [hm])
  | link c p r hp hd' hpp hr hrp ht hn =>
    exact hd.goes _ (by simp [Net.link, hr]) rfl rfl rfl rfl rfl
  | unlink p r hp hr hu => exact hd.goes _ (by simp [Net.unlink, hr]) rfl rfl rfl rfl rfl
  | tmoDelete m => exact hd.tmoDelete m
  | expect c m hm hr hf hf' =>
    exact hd.goes _ (by simp [Net.enqOut, hm.place]) rfl rfl rfl rfl rfl
  | expectSub c m rest hp hm hc =>
    obtain ⟨c', o, hpend⟩ := hi.pend m (by simp [hp])
    exact hd.goes _ (by simp [Net.enqOut, hpend.place]) rfl rfl rfl rfl rfl
  | reply c m r subs due hm hr hrb hmr hrs hs hdue hdue' =>
    exact hd.reply subs due (by simp [hm.place]) (by simp [hr]) hmr
  | failReply c m subs hm hs => exact hd.failReply c subs (by simp [hm.place])
  | failHand m hm hp => exact (hd.finish m).fail m true
  | failFwd c m b hm hd' hc => exact hd.settle m b true c
  | skipFwd c m hm hd' hc hf =>
    exact ((hd.finish m).fail m true).same (fun _ => id) rfl (fun _ => id) le_rfl rfl rfl
  | leave c p hp hc => exact hd.goes _ (by simp [Net.deqOut, hp]) rfl rfl rfl rfl rfl
  | orphan c m srv hm hd' hc => exact hd.goes _ (by simp [Net.deqOut, hm]) rfl rfl rfl rfl rfl
  | enqIn s m cli timed rbt hm hs hb hr hr' hp hrbt =>
    exact hd.goes _ (by simp [Net.enqIn, hm]) rfl rfl rfl rfl rfl
  | sendDone s m cli hm hr =>
    exact hd.goes _ (by simp [Net.deqIn, Net.enqOut, hm]) rfl rfl rfl rfl rfl
  | respond s c p m rest b e hq hp hc hm hb hn =>
    have hdone := (hi.facts.srv p (some c) s true hp).2.1
    have hne : m ≠ p := by
      rintro rfl
      simp [hp] at hm
    exact hd.respond b e (by simp [hp]) hdone (by simp [hm]) hne
  | swallowed s p rest hq hp => exact hd.swallowed (by simp [hp])
  | _ => exact hd.same (fun _ => id) rfl (fun _ => id) le_rfl rfl rfl

/-- The moves of sending keep the ids. -/
theorem SendMoves.ids (h : SendMoves n n') (hs : Sound n) (hd : Ids n) : Ids n' := by
  induction h with
  | refl => exact hd
  | tail hms hm ih =>
    cases hm with
    | move hm => exact hm.ids (SendMoves.sound hms hs).inv ih
    | cursor c x => exact ih.same (fun _ => id) rfl (fun _ => id) le_rfl rfl rfl

end GfwProxy
