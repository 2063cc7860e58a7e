import GfwProxy.Net.Step

set_option autoImplicit false

/-!
# Timers

The timeout tree holds the requests that have a timer, and a request has one only while it is in a
queue of the server connection that its timer names.

## Main definitions

* `GfwProxy.Timed` — the invariant.

## Main results

* `GfwProxy.Move.timed` — a move keeps it, together with the invariant of the places.

## Design

A connection that is left with requests in its queues breaks this once and for all, so the invariant
speaks of the log.
-/

namespace GfwProxy

open Function

/-- A server connection was left with a request that has a timer. -/
def Net.Abandoned (n : Net) : Prop := ∃ s, .abandon s ∈ n.a.log

/-- Message `m` is in a queue of server connection `s`. -/
def Net.Queued (n : Net) (m : MsgId) (s : ConnId) : Prop :=
  ∃ cli b, n.g.place m = .req cli (some (s, b))

/-- A message in this place has no timer. -/
def Place.Untimed : Place → Prop
  | .free => True
  | .reading _ => True
  | .rsp _ => True
  | _ => False

/-- **The invariant of the timers.** -/
structure Timed (n : Net) : Prop where
  nodup : n.a.tmoRbt.Nodup
  mem : ∀ m, m ∈ n.a.tmoRbt ↔ n.m.tmoData m ≠ none
  untimed : ∀ m, (n.g.place m).Untimed → n.m.tmoData m = none
  queued : ∀ m s, n.m.tmoData m = some s → n.m.done m = false → n.m.error m = false →
    n.Queued m s ∨ n.Abandoned

variable {n n' : Net} {m : MsgId} {s : ConnId}

/-- The timers are the same. -/
lemma Timed.frame (ht : Timed n) (hrbt : n'.a.tmoRbt = n.a.tmoRbt)
    (hdata : n'.m.tmoData = n.m.tmoData) (hlog : n.Abandoned → n'.Abandoned)
    (huntimed : ∀ m, (n'.g.place m).Untimed → (n.g.place m).Untimed ∨ n.m.tmoData m = none)
    (hqueued : ∀ m s, n.m.tmoData m = some s → n'.m.done m = false → n'.m.error m = false →
      n.m.done m = false ∧ n.m.error m = false ∧ (n.Queued m s → n'.Queued m s ∨ n'.Abandoned)) :
    Timed n' where
  nodup := hrbt ▸ ht.nodup
  mem m := by rw [hrbt, hdata]; exact ht.mem m
  untimed m hm := by
    rw [hdata]
    exact (huntimed m hm).elim (ht.untimed m) id
  queued m s hm hd he := by
    rw [hdata] at hm
    obtain ⟨hd', he', hq⟩ := hqueued m s hm hd he
    exact (ht.queued m s hm hd' he').elim hq fun h => .inr (hlog h)

/-- Neither the timers nor the places nor the verdicts change. -/
lemma Timed.same (ht : Timed n) (hrbt : n'.a.tmoRbt = n.a.tmoRbt)
    (hdata : n'.m.tmoData = n.m.tmoData) (hdone : n'.m.done = n.m.done)
    (herror : n'.m.error = n.m.error) (hplace : n'.g.place = n.g.place)
    (hlog : n.Abandoned → n'.Abandoned) : Timed n' := by
  refine ht.frame hrbt hdata hlog (fun m hm => .inl (hplace ▸ hm)) fun m s _ hd he => ?_
  rw [hdone] at hd
  rw [herror] at he
  refine ⟨hd, he, ?_⟩
  rintro ⟨cli, b, h⟩
  exact .inl ⟨cli, b, by rw [hplace, h]⟩

/-- Only message `m` is changed: it is done then, or it has no timer, or it stays in its queue. -/
lemma Timed.change (ht : Timed n) (m : MsgId) (hrbt : n'.a.tmoRbt = n.a.tmoRbt)
    (hdata : n'.m.tmoData = n.m.tmoData) (hlog : n.Abandoned → n'.Abandoned)
    (hother : ∀ y, y ≠ m → n'.m.done y = n.m.done y ∧ n'.m.error y = n.m.error y ∧
      n'.g.place y = n.g.place y)
    (huntimed : (n'.g.place m).Untimed → n.m.tmoData m = none)
    (hm : n'.m.done m = true ∨ n.m.tmoData m = none ∨
      n'.m.done m = n.m.done m ∧ n'.m.error m = n.m.error m ∧ ∀ s, n.Queued m s → n'.Queued m s) :
    Timed n' := by
  refine ht.frame hrbt hdata hlog (fun y hy => ?_) fun y s hy hd he => ?_
  · rcases eq_or_ne y m with rfl | hne
    · exact .inr (huntimed hy)
    · exact .inl ((hother y hne).2.2 ▸ hy)
  · rcases eq_or_ne y m with rfl | hne
    · rcases hm with hm | hm | ⟨hd', he', hq⟩
      · rw [hm] at hd
        cases hd
      · rw [hm] at hy
        cases hy
      · exact ⟨hd' ▸ hd, he' ▸ he, fun h => .inl (hq s h)⟩
    · obtain ⟨hd', he', hp⟩ := hother y hne
      refine ⟨hd' ▸ hd, he' ▸ he, ?_⟩
      rintro ⟨cli, b, h⟩
      exact .inl ⟨cli, b, by rw [hp, h]⟩

/-- A message is taken out of the tree. -/
lemma Timed.tmoDelete (ht : Timed n) (m : MsgId) : Timed (n.tmoDelete m) := by
  unfold Net.tmoDelete
  split_ifs with hm
  · exact ht
  refine ⟨ht.nodup.erase m, fun y => ?_, fun y hy => ?_, fun y s hy hd he => ?_⟩
  · rcases eq_or_ne y m with rfl | hne
    · simp [ht.nodup.mem_erase_iff]
    · simp [ht.nodup.mem_erase_iff, hne, ht.mem y]
  · rcases eq_or_ne y m with rfl | hne
    · simp
    · simpa [hne] using ht.untimed y hy
  · have hne : y ≠ m := by
      rintro rfl
      simp at hy
    exact ht.queued y s (by simpa [hne] using hy) hd he

/-- Only the message that is taken out loses its timer. -/
@[simp] lemma Net.tmoDelete_tmoData (n : Net) (m : MsgId) :
    (n.tmoDelete m).m.tmoData = update n.m.tmoData m none := by
  unfold Net.tmoDelete
  split_ifs with h
  · rw [← h, update_eq_self]
  · rfl

/-- A message without a timer is released. -/
lemma Timed.put (ht : Timed n) (hm : n.m.tmoData m = none) : Timed (n.put m) := by
  refine ht.change m rfl rfl ?_ (fun y hne => ⟨rfl, rfl, by simp [Net.put, hne]⟩) (fun _ => hm)
    (.inr (.inl hm))
  rintro ⟨s, h⟩
  exact ⟨s, List.mem_cons_of_mem _ h⟩

/-- What is logged stays logged. -/
lemma Net.Abandoned.mono (h : n.Abandoned) (hlog : n.a.log ⊆ n'.a.log) : n'.Abandoned := by
  obtain ⟨s, h⟩ := h
  exact ⟨s, hlog h⟩

/-- Counting a fragment may add to the log. -/
lemma Net.log_count (n : Net) (m : MsgId) (b : Bool) : n.a.log ⊆ (n.count m b).a.log := by
  unfold Net.count
  split
  · exact List.Subset.refl _
  · exact List.subset_cons_self _ _

/-- Counting a fragment does not change the tree. -/
@[simp] lemma Net.count_tmoRbt (n : Net) (m : MsgId) (b : Bool) :
    (n.count m b).a.tmoRbt = n.a.tmoRbt := by
  unfold Net.count
  split <;> rfl

/-- Counting a fragment does not change what the tree depends on. -/
@[simp] lemma Net.count_timers (n : Net) (m : MsgId) (b : Bool) :
    (n.count m b).m.tmoData = n.m.tmoData ∧ (n.count m b).m.done = n.m.done ∧
      (n.count m b).m.error = n.m.error := by
  unfold Net.count
  split <;> exact ⟨rfl, rfl, rfl⟩

/-- Request `m` fails in any place: it is done, counted and in error. -/
lemma Timed.fail (ht : Timed n) {place : MsgId → Place} {c : ConnId} (b e : Bool)
    (hother : ∀ y, y ≠ m → place y = n.g.place y) (hm : ¬(place m).Untimed) :
    Timed (((({ n with g.place := place }.finish m).count m b).fail m e).setDue c) := by
  refine ht.change m ?_ ?_
    (fun h => h.mono (Net.log_count ({ n with g.place := place }.finish m) m b)) (fun y hne => ?_)
    (fun h => absurd ?_ hm) ?_
  · simp [Net.setDue, Net.fail, Net.finish]
  · simp [Net.setDue, Net.fail, Net.finish]
  · simp [Net.setDue, Net.fail, Net.finish, hne, hother y hne]
  · simpa [Net.setDue, Net.fail, Net.finish] using h
  · simp [Net.setDue, Net.fail, Net.finish]

/-! ## The moves of a server connection -/

/-- A logged event does not undo an abandonment. -/
lemma Net.Abandoned.emit (h : n.Abandoned) (e : Ev) : (n.emit e).Abandoned :=
  h.mono (List.subset_cons_self _ _)

/-- A server connection is left: from now on the log says so, if a queue held a timer. -/
lemma Timed.abandon (ht : Timed n) (hi : Inv n) {p i : ℕ} (ho : n.c.owner s = some (.server p i))
    (ha : n.Armed s → n.Abandoned) :
    Timed { n.unrefServer s p i with g.place := fun m => Net.afterAbandon s (n.g.place m) } := by
  refine ht.frame rfl rfl id (fun m hm => ?_) fun m s' hm hd he => ⟨hd, he, ?_⟩
  · refine .inl ?_
    cases hp : n.g.place m with
    | req cli srv =>
      simp only [hp] at hm
      rcases srv with _ | ⟨s', b⟩
      · exact hm
      · simp only [Net.afterAbandon] at hm
        split_ifs at hm <;> exact hm
    | lost => simpa [hp, Net.afterAbandon] using hm
    | _ => trivial
  · rintro ⟨cli, b, hp⟩
    rcases eq_or_ne s' s with rfl | hne
    · refine .inr (ha ⟨m, ?_, by simp [hm], hd, he⟩)
      cases b with
      | false =>
        exact List.mem_append_left _ ((hi.queues.imsgq s' (by simp [Net.Open, ho]) m).mpr ⟨cli, hp⟩)
      | true =>
        exact List.mem_append_right _ ((hi.queues.omsgq_server s' ⟨p, i, ho⟩ m).mpr ⟨cli, hp⟩)
    · exact .inl ⟨cli, b, by simp [hp, Net.afterAbandon, hne]⟩

/-- A request leaves the queue of requests to be sent. -/
lemma Timed.deqIn (ht : Timed n) (s : ConnId) (m : MsgId) : Timed (n.deqIn s m) :=
  ht.same rfl rfl rfl rfl rfl id

/-- A request leaves the queue of sent requests, and the tree. -/
lemma Timed.deqOut (ht : Timed n) (s : ConnId) (m : MsgId) : Timed ((n.tmoDelete m).deqOut s m) :=
  (ht.tmoDelete m).same rfl rfl rfl rfl rfl id

/-- The response that a server connection was receiving is released. -/
lemma Timed.discardRsp (ht : Timed n) (hi : Inv n) (hs : n.Server s) (hr : n.c.rmsg s = some m) :
    Timed ({ n with c.rmsg := update n.c.rmsg s none }.put m) := by
  have ho : n.Open s := by
    obtain ⟨p, i, ho⟩ := hs
    simp [Net.Open, ho]
  have hplace := (hi.queues.rmsg s ho m).mp hr
  have h₁ : Timed { n with c.rmsg := update n.c.rmsg s none } := ht.same rfl rfl rfl rfl rfl id
  exact h₁.put (ht.untimed m (by simp [hplace, Place.Untimed]))

/-- **A move of a server connection keeps the invariant.** -/
theorem ServerMove.timed (h : ServerMove n n') (hi : Inv n) (ht : Timed n) : Timed n' := by
  cases h with
  | note e he => exact ht.same rfl rfl rfl rfl rfl fun h => h.emit e
  | touch c m hm => exact ht.same rfl rfl rfl rfl rfl fun h => h.emit _
  | wake | calm | fdone | takeConn | growConn | openServer | setSd | rotate | connPut
    | beginCloseServer | unrefServer => exact ht.same rfl rfl rfl rfl rfl id
  | abandon s p i ho ha => exact ht.abandon hi ho ha
  | dropIn s m hm => exact ((ht.deqIn s m).tmoDelete m).put (by simp)
  | dropOut s m hm hs => exact (ht.deqOut s m).put (by simp [Net.deqOut])
  | failIn s c m b hm hc =>
    exact (ht.deqIn s m).fail b true (fun y hne => by simp [Net.deqIn, hne])
      (by simp [Place.Untimed])
  | failOut s c m b hm hc hs =>
    exact (ht.deqOut s m).fail b true (fun y hne => by simp [Net.deqOut, hne])
      (by simp [Place.Untimed])
  | discardRsp s m hs hr => exact ht.discardRsp hi hs hr

/-! ## The moves of messages -/

/-- A message without a timer goes to another place. -/
lemma Timed.goes (ht : Timed n) (hm : n.m.tmoData m = none) (x : Place) : Timed (n.move m x) :=
  ht.change m rfl rfl id (fun y hne => by simp [Net.move, hne]) (fun _ => hm) (.inr (.inl hm))

/-- A message is made. -/
lemma Timed.newMsg (ht : Timed n) {x : Msg} (hm : n.FreshMsg m) (hx : (n.m.set m x).Blank m) :
    Timed { n with
      m := n.m.set m x
      a.msgId := n.a.msgId + 1
      g.place := update n.g.place m .hand } := by
  have hm' : n.m.tmoData m = none := ht.untimed m (by simp [hm.place, Place.Untimed])
  refine ht.change m rfl ?_ id (fun y hne => ?_) (by simp [Place.Untimed]) (.inr (.inl hm'))
  · have := hx.tmoData
    simp only [MsgCols.set, update_self] at this
    simp [MsgCols.set, this, hm']
  · simp [MsgCols.set, hne]

/-- A connection begins to receive a message. -/
lemma Timed.read (ht : Timed n) (c : ConnId) (hm : n.m.tmoData m = none) :
    Timed ({ n with c.rmsg := update n.c.rmsg c (some m) }.move m (.reading c)) := by
  have h₁ : Timed { n with c.rmsg := update n.c.rmsg c (some m) } := ht.same rfl rfl rfl rfl rfl id
  exact h₁.goes hm _

/-- A connection does not receive its message any more. -/
lemma Timed.unread (ht : Timed n) (hi : Inv n) {c : ConnId} (hc : n.Open c)
    (hr : n.c.rmsg c = some m) :
    Timed ({ n with c.rmsg := update n.c.rmsg c none }.move m .hand) := by
  have hplace := (hi.queues.rmsg c hc m).mp hr
  have h₁ : Timed { n with c.rmsg := update n.c.rmsg c none } := ht.same rfl rfl rfl rfl rfl id
  exact h₁.goes (ht.untimed m (by simp [hplace, Place.Untimed])) _

/-- A response is linked to request `p`. -/
lemma Timed.link (ht : Timed n) {r : MsgId} (p : MsgId) (hr : n.m.tmoData r = none) :
    Timed ((n.link p r).move r (.rsp p)) := by
  have h₁ : Timed (n.link p r) := ht.same rfl rfl rfl rfl rfl id
  exact h₁.goes hr _

/-- The link between a response and its request is broken. -/
lemma Timed.unlink (ht : Timed n) {p r : MsgId} (hr : n.g.place r = .rsp p) :
    Timed ((n.unlink p r).move r .hand) := by
  have hr' := ht.untimed r (by simp [hr, Place.Untimed])
  have h₁ : Timed (n.unlink p r) := ht.same rfl rfl rfl rfl rfl id
  exact h₁.goes hr' _

/-! ## The moves of requests of a client -/

/-- A request without a timer is put into the queue of its client. -/
lemma Timed.expect (ht : Timed n) (c : ConnId) (hm : n.m.tmoData m = none) (pend : List MsgId) :
    Timed ({ n.enqOut c m with g.pend := pend }.move m (.req (some c) none)) := by
  have h₁ : Timed { n.enqOut c m with g.pend := pend } := ht.same rfl rfl rfl rfl rfl id
  exact h₁.goes hm _

/-- The proxy replies to a request itself. -/
lemma Timed.reply (ht : Timed n) {c : ConnId} {r : MsgId} (subs : List MsgId) (due : Set ConnId)
    (hr : n.m.tmoData r = none) :
    Timed ({ ((n.link m r).finish m).enqOut c m with g.pend := subs, g.due := due }
      |>.move m (.req (some c) none) |>.move r (.rsp m)) := by
  have h₁ : Timed ({ ((n.link m r).finish m).enqOut c m with g.pend := subs, g.due := due }
      |>.move m (.req (some c) none)) := by
    refine ht.change m rfl rfl id (fun y hne => ?_) (by simp [Net.move, Place.Untimed]) (.inl ?_)
    · simp [Net.move, Net.enqOut, Net.finish, Net.link, hne]
    · simp [Net.move, Net.enqOut, Net.finish]
  exact h₁.goes hr _

/-- A request fails before its reply is made. -/
lemma Timed.failReply (ht : Timed n) (c : ConnId) (m : MsgId) (subs : List MsgId) :
    Timed ({ ((n.enqOut c m).finish m).fail m true with g.pend := subs }.setDue c
      |>.move m (.req (some c) none)) := by
  refine ht.change m rfl rfl id (fun y hne => ?_) (by simp [Net.move, Place.Untimed]) (.inl ?_)
  · simp [Net.move, Net.setDue, Net.enqOut, Net.finish, Net.fail, hne]
  · simp [Net.move, Net.setDue, Net.fail, Net.finish]

/-- A request that is held by a handler fails. -/
lemma Timed.failHand (ht : Timed n) (hm : n.g.place m = .hand) :
    Timed ((n.finish m).fail m true) := by
  refine ht.change m rfl rfl id (fun y hne => ?_)
    (by simp [Net.fail, Net.finish, hm, Place.Untimed]) (.inl (by simp [Net.fail, Net.finish]))
  simp [Net.finish, Net.fail, hne]

/-- A request in the queue of its client fails without being counted. -/
lemma Timed.skipFwd (ht : Timed n) {c : ConnId} (hm : n.g.place m = .req (some c) none) :
    Timed (((n.finish m).fail m true).setDue c) := by
  refine ht.change m rfl rfl id (fun y hne => ?_)
    (by simp [Net.setDue, Net.fail, Net.finish, hm, Place.Untimed])
    (.inl (by simp [Net.setDue, Net.fail, Net.finish]))
  simp [Net.setDue, Net.finish, Net.fail, hne]

/-- A request that is in no queue of a server leaves the queue of its client. -/
lemma Timed.leave (ht : Timed n) {c : ConnId} (hm : n.g.place m = .req (some c) none) :
    Timed ((n.deqOut c m).move m .hand) := by
  refine ht.change m rfl rfl id (fun y hne => by simp [Net.move, Net.deqOut, hne])
    (by simp [Net.move, Place.Untimed]) (.inr (.inr ⟨rfl, rfl, ?_⟩))
  rintro s ⟨cli, b, h⟩
  simp [hm] at h

/-- The client of a request is closed; the request stays in the queue of its server. -/
lemma Timed.orphan (ht : Timed n) {c : ConnId} {srv : Option (ConnId × Bool)}
    (hm : n.g.place m = .req (some c) srv) :
    Timed ({ n.deqOut c m with m.swallow := update n.m.swallow m true }.move m
      (.req none srv)) := by
  refine ht.change m rfl rfl id (fun y hne => by simp [Net.move, Net.deqOut, hne])
    (by simp [Net.move, Place.Untimed]) (.inr (.inr ⟨rfl, rfl, ?_⟩))
  rintro s ⟨cli, b, h⟩
  rw [hm] at h
  simp only [Place.req.injEq] at h
  exact ⟨none, b, by simp [Net.move, h.2]⟩

/-! ## The moves of requests of a server connection -/

/-- A request is put into the queue of a server connection, and into the tree if it is `timed`. -/
lemma Timed.enqIn (ht : Timed n) (s : ConnId) (cli : Option ConnId) {timed : Bool}
    {rbt : List MsgId} (hm : n.m.tmoData m = none)
    (hrbt : if timed then rbt.Perm (m :: n.a.tmoRbt) else rbt = n.a.tmoRbt) :
    Timed ({ n.enqIn s m with
      m.tmoData := if timed then update n.m.tmoData m (some s) else n.m.tmoData
      a.tmoRbt := rbt }.move m (.req cli (some (s, false)))) := by
  have hmem : m ∉ n.a.tmoRbt := fun h => (ht.mem m).mp h hm
  have h₁ : Timed ({ n.enqIn s m with a.tmoRbt := n.a.tmoRbt }.move m
      (.req cli (some (s, false)))) :=
    ht.change m rfl rfl id (fun y hne => by simp [Net.move, Net.enqIn, hne])
      (by simp [Net.move, Place.Untimed]) (.inr (.inl hm))
  cases timed with
  | false =>
    rw [if_neg Bool.false_ne_true] at hrbt ⊢
    subst hrbt
    exact h₁
  | true =>
    rw [if_pos rfl] at hrbt ⊢
    refine ⟨hrbt.nodup_iff.mpr (List.nodup_cons.mpr ⟨hmem, ht.nodup⟩), fun y => ?_, fun y hy => ?_,
      fun y s' hy hd he => ?_⟩
    · show y ∈ rbt ↔ update n.m.tmoData m (some s) y ≠ none
      rw [hrbt.mem_iff]
      rcases eq_or_ne y m with rfl | hne
      · simp
      · simpa [hne] using ht.mem y
    · rcases eq_or_ne y m with rfl | hne
      · simp [Net.move, Place.Untimed] at hy
      · simpa [Net.move, hne] using ht.untimed y (by simpa [Net.move, Net.enqIn, hne] using hy)
    · rcases eq_or_ne y m with rfl | hne
      · obtain rfl : s = s' := by simpa [Net.move] using hy
        exact .inl ⟨cli, false, by simp [Net.move]⟩
      · exact h₁.queued y s' (by simpa [Net.move, Net.enqIn, hne] using hy) hd he

/-- A request has been sent; it stays in a queue of the same connection. -/
lemma Timed.sendDone (ht : Timed n) {cli : Option ConnId}
    (hm : n.g.place m = .req cli (some (s, false))) :
    Timed ({ (n.deqIn s m).enqOut s m with
      c.sent := update n.c.sent s (n.c.sent s ++ [n.m.id m]) }.move m
      (.req cli (some (s, true)))) := by
  refine ht.change m rfl rfl id (fun y hne => by simp [Net.move, Net.deqIn, Net.enqOut, hne])
    (by simp [Net.move, Place.Untimed]) (.inr (.inr ⟨rfl, rfl, ?_⟩))
  rintro s' ⟨cli', b, h⟩
  rw [hm] at h
  simp only [Place.req.injEq, Option.some.injEq, Prod.mk.injEq] at h
  exact ⟨cli, true, by simp [Net.move, h.2.1]⟩

/-- Response `m` is received for request `p`, which leaves the queue and the tree. -/
lemma Timed.respond (ht : Timed n) {c : ConnId} {p : MsgId} (b e : Bool) (hne : p ≠ m)
    (hm : n.m.tmoData m = none) :
    Timed ((({ (((((((n.emit (.link (n.m.id p) false)).tmoDelete p).deqOut s p).move p
      (.req (some c) none)).finish p).count p b).fail p e) with
        c.answers := update n.c.answers s
          (n.c.answers s ++ [Answer.linked (n.m.id p)]) }.link p m).move m (.rsp p)).setDue c) := by
  have h₀ : Timed (n.emit (.link (n.m.id p) false)) :=
    ht.same rfl rfl rfl rfl rfl fun h => h.emit _
  have h₂ := @Timed.fail _ p (h₀.deqOut s p)
    (update (((n.emit (.link (n.m.id p) false)).tmoDelete p).deqOut s p).g.place p
      (.req (some c) none)) c
    b e (fun y hne => update_of_ne hne _ _) (by simp [Place.Untimed])
  have hdata : ∀ n₁ : Net, n₁.m.tmoData m = none →
      ((((n₁.finish p).count p b).fail p e).setDue c).m.tmoData m = none := by
    intro n₁ h
    simp [Net.setDue, Net.fail, Net.finish, h]
  have hm' := hdata ({ ((n.emit (.link (n.m.id p) false)).tmoDelete p).deqOut s p with
    g.place := update (((n.emit (.link (n.m.id p) false)).tmoDelete p).deqOut s p).g.place p
      (.req (some c) none) }) (by simp [Net.deqOut, Net.emit, hne.symm, hm])
  exact h₂.change m rfl rfl id (fun y hne' => ⟨rfl, rfl, update_of_ne hne' _ _⟩) (fun _ => hm')
    (.inr (.inl hm'))

/-- A response to request `p`, whose client is closed, is swallowed with it. -/
lemma Timed.swallowed (ht : Timed n) (s : ConnId) (p : MsgId) :
    Timed ({ ((n.tmoDelete p).deqOut s p).finish p with
      c.answers := update n.c.answers s
        (n.c.answers s ++ [Answer.swallowed (n.m.id p)]) }.put p) := by
  have h₁ : Timed { ((n.tmoDelete p).deqOut s p).finish p with
      c.answers := update n.c.answers s (n.c.answers s ++ [Answer.swallowed (n.m.id p)]) } := by
    refine (ht.tmoDelete p).change p rfl rfl id (fun y hne => ?_) (fun _ => by simp) (.inl ?_)
    · simp [Net.finish, Net.deqOut, hne]
    · simp [Net.finish]
  exact h₁.put (by simp [Net.finish, Net.deqOut])

/-! ## The invariant in a run -/

/-- **A move keeps the invariant.**

**Proof sketch.** Most moves change neither the timers nor where their requests are.  Of the others,
each is a change of one message: it has no timer, or it is done, or it stays in a queue of the
connection that its timer names. -/
theorem Move.timed (h : Move n n') (hi : Inv n) (ht : Timed n) : Timed n' := by
  cases h with
  | server h => exact h.timed hi ht
  | timerTouch s m hs ht' hd he => exact ht.same rfl rfl rfl rfl rfl fun h => h.emit _
  | sleep | deliver | edge | written | settle | reject | bumpMsg | openClient | beginClose
    | unrefClient | takeMsg | growMsg | setOwner | setNoreply | number | vector | ferror =>
    exact ht.same rfl rfl rfl rfl rfl id
  | newMsg m x hm hid hx => exact ht.newMsg hm hx
  | read c m hm hp hc hr ho hb hf hf' => exact ht.read c hb.tmoData
  | unread c m hc hr => exact ht.unread hi hc hr
  | put m hm hp ht' hn => exact ht.put ht'
  | link c p r hp hd hpp hr hrp ht' hn => exact ht.link p ht'
  | unlink p r hp hr hu => exact ht.unlink hr
  | tmoDelete m => exact ht.tmoDelete m
  | expect c m hm hr hf hf' => exact ht.expect c hm.blank.tmoData n.g.pend
  | expectSub c m rest hp hm hc =>
    obtain ⟨c', o, hpend⟩ := hi.pend m (by simp [hp])
    exact ht.expect c hpend.blank.tmoData rest
  | reply c m r subs due hm hr hrb hmr hrs hs hdue hdue' => exact ht.reply subs due hrb.tmoData
  | failReply c m subs hm hs => exact ht.failReply c m subs
  | failHand m hm hp => exact ht.failHand hm
  | failFwd c m b hm hd hc => exact ht.fail b true (fun _ _ => rfl) (by simp [hm, Place.Untimed])
  | skipFwd c m hm hd hc hf => exact ht.skipFwd hm
  | leave c p hp hc => exact ht.leave hp
  | orphan c m srv hm hd hc => exact ht.orphan hm
  | enqIn s m cli timed rbt hm hs hb hr hr' hp hrbt => exact ht.enqIn s cli hb.tmoData hrbt
  | sendDone s m cli hm hr => exact ht.sendDone hm
  | respond s c p m rest b e hq hp hc hm hb hn =>
    have hne : p ≠ m := by
      rintro rfl
      simp [hp] at hm
    exact ht.respond b e hne hb.tmoData
  | swallowed s p rest hq hp => exact ht.swallowed s p

/-- **The moves keep the invariant.** -/
theorem Moves.timed (h : Moves n n') (hi : Inv n) (ht : Timed n) : Timed n' := by
  induction h with
  | refl => exact ht
  | tail hmoves hm ih => exact hm.timed (Moves.inv hmoves hi) ih

end GfwProxy
