import GfwProxy.Net.Release

set_option autoImplicit false

/-!
# Requests that are done have an answer

A request of an open client that is done is in error, or linked to its response, so the write path
of the client always finds something to send for it.

## Main definitions

* `GfwProxy.Net.Replied` — there is something to send for a request.
* `GfwProxy.Answered` — the invariant.

## Main results

* `GfwProxy.Move.answered`, `GfwProxy.Moves.answered` — the moves keep it.
-/

namespace GfwProxy

open Function

variable {n n' : Net} {c s : ConnId} {m p : MsgId}

/-- There is something to send for request `p`: an error, or the response that it is linked to. -/
def Net.Replied (n : Net) (p : MsgId) : Prop :=
  n.m.error p = true ∨ n.m.fragId p ≠ 0 ∧ n.m.ferror p = true ∨ n.m.peer p ≠ none

/-- Request `p` of client `c` is in no queue of a server connection, and done. -/
structure Net.Ended (n : Net) (c : ConnId) (p : MsgId) : Prop where
  place : n.g.place p = .req (some c) none
  closing : c ∉ n.g.closing
  done : n.m.done p = true

/-- **There is something to send for every request that is done.** -/
def Answered (n : Net) : Prop := ∀ p c, n.Ended c p → n.Replied p

/-- Every request that has ended had ended before, or has an answer now. -/
lemma Answered.frame (ha : Answered n)
    (h : ∀ p c, n'.Ended c p → n.Ended c p ∧ (n.Replied p → n'.Replied p) ∨ n'.Replied p) :
    Answered n' := by
  intro p c hp
  rcases h p c hp with ⟨hp', hmono⟩ | hreplied
  · exact hmono (ha p c hp')
  · exact hreplied

/-- What decides about the answer to message `m` is the same. -/
structure Net.SameAnswer (n n' : Net) (m : MsgId) : Prop where
  place : n'.g.place m = n.g.place m
  done : n'.m.done m = n.m.done m
  error : n'.m.error m = n.m.error m
  fragId : n'.m.fragId m = n.m.fragId m
  ferror : n'.m.ferror m = n.m.ferror m
  peer : n'.m.peer m = n.m.peer m

/-- A request whose answer is the same had ended before, and has its answer still. -/
lemma Net.SameAnswer.ended (h : n.SameAnswer n' p) (hcl : c ∉ n.g.closing) (hp : n'.Ended c p) :
    n.Ended c p ∧ (n.Replied p → n'.Replied p) := by
  refine ⟨⟨h.place ▸ hp.place, hcl, h.done ▸ hp.done⟩, ?_⟩
  simp only [Net.Replied, h.error, h.fragId, h.ferror, h.peer]
  exact id

/-- Nothing happens to the messages but to message `m`. -/
lemma Answered.change (ha : Answered n) (m : MsgId) (hc : n.g.closing ⊆ n'.g.closing)
    (hother : ∀ y, y ≠ m → n.SameAnswer n' y)
    (hm : ∀ c, n'.Ended c m → n.SameAnswer n' m ∨ n'.Replied m) : Answered n' := by
  refine ha.frame fun p c hend => ?_
  have hcl : c ∉ n.g.closing := fun hmem => hend.closing (hc hmem)
  rcases eq_or_ne p m with rfl | hne
  · exact (hm c hend).imp_left fun hsame => hsame.ended hcl hend
  · exact .inl ((hother p hne).ended hcl hend)

/-- Nothing happens to the messages. -/
lemma Answered.same (ha : Answered n) (hc : n.g.closing ⊆ n'.g.closing)
    (h : ∀ y, n.SameAnswer n' y) :
    Answered n' :=
  ha.frame fun p _ hend => .inl ((h p).ended (fun hmem => hend.closing (hc hmem)) hend)

/-- A connection that nobody has used is opened. -/
lemma Answered.opened (ha : Answered n) (hi : Inv n) (ho : n.c.owner s = none)
    (hc : n'.g.closing = n.g.closing \ {s}) (h : ∀ y, n.SameAnswer n' y) : Answered n' := by
  refine ha.frame fun p c hend => .inl ((h p).ended (fun hmem => ?_) hend)
  have hne : c ≠ s := by
    rintro rfl
    obtain ⟨⟨q, hq⟩, -⟩ := hi.facts.cli p c none (h p |>.place ▸ hend.place)
    rw [ho] at hq
    cases hq
  have hclosing := hend.closing
  rw [hc] at hclosing
  exact hclosing ⟨hmem, hne⟩

/-- Counting a fragment leaves the marks alone. -/
@[simp] lemma Net.count_answer (n : Net) (m : MsgId) (b : Bool) :
    (n.count m b).m.fragId = n.m.fragId ∧ (n.count m b).m.ferror = n.m.ferror := by
  unfold Net.count
  split <;> exact ⟨rfl, rfl⟩

/-- A request fails. -/
lemma Answered.fail (ha : Answered n) (m : MsgId) {place : MsgId → Place} {c : ConnId} {b : Bool}
    (hother : ∀ y, y ≠ m → place y = n.g.place y) :
    Answered (((({ n with g.place := place }.finish m).count m b).fail m true).setDue c) := by
  refine ha.change m ?_ (fun y hne => ?_) fun c' _ => .inr (.inl ?_)
  · simp [Net.setDue, Net.fail, Net.finish]
  · constructor <;> simp [Net.setDue, Net.fail, Net.finish, hne, hother y hne]
  · simp [Net.setDue, Net.fail, Net.finish]

/-- The timers do not matter. -/
lemma Answered.tmoDelete (ha : Answered n) (m : MsgId) : Answered (n.tmoDelete m) := by
  unfold Net.tmoDelete
  split
  · exact ha
  · exact ha.same subset_rfl fun _ => ⟨rfl, rfl, rfl, rfl, rfl, rfl⟩

/-- A message is released. -/
lemma Answered.put (ha : Answered n) (m : MsgId) : Answered (n.put m) := by
  refine ha.change m subset_rfl (fun y hne => ⟨by simp [Net.put, hne], rfl, rfl, rfl, rfl, rfl⟩)
    fun c hend => ?_
  have hplace := hend.place
  simp [Net.put] at hplace

/-! ## The moves of a server connection -/

/-- A server connection is left; none of the requests in its queues is done. -/
lemma Answered.abandon (ha : Answered n) (hi : Inv n) (p i : ℕ) :
    Answered { n.unrefServer s p i with g.place := fun m => Net.afterAbandon s (n.g.place m) } := by
  refine ha.frame fun m c hend => .inl ⟨⟨?_, hend.closing, hend.done⟩, id⟩
  have hplace : Net.afterAbandon s (n.g.place m) = .req (some c) none := hend.place
  -- a request in a queue of the connection is not done
  cases hp : n.g.place m with
  | req cli srv =>
    rcases srv with _ | ⟨s', b⟩
    · rwa [hp] at hplace
    · have hdone : n.m.done m = true := hend.done
      rw [(hi.facts.srv m cli s' b hp).2.1] at hdone
      cases hdone
  | reading c' =>
    rw [hp, Net.afterAbandon] at hplace
    split_ifs at hplace
  | _ =>
    rw [hp] at hplace
    cases hplace

/-- A request leaves the queue of requests to be sent. -/
lemma Answered.deqIn (ha : Answered n) (s : ConnId) (m : MsgId) : Answered (n.deqIn s m) :=
  ha.same subset_rfl fun _ => ⟨rfl, rfl, rfl, rfl, rfl, rfl⟩

/-- A request leaves the queue of sent requests, and the tree. -/
lemma Answered.deqOut (ha : Answered n) (s : ConnId) (m : MsgId) :
    Answered ((n.tmoDelete m).deqOut s m) :=
  (ha.tmoDelete m).same subset_rfl fun _ => ⟨rfl, rfl, rfl, rfl, rfl, rfl⟩

/-- **A move of a server connection keeps the invariant.** -/
theorem ServerMove.answered (h : ServerMove n n') (hi : Inv n) (ha : Answered n) : Answered n' := by
  cases h with
  | note | touch | wake | calm | fdone | takeConn | growConn | setSd | rotate | connPut
    | unrefServer =>
    exact ha.same subset_rfl fun _ => ⟨rfl, rfl, rfl, rfl, rfl, rfl⟩
  | beginCloseServer s hs =>
    exact ha.same (Set.subset_insert s _) fun _ => ⟨rfl, rfl, rfl, rfl, rfl, rfl⟩
  | openServer s p i hs => exact ha.opened hi hs.owner rfl fun _ => ⟨rfl, rfl, rfl, rfl, rfl, rfl⟩
  | abandon s p i ho hab => exact ha.abandon hi p i
  | dropIn s m hm => exact ((ha.deqIn s m).tmoDelete m).put m
  | dropOut s m hm hs => exact (ha.deqOut s m).put m
  | failIn s c m b hm hc => exact (ha.deqIn s m).fail m fun y hne => by simp [Net.deqIn, hne]
  | failOut s c m b hm hc hs => exact (ha.deqOut s m).fail m fun y hne => by simp [Net.deqOut, hne]
  | discardRsp s m hs hr =>
    have h₁ : Answered { n with c.rmsg := update n.c.rmsg s none } :=
      ha.same subset_rfl fun _ => ⟨rfl, rfl, rfl, rfl, rfl, rfl⟩
    exact h₁.put m

/-! ## The moves of messages -/

/-- Message `m` goes to a place where a request has no answer yet, and nothing else changes. -/
lemma Answered.goes (ha : Answered n) (m : MsgId) (hc : n'.g.closing = n.g.closing)
    (hother : ∀ y, y ≠ m → n.SameAnswer n' y) (hm : ∀ c, ¬n'.Ended c m) : Answered n' :=
  ha.change m hc.symm.subset hother fun c hend => absurd hend (hm c)

/-- A message elsewhere has not ended. -/
lemma Net.not_ended_of_place {x : Place} (hm : n.g.place m = x) (hx : ∀ c, x ≠ .req (some c) none)
    (c : ConnId) : ¬n.Ended c m :=
  fun h => hx c (hm.symm.trans h.place)

/-- A request that is not done has not ended. -/
lemma Net.not_ended_of_done (hd : n.m.done m = false) (c : ConnId) : ¬n.Ended c m :=
  fun h => Bool.false_ne_true (hd.symm.trans h.done)

/-- Message `m` goes to a place where nothing waits for an answer. -/
lemma Answered.moves (ha : Answered n) (m : MsgId) {x : Place} (hx : ∀ c, x ≠ .req (some c) none) :
    Answered (n.move m x) := by
  refine ha.goes m rfl (fun y hne => ?_) (Net.not_ended_of_place (by simp [Net.move]) hx)
  constructor <;> simp [Net.move, hne]

/-- A message is made. -/
lemma Answered.newMsg (ha : Answered n) (m : MsgId) (x : Msg) :
    Answered { n with
      m := n.m.set m x
      a.msgId := n.a.msgId + 1
      g.place := update n.g.place m .hand } := by
  refine ha.goes m rfl (fun y hne => ?_)
    (Net.not_ended_of_place (x := .hand) (update_self ..) (by simp))
  constructor <;> simp [MsgCols.set, hne]

/-- A request becomes the owner of a vector. -/
lemma Answered.vector (ha : Answered n) (k : ℕ) (hm : n.g.place m = .hand) :
    Answered { n with
      m.fragId := update n.m.fragId m (n.a.fragId + 1)
      m.fragOwner := update n.m.fragOwner m (some m)
      m.nfrag := update n.m.nfrag m k
      a.fragId := n.a.fragId + 1 } := by
  refine ha.goes m rfl (fun y hne => ?_) (Net.not_ended_of_place hm (by simp))
  constructor <;> simp [hne]

/-- A response is linked to request `p`, which has an answer then. -/
lemma Answered.link (ha : Answered n) (p : MsgId) {r : MsgId} (hr : n.g.place r = .hand) :
    Answered ((n.link p r).move r (.rsp p)) := by
  have h₁ : Answered (n.link p r) := by
    refine ha.frame fun y c' hend => ?_
    rcases eq_or_ne y r with rfl | hne
    · have hplace : n.g.place y = .req (some c') none := hend.place
      simp [hr] at hplace
    rcases eq_or_ne y p with rfl | hne'
    · refine .inr (.inr (.inr ?_))
      simp [Net.link, hne]
    · refine .inl ⟨⟨hend.place, hend.closing, hend.done⟩, ?_⟩
      simp [Net.Replied, Net.link, hne, hne']
  exact h₁.moves r (by simp)

/-- The link is broken of a request that is in error, or that is not waited for. -/
lemma Answered.unlink (ha : Answered n) {p r : MsgId} (hr : n.g.place r = .rsp p)
    (hu : n.g.place p = .hand ∨ n.m.error p = true ∨ n.m.fragId p ≠ 0 ∧ n.m.ferror p = true) :
    Answered ((n.unlink p r).move r .hand) := by
  have h₁ : Answered (n.unlink p r) := by
    refine ha.frame fun y c' hend => ?_
    have hplace : n.g.place y = .req (some c') none := hend.place
    rcases eq_or_ne y r with rfl | hne
    · simp [hr] at hplace
    rcases eq_or_ne y p with rfl | hne'
    · rcases hu with hu | hu | hu
      · simp [hu] at hplace
      · exact .inr (.inl hu)
      · exact .inr (.inr (.inl hu))
    · refine .inl ⟨⟨hend.place, hend.closing, hend.done⟩, ?_⟩
      simp [Net.Replied, Net.unlink, hne, hne']
  exact h₁.moves r (by simp)

/-- Fragments are marked. -/
lemma Answered.ferror (ha : Answered n) {f : MsgId → Bool}
    (hf : ∀ x, n.m.ferror x = true → f x = true) : Answered { n with m.ferror := f } := by
  refine ha.frame fun p c hend => .inl ⟨⟨hend.place, hend.closing, hend.done⟩, ?_⟩
  rintro (he | ⟨hne, he⟩ | hpeer)
  · exact .inl he
  · exact .inr (.inl ⟨hne, hf p he⟩)
  · exact .inr (.inr hpeer)

/-! ## The moves of requests of a client -/

/-- A request that is not done is put into the queue of its client. -/
lemma Answered.expect (ha : Answered n) (c : ConnId) (hm : n.m.done m = false) (pend : List MsgId) :
    Answered ({ n.enqOut c m with g.pend := pend }.move m (.req (some c) none)) := by
  refine ha.goes m rfl (fun y hne => ?_) (Net.not_ended_of_done hm)
  constructor <;> simp [Net.move, Net.enqOut, hne]

/-- The proxy replies to a request itself. -/
lemma Answered.reply (ha : Answered n) {c : ConnId} {r : MsgId} (subs : List MsgId)
    (due : Set ConnId) (hr : n.g.place r = .hand) (hmr : m ≠ r) :
    Answered ({ ((n.link m r).finish m).enqOut c m with g.pend := subs, g.due := due }
      |>.move m (.req (some c) none) |>.move r (.rsp m)) := by
  have h₁ : Answered ({ ((n.link m r).finish m).enqOut c m with g.pend := subs, g.due := due }
      |>.move m (.req (some c) none)) := by
    refine ha.frame fun y c' hend => ?_
    rcases eq_or_ne y m with rfl | hne
    · refine .inr (.inr (.inr ?_))
      simp [Net.move, Net.enqOut, Net.finish, Net.link, hmr]
    have hplace : n.g.place y = .req (some c') none := by
      simpa [Net.move, Net.enqOut, Net.finish, Net.link, hne] using hend.place
    rcases eq_or_ne y r with rfl | hne'
    · simp [hr] at hplace
    · refine .inl ⟨⟨hplace, hend.closing, ?_⟩, ?_⟩
      · simpa [Net.move, Net.enqOut, Net.finish, Net.link, hne] using hend.done
      · simp [Net.Replied, Net.move, Net.enqOut, Net.finish, Net.link, hne, hne']
  exact h₁.moves r (by simp)

/-- A request fails before its reply is made. -/
lemma Answered.failReply (ha : Answered n) (c : ConnId) (m : MsgId) (subs : List MsgId) :
    Answered ({ ((n.enqOut c m).finish m).fail m true with g.pend := subs }.setDue c
      |>.move m (.req (some c) none)) := by
  refine ha.change m (by simp [Net.move, Net.setDue, Net.enqOut, Net.finish, Net.fail])
    (fun y hne => ?_) fun _ _ => .inr (.inl (by simp [Net.move, Net.setDue, Net.fail]))
  constructor <;> simp [Net.move, Net.setDue, Net.enqOut, Net.finish, Net.fail, hne]

/-- A request that is held by a handler fails. -/
lemma Answered.failHand (ha : Answered n) (m : MsgId) : Answered ((n.finish m).fail m true) := by
  refine ha.change m (by simp [Net.finish, Net.fail]) (fun y hne => ?_)
    fun _ _ => .inr (.inl (by simp [Net.fail]))
  constructor <;> simp [Net.finish, Net.fail, hne]

/-- A request in the queue of its client fails without being counted. -/
lemma Answered.skipFwd (ha : Answered n) (c : ConnId) (m : MsgId) :
    Answered (((n.finish m).fail m true).setDue c) := by
  refine ha.change m (by simp [Net.setDue, Net.finish, Net.fail]) (fun y hne => ?_)
    fun _ _ => .inr (.inl (by simp [Net.setDue, Net.fail]))
  constructor <;> simp [Net.setDue, Net.finish, Net.fail, hne]

/-- A request leaves the queue of its client. -/
lemma Answered.leave (ha : Answered n) (c : ConnId) (m : MsgId) :
    Answered ((n.deqOut c m).move m .hand) := by
  refine ha.goes m rfl (fun y hne => ?_)
    (Net.not_ended_of_place (x := .hand) (by simp [Net.move]) (by simp))
  constructor <;> simp [Net.move, Net.deqOut, hne]

/-- The client of a request is closed. -/
lemma Answered.orphan (ha : Answered n) (c : ConnId) (m : MsgId) (srv : Option (ConnId × Bool)) :
    Answered ({ n.deqOut c m with m.swallow := update n.m.swallow m true }.move m
      (.req none srv)) := by
  refine ha.goes m rfl (fun y hne => ?_)
    (Net.not_ended_of_place (x := .req none srv) (by simp [Net.move]) (by simp))
  constructor <;> simp [Net.move, Net.deqOut, hne]

/-! ## The moves of requests of a server connection -/

/-- A request is put into the queue of a server connection. -/
lemma Answered.enqIn (ha : Answered n) (s : ConnId) (m : MsgId) (cli : Option ConnId)
    (tmoData : MsgId → Option ConnId) (rbt : List MsgId) :
    Answered ({ n.enqIn s m with m.tmoData := tmoData, a.tmoRbt := rbt }.move m
      (.req cli (some (s, false)))) := by
  refine ha.goes m rfl (fun y hne => ?_)
    (Net.not_ended_of_place (x := .req cli (some (s, false))) (by simp [Net.move]) (by simp))
  constructor <;> simp [Net.move, Net.enqIn, hne]

/-- A request has been sent. -/
lemma Answered.sendDone (ha : Answered n) (s : ConnId) (m : MsgId) (cli : Option ConnId) :
    Answered ({ (n.deqIn s m).enqOut s m with
      c.sent := update n.c.sent s (n.c.sent s ++ [n.m.id m]) }.move m
        (.req cli (some (s, true)))) := by
  refine ha.goes m rfl (fun y hne => ?_)
    (Net.not_ended_of_place (x := .req cli (some (s, true))) (by simp [Net.move]) (by simp))
  constructor <;> simp [Net.move, Net.deqIn, Net.enqOut, hne]

/-- Response `m` is received for request `p`, which has an answer then. -/
lemma Answered.respond (ha : Answered n) {c : ConnId} (p : MsgId) (b e : Bool)
    (hm : n.g.place m = .hand) :
    Answered ((({ (((((((n.emit (.link (n.m.id p) false)).tmoDelete p).deqOut s p).move p
      (.req (some c) none)).finish p).count p b).fail p e) with
        c.answers := update n.c.answers s
          (n.c.answers s ++ [Answer.linked (n.m.id p)]) }.link p m).move m (.rsp p)).setDue c) := by
  have h₀ : Answered (n.emit (.link (n.m.id p) false)) :=
    ha.same subset_rfl fun _ => ⟨rfl, rfl, rfl, rfl, rfl, rfl⟩
  have h₁ := h₀.deqOut s p
  have hm₁ : (((n.emit (.link (n.m.id p) false)).tmoDelete p).deqOut s p).g.place m = .hand := by
    simpa [Net.deqOut, Net.emit] using hm
  generalize ((n.emit (.link (n.m.id p) false)).tmoDelete p).deqOut s p = n₁ at h₁ hm₁
  refine h₁.frame fun y c' hend => ?_
  have hplace := hend.place
  rcases eq_or_ne y m with rfl | hne
  · simp [Net.setDue, Net.move] at hplace
  rcases eq_or_ne y p with rfl | hne'
  · refine .inr (.inr (.inr ?_))
    simp [Net.setDue, Net.move, Net.link, hne]
  · refine .inl ⟨⟨?_, ?_, ?_⟩, ?_⟩
    · simpa [Net.setDue, Net.move, Net.link, Net.fail, Net.finish, hne, hne'] using hplace
    · simpa [Net.setDue, Net.move, Net.link, Net.fail, Net.finish] using hend.closing
    · simpa [Net.setDue, Net.move, Net.link, Net.fail, Net.finish, hne'] using hend.done
    · simp [Net.Replied, Net.setDue, Net.move, Net.link, Net.fail, Net.finish, hne, hne']

/-- A response to request `p`, whose client is closed, is swallowed with it. -/
lemma Answered.swallowed (ha : Answered n) {p : MsgId}
    (hp : n.g.place p = .req none (some (s, true))) :
    Answered ({ ((n.tmoDelete p).deqOut s p).finish p with
      c.answers := update n.c.answers s
        (n.c.answers s ++ [Answer.swallowed (n.m.id p)]) }.put p) := by
  have h₁ : Answered { ((n.tmoDelete p).deqOut s p).finish p with
      c.answers := update n.c.answers s (n.c.answers s ++ [Answer.swallowed (n.m.id p)]) } := by
    refine (ha.tmoDelete p).goes p rfl (fun y hne => ?_)
      (Net.not_ended_of_place (x := .req none (some (s, true))) ?_ (by simp))
    · constructor <;> simp [Net.finish, Net.deqOut, hne]
    · simpa [Net.finish, Net.deqOut] using hp
  exact h₁.put p

/-! ## The invariant in a run -/

/-- **A move keeps the invariant.**

**Proof sketch.** A message that goes to a place where nothing waits for an answer does no harm.
The moves that leave a request done in the queue of its client either put it in error or link it to
a response. -/
theorem Move.answered (h : Move n n') (hi : Inv n) (ha : Answered n) : Answered n' := by
  cases h with
  | server h => exact h.answered hi ha
  | timerTouch | sleep | deliver | edge | written | settle | reject | bumpMsg | unrefClient
    | takeMsg | growMsg | setOwner | setNoreply | number =>
    exact ha.same subset_rfl fun _ => ⟨rfl, rfl, rfl, rfl, rfl, rfl⟩
  | beginClose c hc => exact ha.same (Set.subset_insert c _) fun _ => ⟨rfl, rfl, rfl, rfl, rfl, rfl⟩
  | openClient c p sd hc => exact ha.opened hi hc.owner rfl fun _ => ⟨rfl, rfl, rfl, rfl, rfl, rfl⟩
  | newMsg m x hm hid hx => exact ha.newMsg m x
  | vector m k hm hp => exact ha.vector k hm
  | read c m hm hp hc hr ho hb hf hf' =>
    have h₁ : Answered { n with c.rmsg := update n.c.rmsg c (some m) } :=
      ha.same subset_rfl fun _ => ⟨rfl, rfl, rfl, rfl, rfl, rfl⟩
    exact h₁.moves m (by simp)
  | unread c m hc hr =>
    have h₁ : Answered { n with c.rmsg := update n.c.rmsg c none } :=
      ha.same subset_rfl fun _ => ⟨rfl, rfl, rfl, rfl, rfl, rfl⟩
    exact h₁.moves m (by simp)
  | put m hm hp ht hn => exact ha.put m
  | tmoDelete m => exact ha.tmoDelete m
  | link c p r hp hd hpp hr hrp ht hn => exact ha.link p hr
  | unlink p r hp hr hu => exact ha.unlink hr hu
  | ferror f hf => exact ha.ferror hf
  | expect c m hm hr hf hf' => exact ha.expect c hm.blank.done n.g.pend
  | expectSub c m rest hp hm hc =>
    obtain ⟨c', o, hpend⟩ := hi.pend m (by simp [hp])
    exact ha.expect c hpend.blank.done rest
  | reply c m r subs due hm hr hrb hmr hrs hs hdue hdue' => exact ha.reply subs due hr hmr
  | failReply c m subs hm hs => exact ha.failReply c m subs
  | failHand m hm hp => exact ha.failHand m
  | failFwd c m b hm hd hc => exact ha.fail m fun _ _ => rfl
  | skipFwd c m hm hd hc hf => exact ha.skipFwd c m
  | leave c p hp hc => exact ha.leave c p
  | orphan c m srv hm hd hc => exact ha.orphan c m srv
  | enqIn s m cli timed rbt hm hs hb hr hr' hp hrbt => exact ha.enqIn s m cli _ rbt
  | sendDone s m cli hm hr => exact ha.sendDone s m cli
  | respond s c p m rest b e hq hp hc hm hb hn => exact ha.respond p b e hm
  | swallowed s p rest hq hp => exact ha.swallowed hp

/-- **The moves keep the invariant.** -/
theorem Moves.answered (h : Moves n n') (hi : Inv n) (ha : Answered n) : Answered n' := by
  induction h with
  | refl => exact ha
  | tail hms hm ih => exact hm.answered (Moves.inv hms hi) ih

end GfwProxy
