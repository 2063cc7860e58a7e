import GfwProxy.Net.Server

set_option autoImplicit false

/-!
# The moves keep the invariant

One case a move; the work is done in the lemmas about the operations that the move consists of.

## Main results

* `GfwProxy.ServerMove.inv`, `GfwProxy.Move.inv` — a move keeps the invariant.
* `GfwProxy.Moves.inv` — a sequence of moves keeps the invariant.
-/

namespace GfwProxy

open Function

variable {n n' : Net}

/-- Counting a fragment changes no peer. -/
@[simp] lemma Net.count_peer (n : Net) (m : MsgId) (b : Bool) :
    (n.count m b).m.peer = n.m.peer := by
  unfold Net.count
  split <;> rfl

/-- The moves of a server connection keep the invariant. -/
theorem ServerMove.inv (h : ServerMove n n') (hi : Inv n) : Inv n' := by
  cases h with
  | note e he =>
    exact hi.same ⟨rfl, rfl, rfl, rfl, rfl, rfl, rfl, rfl, rfl, rfl, rfl, rfl, rfl, rfl, rfl,
      fun _ => List.mem_cons_of_mem _, rfl, rfl, rfl⟩
  | touch c m hm =>
    exact hi.same ⟨rfl, rfl, rfl, rfl, rfl, rfl, rfl, rfl, rfl, rfl, rfl, rfl, rfl, rfl, rfl,
      fun _ => List.mem_cons_of_mem _, rfl, rfl, rfl⟩
  | wake | calm =>
    exact hi.same ⟨rfl, rfl, rfl, rfl, rfl, rfl, rfl, rfl, rfl, rfl, rfl, rfl, rfl, rfl, rfl,
      fun _ => id, rfl, rfl, rfl⟩
  | fdone c m hc hcl hm hd hf hn hr hp => exact hi.mark hc hm hd hf hn hr hcl (hp.imp And.left id)
  | takeConn c rest hf => exact hi.takeConn hf
  | growConn hf => exact hi.growConn
  | openServer s p i hs => exact hi.openServer hs
  | setSd s v hs => exact hi.setSd hs
  | rotate p i s rest hq => exact hi.rotate hq
  | connPut c hc => exact hi.connPut hc
  | beginCloseServer s hs =>
    obtain ⟨p, i, hs⟩ := hs
    refine hi.beginClose ?_
    rintro ⟨p', hc⟩
    rw [hs] at hc
    cases hc
  | unrefServer s p i ho hq hq' hr => exact hi.unrefServer ho hq hq' hr
  | abandon s p i ho ha => exact hi.abandon ho
  | dropIn s m hm => exact hi.dropIn hm
  | dropOut s m hm hs => exact hi.dropOut hm
  | failIn s c m b hm hc =>
    have hd := (hi.facts.srv m (some c) s false hm).2.1
    have h := (hi.deqIn hm).settle (m := m) (c := c) (by simp [Net.move]) hd hc b true
    exact h.same ⟨rfl, rfl, rfl, rfl, rfl, rfl, rfl, rfl, rfl, rfl, rfl, rfl, rfl, rfl, rfl,
      fun _ => id, rfl, rfl, rfl⟩
  | failOut s c m b hm hc hs =>
    have hd := (hi.facts.srv m (some c) s true hm).2.1
    have h := ((hi.tmoDelete m).deqOut (Net.place_tmoDelete hm)).settle
      (m := m) (c := c) (by simp [Net.move]) (by simpa [Net.move, Net.deqOut] using hd)
      (by simpa [Net.move, Net.deqOut] using hc) b true
    exact h.same ⟨rfl, rfl, rfl, rfl, rfl, rfl, rfl, rfl, rfl, rfl, rfl, rfl, rfl, rfl, rfl,
      fun _ => id, rfl, rfl, rfl⟩
  | discardRsp s m hs hr =>
    have ho : n.Open s := by
      obtain ⟨p, i, ho⟩ := hs
      simp [Net.Open, ho]
    have hplace := (hi.queues.rmsg s ho m).mp hr
    have h := (hi.unread ho hr).put (m := m) (by simp [Net.move]) ?_ ?_
    · refine h.same ⟨rfl, rfl, rfl, rfl, rfl, rfl, rfl, rfl, rfl, rfl, rfl, rfl, rfl, rfl, rfl,
        fun _ => id, ?_, rfl, rfl⟩
      simp [Net.put, Net.move]
    · simpa [Net.move] using (hi.facts.reading m s hplace).2.2.1.peer
    · intro hmem
      exact hi.ne_of_pend hmem (by simp [hplace]) rfl

/-- **The moves keep the invariant.**

**Proof sketch.** One case for each move, each with the lemma about it. -/
theorem Move.inv (h : Move n n') (hi : Inv n) : Inv n' := by
  cases h with
  | server h => exact h.inv hi
  | timerTouch s m hs ht hd he =>
    exact hi.same ⟨rfl, rfl, rfl, rfl, rfl, rfl, rfl, rfl, rfl, rfl, rfl, rfl, rfl, rfl, rfl,
      fun _ => List.mem_cons_of_mem _, rfl, rfl, rfl⟩
  | sleep | deliver | edge | written | settle | reject | bumpMsg =>
    exact hi.same ⟨rfl, rfl, rfl, rfl, rfl, rfl, rfl, rfl, rfl, rfl, rfl, rfl, rfl, rfl, rfl,
      fun _ => id, rfl, rfl, rfl⟩
  | openClient c p sd hc => exact hi.openClient hc
  | beginClose c hc => exact hi.beginClose hc
  | unrefClient c p ho hq hr => exact hi.unrefClient ho hq hr
  | takeMsg m rest hf => exact hi.takeMsg hf
  | growMsg hf => exact hi.growMsg
  | newMsg m x hm hid hx => exact hi.newMsg hm hx
  | setOwner m c hm hp => exact hi.setOwner hm hp
  | setNoreply m c b hm => exact hi.setNoreply hm b
  | number c m hm hp => exact hi.number hm hp
  | vector m k hm hp => exact hi.vector hm hp
  | read c m hm hp hc hr ho hb hf hf' => exact hi.read hm hp hc hr ho hb hf hf'
  | unread c m hc hr => exact hi.unread hc hr
  | put m hm hp ht hn => exact hi.put hm hp hn
  | link c p r hp hd hpp hr hrp ht hn =>
    refine hi.link hp hpp hr hrp ?_ hn fun h => hi.ne_of_pend h (by simp [hp]) rfl
    rintro rfl
    simp [hp] at hr
  | unlink p r hp hr hu => exact hi.unlink hp hr
  | tmoDelete m => exact hi.tmoDelete m
  | ferror f hf => exact hi.setFerror f
  | expect c m hm hr hf hf' => exact hi.expect hm hf hf'
  | expectSub c m rest hp hm hc => exact hi.expectSub hp hm hc
  | reply c m r subs due hm hr hrb hmr hrs hs hdue hdue' => exact hi.reply hm hr hrb hmr hrs hs due
  | failReply c m subs hm hs => exact hi.failReply hm hs
  | failHand m hm hp => exact hi.failHand hm hp
  | failFwd c m b hm hd hc =>
    exact (hi.settle hm hd hc b true).same ⟨rfl, rfl, rfl, rfl, rfl, rfl, rfl, rfl, rfl, rfl, rfl,
      rfl, rfl, rfl, rfl, fun _ => id, rfl, rfl, rfl⟩
  | skipFwd c m hm hd hc hf =>
    exact (hi.skip hm hd hc hf).same ⟨rfl, rfl, rfl, rfl, rfl, rfl, rfl, rfl, rfl, rfl, rfl,
      rfl, rfl, rfl, rfl, fun _ => id, rfl, rfl, rfl⟩
  | leave c p hp hc => exact hi.leave hp (hc.imp id fun h => ⟨h.1, h.2.1⟩)
  | orphan c m srv hm hd hc => exact hi.orphan hm hc
  | enqIn s m cli timed rbt hm hs hb hr hr' hp hrbt =>
    exact hi.enqIn hm hs hb (fun h => (hr h).1) hr' hp
  | sendDone s m cli hm hr => exact hi.sendDone hm hr
  | respond s c p m rest b e hq hp hc hm hb hn =>
    have hfacts := hi.facts.srv p (some c) s true hp
    have hne : p ≠ m := by
      rintro rfl
      simp [hp] at hm
    have hpp : p ∉ n.g.pend := fun h => hi.ne_of_pend h (by simp [hp]) rfl
    have h₁ : Inv (n.emit (.link (n.m.id p) false)) := hi.same ⟨rfl, rfl, rfl, rfl, rfl, rfl, rfl,
      rfl, rfl, rfl, rfl, rfl, rfl, rfl, rfl, fun _ => List.mem_cons_of_mem _, rfl, rfl, rfl⟩
    have h₂ := ((h₁.tmoDelete p).deqOut (Net.place_tmoDelete hp)).settle (m := p) (c := c)
      (by simp [Net.move])
      (by simpa [Net.move, Net.deqOut, Net.emit] using hfacts.2.1)
      (by simpa [Net.move, Net.deqOut, Net.emit] using hc) b e
    have h₃ := h₂.link (p := p) (r := m)
      (show _ = Place.req (some c) none by simp [Net.fail, Net.finish, Net.move])
      (by simpa [Net.fail, Net.finish, Net.move, Net.deqOut, Net.emit] using hfacts.2.2.2.1)
      (by simpa [Net.fail, Net.finish, Net.move, Net.deqOut, Net.emit, hne.symm] using hm)
      (by simpa [Net.fail, Net.finish, Net.move, Net.deqOut, Net.emit] using hb.peer) hne
      (by simpa [Net.fail, Net.finish, Net.move, Net.deqOut, Net.emit] using hn)
      (by simpa [Net.fail, Net.finish, Net.move, Net.deqOut, Net.emit] using hpp)
    exact h₃.same ⟨rfl, rfl, rfl, rfl, rfl, rfl, rfl, rfl, rfl, rfl, rfl, rfl, rfl, rfl, rfl,
      fun _ => id, rfl, rfl, rfl⟩
  | swallowed s p rest hq hp => exact hi.swallowed hp _

/-- **Sequences of moves keep the invariant.** -/
theorem Moves.inv (h : Moves n n') (hi : Inv n) : Inv n' := by
  induction h with
  | refl => exact hi
  | tail _ hm ih => exact hm.inv ih

end GfwProxy
