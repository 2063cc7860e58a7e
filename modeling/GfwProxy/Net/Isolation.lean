import GfwProxy.Net.Ids

set_option autoImplicit false

/-!
# Requests of closed clients

A request outlives its client in the queues of a server connection, where its owner may be a
connection that somebody else uses by now.  Nothing is done on behalf of such a request: it is not
linked to a response, and it is not counted as a fragment; and the timer of a request names a
connection of a client only after a server connection has been left with requests in its queues.

## Main definitions

* `GfwProxy.Isolated` — what is never logged.

## Main results

* `GfwProxy.SendMoves.isolated` — the moves never log it.
-/

namespace GfwProxy

open Function

variable {n n' : Net} {c s : ConnId} {m : MsgId}

/-- **Nothing has been done for a request of a closed client.** -/
structure Isolated (n : Net) : Prop where
  link : ∀ i, .link i true ∉ n.a.log
  fragInc : ∀ i b, .fragInc i true b ∉ n.a.log
  touch : ∀ c i, .touch c i true ∈ n.a.log → n.Abandoned

/-- Event `e` does not speak of a request of a closed client. -/
def Ev.Clean : Ev → Prop
  | .link _ stale => stale = false
  | .touch _ _ stale => stale = false
  | .fragInc _ stale _ => stale = false
  | _ => True

/-- What is added to the log is clean, but for touches after a server connection has been
abandoned. -/
lemma Isolated.frame (hl : Isolated n) (es : List Ev) (hlog : n'.a.log = es ++ n.a.log)
    (hes : ∀ e ∈ es, e.Clean ∨ (∃ c i, e = .touch c i true) ∧ n.Abandoned) : Isolated n' := by
  have hab : n.Abandoned → n'.Abandoned :=
    fun h => h.mono (by rw [hlog]; exact List.subset_append_right _ _)
  refine ⟨fun i hmem => ?_, fun i b hmem => ?_, fun c i hmem => ?_⟩ <;>
    rw [hlog, List.mem_append] at hmem
  · rcases hmem with hmem | hmem
    · rcases hes _ hmem with hclean | ⟨⟨_, _, he⟩, -⟩
      · cases hclean
      · cases he
    · exact hl.link i hmem
  · rcases hmem with hmem | hmem
    · rcases hes _ hmem with hclean | ⟨⟨_, _, he⟩, -⟩
      · cases hclean
      · cases he
    · exact hl.fragInc i b hmem
  · rcases hmem with hmem | hmem
    · rcases hes _ hmem with hclean | ⟨-, h⟩
      · cases hclean
      · exact hab h
    · exact hab (hl.touch c i hmem)

/-- Isolation is a property of the log. -/
lemma Isolated.same (hl : Isolated n) (hlog : n'.a.log = n.a.log) : Isolated n' :=
  hl.frame [] hlog (by simp)

/-- A clean event keeps isolation. -/
lemma Isolated.emit (hl : Isolated n) {e : Ev} (he : e.Clean) : Isolated (n.emit e) :=
  hl.frame [e] rfl (by simpa using .inl he)

/-- Counting a fragment of an owner that is not stale keeps isolation. -/
lemma Isolated.count (hl : Isolated n) (m : MsgId) (b : Bool) (hm : n.stale m = false) :
    Isolated (n.count m b) := by
  unfold Net.count
  split
  · exact hl
  · refine hl.frame [.fragInc (n.m.id m) (n.stale m) b] rfl ?_
    simpa [Ev.Clean] using hm

/-- The timers do not write to the log. -/
@[simp] lemma Net.tmoDelete_log (n : Net) (m : MsgId) : (n.tmoDelete m).a.log = n.a.log := by
  unfold Net.tmoDelete
  split <;> rfl

/-- The client of a request in its queue is still there. -/
lemma Net.Of.stale (ho : n.Of m c) : n.stale m = false := by
  simp [Net.stale, ho.1, ho.2]

/-- A request is done, counted and perhaps in error. -/
lemma Isolated.settle (hl : Isolated n) (b e : Bool) (ho : n.Of m c) :
    Isolated ((((n.finish m).count m b).fail m e).setDue c) := by
  have h₁ : Isolated (n.finish m) := hl.same rfl
  exact (h₁.count m b (Net.Of.stale (n := n.finish m) ho)).same rfl

/-- The timers do not change owners. -/
lemma Net.tmoDelete_owner (n : Net) (m : MsgId) :
    (n.tmoDelete m).m.owner = n.m.owner ∧ (n.tmoDelete m).m.ownerGen = n.m.ownerGen := by
  unfold Net.tmoDelete
  split <;> exact ⟨rfl, rfl⟩

/-- A move of a server connection keeps isolation. -/
lemma ServerMove.isolated (h : ServerMove n n') (hi : Inv n) (hl : Isolated n) : Isolated n' := by
  cases h with
  | note e he =>
    refine hl.emit ?_
    cases e <;> trivial
  | touch c m hm => exact hl.emit rfl
  | dropIn s m hm =>
    refine hl.frame [.release (n.m.id m)] ?_ (by simp [Ev.Clean])
    simp [Net.put, Net.deqIn]
  | dropOut s m hm hs =>
    refine hl.frame [.release (n.m.id m)] ?_ (by simp [Ev.Clean])
    simp [Net.put, Net.deqOut]
  | discardRsp s m hs hr => exact hl.frame [.release (n.m.id m)] rfl (by simp [Ev.Clean])
  | failIn s c m b hm hc =>
    have ho := (hi.facts.cli m c _ hm).2.1
    have h₁ : Isolated ((n.deqIn s m).move m (.req (some c) none)) := hl.same rfl
    exact h₁.settle b true (show Net.Of _ m c from ho)
  | failOut s c m b hm hc hs =>
    have ho := (hi.facts.cli m c _ hm).2.1
    have h₁ : Isolated (((n.tmoDelete m).deqOut s m).move m (.req (some c) none)) :=
      hl.same (by simp [Net.move, Net.deqOut])
    refine h₁.settle b true ?_
    simpa [Net.Of, Net.move, Net.deqOut, n.tmoDelete_owner m] using ho
  | _ => exact hl.same rfl

/-- **One move keeps isolation.** An event that names another client is only written for a request
whose owner is the client itself, by the invariant. -/
lemma Move.isolated (h : Move n n') (hi : Inv n) (ht : Timed n) (hl : Isolated n) :
    Isolated n' := by
  cases h with
  | server h => exact h.isolated hi hl
  | timerTouch s m hs ht' hd he =>
    -- the timer of a live request names a server connection
    refine hl.frame [.touch s (n.m.id m) (n.stale m)] rfl ?_
    simp only [List.mem_singleton, forall_eq]
    cases hst : n.stale m with
    | false => exact .inl rfl
    | true =>
      refine .inr ⟨⟨_, _, rfl⟩, (ht.queued m s ht' hd he).resolve_left ?_⟩
      rintro ⟨cli, b, hplace⟩
      exact hs.ne (hi.facts.srv m cli s b hplace).1 rfl
  | put m hm hp ht' hn => exact hl.frame [.release (n.m.id m)] rfl (by simp [Ev.Clean])
  | tmoDelete m => exact hl.same (by simp)
  | failFwd c m b hm hd hc => exact hl.settle b true (hi.facts.cli m c _ hm).2.1
  | respond s c p m rest b e hq hp hc hm hb hn =>
    have ho := (hi.facts.cli p c _ hp).2.1
    have h₁ : Isolated (((n.emit (.link (n.m.id p) false)).tmoDelete p |>.deqOut s p).move p
        (.req (some c) none)) := by
      have h₀ : Isolated (n.emit (.link (n.m.id p) false)) := hl.emit rfl
      exact h₀.same (by simp [Net.move, Net.deqOut])
    refine (h₁.settle (m := p) (c := c) b e ?_).same rfl
    obtain ⟨howner, hgen⟩ := (n.emit (.link (n.m.id p) false)).tmoDelete_owner p
    refine ⟨(congrFun howner p).trans ho.1, (congrFun hgen p).trans (ho.2.trans ?_)⟩
    simp [Net.move, Net.deqOut, Net.emit]
  | swallowed s p rest hq hp =>
    refine hl.frame [.release (n.m.id p)] ?_ (by simp [Ev.Clean])
    simp [Net.put, Net.finish, Net.deqOut]
  | _ => exact hl.same rfl

/-- **Nothing is done for a request of a closed client.** -/
theorem SendMoves.isolated (h : SendMoves n n') (hs : Sound n) (hl : Isolated n) : Isolated n' := by
  induction h with
  | refl => exact hl
  | tail hms hm ih =>
    cases hm with
    | move hm =>
      have hsound := SendMoves.sound hms hs
      exact hm.isolated hsound.inv hsound.timed ih
    | cursor c x => exact ih.same rfl

end GfwProxy
