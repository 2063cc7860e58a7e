import GfwProxy.Net.Events

set_option autoImplicit false

/-!
# Pairing requests and responses

On a server connection that is not being closed, the responses received so far answer the requests
sent so far, in order, and the requests that have no response yet are those in its out queue.

## Main definitions

* `GfwProxy.Paired` — the invariant.

## Main results

* `GfwProxy.SendMoves.paired` — the moves keep it.
-/

namespace GfwProxy

open Function

variable {n n' : Net} {c s : ConnId} {m : MsgId}

/-- The id of the request that a response was matched with. -/
def Answer.request : Answer → Option ℕ
  | .linked id => some id
  | .swallowed id => some id
  | .stray => none
  | .failed => none

/-- The requests sent on connection `s` are those that have been answered, in order, and then those
in its out queue. -/
def Net.PairedAt (n : Net) (s : ConnId) : Prop :=
  (n.c.sent s).map some = (n.c.answers s).map Answer.request ++ (n.c.omsgq s).map fun m =>
    some (n.m.id m)

/-- **The requests and the responses of every server connection are paired.** -/
def Paired (n : Net) : Prop := ∀ s, n.Server s → s ∉ n.g.closing → n.PairedAt s

/-- Server connection `s` is in use as before, with the same requests and responses. -/
structure Net.SamePairs (n n' : Net) (s : ConnId) : Prop where
  server : n.Server s
  closing : s ∉ n.g.closing
  sent : n'.c.sent s = n.c.sent s
  answers : n'.c.answers s = n.c.answers s
  omsgq : n'.c.omsgq s = n.c.omsgq s
  id : ∀ m ∈ n.c.omsgq s, n'.m.id m = n.m.id m

/-- Pairing is kept when it is kept of each open server connection. -/
lemma Paired.frame (hp : Paired n)
    (h : ∀ s, n'.Server s → s ∉ n'.g.closing → n.SamePairs n' s ∨ n'.PairedAt s) : Paired n' := by
  intro s hs hcl
  rcases h s hs hcl with hsame | hpaired
  · rw [Net.PairedAt, hsame.sent, hsame.answers, hsame.omsgq]
    refine (hp s hsame.server hsame.closing).trans (congrArg _ (List.map_congr_left fun m hm => ?_))
    rw [hsame.id m hm]
  · exact hpaired

/-- The requests and the responses are the same. -/
lemma Paired.same (hp : Paired n) (ho : n'.c.owner = n.c.owner) (hc : n.g.closing ⊆ n'.g.closing)
    (hs : n'.c.sent = n.c.sent) (ha : n'.c.answers = n.c.answers) (hq : n'.c.omsgq = n.c.omsgq)
    (hi : n'.m.id = n.m.id) : Paired n' := by
  refine hp.frame fun s hs' hcl =>
    .inl ⟨?_, fun hmem => hcl (hc hmem), by rw [hs], by rw [ha], by rw [hq], by simp [hi]⟩
  rwa [Net.Server, ← ho]

/-- A queue of connection `c`, which is a client's or being closed, is written to. -/
lemma Paired.other (hp : Paired n) {q : List MsgId} (hc : n.Client c ∨ c ∈ n.g.closing)
    (ho : n'.c.owner = n.c.owner) (hcl : n.g.closing ⊆ n'.g.closing) (hs : n'.c.sent = n.c.sent)
    (ha : n'.c.answers = n.c.answers) (hq : n'.c.omsgq = update n.c.omsgq c q)
    (hi : n'.m.id = n.m.id) :
    Paired n' := by
  refine hp.frame fun s hs' hsc => .inl ?_
  have hs'' : n.Server s := by rwa [Net.Server, ← ho]
  have hsc' : s ∉ n.g.closing := fun hmem => hsc (hcl hmem)
  have hne : s ≠ c := by
    rintro rfl
    exact hc.elim (fun hc => hc.ne hs'' rfl) hsc'
  exact ⟨hs'', hsc', by rw [hs], by rw [ha], by rw [hq, update_of_ne hne], by simp [hi]⟩

/-- Connection `c` is opened with empty queues. -/
lemma Paired.opened {o : Option Owner} (hp : Paired n) (ho : n'.c.owner = update n.c.owner c o)
    (hc : n'.g.closing = n.g.closing \ {c}) (hs : n'.c.sent = update n.c.sent c [])
    (ha : n'.c.answers = update n.c.answers c []) (hq : n'.c.omsgq = update n.c.omsgq c [])
    (hi : n'.m.id = n.m.id) : Paired n' := by
  refine hp.frame fun s hs' hsc => ?_
  rcases eq_or_ne s c with rfl | hne
  · refine .inr ?_
    simp [Net.PairedAt, hs, ha, hq]
  · refine .inl ⟨?_, fun hmem => hsc ?_, by rw [hs, update_of_ne hne], by rw [ha, update_of_ne hne],
      by rw [hq, update_of_ne hne], by simp [hi]⟩
    · rwa [Net.Server, ho, update_of_ne hne] at hs'
    · rw [hc]
      exact ⟨hmem, hne⟩

/-- Connection `c` is not open any more. -/
lemma Paired.left (hp : Paired n) (ho : n'.c.owner = update n.c.owner c none)
    (hc : n.g.closing ⊆ n'.g.closing) (hs : n'.c.sent = n.c.sent) (ha : n'.c.answers = n.c.answers)
    (hq : n'.c.omsgq = n.c.omsgq) (hi : n'.m.id = n.m.id) : Paired n' := by
  refine hp.frame fun s hs' hcl =>
    .inl ⟨?_, fun hmem => hcl (hc hmem), by rw [hs], by rw [ha], by rw [hq], by simp [hi]⟩
  obtain ⟨p, i, hpi⟩ := hs'
  have hne : s ≠ c := by
    rintro rfl
    rw [ho, update_self] at hpi
    cases hpi
  exact ⟨p, i, by rwa [ho, update_of_ne hne] at hpi⟩

/-- The timers do not change the ids. -/
@[simp] lemma Net.tmoDelete_id (n : Net) (m : MsgId) : (n.tmoDelete m).m.id = n.m.id := by
  unfold Net.tmoDelete
  split <;> rfl

/-- Counting a fragment does not change the ids. -/
@[simp] lemma Net.count_id (n : Net) (m : MsgId) (b : Bool) : (n.count m b).m.id = n.m.id := by
  unfold Net.count
  split <;> rfl

/-- A move of a server connection keeps the pairing. -/
lemma ServerMove.paired (h : ServerMove n n') (hp : Paired n) : Paired n' := by
  cases h with
  | beginCloseServer s hs => exact hp.same rfl (Set.subset_insert s _) rfl rfl rfl rfl
  | openServer s p i hs => exact hp.opened (c := s) rfl rfl rfl rfl rfl rfl
  | unrefServer s p i ho hi hq hr => exact hp.left (c := s) rfl subset_rfl rfl rfl rfl rfl
  | abandon s p i ho ha => exact hp.left (c := s) rfl subset_rfl rfl rfl rfl rfl
  | dropIn s m hm =>
    exact hp.same (by simp [Net.put, Net.deqIn]) (by simp [Net.put, Net.deqIn])
      (by simp [Net.put, Net.deqIn]) (by simp [Net.put, Net.deqIn]) (by simp [Net.put, Net.deqIn])
      (by simp [Net.put, Net.deqIn])
  | dropOut s m hm hs =>
    refine hp.other (c := s) (q := (n.c.omsgq s).erase m) (.inr hs) ?_ ?_ ?_ ?_ ?_ ?_
    all_goals simp [Net.put, Net.deqOut]
  | failIn s c m b hm hc =>
    refine hp.same ?_ ?_ ?_ ?_ ?_ ?_
    all_goals simp [Net.setDue, Net.fail, Net.finish, Net.move, Net.deqIn]
  | failOut s c m b hm hc hs =>
    refine hp.other (c := s) (q := (n.c.omsgq s).erase m) (.inr hs) ?_ ?_ ?_ ?_ ?_ ?_
    all_goals simp [Net.setDue, Net.fail, Net.finish, Net.move, Net.deqOut]
  | _ => exact hp.same rfl subset_rfl rfl rfl rfl rfl

/-- **One move keeps the pairing.** Only the end of a send appends to the out-queue of a server
connection, and only a response takes its head. -/
lemma Move.paired (h : Move n n') (hi : Inv n) (hp : Paired n) : Paired n' := by
  cases h with
  | server h => exact h.paired hp
  | beginClose c hc => exact hp.same rfl (Set.subset_insert c _) rfl rfl rfl rfl
  | openClient c p sd hc => exact hp.opened (c := c) rfl rfl rfl rfl rfl rfl
  | unrefClient c p ho hq hr => exact hp.left (c := c) rfl subset_rfl rfl rfl rfl rfl
  | newMsg m x hm hid hx =>
    -- a message that is in a queue is not new
    refine hp.frame fun s hs hcl => .inl ⟨hs, hcl, rfl, rfl, rfl, fun y hy => ?_⟩
    obtain ⟨cli, hplace⟩ := (hi.queues.omsgq_server s hs y).mp hy
    have hne : y ≠ m := by
      rintro rfl
      rw [hm.place] at hplace
      cases hplace
    simp [MsgCols.set, hne]
  | tmoDelete m => exact hp.same (by simp) (by simp) (by simp) (by simp) (by simp) (by simp)
  | expect c m hm hr hf hf' => exact hp.other (.inl hm.client) rfl subset_rfl rfl rfl rfl rfl
  | expectSub c m rest hpend hm hc => exact hp.other (.inl hc) rfl subset_rfl rfl rfl rfl rfl
  | reply c m r subs due hm hr hrb hmr hrs hs hdue hdue' =>
    exact hp.other (.inl hm.client) rfl subset_rfl rfl rfl rfl rfl
  | failReply c m subs hm hs => exact hp.other (.inl hm.client) rfl subset_rfl rfl rfl rfl rfl
  | failFwd c m b hm hd hc =>
    refine hp.same ?_ ?_ ?_ ?_ ?_ ?_
    all_goals simp [Net.setDue, Net.fail, Net.finish]
  | leave c p hp' hc =>
    exact hp.other (.inl (hi.facts.cli p c none hp').1) rfl subset_rfl rfl rfl rfl rfl
  | orphan c m srv hm hd hc =>
    exact hp.other (.inl (hi.facts.cli m c srv hm).1) rfl subset_rfl rfl rfl rfl rfl
  | sendDone s m cli hm hr =>
    refine hp.frame fun s' hs' hcl => ?_
    rcases eq_or_ne s' s with rfl | hne
    · refine .inr ?_
      have hold := hp s' hs' hcl
      simp only [Net.PairedAt] at hold
      simp [Net.PairedAt, Net.move, Net.enqOut, Net.deqIn, hold]
    · exact .inl ⟨hs', hcl, by simp [Net.move, Net.enqOut, Net.deqIn, hne], rfl,
        by simp [Net.move, Net.enqOut, Net.deqIn, hne], fun _ _ => rfl⟩
  | respond s c p m rest b e hq hpl hc hm hb hn =>
    refine hp.frame fun s' hs' hcl => ?_
    have hs : n.Server s' := by simpa [Net.Server, Net.setDue, Net.move, Net.link, Net.fail,
      Net.finish, Net.deqOut, Net.emit] using hs'
    have hcl' : s' ∉ n.g.closing := by
      simpa [Net.setDue, Net.move, Net.link, Net.fail, Net.finish, Net.deqOut, Net.emit] using hcl
    rcases eq_or_ne s' s with rfl | hne
    · refine .inr ?_
      have hold := hp s' hs hcl'
      simp only [Net.PairedAt, hq] at hold
      simp [Net.PairedAt, Net.setDue, Net.move, Net.link, Net.fail, Net.finish, Net.deqOut,
        Net.emit, hold, hq, Answer.request]
    · refine .inl ⟨hs, hcl', ?_, ?_, ?_, ?_⟩
      all_goals simp [Net.setDue, Net.move, Net.link, Net.fail, Net.finish, Net.deqOut,
        Net.emit, hne]
  | swallowed s p rest hq hpl =>
    refine hp.frame fun s' hs' hcl => ?_
    have hs : n.Server s' := by simpa [Net.Server, Net.put, Net.finish, Net.deqOut] using hs'
    have hcl' : s' ∉ n.g.closing := by simpa [Net.put, Net.finish, Net.deqOut] using hcl
    rcases eq_or_ne s' s with rfl | hne
    · refine .inr ?_
      have hold := hp s' hs hcl'
      simp only [Net.PairedAt, hq] at hold
      simp [Net.PairedAt, Net.put, Net.finish, Net.deqOut, hold, hq, Answer.request]
    · refine .inl ⟨hs, hcl', ?_, ?_, ?_, ?_⟩
      all_goals simp [Net.put, Net.finish, Net.deqOut, hne]
  | reject s a hs =>
    refine hp.frame fun s' hs' hcl => .inl ⟨hs', hcl, rfl, ?_, rfl, fun _ _ => rfl⟩
    have hne : s' ≠ s := by
      rintro rfl
      exact hcl hs
    simp [hne]
  | _ => exact hp.same rfl subset_rfl rfl rfl rfl rfl

/-- The moves of sending keep the pairing. -/
theorem SendMoves.paired (h : SendMoves n n') (hs : Sound n) (hp : Paired n) : Paired n' := by
  induction h with
  | refl => exact hp
  | tail hms hm ih =>
    cases hm with
    | move hm => exact hm.paired (SendMoves.sound hms hs).inv ih
    | cursor c x => exact ih.same rfl subset_rfl rfl rfl rfl rfl

end GfwProxy
