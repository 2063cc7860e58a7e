import GfwProxy.Net.Received

set_option autoImplicit false

/-!
# Receiving responses as moves

`rsp_recv_done`: a response is linked to the request at the head of the queue of the server
connection, swallowed together with it, or dropped.

## Main results

* `GfwProxy.rspFilter_moves`, `GfwProxy.rspForward_moves`, `GfwProxy.rspRecvDone_moves`.
-/

namespace GfwProxy

open Function

variable {env : Env} {n n' : Net} {h h' : Heap} {g g' : Ghost} {c s : ConnId} {m p : MsgId}

/-- A response has been received from server connection `s`, and is in the hands of the handler. -/
structure Net.Response (n : Net) (s : ConnId) (m : MsgId) : Prop where
  server : n.Server s
  place : n.g.place m = .hand
  blank : n.m.Blank m
  pend : n.g.pend = []

/-! ## `rsp_filter` -/

/-- The connection is closed with `EINVAL`. -/
lemma closeInval_after (h : Heap) (g : Ghost) (s : ConnId) :
    After (closeInval s) (fun _ h' => Move (h.net g) (h'.net g) ∧
      (h'.net g).c = (h.net g).c ∧ (h'.conn s).err ≠ 0) h := by
  have hunseen : (h.modConn s fun x => { x with err := einval }).net g = h.net g :=
    Heap.net_modConn_unseen rfl
  unfold closeInval
  refine After.modConn (After.last (After.modHeap (After.pure ⟨?_, ?_, ?_⟩)))
  · rw [← hunseen]
    exact .server (Heap.setDone_move .rspFilter s)
  · rw [Heap.net_setDone, hunseen]
    rfl
  · have herr : (einval : ℤ) ≠ 0 := by decide
    simpa [Heap.setDone, Heap.modConn, Heap.emit] using herr

/-- What becomes of a response is recorded. -/
def Net.answer (s : ConnId) (a : Answer) (n : Net) : Net :=
  { n with c.answers := update n.c.answers s (n.c.answers s ++ [a]) }

/-- A response is recorded, on the view. -/
lemma Heap.net_answer (a : Answer) :
    (h.modConn s fun x => { x with answers := x.answers ++ [a] }).net g = (h.net g).answer s a := by
  simp [ConnCols.set, Net.answer]

/-- A response that cannot be linked to a request is dropped, and the connection is to be closed. -/
lemma rspReject_moves (hm : (h.net g).Response s m) (a : Answer) :
    After (do answer s a; modHeap (Heap.rspPut m); closeInval s; return true)
      (Reach Move (h.net g) fun filtered h' g' => filtered = true ∧
        (h.net g).Spoiled (h'.net g') s ∧
        (h'.conn s).err ≠ 0) h := by
  have hp : g.pend = [] := hm.pend
  let g₁ : Ghost := { g with closing := insert s g.closing }
  have hbegin : Move (h.net g) (h.net g₁) := .server (.beginCloseServer s hm.server)
  have hreject : Move (h.net g₁)
      ((h.modConn s fun x => { x with answers := x.answers ++ [a] }).net g₁) := by
    rw [Heap.net_answer]
    exact .reject s a (Set.mem_insert s g.closing)
  have hown : ((h.modConn s fun x => { x with answers := x.answers ++ [a] }).net g₁).c.owner =
      (h.net g).c.owner := by
    rw [Heap.net_answer]
    rfl
  have hmsg : (h.modConn s fun x => { x with answers := x.answers ++ [a] }).msg = h.msg := rfl
  refine After.modConn (After.modHeap ?_)
  generalize h.modConn s (fun x => { x with answers := x.answers ++ [a] }) = h₁ at *
  have hput : Moves (h₁.net g₁) ((h₁.rspPut m).net (g₁.move m .free)) :=
    rspPut_moves hm.place (by rw [hmsg]; exact hm.blank.peer) (by rw [hmsg]; exact hm.blank.tmoData)
      (by simp [g₁, hp])
  have hown₂ : ((h₁.rspPut m).net (g₁.move m .free)).c.owner = (h.net g).c.owner := hown
  generalize h₁.rspPut m = h₂ at *
  refine (closeInval_after h₂ (g₁.move m .free) s).call ?_
  rintro - h₃ ⟨hclose, hcols, herr⟩
  have hown₃ : (h₃.net (g₁.move m .free)).c.owner = (h.net g).c.owner :=
    (congrArg ConnCols.owner hcols).trans hown₂
  refine After.pure ⟨g₁.move m .free, ?_, rfl, ?_, herr⟩
  · exact .head hbegin (.head hreject (.tail hput hclose))
  · constructor
    case due => exact Set.subset_insert s _
    case shut =>
      rintro x hx (rfl | hxc)
      · exact .inr ⟨rfl, hm.server⟩
      · exact .inl ⟨by rwa [Net.Open, ← hown₃], hxc⟩
    case client => exact fun x hx => by rwa [Net.Client, ← hown₃]
    case owner => exact congrFun hown₃ s
    case cold => exact .rfl
    case cold_sub => exact subset_rfl
    case pend => exact hp

/-- Request `p` is done. -/
lemma Heap.net_finish :
    (h.modMsg p fun x => { x with done := true }).net g = (h.net g).finish p := by
  simp [MsgCols.set, Net.finish]

/-- `req_put` of a request without response, on the view. -/
lemma Heap.net_reqPut (hp : (h.msg p).peer = none) :
    (h.reqPut p).net (g.move p .free) = ((h.net g).tmoDelete p).put p := by
  have hpeer : h.putPeer p = h := by
    unfold Heap.putPeer
    rw [hp]
  rw [Heap.reqPut, hpeer, Heap.net_msgPut, Heap.net_tmoDelete]

/-- Statements that do not depend on each other change places. -/
lemma Net.swallow_comm (n : Net) (a : Answer) :
    ((((n.answer s a).dequeue s true p).finish p).put m).tmoDelete p =
      ((((n.put m).tmoDelete p).deqOut s p).finish p).answer s a := by
  by_cases ht : n.m.tmoData p = none
  all_goals simp [Net.answer, Net.dequeue, Net.tmoDelete, Net.deqOut, Net.finish, Net.put, ht]

/-- The request that a response is swallowed with leaves the queue. -/
lemma rspSwallow_moves {rest : List MsgId} (hi : Inv (h.net g)) (hm : (h.net g).Response s m)
    (hq : (h.conn s).omsgq = p :: rest) (hp : g.place p = .req none (some (s, true))) :
    After (do
      answer s (.swallowed (h.msg p).id)
      reqServerDequeueOmsgq s p
      modMsg p fun x => { x with done := true }
      modHeap (Heap.rspPut m)
      modHeap (Heap.reqPut p)
      return true) (Reach Move (h.net g) fun filtered h' g' => filtered = true ∧
        g.Moved g' ∧ (h'.net g').c.owner = (h.net g).c.owner) h := by
  have hpend : g.pend = [] := hm.pend
  have hmp : m ≠ p := by
    rintro rfl
    have hhand : g.place m = .hand := hm.place
    rw [hp] at hhand
    cases hhand
  have hput : Move (h.net g) ((h.net g).put m) :=
    .put m hm.place hm.blank.peer hm.blank.tmoData (by simp [hpend])
  have hmove : Move ((h.net g).put m)
      ((((((h.net g).put m).tmoDelete p).deqOut s p).finish p).answer s (.swallowed (h.msg p).id)
        |>.put p) := by
    have h := Move.swallowed (n := (h.net g).put m) s p rest hq
      ((update_of_ne hmp.symm _ _).trans hp)
    simpa [Net.answer, Net.put, Net.finish, Net.deqOut] using h
  have hpeer : (h.msg p).peer = none := (hi.facts.srv p none s true hp).2.2.2.1
  refine After.modConn ((serverDequeue_after s true p).call ?_)
  rintro - h₁ rfl
  refine After.modMsg (After.modHeap ?_)
  have hview :
      ((((h.modConn s fun x =>
          { x with answers := x.answers ++ [.swallowed (h.msg p).id] }).dequeue s true p).modMsg p
        fun x => { x with done := true }).rspPut m).net (g.move m .free) =
      ((((h.net g).answer s (.swallowed (h.msg p).id)).dequeue s true p).finish p).put m := by
    rw [Heap.rspPut, Heap.net_msgPut, Heap.net_finish, Heap.net_dequeue, Heap.net_answer]
  generalize ((((h.modConn s fun x =>
        { x with answers := x.answers ++ [.swallowed (h.msg p).id] }).dequeue s true p).modMsg p
      fun x => { x with done := true }).rspPut m) = h₁ at hview ⊢
  have hpeer₁ : (h₁.msg p).peer = none := by
    have he := congrArg (fun n : Net => n.m.peer p) hview
    simpa [Net.put, Net.finish, Net.answer, hpeer] using he
  have hfinal : (h₁.reqPut p).net ((g.move m .free).move p .free) =
      ((((((h.net g).put m).tmoDelete p).deqOut s p).finish p).answer s
        (.swallowed (h.msg p).id)).put p := by
    rw [Heap.net_reqPut hpeer₁, hview, Net.swallow_comm]
  refine After.modHeap (After.pure
    ⟨(g.move m .free).move p .free, .tail (.single hput) ?_, rfl, ?_, ?_⟩)
  · rw [hfinal]
    exact hmove
  · exact (Ghost.moved_move m .free g).trans (Ghost.moved_move p .free _)
  · rw [hfinal]
    simp [Net.put, Net.finish, Net.deqOut, Net.answer]

/-- A request that waits for a response is not forgotten by its client, unless it is to be
swallowed. -/
lemma Inv.waiting {rest : List MsgId} (hi : Inv n) (hs : n.Server s)
    (hq : n.c.omsgq s = p :: rest) :
    n.g.place p = .req none (some (s, true)) ∧ n.m.swallow p = true ∨
      ∃ c, n.g.place p = .req (some c) (some (s, true)) ∧ n.m.swallow p = false := by
  obtain ⟨cli, hp⟩ := (hi.queues.omsgq_server s hs p).mp (by simp [hq])
  obtain ⟨-, -, -, -, hnoreply, hswallow⟩ := hi.facts.srv p cli s true hp
  cases cli with
  | none =>
    refine .inl ⟨hp, hswallow ?_ rfl⟩
    by_contra hno
    exact absurd (hnoreply (by simpa using hno)).1 (by simp)
  | some c => exact .inr ⟨c, hp, (hi.facts.cli p c _ hp).2.2⟩

/-- **`rsp_filter`**: unless the response is filtered out, there is a request that it answers.

**Proof sketch.** By the invariant the head of the out-queue is awaited by an open client, or its
response is to be swallowed.  In the first case the response passes; in the second it is released
with the request. -/
theorem rspFilter_moves (hi : Inv (h.net g)) (hm : (h.net g).Response s m) :
    After (rspFilter env s m) (Reach Move (h.net g) fun filtered h' g' =>
      (filtered = true → Handled s h h' g g' ∧
        ((h.msg m).mlen = 0 → (h.net g).Passed (h'.net g') s)) ∧
      (filtered = false → g' = g ∧ h' = h ∧ (h.msg m).mlen ≠ 0 ∧ ∃ p rest c,
        (h.conn s).omsgq = p :: rest ∧
        g.place p = .req (some c) (some (s, true)))) h := by
  have hp : g.pend = [] := hm.pend
  have hreject : (h.msg m).mlen ≠ 0 → ∀ a : Answer,
      After (do answer s a; modHeap (Heap.rspPut m); closeInval s; return true)
        (Reach Move (h.net g) fun filtered h' g' =>
          (filtered = true → Handled s h h' g g' ∧
            ((h.msg m).mlen = 0 → (h.net g).Passed (h'.net g') s)) ∧
          (filtered = false → g' = g ∧ h' = h ∧ (h.msg m).mlen ≠ 0 ∧ ∃ p rest c,
            (h.conn s).omsgq = p :: rest ∧ g.place p = .req (some c) (some (s, true)))) h := by
    intro hmlen a
    refine (rspReject_moves hm a).mono fun filtered h' hreach => hreach.mono fun g' hrest => ?_
    obtain ⟨hf, hspoiled, herr⟩ := hrest
    exact ⟨fun _ => ⟨⟨hspoiled, fun h => absurd h herr⟩, fun h => absurd h hmlen⟩,
      fun h => by rw [hf] at h; cases h⟩
  unfold rspFilter
  refine After.getMsg (After.ite (fun _ => ?_) fun hmlen => After.getConn ?_)
  · have hpassed : (h.net g).Passed ((h.rspPut m).net (g.move m .free)) s :=
      (Ghost.moved_move m .free g).passed rfl hp
    refine After.modHeap (After.pure
      ⟨g.move m .free, ?_, fun _ => ⟨.of_passed hpassed hp, fun _ => hpassed⟩, by simp⟩)
    exact rspPut_moves hm.place hm.blank.peer hm.blank.tmoData (by simp [hp])
  cases hhead : (h.conn s).omsgq.head? with
  | none => exact hreject hmlen _
  | some p =>
    obtain ⟨rest, hq⟩ := List.head?_eq_some_iff.mp hhead
    refine After.getMsg (After.ite (fun _ => hreject hmlen _) fun _ =>
      After.ite (fun hswallow => ?_) fun hswallow => ?_)
    · obtain ⟨hplace, -⟩ | ⟨c, -, hno⟩ := hi.waiting hm.server hq
      · refine After.callHook ?_
        refine (rspSwallow_moves hi hm hq hplace).mono fun filtered h' hreach => ?_
        refine hreach.mono fun g' hrest => ?_
        obtain ⟨hf, hmoved, hown⟩ := hrest
        refine ⟨fun _ => ⟨?_, fun h => absurd h hmlen⟩, fun h => ?_⟩
        · refine .of_passed (hmoved.passed hown hp) ?_
          obtain ⟨place, rfl⟩ := hmoved
          exact hp
        · rw [hf] at h
          cases h
      · have hno' : (h.msg p).swallow = false := hno
        rw [hno'] at hswallow
        cases hswallow
    · obtain ⟨-, hyes⟩ | ⟨c, hplace, -⟩ := hi.waiting hm.server hq
      · exact absurd hyes hswallow
      · exact After.pure (.here ⟨by simp, fun _ => ⟨rfl, rfl, hmlen, p, rest, c, hq, hplace⟩⟩)

/-! ## `rsp_forward` -/

/-- `server_ok` leaves the objects alone. -/
lemma serverOkOf_after (s : ConnId) : After (serverOkOf s) (fun _ h' => h' = h) h := by
  unfold serverOkOf
  exact After.ownerServer fun p i _ => After.last (After.runPool fun _ => After.pure rfl)

/-- A request that did not fail is not marked. -/
lemma Net.fail_false (n : Net) (m : MsgId) : n.fail m false = n := by
  simp [Net.fail]

/-- The pre-coalesce callback counts the request, if it is a fragment, and may raise an error for
it. -/
lemma preCoalesceCb_after (m p : MsgId) (g : Ghost)
    (hp : (h.msg p).fragId = 0 → (h.msg p).fragOwner = none) :
    After (preCoalesceCb m p)
      (fun _ h' => h'.conn = h.conn ∧ ∃ b e, h'.net g = ((h.net g).count p b).fail p e) h := by
  unfold preCoalesceCb
  refine After.getMsg (After.ite (fun hf => After.pure ⟨rfl, false, false, ?_⟩) fun _ => ?_)
  · rw [Net.count_none false (hp hf), Net.fail_false]
  refine (countFragment_after p g).call ?_
  rintro - h₁ ⟨hconn, b, hview⟩
  refine After.getMsg (After.modMsg ?_)
  have he : (h₁.modMsg m fun x =>
      { x with
        mhdr := (h₁.msg m).preCoalesce.mhdr
        mlen := (unsent (h₁.msg m).preCoalesce.mhdr).length }).net g =
      (h.net g).count p b := by
    rw [Heap.net_modMsg_unseen rfl, hview]
  have hconn₂ : (h₁.modMsg m fun x => { x with
      mhdr := (h₁.msg m).preCoalesce.mhdr,
        mlen := (unsent (h₁.msg m).preCoalesce.mhdr).length }).conn = h.conn :=
    hconn
  generalize (h₁.modMsg m fun x => { x with
    mhdr := (h₁.msg m).preCoalesce.mhdr, mlen := (unsent (h₁.msg m).preCoalesce.mhdr).length }) =
      h₂ at he hconn₂ ⊢
  cases (h₁.msg m).preCoalesce.err with
  | none => exact After.pure ⟨hconn₂, b, false, by rw [he, Net.fail_false]⟩
  | some err =>
    refine After.last (After.modMsg (After.pure ⟨hconn₂, b, true, ?_⟩))
    rw [← he]
    simp [MsgCols.set, Net.fail]

/-- Statements that do not depend on each other change places. -/
lemma Net.respond_comm (n : Net) (g : Ghost) (a : Answer) (e₀ : Ev) (b e : Bool) (hg : g =
    { n.g with
      place := update (update n.g.place p (.req (some c) none)) m (.rsp p),
      due := insert c n.g.due }) :
    { ((((((n.dequeue s true p).finish p).emit e₀).answer s a).link p m).count p b).fail p e with
      g := g } =
    (({ ((((((n.emit e₀).tmoDelete p).deqOut s p).move p
          (.req (some c) none)).finish p).count p b).fail p e with
        c.answers := update n.c.answers s (n.c.answers s ++ [a]) }.link p m).move m
      (.rsp p)).setDue c := by
  subst hg
  by_cases ht : n.m.tmoData p = none
  all_goals cases ho : n.m.fragOwner p
  all_goals simp [Net.answer, Net.dequeue, Net.tmoDelete, Net.deqOut, Net.finish, Net.emit,
    Net.link, Net.count, Net.fail, Net.move, Net.setDue, Net.stale, ht, ho]

/-- Dequeuing does not change the fragment columns. -/
@[simp] lemma Net.dequeue_frag {out : Bool} : (n.dequeue s out m).m.fragId = n.m.fragId ∧
    (n.dequeue s out m).m.fragOwner = n.m.fragOwner := by
  cases out with
  | false => exact ⟨rfl, rfl⟩
  | true =>
    simp only [Net.dequeue, if_true, Net.tmoDelete]
    split <;> exact ⟨rfl, rfl⟩

/-- The request at the head of the queue is linked to the response. -/
lemma Heap.net_peer (hne : p ≠ m) :
    ((h.modMsg p fun x => { x with peer := some m }).modMsg m fun x =>
      { x with peer := some p }).net g =
      (h.net g).link p m := by
  rw [Heap.net_modMsg, Heap.net_modMsg]
  simp [MsgCols.set, Net.link, Heap.modMsg, hne.symm]

/-- The columns of the owners and of the connections, once the request is linked to the response. -/
lemma Net.linked_view (n : Net) (s : ConnId) (p m : MsgId) (l : Ev) (a : Answer) (b e : Bool) :
    let n' := ((((((n.dequeue s true p).finish p).emit l).answer s a).link p m).count p b).fail p e
    n'.m.owner = n.m.owner ∧ n'.m.ownerGen = n.m.ownerGen ∧ n'.c.owner = n.c.owner ∧
      n'.c.gen = n.c.gen := by
  simp [Net.fail, Net.link, Net.answer, Net.emit, Net.finish]

/-- The client of the request is looked at, and what is counted for the response is counted. -/
lemma rspWake_moves {size : ℕ} (hs : Sound (h.net g)) (hc : (h.net g).Client c)
    (hcl : c ∉ g.closing) (hof : (h.net g).Of p c) :
    After (do
        let c ← deref (← getMsg p).owner
        touch c p
        let ok ← wakeHead env c
        onlyIf (!ok) (setErrno env c)
        rspForwardStats s size)
      (Reach Move (h.net g) fun _ h' g' => g' = { g with due := g.due \ {c} } ∧
        (h'.net g').c.owner = (h.net g).c.owner) h := by
  refine After.getMsg (After.deref fun c' hc' => ?_)
  obtain rfl : c = c' := Option.some.inj (hof.1.symm.trans hc')
  unfold touch
  simp only [bind_assoc]
  refine After.getMsg (After.readHeap (After.emit ?_))
  have hstale : h.stale p = false := hof.not_stale
  rw [hstale]
  have htouch : ServerMove (h.net g) ((h.emit (.touch c (h.msg p).id false)).net g) :=
    .touch c p hstale
  refine After.pay₁ (.server htouch) rfl (After.followServer
    (wakeHead_moves (Moves.sound (.single (.server htouch)) hs).inv hc hcl) ?_)
  rintro ok h₁ g₁ - ⟨rfl, hflags⟩
  have hown : (h₁.net { g with due := g.due \ {c} }).c.owner = (h.net g).c.owner := hflags.view.1
  refine After.onlyIf (Q := fun _ h' => h'.net { g with due := g.due \ {c} } =
    h₁.net { g with due := g.due \ {c} }) (fun _ => setErrno_after h₁ _ c) (fun _ => rfl)
    fun h₂ he => ?_
  rw [← he] at hown ⊢
  exact After.ownerServer fun p' i _ =>
    After.statsServer (After.last (After.statsServer (After.pure (.here ⟨rfl, hown⟩))))

/-- **`rsp_forward`**.

**Proof sketch.** What the source does to the request and the response, one field after the other,
is one move on the view (`respond_comm`).  The client is then due to be looked at, and `wakeHead`
does that. -/
theorem rspForward_moves {rest : List MsgId} (hr : Ready (h.net g)) (hm : (h.net g).Response s m)
    (hq : (h.conn s).omsgq = p :: rest) (hp : g.place p = .req (some c) (some (s, true))) :
    After (rspForward env s m) (Reach Move (h.net g) fun _ h' g' =>
      (h.net g).Passed (h'.net g') s ∧ g'.pend = []) h := by
  obtain ⟨hclient, hof, -⟩ := hr.inv.facts.cli p c _ hp
  have hcl := hr.closing c hclient
  have hpend : g.pend = [] := hm.pend
  have hne : p ≠ m := by
    rintro rfl
    have hhand : g.place p = .hand := hm.place
    rw [hp] at hhand
    cases hhand
  unfold rspForward
  refine After.getMsg (After.skip (serverOkOf_after s) fun _ => After.getConn ?_)
  refine After.deref fun p' hp' => ?_
  obtain rfl : p = p' := by simpa [hq] using hp'
  refine (serverDequeue_after s true p).call ?_
  rintro - h₁ rfl
  refine After.modMsg (After.getMsg (After.readHeap (After.emit (After.getMsg ?_))))
  have hid : (((h.dequeue s true p).modMsg p fun x => { x with done := true }).msg p).id =
      (h.msg p).id := by
    simp [Heap.dequeue_view]
  have hstale : ((h.dequeue s true p).modMsg p fun x => { x with done := true }).stale p =
      false := by
    rw [← Heap.net_stale (g := g), Heap.net_finish, Heap.net_dequeue, ← hof.not_stale]
    simp only [Net.stale, Net.finish, Net.dequeue_view]
  rw [Heap.emit_rest .. |>.2.1, hid, hstale]
  refine After.modConn (After.modMsg (After.modMsg ?_))
  have hview :
      ((((((h.dequeue s true p).modMsg p fun x => { x with done := true }).emit
              (.link (h.msg p).id false)).modConn s fun x =>
            { x with answers := x.answers ++ [.linked (h.msg p).id] }).modMsg p fun x =>
          { x with peer := some m }).modMsg m fun x => { x with peer := some p }).net g =
      (((((h.net g).dequeue s true p).finish p).emit (.link (h.msg p).id false)).answer s
        (.linked (h.msg p).id)).link p m := by
    rw [Heap.net_peer hne, Heap.net_answer, Heap.net_emit, Heap.net_finish, Heap.net_dequeue]
  generalize ((((((h.dequeue s true p).modMsg p fun x => { x with done := true }).emit
            (.link (h.msg p).id false)).modConn s fun x =>
          { x with answers := x.answers ++ [.linked (h.msg p).id] }).modMsg p fun x =>
        { x with peer := some m }).modMsg m fun x => { x with peer := some p }) = h₁ at hview ⊢
  have hmem : p ∈ (h.conn c).omsgq := (hr.inv.queues.omsgq_client c hclient p).mpr ⟨_, hp⟩
  have hplain : (h₁.msg p).fragId = 0 → (h₁.msg p).fragOwner = none := by
    have hfragId : (h₁.msg p).fragId = (h.msg p).fragId := by
      simpa [Net.link, Net.answer, Net.emit, Net.finish] using congrArg
        (fun n : Net => n.m.fragId p) hview
    have hfragOwner : (h₁.msg p).fragOwner = (h.msg p).fragOwner := by
      simpa [Net.link, Net.answer, Net.emit, Net.finish] using congrArg
        (fun n : Net => n.m.fragOwner p) hview
    rw [hfragId, hfragOwner]
    exact ((hr.inv.vec c hclient hcl).plain p hmem).mpr
  refine (preCoalesceCb_after m p g hplain).call ?_
  rintro - h₂ ⟨-, b, e, hview₂⟩
  rw [hview] at hview₂
  -- the link is established
  let g₂ : Ghost := { g with
    place := update (update g.place p (.req (some c) none)) m (.rsp p), due := insert c g.due }
  have hmove : Move (h.net g) (h₂.net g₂) := by
    have he : h₂.net g₂ =
        { ((((((((h.net g).dequeue s true p).finish p).emit (.link (h.msg p).id false)).answer s
        (.linked (h.msg p).id)).link p m).count p b).fail p e) with g := g₂ } :=
      congrArg (fun n : Net => { n with g := g₂ }) hview₂
    rw [he.trans (Net.respond_comm _ _ _ _ b e rfl)]
    exact .respond s c p m rest b e hq hp hcl hm.place hm.blank (by simp [hpend])
  obtain ⟨howner, hownerGen, hcowner, hcgen⟩ : (h₂.net g₂).m.owner = (h.net g).m.owner ∧
      (h₂.net g₂).m.ownerGen = (h.net g).m.ownerGen ∧
      (h₂.net g₂).c.owner = (h.net g).c.owner ∧ (h₂.net g₂).c.gen = (h.net g).c.gen := by
    have hlinked := Net.linked_view (h.net g) s p m (.link (h.msg p).id false)
      (.linked (h.msg p).id) b e
    rwa [← hview₂] at hlinked
  have hof₂ : (h₂.net g₂).Of p c := by
    rw [Net.Of, howner, hownerGen, hcgen]
    exact hof
  have hc₂ : (h₂.net g₂).Client c := by
    rw [Net.Client, hcowner]
    exact hclient
  refine After.pay (.single hmove) ?_
  refine (rspWake_moves (Moves.sound (.single hmove) hr.toSound) hc₂ hcl hof₂).mono
    fun _ h₃ hreach => hreach.mono fun g₃ hrest => ?_
  obtain ⟨rfl, hown₃⟩ := hrest
  have hown := hown₃.trans hcowner
  refine ⟨⟨.of_eq hown rfl ?_, congrFun hown s, .rfl, subset_rfl, fun y hy => ?_⟩, hpend⟩
  · rintro x ⟨hx, hxc⟩
    exact hx.resolve_left hxc
  · have hy' : y ∈ g.pend := hy
    rw [hpend] at hy'
    cases hy'

/-- **`rsp_recv_done`**. -/
theorem rspRecvDone_moves {nmsg : Option MsgId} (hr : Ready (h.net g)) (hp : g.pend = [])
    (hs : (h.net g).Server s) (hm : (h.conn s).rmsg = some m)
    (hn : ∀ r, nmsg = some r → (h.net g).New s r) :
    After (rspRecvDone env s m nmsg) (Reach Move (h.net g) fun _ h' g' => Handled s h h' g g' ∧
      ((h.msg m).mlen = 0 → (h.net g).Passed (h'.net g') s)) h := by
  unfold rspRecvDone
  have hplace : g.place m = .reading s := (hr.inv.queues.rmsg s hs.isOpen m).mp hm
  obtain ⟨-, -, hblank, -, -⟩ := hr.inv.facts.reading m s hplace
  obtain ⟨g₁, hmoves₁, hmoved₁, hhand₁⟩ := setRmsg_moves hr.toSound hs.isOpen hm hn
  have hown₁ : ((h.modConn s fun x => { x with rmsg := nmsg }).net g₁).c.owner =
      (h.net g).c.owner := by
    rw [Heap.net_modConn]
    exact update_eq_self s _
  have hmsg₁ : (h.modConn s fun x => { x with rmsg := nmsg }).msg = h.msg := rfl
  refine After.modConn (After.pay hmoves₁ ?_)
  generalize h.modConn s (fun x => { x with rmsg := nmsg }) = h₁ at *
  have hpassed₁ : (h.net g).Passed (h₁.net g₁) s := hmoved₁.passed hown₁ hp
  have hp₁ : g₁.pend = [] := by
    obtain ⟨place, rfl⟩ := hmoved₁
    exact hp
  have hr₁ := hpassed₁.calmer.ready hr (Moves.sound hmoves₁ hr.toSound)
  rw [← congrFun hmsg₁ m]
  have hm₁ : (h₁.net g₁).Response s m := by
    refine ⟨?_, hhand₁, hblank.congr (congrFun hmsg₁ m), hp₁⟩
    rw [Net.Server, hown₁]
    exact hs
  refine After.follow (rspFilter_moves hr₁.inv hm₁) ?_
  rintro filtered h₂ g₂ hmoves₂ ⟨htrue, hfalse⟩
  refine After.ite (fun hyes => After.pure (.here ?_)) fun hno => ?_
  · obtain ⟨hhandled, hpassed⟩ := htrue hyes
    refine ⟨hhandled.of_trans hpassed₁, fun h => hpassed₁.seq (hpassed h) hhandled.spoiled.pend⟩
  obtain ⟨hg, hh, hmlen, p, rest, c, hq, hplace₂⟩ := hfalse (by simpa using hno)
  subst hg hh
  refine (rspForward_moves hr₁ hm₁ hq hplace₂).mono fun _ h₃ hreach => hreach.mono
    fun g₃ hrest => ?_
  obtain ⟨hpassed, hp₃⟩ := hrest
  exact ⟨(Handled.of_passed hpassed hp₃).of_trans hpassed₁, fun h => absurd h hmlen⟩

end GfwProxy
