import GfwProxy.Net.Connecting

set_option autoImplicit false

/-!
# Forwarding requests as moves

`req_forward` and `req_recv_done`.

## Main definitions

* `GfwProxy.Net.Passed` — what a client sees of the forwarding of a request.
* `GfwProxy.Net.Routed` — a request that is about to be forwarded.

## Main results

* `GfwProxy.reqForward_moves`, `GfwProxy.reqForwards_moves`, `GfwProxy.reqRecvDone_moves`.
-/

namespace GfwProxy

open Function

variable {env : Env} {n n' : Net} {h h' : Heap} {g g' : Ghost} {c s : ConnId} {m : MsgId} {p i : ℕ}

/-- Client `c` stays open, and the owners of the requests that are still to be forwarded stay. -/
structure Net.Passed (n n' : Net) (c : ConnId) : Prop where
  calmer : n.Calmer n'
  owner : n'.c.owner c = n.c.owner c
  cold : c ∈ n'.g.cold ↔ c ∈ n.g.cold
  cold_sub : n'.g.cold ⊆ n.g.cold
  owners : ∀ y ∈ n'.g.pend, n'.m.owner y = n.m.owner y

/-- Nothing happens. -/
lemma Net.Passed.refl (n : Net) (c : ConnId) : n.Passed n c :=
  ⟨.refl n, rfl, .rfl, subset_rfl, fun _ _ => rfl⟩

/-- One thing after the other. -/
lemma Net.Passed.trans {n₁ n₂ n₃ : Net} (h₁ : n₁.Passed n₂ c) (h₂ : n₂.Passed n₃ c)
    (hp : ∀ y ∈ n₃.g.pend, y ∈ n₂.g.pend) : n₁.Passed n₃ c where
  calmer := h₁.calmer.trans h₂.calmer
  owner := h₂.owner.trans h₁.owner
  cold := h₂.cold.trans h₁.cold
  cold_sub := h₂.cold_sub.trans h₁.cold_sub
  owners y hy := (h₂.owners y hy).trans (h₁.owners y (hp y hy))

/-- Nothing is left to be forwarded in the end. -/
lemma Net.Passed.seq {n₁ n₂ n₃ : Net} (h₁ : n₁.Passed n₂ c) (h₂ : n₂.Passed n₃ c)
    (hp : n₃.g.pend = []) :
    n₁.Passed n₃ c :=
  h₁.trans h₂ fun y hy => by
    rw [hp] at hy
    cases hy

/-- The moves of server connections pass by the clients. -/
lemma ServerMoves.passed (hm : ServerMoves n n') (hi : Inv n) (hc : n.Client c)
    (hcalmer : n.Calmer n') :
    n.Passed n' c := by
  have hk := ServerMoves.keeps hm hi
  refine ⟨hcalmer, (hk.client c hc).owner, (hk.client c hc).cold, ServerMoves.cold hm,
    fun y hy => ?_⟩
  rw [hk.pend] at hy
  obtain ⟨c', o, hp⟩ := hi.pend y hy
  exact (hk.msg y (by rw [hp.place]; trivial)).owner

/-! ## A request is about to be forwarded -/

/-- Request `m` of client `c` is about to be forwarded: it is in the queue of its client if it
expects a reply, and in the hands of the handler otherwise. -/
structure Net.Routed (n : Net) (c : ConnId) (m : MsgId) (cli : Option ConnId) : Prop where
  client : n.Client c
  place : n.g.place m = .req cli none
  blank : n.m.Blank m
  of : n.Of m c
  self : n.m.fragOwner m ≠ some m
  pend : m ∉ n.g.pend
  expects : n.m.noreply m = false → cli = some c
  noreply : n.m.noreply m = true → cli = none ∧ n.m.fragOwner m = none ∧ n.g.pend = []

/-- A client is one still. -/
lemma Net.Client.keep (hk : n.Keeps n') (hc : n.Client c) : n'.Client c := by
  have ho := (hk.client c hc).owner
  obtain ⟨p, hp⟩ := hc
  exact ⟨p, ho.trans hp⟩

/-- A request is on its way still. -/
lemma Net.Routed.keep {cli : Option ConnId} (hr : n.Routed c m cli) (hk : n.Keeps n') :
    n'.Routed c m cli := by
  have hm := hk.msg m (by rw [hr.place]; trivial)
  constructor
  case client => exact hr.client.keep hk
  case place => exact hm.place.trans hr.place
  case blank =>
    constructor
    · exact hm.peer.trans hr.blank.peer
    · exact hm.tmoData.trans hr.blank.tmoData
    · exact (hm.nfragDone hr.self).trans hr.blank.nfragDone
    · exact hm.error.trans hr.blank.error
    · exact hm.done.trans hr.blank.done
    · exact (hm.fdone hr.blank.done).trans hr.blank.fdone
    · exact hm.swallow.trans hr.blank.swallow
    · exact hm.counted.trans hr.blank.counted
  case of =>
    exact ⟨hm.owner.trans hr.of.1, by rw [hm.ownerGen, (hk.client c hr.client).gen, hr.of.2]⟩
  case self =>
    rw [hm.fragOwner]
    exact hr.self
  case pend =>
    rw [hk.pend]
    exact hr.pend
  case expects =>
    rw [hm.noreply]
    exact hr.expects
  case noreply =>
    rw [hm.noreply, hm.fragOwner, hk.pend]
    exact hr.noreply

/-- The client of a request that is being forwarded is open. -/
lemma Net.Of.not_stale (ho : n.Of m c) : n.stale m = false := by
  simp [Net.stale, ho.1, ho.2]

/-! ## `req_forward_error` -/

/-- A positive `errno` is recorded. -/
lemma setErrno_eq (h : Heap) (c : ConnId) :
    After (setErrno env c) (fun _ h' => ∃ e ≠ 0, h' = h.modConn c fun x => { x with err := e })
      h := by
  unfold setErrno getErrno
  refine After.ask fun t => After.last (After.modConn (After.pure ⟨_, ?_, rfl⟩))
  positivity

/-- The view does not have `err`. -/
lemma setErrno_after (h : Heap) (g : Ghost) (c : ConnId) :
    After (setErrno env c) (fun _ h' => h'.net g = h.net g) h := by
  refine (setErrno_eq h c).mono fun _ h' he => ?_
  obtain ⟨e, -, rfl⟩ := he
  exact Heap.net_modConn_unseen rfl

/-- The error of a connection is set without any move. -/
lemma setErrno_moves {M : Net → Net → Prop} (h : Heap) (g : Ghost) (c : ConnId) :
    After (setErrno env c) (Reach M (h.net g) fun _ h' g' => g' = g ∧ h'.net g = h.net g) h :=
  (setErrno_after h g c).mono fun _ _ he => ⟨g, he ▸ .refl, rfl, he⟩

/-- Flags change, and no further client is to be woken. -/
lemma Net.Flags.passed (hf : n.Flags n') (hd : n'.g.due ⊆ n.g.due) : n.Passed n' c := by
  obtain ⟨_, _, _, _, _, rfl⟩ := hf
  exact ⟨.of_eq rfl rfl hd, rfl, .rfl, subset_rfl, fun _ _ => rfl⟩

/-- What flags do not change. -/
lemma Net.Flags.view (hf : n.Flags n') : n'.c.owner = n.c.owner ∧ n'.m.owner = n.m.owner ∧
    n'.g.closing = n.g.closing ∧ n'.g.cold = n.g.cold ∧ n'.g.pend = n.g.pend := by
  obtain ⟨_, _, _, _, _, rfl⟩ := hf
  exact ⟨rfl, rfl, rfl, rfl, rfl⟩

/-- Views with the same connections and owners. -/
lemma Net.Passed.of_eq (ho : n'.c.owner = n.c.owner) (hm : n'.m.owner = n.m.owner)
    (hcl : n'.g.closing = n.g.closing) (hcold : n'.g.cold = n.g.cold) (hd : n'.g.due ⊆ n.g.due) :
    n.Passed n' c :=
  ⟨.of_eq ho hcl hd, by rw [ho], by rw [hcold], hcold.subset, fun y _ => by rw [hm]⟩

/-- `req_forward_error` on a request that expects a reply: its client is notified.  The move in
which the request fails begins at `n`. -/
lemma reqForwardError_wake (g₁ : Ghost) (hs : Sound n) (hc : n.Client c) (hcl : c ∉ n.g.closing)
    (hmove : Move n (((h.net g₁).finish m).fail m true)) (howner : (h.net g₁).c.owner = n.c.owner)
    (howners : (h.net g₁).m.owner = n.m.owner) (hclosing : g₁.closing = n.g.closing)
    (hcold : g₁.cold = n.g.cold) (hdue : g₁.due ⊆ insert c n.g.due)
    (hno : (h.msg m).noreply = false) (hstale : h.stale m = false) :
    After (reqForwardError env c m) (Reach Move n fun _ h' g' =>
      n.Passed (h'.net g') c ∧ g'.pend = g₁.pend) h := by
  unfold reqForwardError
  refine After.getErrno fun err => After.modMsg (After.getMsg ?_)
  have hview : (h.modMsg m fun x => { x with done := true, error := true, err := err }).net g₁ =
      ((h.net g₁).finish m).fail m true := Heap.net_failed err
  have hno₁ : ((h.modMsg m fun x =>
      { x with done := true, error := true, err := err }).msg m).noreply = false := by
    simpa using hno
  have hstale₁ : (h.modMsg m fun x => { x with done := true, error := true, err := err }).stale m =
      false := by
    simpa [Heap.stale] using hstale
  generalize h.modMsg m (fun x => { x with done := true, error := true, err := err }) = h₁ at *
  rw [← hview] at hmove
  have howner₁ : (h₁.net g₁).c.owner = n.c.owner := by
    rw [hview]
    exact howner
  have howners₁ : (h₁.net g₁).m.owner = n.m.owner := by
    rw [hview]
    exact howners
  refine After.pay (.single hmove) (After.ite (fun hyes => ?_) fun _ => ?_)
  · rw [hno₁] at hyes
    cases hyes
  unfold touch
  simp only [bind_assoc]
  refine After.getMsg (After.readHeap (After.emit ?_))
  rw [hstale₁]
  have htouch : ServerMove (h₁.net g₁) ((h₁.emit (.touch c (h₁.msg m).id false)).net g₁) :=
    .touch c m hstale₁
  have hc₁ : (h₁.net g₁).Client c := by rwa [Net.Client, howner₁]
  have hs₁ : Sound (h₁.net g₁) := Moves.sound (.single hmove) hs
  have hcl₁ : c ∉ g₁.closing := hclosing ▸ hcl
  refine After.pay₁ (.server htouch) rfl (After.followServer
    (wakeHead_moves (Moves.sound (.single (.server htouch)) hs₁).inv hc₁ hcl₁) ?_)
  rintro ok h₂ g₂ - ⟨rfl, hflags⟩
  have hpassed : n.Passed (h₂.net { g₁ with due := g₁.due \ {c} }) c := by
    obtain ⟨ho, hm, -, -, -⟩ := hflags.view
    refine .of_eq (ho.trans howner₁) (hm.trans howners₁) hclosing hcold ?_
    rintro x ⟨hx, hxc⟩
    exact (hdue hx).resolve_left hxc
  refine After.last (After.onlyIf
    (Q := fun _ h' => Reach Move (h₂.net { g₁ with due := g₁.due \ {c} }) (fun _ h' g' =>
          n.Passed (h'.net g') c ∧ g'.pend = g₁.pend) () h') (fun _ => ?_) (fun _ => ?_) ?_)
  · refine (setErrno_moves h₂ _ c).mono fun _ h₃ hreach => hreach.mono fun g₃ hrest => ?_
    obtain ⟨hg, he⟩ := hrest
    subst hg
    rw [he]
    exact ⟨hpassed, rfl⟩
  · exact .here ⟨hpassed, rfl⟩
  · exact fun _ hreach => After.pure hreach

/-- `req_forward_error` on a request that expects no reply: it is released. -/
lemma reqForwardError_drop (hs : Sound (h.net g)) (hm : g.place m = .hand) (hp : m ∉ g.pend)
    (hno : (h.msg m).noreply = true) :
    After (reqForwardError env c m) (Reach Move (h.net g) fun _ h' g' =>
      g.Moved g' ∧ h'.conn = h.conn ∧ g'.place m = .free) h := by
  unfold reqForwardError
  refine After.getErrno fun err => After.modMsg (After.getMsg ?_)
  have hview : (h.modMsg m fun x => { x with done := true, error := true, err := err }).net g =
      ((h.net g).finish m).fail m true := Heap.net_failed err
  have hno₁ : ((h.modMsg m fun x =>
      { x with done := true, error := true, err := err }).msg m).noreply = true := by
    simpa using hno
  have hconn₁ : (h.modMsg m fun x => { x with done := true, error := true, err := err }).conn =
      h.conn := rfl
  generalize h.modMsg m (fun x => { x with done := true, error := true, err := err }) = h₁ at *
  have hfail : Move (h.net g) (h₁.net g) := by
    rw [hview]
    exact .failHand m hm hp
  refine After.ite (fun _ => ?_) fun hno₂ => absurd hno₁ hno₂
  obtain ⟨g', hmoves, hmoved, hfree, -⟩ := reqPut_moves (Moves.sound (.single hfail) hs) hm hp
  exact After.last (After.modHeap (After.pure ⟨g', .head hfail hmoves, hmoved,
    (Heap.reqPut_conn h₁ m).trans hconn₁, hfree⟩))

/-! ## The queue of a server connection -/

/-- The tree has one more message. -/
lemma Heap.tmoInsert_perm (key : ℤ) : (h.tmoInsert m key s).tmoRbt.Perm (m :: h.tmoRbt) := by
  refine List.perm_middle.trans (List.Perm.cons m ?_)
  rw [List.takeWhile_append_dropWhile]
  rfl

/-- A message is put into the tree, on the view. -/
lemma Heap.net_tmoInsert (key : ℤ) : (h.tmoInsert m key s).net g =
    { h.net g with
      m.tmoData := update (h.net g).m.tmoData m (some s)
      a.tmoRbt := (h.tmoInsert m key s).tmoRbt } := by
  have hm : (h.modMsg m fun x => { x with tmoKey := key, tmoData := some s }).net g =
      { h.net g with m.tmoData := update (h.net g).m.tmoData m (some s) } := by
    simp [MsgCols.set]
  exact congrArg (fun n : Net => { n with a.tmoRbt := (h.tmoInsert m key s).tmoRbt }) hm

/-- `msg_tmo_insert` puts the message into the tree, unless there are no timeouts. -/
lemma msgTmoInsert_after (h : Heap) (m : MsgId) (s : ConnId) :
    After (msgTmoInsert env m s) (fun _ h' => h' = h ∨ ∃ key, h' = h.tmoInsert m key s) h := by
  unfold msgTmoInsert serverTimeout
  rw [bind_assoc]
  refine After.ownerServer fun p i _ => ?_
  rw [bind_assoc]
  refine After.getPool fun pool => ?_
  rw [pure_bind]
  refine After.ite (fun _ => After.pure (.inl rfl)) fun _ => After.ask fun t => ?_
  exact After.last (After.modHeap (After.pure (.inr ⟨_, rfl⟩)))

/-- **`req_server_enqueue_imsgq`**. -/
theorem reqServerEnqueueImsgq_moves {cli : Option ConnId} (hm : g.place m = .req cli none)
    (hs : (h.net g).Server s) (hb : (h.net g).m.Blank m)
    (hr : (h.msg m).noreply = true → cli = none) (hr' : (h.msg m).noreply = false → cli ≠ none)
    (hp : m ∉ g.pend) :
    After (reqServerEnqueueImsgq env s m) (Reach Move (h.net g) fun _ h' g' =>
      g' = g.move m (.req cli (some (s, false))) ∧ (h'.net g').c.owner = (h.net g).c.owner ∧
        (h'.net g').m.owner = (h.net g).m.owner) h := by
  unfold reqServerEnqueueImsgq
  refine After.getMsg (After.onlyIf (Q := fun _ h₁ => ∃ timed rbt,
    (if timed then rbt.Perm (m :: h.tmoRbt) else rbt = h.tmoRbt) ∧
    ((h.msg m).noreply = true → timed = false) ∧ h₁.net g = { h.net g with
      m.tmoData := if timed then update (h.net g).m.tmoData m (some s) else (h.net g).m.tmoData
      a.tmoRbt := rbt }) (fun hno => ?_) (fun hno => ?_) ?_)
  · refine (msgTmoInsert_after h m s).mono fun _ h₁ hins => ?_
    rcases hins with rfl | ⟨key, rfl⟩
    · exact ⟨false, h₁.tmoRbt, rfl, fun _ => rfl, rfl⟩
    · refine ⟨true, (h.tmoInsert m key s).tmoRbt, Heap.tmoInsert_perm key, fun h => ?_,
        Heap.net_tmoInsert key⟩
      simp [h] at hno
  · exact ⟨false, h.tmoRbt, rfl, fun _ => rfl, rfl⟩
  rintro h₁ ⟨timed, rbt, hrbt, htimed, hview⟩
  have he : (h₁.modConn s fun x => { x with imsgq := x.imsgq ++ [m] }).net
        (g.move m (.req cli (some (s, false)))) =
      { (h.net g).enqIn s m with
        m.tmoData := if timed then update (h.net g).m.tmoData m (some s) else (h.net g).m.tmoData
        a.tmoRbt := rbt }.move m (.req cli (some (s, false))) := by
    have henq : (h₁.modConn s fun x => { x with imsgq := x.imsgq ++ [m] }).net g =
        (h₁.net g).enqIn s m := by
      simp [ConnCols.set, Net.enqIn]
    rw [Heap.net_move, henq, hview]
    rfl
  have hmove := Move.enqIn (n := h.net g) s m cli timed rbt hm hs hb
    (fun hno => ⟨hr hno, htimed hno⟩) hr' hp hrbt
  rw [← he] at hmove
  refine After.modConn (After.ownerServer fun p i _ => After.statsServer (After.getMsg (After.last
    (After.statsServer (After.pure ⟨_, .single hmove, rfl, ?_, ?_⟩)))))
  · rw [he]
    rfl
  · rw [he]
    rfl

/-! ## `req_forward` -/

/-- Reading the key of a request leaves the objects alone. -/
lemma firstKey_after (h : Heap) (m : MsgId) : After (firstKey m) (fun _ h' => h' = h) h := by
  unfold firstKey
  refine After.getMsg ?_
  split
  · exact After.fault
  · exact After.fault
  · exact After.pure rfl

/-- A server connection waits for write events. -/
lemma waitOut_moves (h : Heap) (g : Ghost) (s : ConnId) :
    After (waitOut env s) (Reach ServerMove (h.net g) fun _ h' g' => g' = g ∧
      (h.net g).Flags (h'.net g)) h := by
  unfold waitOut
  refine After.getConn (After.ite (fun _ => ?_) fun _ => After.pure (.here ⟨rfl, .refl _⟩))
  refine (eventAddOut_moves h g s).mono fun _ _ hreach => hreach.mono fun _ hrest => ?_
  obtain ⟨hg, hflags, -⟩ := hrest
  exact ⟨hg, hflags⟩

/-- The view does not have `authenticated`. -/
lemma ensureAuth_after (h : Heap) (g : Ghost) (s : ConnId) :
    After (ensureAuth env s) (fun _ h' => h'.net g = h.net g) h := by
  unfold ensureAuth connAuthenticated
  simp only [bind_assoc]
  refine After.getConn (After.deref fun o _ => After.getPool fun pool => ?_)
  have hauth : After (addAuth env s) (fun _ h' => h'.net g = h.net g) h := by
    unfold addAuth
    refine After.ask fun t => After.ite (fun _ => ?_) fun _ => After.pure rfl
    exact After.modConn (After.pure (Heap.net_modConn_unseen rfl))
  split
  · rw [pure_bind]
    exact After.ite (fun _ => After.pure rfl) fun _ => hauth
  · rw [pure_bind]
    exact After.ite (fun _ => After.pure rfl) fun _ => hauth

/-- Counting and finishing commute. -/
lemma Net.count_finish (n : Net) (m : MsgId) (b : Bool) :
    (n.count m b).finish m = (n.finish m).count m b := by
  cases ho : n.m.fragOwner m
  all_goals simp [Net.count, Net.finish, ho]
  rfl

/-- Counting a fragment leaves other columns alone. -/
@[simp] lemma Net.count_view (n : Net) (m : MsgId) (b : Bool) : (n.count m b).m.owner = n.m.owner ∧
    (n.count m b).m.noreply = n.m.noreply ∧ (n.count m b).m.ownerGen = n.m.ownerGen := by
  unfold Net.count
  split <;> exact ⟨rfl, rfl, rfl⟩

/-- A request that is not a fragment is not counted. -/
lemma Net.count_none (b : Bool) (ho : n.m.fragOwner m = none) : n.count m b = n := by
  simp [Net.count, ho]

/-- Messages have moved, and the connections are the same. -/
lemma Ghost.Moved.passed (hm : g.Moved g') (ho : (h'.net g').c.owner = (h.net g).c.owner)
    (hp : g.pend = []) : (h.net g).Passed (h'.net g') c := by
  obtain ⟨place, rfl⟩ := hm
  refine ⟨.of_eq ho rfl subset_rfl, by rw [ho], .rfl, subset_rfl, fun y hy => ?_⟩
  have hy' : y ∈ g.pend := hy
  rw [hp] at hy'
  cases hy'

/-- No connection to the server of the request can be had. -/
lemma reqForward_none {cli : Option ConnId} (hr : Ready (h.net g)) (hm : (h.net g).Routed c m cli) :
    After (do countFragment m; reqForwardError env c m) (Reach Move (h.net g) fun _ h' g' =>
      (h.net g).Passed (h'.net g') c ∧ g'.pend = g.pend) h := by
  refine (countFragment_after m g).call ?_
  rintro - h₁ ⟨hconn, b, hview⟩
  have hdone : (h.net g).m.done m = false := hm.blank.done
  have hno₁ : (h₁.msg m).noreply = (h.msg m).noreply := by
    have h := congrArg (fun n : Net => n.m.noreply m) hview
    simpa using h
  have hstale₁ : h₁.stale m = false := by
    calc h₁.stale m = (h₁.net g).stale m := rfl
      _ = ((h.net g).count m b).stale m := by rw [hview]
      _ = (h.net g).stale m := by simp only [Net.stale, Net.count_view, Net.count_conn]
      _ = false := hm.of.not_stale
  cases hno : (h.msg m).noreply with
  | false =>
    obtain rfl := hm.expects hno
    have howner : (h₁.net g).c.owner = (h.net g).c.owner :=
      (congrArg (fun n : Net => n.c.owner) hview).trans (by simp)
    have howners : (h₁.net g).m.owner = (h.net g).m.owner :=
      (congrArg (fun n : Net => n.m.owner) hview).trans (by simp)
    refine reqForwardError_wake { g with due := insert c g.due } hr.toSound hm.client
      (hr.closing c hm.client) ?_ howner howners rfl rfl subset_rfl (hno₁.trans hno) hstale₁
    show Move (h.net g) ((((h₁.net g).finish m).fail m true).setDue c)
    rw [hview, Net.count_finish]
    exact .failFwd c m b hm.place hdone (hr.closing c hm.client)
  | true =>
    obtain ⟨rfl, howner, hp⟩ := hm.noreply hno
    rw [Net.count_none b howner] at hview
    rw [← hview] at hr hm ⊢
    have hp' : g.pend = [] := hp
    refine (reqForwardError_drop hr.toSound hm.place hm.pend (hno₁.trans hno)).mono
      fun _ h₂ hreach => ?_
    refine hreach.mono fun g₂ hrest => ?_
    obtain ⟨hmoved, hconn₂, -⟩ := hrest
    refine ⟨hmoved.passed (by simp only [Heap.net, hconn₂]) hp', ?_⟩
    obtain ⟨place, rfl⟩ := hmoved
    rfl

/-- The connection to the server of the request cannot be used. -/
lemma reqForwardFailed_moves {cli : Option ConnId} (hr : Ready (h.net g))
    (hm : (h.net g).Routed c m cli) :
    After (reqForwardFailed env c s m) (Reach Move (h.net g) fun _ h' g' =>
      (h.net g).Passed (h'.net g') c ∧ g'.pend = g.pend) h := by
  unfold reqForwardFailed
  refine After.getMsg (After.onlyIf (Q := fun _ h₁ => ServerMoves (h.net g) (h₁.net g) ∧
    (h.net g).Flags (h₁.net g) ∧ h₁.msg = h.msg ∧
    ((h.msg m).fragOwner ≠ none → ∃ i, .fwdFail i ∈ h₁.log)) (fun _ => ?_) (fun hnone => ?_) ?_)
  · refine After.last (After.emit
      (After.pure ⟨.single (.note _ rfl), ⟨_, _, _, _, _, rfl⟩, rfl, fun _ => ?_⟩))
    exact ⟨(h.msg m).id, List.mem_cons_self⟩
  · refine ⟨.refl, .refl _, rfl, fun hsome => ?_⟩
    rw [Option.isSome_eq_false_iff, Option.isNone_iff_eq_none] at hnone
    exact absurd hnone hsome
  rintro h₁ ⟨hmoves, hflags, hmsg, hlog⟩
  have hr₁ := ServerMoves.ready hmoves hr
  have hm₁ := hm.keep (ServerMoves.keeps hmoves hr.inv)
  have hpassed₁ : (h.net g).Passed (h₁.net g) c := hflags.passed subset_rfl
  refine After.pay hmoves.moves (After.follow (R := fun _ h' g' =>
    (h₁.net g).Passed (h'.net g') c ∧ g'.pend = g.pend) ?_ ?_)
  · cases hno : (h₁.msg m).noreply with
    | false =>
      obtain rfl := hm₁.expects hno
      refine reqForwardError_wake (n := h₁.net g) { g with due := insert c g.due } hr₁.toSound
        hm₁.client (hr₁.closing c hm₁.client) ?_ rfl rfl rfl rfl subset_rfl hno hm₁.of.not_stale
      refine .skipFwd c m hm₁.place hm₁.blank.done (hr₁.closing c hm₁.client) fun hsome => hlog ?_
      have ho : (h₁.msg m).fragOwner ≠ none := hsome
      rwa [hmsg] at ho
    | true =>
      obtain ⟨rfl, howner, hp⟩ := hm₁.noreply hno
      refine (reqForwardError_drop hr₁.toSound hm₁.place hm₁.pend hno).mono fun _ h₂ hreach => ?_
      refine hreach.mono fun g₂ hrest => ?_
      obtain ⟨hmoved, hconn₂, -⟩ := hrest
      refine ⟨hmoved.passed (by simp only [Heap.net, hconn₂]) hp, ?_⟩
      obtain ⟨place, rfl⟩ := hmoved
      rfl
  · rintro - h₂ g₂ - ⟨hpassed, hp⟩
    refine (setErrno_moves h₂ g₂ s).mono fun _ h₃ hreach => hreach.mono fun g₃ hrest => ?_
    obtain ⟨hg, he⟩ := hrest
    subst hg
    rw [he]
    exact ⟨hpassed₁.trans hpassed fun y hy => hp ▸ hy, hp⟩

/-- **`req_forward`**, once the request is in the queue of its client.

**Proof sketch.** A server connection for the key is found, or the request fails.  Of a connection
found, the registration or the authentication may fail; otherwise the request is put into its
queue.  In all cases the client is looked at, or the request is not done yet. -/
theorem reqForward_routed {cli : Option ConnId} (hr : Ready (h.net g))
    (hm : (h.net g).Routed c m cli) (key : List UInt8) :
    After (do
      match ← serverPoolConn env p key with
      | none =>
        countFragment m
        reqForwardError env c m
      | some s =>
        if !(← waitOut env s) then reqForwardFailed env c s m
        else if !(← ensureAuth env s) then reqForwardFailed env c s m
        else
          reqServerEnqueueImsgq env s m
          reqForwardStats s m) (Reach Move (h.net g) fun _ h' g' =>
      (h.net g).Passed (h'.net g') c ∧ g'.pend = g.pend) h := by
  refine After.followServer (serverPoolConn_moves hr key) ?_
  rintro o h₁ g₁ hmoves₁ ⟨hcalmer₁, hserver₁⟩
  have hr₁ := ServerMoves.ready hmoves₁ hr
  have hk₁ := ServerMoves.keeps hmoves₁ hr.inv
  have hm₁ := hm.keep hk₁
  have hpassed₁ := ServerMoves.passed hmoves₁ hr.inv hm.client hcalmer₁
  have hpend₁ : g₁.pend = g.pend := hk₁.pend
  cases o with
  | none =>
    refine (reqForward_none hr₁ hm₁).mono fun _ h₂ hreach => hreach.mono fun g₂ hrest => ?_
    obtain ⟨hpassed, hp⟩ := hrest
    exact ⟨hpassed₁.trans hpassed fun y hy => hp ▸ hy, hp.trans hpend₁⟩
  | some s =>
    have hfailed : ∀ {h₂ : Heap}, ServerMoves (h₁.net g₁) (h₂.net g₁) →
        (h₁.net g₁).Flags (h₂.net g₁) →
        After (reqForwardFailed env c s m) (Reach Move (h₂.net g₁) fun _ h' g' =>
          (h.net g).Passed (h'.net g') c ∧ g'.pend = g.pend) h₂ := by
      intro h₂ hmoves₂ hflags
      have hk₂ := ServerMoves.keeps hmoves₂ hr₁.inv
      refine (reqForwardFailed_moves (ServerMoves.ready hmoves₂ hr₁) (hm₁.keep hk₂)).mono
        fun _ h₃ hreach => ?_
      refine hreach.mono fun g₃ hrest => ?_
      obtain ⟨hpassed, hp⟩ := hrest
      refine ⟨?_, hp.trans hpend₁⟩
      refine (hpassed₁.trans (hflags.passed subset_rfl) fun _ hy => hy).trans hpassed fun y hy => ?_
      exact hp ▸ hy
    refine After.followServer (waitOut_moves h₁ g₁ s) ?_
    rintro ok h₂ g₂ hmoves₂ ⟨rfl, hflags₂⟩
    refine After.ite (fun _ => hfailed hmoves₂ hflags₂) fun _ => ?_
    refine (ensureAuth_after h₂ g₂ s).call fun ok h₃ he => ?_
    rw [← he] at hmoves₂ hflags₂ ⊢
    refine After.ite (fun _ => hfailed hmoves₂ hflags₂) fun _ => ?_
    have hm₃ := hm₁.keep (ServerMoves.keeps hmoves₂ hr₁.inv)
    have hserver₃ : (h₃.net g₂).Server s := by
      obtain ⟨p', i, ho⟩ := hserver₁ s rfl
      exact ⟨p', i, (congrFun hflags₂.view.1 s).trans ho⟩
    have hpassed₃ := hpassed₁.trans (hflags₂.passed (c := c) subset_rfl) fun _ hy => hy
    have hcli : (h₃.msg m).noreply = false → cli ≠ none := by
      intro hno hnone
      have := (hm₃.expects hno).symm.trans hnone
      cases this
    refine After.follow (reqServerEnqueueImsgq_moves hm₃.place hserver₃ hm₃.blank
      (fun hno => (hm₃.noreply hno).1) hcli hm₃.pend) ?_
    rintro - h₄ g₄ - ⟨rfl, ho, hmo⟩
    unfold reqForwardStats
    refine After.ownerServer fun p' i _ =>
      After.statsServer (After.getMsg (After.last (After.statsServer
        (After.pure (.here ⟨hpassed₃.trans (.of_eq ho hmo rfl rfl subset_rfl) fun _ hy => hy,
                    hpend₁⟩)))))

/-- A request is put into a queue, on the view. -/
lemma Heap.net_enqOut :
    (h.modConn c fun x => { x with omsgq := x.omsgq ++ [m] }).net g = (h.net g).enqOut c m := by
  simp [ConnCols.set, Net.enqOut]

/-- A request that expects a reply is put into the queue of its client. -/
lemma expectReply_moves (ho : (h.net g).Of m c) (pend : List MsgId)
    (hmove : ∀ log, Move { h.net g with a.log := log }
      ({ { h.net g with a.log := log }.enqOut c m with
      g.pend := pend }.move m (.req (some c) none))) :
    After (expectReply c m) (Reach Move (h.net g) fun _ h' g' =>
      g' = { g with pend := pend, place := update g.place m (.req (some c) none) } ∧
        (h'.net g').c.owner = (h.net g).c.owner ∧ (h'.net g').c.gen = (h.net g).c.gen ∧
        (h'.net g').m = (h.net g).m) h := by
  unfold expectReply touch reqClientEnqueueOmsgq
  rw [bind_assoc]
  refine After.getMsg ?_
  rw [bind_assoc]
  refine After.readHeap (After.emit ?_)
  have hstale : h.stale m = false := ho.not_stale
  rw [hstale]
  have htouch : ServerMove (h.net g) ((h.emit (.touch c (h.msg m).id false)).net g) :=
    .touch c m hstale
  have he : ((h.emit (.touch c (h.msg m).id false)).modConn c fun x =>
      { x with omsgq := x.omsgq ++ [m] }).net
        { g with pend := pend, place := update g.place m (.req (some c) none) } =
      { { h.net g with a.log := .touch c (h.msg m).id false :: h.log }.enqOut c m with
        g.pend := pend }.move m (.req (some c) none) := by
    exact congrArg (fun n : Net => { n with g.pend := pend }.move m (.req (some c) none))
      Heap.net_enqOut
  refine After.last (After.modConn
    (After.pure ⟨_, .tail (.single (.server htouch)) ?_, rfl, ?_, ?_, ?_⟩))
  · rw [he]
    exact hmove _
  · rw [he]
    rfl
  · rw [he]
    rfl
  · rw [he]
    rfl

/-- **`req_forward`** on a request that is not a fragment. -/
theorem reqForward_plain (hr : Ready (h.net g)) (hm : (h.net g).Held c m)
    (ho : (h.msg m).fragOwner = none) (hf : (h.msg m).fragId = 0) :
    After (reqForward env c m) (Reach Move (h.net g) fun _ h' g' =>
      (h.net g).Passed (h'.net g') c ∧ g'.pend = []) h := by
  unfold reqForward
  have hp : g.pend = [] := hm.pend
  refine After.getMsg (After.follow
    (R := fun _ h' g' => (h.net g).Passed (h'.net g') c ∧ g'.pend = [] ∧ ∃ cli,
        (h'.net g').Routed c m cli) ?_ ?_)
  · cases hno : (h.msg m).noreply with
    | false =>
      refine (expectReply_moves hm.of [] fun log => ?_).mono fun _ h' hreach =>
        hreach.mono fun g' hq => ?_
      · have hmove := Move.expect (n := { h.net g with a.log := log }) c m
          ⟨hm.place, hm.client, hm.closing, hm.of, hm.blank, hp, hm.nReq, hm.last⟩ hno ho hf
        have he : ({ { h.net g with a.log := log }.enqOut c m with g.pend := [] } : Net) =
            { h.net g with a.log := log }.enqOut c m := by
          rw [← hp]
          rfl
        rwa [he]
      · obtain ⟨rfl, hown, hgen, hmsgs⟩ := hq
        have hpassed : (h.net g).Passed (h'.net { g with
            pend := [], place := update g.place m (.req (some c) none) }) c :=
          .of_eq hown (congrArg MsgCols.owner hmsgs) rfl rfl subset_rfl
        refine ⟨hpassed, rfl, some c, ?_⟩
        constructor
        case client =>
          rw [Net.Client, hown]
          exact hm.client
        case place => exact update_self m _ _
        case blank =>
          rw [hmsgs]
          exact hm.blank
        case of =>
          rw [Net.Of, hgen, hmsgs]
          exact hm.of
        case self =>
          rw [hmsgs]
          exact fun h => absurd (ho.symm.trans h) (by simp)
        case pend => exact List.not_mem_nil
        case expects => exact fun _ => rfl
        case noreply =>
          intro h
          rw [hmsgs] at h
          exact absurd (hno.symm.trans h) (by simp)
    | true =>
      refine After.pure (.here ⟨.refl _ _, hp, none, ?_⟩)
      constructor
      case client => exact hm.client
      case place => exact hm.place
      case blank => exact hm.blank
      case of => exact hm.of
      case self => exact fun h => absurd (ho.symm.trans h) (by simp)
      case pend => simp [hp]
      case expects => exact fun h => absurd (hno.symm.trans h) (by simp)
      case noreply => exact fun _ => ⟨rfl, ho, hp⟩
  · rintro - h₁ g₁ hmoves ⟨hpassed, hp₁, cli, hroute⟩
    refine (firstKey_after h₁ m).call ?_
    rintro key _ rfl
    refine After.ownerPool fun p _ => ?_
    refine (reqForward_routed (hpassed.calmer.ready hr (Moves.sound hmoves hr.toSound))
      hroute key).mono fun _ h₂ hreach => hreach.mono fun g₂ hafter => ?_
    obtain ⟨hpassed₂, hp₂⟩ := hafter
    exact ⟨hpassed.trans hpassed₂ fun y hy => hp₂ ▸ hy, hp₂.trans hp₁⟩

/-- `req_forward` on the next sub-message. -/
lemma reqForward_sub {rest : List MsgId} (hr : Ready (h.net g)) (hp : g.pend = m :: rest)
    (hown : (h.msg m).owner = some c) :
    After (reqForward env c m) (Reach Move (h.net g) fun _ h' g' =>
      (h.net g).Passed (h'.net g') c ∧ g'.pend = rest) h := by
  obtain ⟨c', o, hpend⟩ := hr.inv.pend m (show m ∈ g.pend by simp [hp])
  obtain rfl : c' = c := Option.some.inj (hpend.of.1.symm.trans hown)
  have hno : (h.msg m).noreply = false := hpend.noreply
  have hnodup : m ∉ rest := by
    have h : g.pend.Nodup := hr.inv.pend_nodup
    rw [hp] at h
    exact (List.nodup_cons.mp h).1
  have hself : (h.net g).m.fragOwner m ≠ some m := by
    intro he
    obtain rfl : o = m := Option.some.inj (hpend.fragOwner.symm.trans he)
    obtain ⟨srv, hplace⟩ := (hr.inv.queues.omsgq_client c' hpend.client o).mp hpend.mem
    rw [hpend.place] at hplace
    cases hplace
  unfold reqForward
  refine After.getMsg ?_
  rw [hno]
  refine After.follow (x := expectReply c' m) (expectReply_moves hpend.of rest fun log => ?_) ?_
  · exact .expectSub c' m rest hp hpend.of hpend.client
  rintro - h₁ g₁ hmoves ⟨rfl, hown₁, hgen₁, hmsgs₁⟩
  have hpassed : (h.net g).Passed (h₁.net { g with
      pend := rest, place := update g.place m (.req (some c') none) }) c' := by
    exact .of_eq hown₁ (congrArg MsgCols.owner hmsgs₁) rfl rfl subset_rfl
  have hroute : (h₁.net { g with
      pend := rest, place := update g.place m (.req (some c') none) }).Routed c' m (some c') := by
    constructor
    case client =>
      rw [Net.Client, hown₁]
      exact hpend.client
    case place => exact update_self m _ _
    case blank =>
      rw [hmsgs₁]
      exact hpend.blank
    case of =>
      rw [Net.Of, hgen₁, hmsgs₁]
      exact hpend.of
    case self =>
      rw [hmsgs₁]
      exact hself
    case pend => exact hnodup
    case expects => exact fun _ => rfl
    case noreply =>
      intro h
      rw [hmsgs₁] at h
      exact absurd (hno.symm.trans h) (by simp)
  refine (firstKey_after h₁ m).call ?_
  rintro key _ rfl
  refine After.ownerPool fun p _ => ?_
  refine (reqForward_routed (hpassed.calmer.ready hr (Moves.sound hmoves hr.toSound))
    hroute key).mono fun _ h₂ hreach => hreach.mono fun g₂ hafter => ?_
  obtain ⟨hpassed₂, hp₂⟩ := hafter
  exact ⟨hpassed.trans hpassed₂ fun y hy => hp₂ ▸ hy, hp₂⟩

/-- **The sub-messages are forwarded.** -/
theorem reqForwards_moves (ms : List MsgId) (hr : Ready (h.net g)) (hp : g.pend = ms)
    (hown : ∀ y ∈ ms, (h.msg y).owner = some c) :
    After (reqForwards env c ms) (Reach Move (h.net g) fun _ h' g' =>
      (h.net g).Passed (h'.net g') c ∧ g'.pend = []) h := by
  induction ms generalizing h g with
  | nil => exact After.pure (.here ⟨.refl _ _, hp⟩)
  | cons m ms ih =>
    refine After.follow (reqForward_sub hr hp (hown m List.mem_cons_self)) ?_
    rintro - h₁ g₁ hmoves ⟨hpassed, hp₁⟩
    refine (ih (hpassed.calmer.ready hr (Moves.sound hmoves hr.toSound)) hp₁ fun y hy => ?_).mono
      fun _ h₂ hreach => hreach.mono fun g₂ hafter =>
        ⟨hpassed.seq hafter.1 hafter.2, hafter.2⟩
    have hy₁ : y ∈ g₁.pend := hp₁ ▸ hy
    exact (hpassed.owners y hy₁).trans (hown y (List.mem_cons_of_mem m hy))

end GfwProxy
