import GfwProxy.Net.Responding

set_option autoImplicit false

/-!
# The read path as moves

`msg_recv`: the messages that the parser completes are handed to the read handlers, one after
another.

## Main definitions

* `GfwProxy.Env.Splits` — what the parsers promise about the requests they complete.
* `GfwProxy.Heard` — what the read path leaves of the connections.

## Main results

* `GfwProxy.msgRecv_moves`.
-/

namespace GfwProxy

open Function

variable {env : Env} {n n' : Net} {h h' : Heap} {g g' : Ghost} {c s : ConnId} {m r : MsgId}

/-- **What the parsers promise**: the fragment callback of a request succeeds, and a request that
expects no reply is not split. -/
def Env.Splits (env : Env) : Prop :=
  ∀ t p left, env.parse t = .ok p left → p.fragment.ok = true ∧
    (p.noreply = true → p.fragment.subs = [])

/-- What the read path leaves when it returns `status`. -/
structure Heard (c : ConnId) (status : Rstatus) (n n' : Net) : Prop where
  spoiled : n.Spoiled n' c
  passed : status = .ok → n.Passed n' c

/-- A step that passed by the connection is one of hearing. -/
lemma Heard.of_passed {status : Rstatus} (hp : n.Passed n' c) (hpend : n'.g.pend = []) :
    Heard c status n n' :=
  ⟨hp.spoiled hpend, fun _ => hp⟩

/-- Passing by and then hearing is hearing. -/
lemma Net.Passed.heard {n₁ n₂ n₃ : Net} {status : Rstatus} (h₁ : n₁.Passed n₂ c)
    (h₂ : Heard c status n₂ n₃) :
    Heard c status n₁ n₃ :=
  ⟨h₁.then_spoiled h₂.spoiled, fun hok => h₁.seq (h₂.passed hok) h₂.spoiled.pend⟩

/-- An open connection is open still. -/
lemma Net.Passed.isOpen (hp : n.Passed n' c) (ho : n.Open c) : n'.Open c := by
  rwa [Net.Open, hp.owner]

/-- An open connection belongs to a pool or to a server. -/
lemma Net.Open.cases (ho : n.Open c) : n.Client c ∨ n.Server c := by
  cases howner : n.c.owner c with
  | none => exact absurd howner ho
  | some o =>
    cases o with
    | pool p => exact .inl ⟨p, howner⟩
    | server p i => exact .inr ⟨p, i, howner⟩

/-! ## The next message -/

/-- A message that `msg_get` has returned can be received. -/
lemma Allocated.new (ha : Allocated h h' g g') (hi : Inv (h.net g)) (hfree : g.place r = .free)
    (hhand : g'.place r = .hand) {id : ℕ} {request : Bool} (hr : h'.msg r =
      { id := id, keys := some [], owner := some c, ownerGen := (h.conn c).gen,
        request := request }) :
    (h'.net g').New c r := by
  obtain ⟨place, hg⟩ := ha.moved
  constructor
  case place => exact hhand
  case pend =>
    rw [hg]
    exact hi.free_notMem_pend hfree
  case of =>
    refine ⟨congrArg Msg.owner hr, (congrArg Msg.ownerGen hr).trans ?_⟩
    show _ = (h'.conn c).gen
    rw [ha.conn]
  case blank => constructor <;> simp [hr]
  case fragOwner => exact congrArg Msg.fragOwner hr
  case fragId => exact congrArg Msg.fragId hr

/-- An allocation passes by every connection. -/
lemma Allocated.passed (ha : Allocated h h' g g') (hp : g.pend = []) :
    (h.net g).Passed (h'.net g') c ∧ g'.pend = [] := by
  refine ⟨ha.moved.passed (by simp only [Heap.net, ha.conn]) hp, ?_⟩
  obtain ⟨place, hg⟩ := ha.moved
  rw [hg]
  exact hp

/-- `req_get` and `rsp_get`. -/
lemma getMsg_moves (hs : Sound (h.net g)) (hp : g.pend = []) (hm : (h.conn c).rmsg = none)
    (request : Bool) :
    After (do
      let m ← msgGet env c request
      onlyIf m.isNone (setErrno env c)
      return m) (Reach Move (h.net g) fun o h' g' => (h.net g).Passed (h'.net g') c ∧ g'.pend = [] ∧
        (h'.conn c).rmsg = none ∧ ∀ m, o = some m → (h'.net g').New c m) h := by
  refine After.follow (msgGet_moves hs c request) ?_
  rintro o h₁ g₁ - ⟨ha, hnew⟩
  obtain ⟨hpassed, hp₁⟩ := ha.passed (c := c) hp
  have hm₁ : (h₁.conn c).rmsg = none := by rw [ha.conn, hm]
  refine After.onlyIf (Q := fun _ h₂ => h₂.net g₁ = h₁.net g₁) (fun _ => setErrno_after h₁ g₁ c)
    (fun _ => rfl) ?_
  intro h₂ he
  refine After.pure ⟨g₁, he ▸ .refl, ?_, hp₁, ?_, ?_⟩
  · rw [he]
    exact hpassed
  · exact (congrArg (fun n : Net => n.c.rmsg c) he).trans hm₁
  · rintro m rfl
    obtain ⟨hfree, hhand, id, hr⟩ := hnew m rfl
    rw [he]
    exact ha.new hs.inv hfree hhand hr

/-- The connection receives the new message. -/
lemma setNew_moves (ho : (h.net g).Open c) (hp : g.pend = []) (hm : (h.conn c).rmsg = none)
    (hr : (h.net g).New c r) :
    After (do modConn c fun x => { x with rmsg := some r }; return some r)
      (Reach Move (h.net g) fun o h' g' =>
      (h.net g).Passed (h'.net g') c ∧ g'.pend = [] ∧ ∀ m, o = some m → (h'.conn c).rmsg = some m)
      h := by
  refine After.modConn (After.pure
    ⟨g.move r (.reading c), .single (readMsg_move ho hm hr), ?_, hp, ?_⟩)
  · refine (Ghost.moved_move r (.reading c) g).passed ?_ hp
    rw [Heap.net_modConn]
    exact update_eq_self c _
  · rintro m ⟨⟩
    simp

/-- The message that is being received is discarded at the end of the stream. -/
lemma discardReq_passed (hs : Sound (h.net g)) (hp : g.pend = []) (ho : (h.net g).Open c) :
    After (discardReq c (h.conn c).rmsg) (Reach Move (h.net g) fun _ h' g' =>
      (h.net g).Passed (h'.net g') c ∧ g'.pend = []) h := by
  refine (discardReq_moves hs ho).mono fun _ h' hreach => hreach.mono fun g' hrest => ?_
  obtain ⟨hmoved, hconn⟩ := hrest
  refine ⟨?_, ?_⟩
  · refine hmoved.passed ?_ hp
    show (ConnCols.of h'.conn).owner = _
    rw [Heap.net_conn_update hconn]
    exact update_eq_self c _
  · obtain ⟨place, rfl⟩ := hmoved
    exact hp

/-- `rsp_put` of the response being read passes by the server connection. -/
lemma discardRsp_passed (hs : Sound (h.net g)) (hp : g.pend = []) (ho : (h.net g).Server s) :
    After (discardRsp s (h.conn s).rmsg) (Reach Move (h.net g) fun _ h' g' =>
      (h.net g).Passed (h'.net g') s ∧ g'.pend = []) h := by
  refine (discardRsp_moves ho).mono fun _ h' hreach => ?_
  obtain ⟨g', hmoves, hless, -, -, -, hown⟩ := hreach
  have hp' : g'.pend = [] := (ServerMoves.keeps hmoves hs.inv).pend.trans hp
  refine ⟨g', ServerMoves.moves hmoves,
    ⟨.of_eq hown hless.closing hless.due, congrFun hown s, ?_, hless.cold.subset, ?_⟩, hp'⟩
  · exact iff_of_eq (congrArg (s ∈ ·) hless.cold)
  · intro y hy
    have hy' : y ∈ g'.pend := hy
    rw [hp'] at hy'
    cases hy'

/-- Nothing but the log changes when a connection becomes `done`. -/
lemma setDone_passed (f : Closer) (hp : n.Passed (h.net g) s) :
    n.Passed ((h.setDone f c).net g) s := by
  rw [Heap.net_setDone]
  exact { hp with calmer := { hp.calmer with } }

/-- `req_recv_next`. -/
lemma reqRecvNext_moves (hs : Sound (h.net g)) (hp : g.pend = []) (ho : (h.net g).Open c)
    (alloc : Bool) :
    After (reqRecvNext env c alloc)
      (Reach Move (h.net g) fun o h' g' => (h.net g).Passed (h'.net g') c ∧
      g'.pend = [] ∧ ∀ m, o = some m → (h'.conn c).rmsg = some m) h := by
  unfold reqRecvNext
  refine After.getConn (After.ite (fun _ => ?_) fun _ => ?_)
  · refine After.follow (discardReq_passed hs hp ho) ?_
    rintro - h₁ g₁ - ⟨hpassed, hp₁⟩
    refine After.getConn (After.onlyIf (Q := fun _ h₂ =>
      Moves (h₁.net g₁) (h₂.net g₁) ∧ (h.net g).Passed (h₂.net g₁) c) (fun _ => ?_)
      (fun _ => ⟨.refl, hpassed⟩) ?_)
    · refine After.last (After.modHeap (After.pure ⟨?_, setDone_passed _ hpassed⟩))
      exact .single (.server (Heap.setDone_move .reqRecvNext c))
    · rintro h₂ ⟨hmoves, hpassed₂⟩
      exact After.pure ⟨g₁, hmoves, hpassed₂, hp₁, by simp⟩
  cases hm : (h.conn c).rmsg with
  | some m => exact After.pure (.here ⟨.refl _ _, hp, fun m' hm' => by rw [hm, hm']⟩)
  | none =>
    refine After.ite (fun _ => After.pure (.here ⟨.refl _ _, hp, by simp⟩)) fun _ => ?_
    refine After.follow (x := reqGet env c) (getMsg_moves hs hp hm true) ?_
    rintro o h₁ g₁ hmoves₁ ⟨hpassed, hp₁, hm₁, hnew⟩
    cases o with
    | none => exact After.pure (.here ⟨hpassed, hp₁, by simp⟩)
    | some r =>
      refine (setNew_moves (hpassed.isOpen ho) hp₁ hm₁ (hnew r rfl)).mono fun o h₂ hreach => ?_
      refine hreach.mono fun g₂ hrest => ?_
      obtain ⟨hpassed₂, hp₂, hm₂⟩ := hrest
      exact ⟨hpassed.seq hpassed₂ hp₂, hp₂, hm₂⟩

/-- `rsp_recv_next`. -/
lemma rspRecvNext_moves (hs : Sound (h.net g)) (hp : g.pend = []) (ho : (h.net g).Server s)
    (alloc : Bool) :
    After (rspRecvNext env s alloc)
      (Reach Move (h.net g) fun o h' g' => (h.net g).Passed (h'.net g') s ∧
      g'.pend = [] ∧ ∀ m, o = some m → (h'.conn s).rmsg = some m) h := by
  unfold rspRecvNext
  refine After.getConn (After.ite (fun _ => ?_) fun _ => ?_)
  · refine After.follow (discardRsp_passed hs hp ho) ?_
    rintro - h₁ g₁ - ⟨hpassed, hp₁⟩
    refine After.modHeap (After.pure ⟨g₁, ?_, setDone_passed _ hpassed, hp₁, by simp⟩)
    exact .single (.server (Heap.setDone_move .rspRecvNext s))
  cases hm : (h.conn s).rmsg with
  | some m => exact After.pure (.here ⟨.refl _ _, hp, fun m' hm' => by rw [hm, hm']⟩)
  | none =>
    refine After.ite (fun _ => After.pure (.here ⟨.refl _ _, hp, by simp⟩)) fun _ => ?_
    refine After.follow (x := rspGet env s) (getMsg_moves hs hp hm false) ?_
    rintro o h₁ g₁ hmoves₁ ⟨hpassed, hp₁, hm₁, hnew⟩
    cases o with
    | none => exact After.pure (.here ⟨hpassed, hp₁, by simp⟩)
    | some r =>
      refine (setNew_moves (hpassed.isOpen ho.isOpen) hp₁ hm₁ (hnew r rfl)).mono
        fun o h₂ hreach => ?_
      refine hreach.mono fun g₂ hrest => ?_
      obtain ⟨hpassed₂, hp₂, hm₂⟩ := hrest
      exact ⟨hpassed.seq hpassed₂ hp₂, hp₂, hm₂⟩

/-- **The `recv_next` handler.** -/
theorem connRecvNext_moves (hs : Sound (h.net g)) (hp : g.pend = []) (ho : (h.net g).Open c)
    (alloc : Bool) :
    After (connRecvNext env c alloc)
      (Reach Move (h.net g) fun o h' g' => (h.net g).Passed (h'.net g') c ∧
      g'.pend = [] ∧ ∀ m, o = some m → (h'.conn c).rmsg = some m) h := by
  unfold connRecvNext
  refine After.getConn (After.ite (fun _ => reqRecvNext_moves hs hp ho alloc) fun hno => ?_)
  rcases ho.cases with hc | hs'
  · exact absurd (hs.inv.addr.pool_client c hc).1 hno
  · exact rspRecvNext_moves hs hp hs' alloc

/-- **The `recv_done` handler.** -/
theorem connRecvDone_moves {o : Option MsgId} (hr : Ready (h.net g)) (hp : g.pend = [])
    (ho : (h.net g).Open c) (hm : (h.conn c).rmsg = some m)
    (hn : ∀ r, o = some r → (h.net g).New c r) (hsplit : (h.msg m).mlen ≠ 0 → (h.msg m).Splits) :
    After (connRecvDone env c m o) (Reach Move (h.net g) fun _ h' g' => Handled c h h' g g' ∧
      ((h.msg m).mlen = 0 → (h.net g).Passed (h'.net g') c)) h := by
  unfold connRecvDone
  rcases ho.cases with hc | hs
  · have hclient : (h.conn c).client = true := (hr.inv.addr.pool_client c hc).1
    refine After.getConn (After.ite (fun _ => reqRecvDone_moves hr hp hc hm hn hsplit)
      fun hno => ?_)
    exact absurd hclient hno
  · have hclient : (h.conn c).client = false := hr.inv.addr.server_client c hs
    refine After.getConn (After.ite (fun hyes => ?_) fun _ => rspRecvDone_moves hr hp hs hm hn)
    rw [hclient] at hyes
    cases hyes

/-! ## The parser -/

/-- The fields that the parser fills in. -/
lemma Heap.net_parsed (p : Parsed) : (h.modMsg m fun x => { x with
    mhdr := p.mhdr, mlen := (unsent p.mhdr).length, keys := some p.keys
    quit := p.quit, noreply := p.noreply, noforward := p.noforward, fragment := p.fragment
    reply := p.reply, failure := p.failure, preCoalesce := p.preCoalesce }).net g =
    { h.net g with m.noreply := update (h.net g).m.noreply m p.noreply } := by
  simp [MsgCols.set]

/-- Message `m` is being received on connection `c`, and nothing else is going on. -/
structure Net.Reading (n : Net) (c : ConnId) (m : MsgId) : Prop extends Ready n where
  pend : n.g.pend = []
  isOpen : n.Open c
  rmsg : n.c.rmsg c = some m

/-- A message that is being read has its place there. -/
lemma Net.Reading.place (hr : n.Reading c m) : n.g.place m = .reading c :=
  (hr.inv.queues.rmsg c hr.isOpen m).mp hr.rmsg

/-- `msg_parsed` when there are bytes behind the message. -/
lemma msgSplit_moves (hr : (h.net g).Reading c m) (left : ℕ) (hsplit : (h.msg m).Splits) :
    After (msgSplit env c m left) (Reach Move (h.net g) fun _ h' g' => Handled c h h' g g') h := by
  have hp : g.pend = [] := hr.pend
  have hplace : g.place m = .reading c := hr.place
  have howner : (h.msg m).owner = some c := (hr.inv.facts.reading m c hplace).2.1.1
  unfold msgSplit
  refine After.ask fun t => After.ite (fun _ => ?_) fun _ =>
    After.pure (.here (.of_passed (.refl _ _) hp))
  refine After.getMsg (After.deref fun c' hc' => ?_)
  obtain rfl : c = c' := Option.some.inj (howner.symm.trans hc')
  refine After.follow (msgGet_moves hr.toSound c (h.msg m).request) ?_
  rintro o h₁ g₁ hmoves₁ ⟨ha, hnew⟩
  obtain ⟨hpassed, hp₁⟩ := ha.passed (c := c) hp
  cases o with
  | none => exact After.pure (.here (.of_passed hpassed hp₁))
  | some r =>
    obtain ⟨hfree, hhand, id, hmsg⟩ := hnew r rfl
    have hn₁ : (h₁.net g₁).New c r := ha.new hr.inv hfree hhand hmsg
    have hne : m ≠ r := by
      rintro rfl
      rw [hplace] at hfree
      cases hfree
    have he : (h₁.modMsg r fun x => { x with mlen := left }).net g₁ = h₁.net g₁ :=
      Heap.net_modMsg_unseen rfl
    have hm₂ : (h₁.modMsg r fun x => { x with mlen := left }).msg m = h.msg m := by
      rw [← (ha.msg m (by simp [hplace])).1]
      simp [Heap.modMsg, hne]
    have hrmsg₂ : ((h₁.modMsg r fun x => { x with mlen := left }).conn c).rmsg = some m := by
      have hrmsg : (h.conn c).rmsg = some m := hr.rmsg
      rw [(Heap.modMsg_rest h₁ r _).1, ha.conn, hrmsg]
    have hr₁ := hpassed.calmer.ready hr.toReady (Moves.sound hmoves₁ hr.toSound)
    have ho₁ := hpassed.isOpen hr.isOpen
    rw [← he] at hr₁ hn₁ hpassed ho₁
    refine After.modMsg (After.same he ?_)
    generalize (h₁.modMsg r fun x => { x with mlen := left }) = h₂ at *
    refine After.follow (connRecvDone_moves (o := some r) hr₁ hp₁ ho₁ hrmsg₂ ?_ fun _ =>
      hm₂ ▸ hsplit) ?_
    · rintro r' ⟨⟩
      exact hn₁
    · rintro - h₃ g₃ - ⟨hhandled, -⟩
      exact After.pure (.here (hhandled.of_trans hpassed))

/-- What `msg_parse` does with the result of the parser. -/
lemma msgResult_moves (henv : env.Splits) {t : ℕ} (hr : (h.net g).Reading c m) :
    After (msgResult env c m (env.parse t))
      (Reach Move (h.net g) fun _ h' g' => Handled c h h' g g') h := by
  have hp : g.pend = [] := hr.pend
  cases hparse : env.parse t with
  | again => exact After.pure (.here (.of_passed (.refl _ _) hp))
  | repair =>
    refine After.ask fun _ => After.ite (fun _ => ?_) fun _ => ?_
    · exact After.pure (.here (.of_passed (.refl _ _) hp))
    · exact After.pure (.here (.of_passed (.refl _ _) hp))
  | failed =>
    refine (setErrno_both h g c).call ?_
    rintro - h₁ ⟨he, -, -⟩
    exact After.pure ⟨g, he ▸ .refl, .of_passed (he ▸ .refl _ _) hp⟩
  | ok p left =>
    obtain ⟨hok, hsubs⟩ := henv t p left hparse
    unfold msgResult setParsed
    refine After.modMsg ?_
    have hview := Heap.net_parsed (h := h) (g := g) (m := m) p
    have hsplit : ((h.modMsg m fun x => { x with
        mhdr := p.mhdr, mlen := (unsent p.mhdr).length, keys := some p.keys
        quit := p.quit, noreply := p.noreply, noforward := p.noforward, fragment := p.fragment
        reply := p.reply, failure := p.failure, preCoalesce := p.preCoalesce }).msg m).Splits := by
      rw [Heap.modMsg_same]
      exact ⟨hok, hsubs⟩
    generalize (h.modMsg m fun x => { x with
      mhdr := p.mhdr, mlen := (unsent p.mhdr).length, keys := some p.keys
      quit := p.quit, noreply := p.noreply, noforward := p.noforward, fragment := p.fragment
      reply := p.reply, failure := p.failure, preCoalesce := p.preCoalesce }) = h₁ at hview hsplit ⊢
    have hmove : Move (h.net g) (h₁.net g) := by
      rw [hview]
      exact .setNoreply m c p.noreply hr.place
    have hpassed : (h.net g).Passed (h₁.net g) c := by
      rw [hview]
      exact .of_eq rfl rfl rfl rfl subset_rfl
    have hr₁ : (h₁.net g).Reading c m := by
      refine ⟨hpassed.calmer.ready hr.toReady (Moves.sound (.single hmove) hr.toSound), hp,
        hpassed.isOpen hr.isOpen, ?_⟩
      rw [hview]
      exact hr.rmsg
    refine After.pay (.single hmove) ?_
    unfold msgParsed
    refine After.ite (fun _ => ?_) fun _ => ?_
    · refine After.follow (connRecvDone_moves (o := none) hr₁.toReady hp hr₁.isOpen
        hr₁.rmsg (by simp) fun _ => hsplit) ?_
      rintro - h₂ g₂ - ⟨hhandled, -⟩
      exact After.pure (.here (hhandled.of_trans hpassed))
    · refine (msgSplit_moves hr₁ left hsplit).mono fun _ h₂ hreach => hreach.mono
        fun g₂ hhandled => ?_
      exact hhandled.of_trans hpassed

/-- **`msg_parse`**. -/
theorem msgParse_moves (henv : env.Splits) (hr : (h.net g).Reading c m) :
    After (msgParse env c m) (Reach Move (h.net g) fun status h' g' => Heard c status (h.net g)
      (h'.net g')) h := by
  have hp : g.pend = [] := hr.pend
  unfold msgParse
  refine After.getMsg (After.ite (fun hmlen => ?_) fun _ => After.ask fun t => ?_)
  · refine After.follow (connRecvDone_moves (o := none) hr.toReady hp hr.isOpen hr.rmsg (by simp)
      fun h => absurd hmlen h) ?_
    rintro - h₁ g₁ - ⟨hhandled, hpassed⟩
    exact After.pure (.here ⟨hhandled.spoiled, fun _ => hpassed hmlen⟩)
  · refine After.follow (msgResult_moves henv hr) ?_
    rintro status h₁ g₁ - hhandled
    refine After.getConn (After.pure (.here ⟨hhandled.spoiled, fun hok => hhandled.passed ?_⟩))
    by_contra herr
    rw [if_pos herr] at hok
    cases hok

/-- The parse loop of `msg_recv_chain`. -/
lemma msgParseLoop_moves (henv : env.Splits) (fuel : ℕ) (hr : (h.net g).Reading c m) :
    After (msgParseLoop env c fuel m) (Reach Move (h.net g) fun status h' g' =>
      Heard c status (h.net g) (h'.net g')) h := by
  induction fuel generalizing h g m with
  | zero => exact After.fault
  | succ fuel ih =>
    refine After.follow (msgParse_moves henv hr) ?_
    rintro status h₁ g₁ hmoves₁ hheard
    refine After.ite (fun _ => After.pure (.here hheard)) fun hok => ?_
    have hpassed := hheard.passed (not_not.mp hok)
    have hp₁ : g₁.pend = [] := hheard.spoiled.pend
    have hr₁ := hpassed.calmer.ready hr.toReady (Moves.sound hmoves₁ hr.toSound)
    have ho₁ := hpassed.isOpen hr.isOpen
    refine After.follow (connRecvNext_moves hr₁.toSound hp₁ ho₁ false) ?_
    rintro o h₂ g₂ hmoves₂ ⟨hpassed₂, hp₂, hrmsg⟩
    have hpassed' := hpassed.seq hpassed₂ hp₂
    cases o with
    | none => exact After.pure (.here (.of_passed hpassed' hp₂))
    | some r =>
      refine After.ite (fun _ => After.pure (.here (.of_passed hpassed' hp₂))) fun _ => ?_
      have hr₂ := hpassed₂.calmer.ready hr₁ (Moves.sound hmoves₂ hr₁.toSound)
      refine (ih ⟨hr₂, hp₂, hpassed₂.isOpen ho₁, hrmsg r rfl⟩).mono fun _ h₃ hreach =>
        hreach.mono fun g₃ hheard₃ => ?_
      exact hpassed'.heard hheard₃

/-! ## Reading -/

/-- `conn_recv` changes nothing that the view sees. -/
lemma connRecv_after (h : Heap) (g : Ghost) (c : ConnId) :
    After (connRecv env c) (fun _ h' => h'.net g = h.net g) h := by
  unfold connRecv
  refine After.ask fun t => ?_
  cases env.recv t with
  | data k short => exact After.modConn (After.pure (Heap.net_modConn_unseen rfl))
  | again => exact After.modConn (After.pure (Heap.net_modConn_unseen rfl))
  | failed =>
    refine After.modConn ((setErrno_after _ g c).call fun _ h₁ he => After.pure ?_)
    rw [he]
    exact Heap.net_modConn_unseen rfl

/-- **`msg_recv_chain`**. -/
theorem msgRecvChain_moves (henv : env.Splits) (hr : (h.net g).Reading c m) :
    After (msgRecvChain env c m) (Reach Move (h.net g) fun status h' g' =>
      Heard c status (h.net g) (h'.net g')) h := by
  have hp : g.pend = [] := hr.pend
  unfold msgRecvChain
  refine After.ask fun _ => After.ite (fun _ => ?_) fun _ =>
    After.pure (.here (.of_passed (.refl _ _) hp))
  refine (connRecv_after h g c).call ?_
  rintro ⟨status, k⟩ h₁ he
  rw [← he] at hr ⊢
  cases status with
  | ok =>
    have he₂ : (h₁.modMsg m fun x => { x with mlen := x.mlen + k }).net g = h₁.net g :=
      Heap.net_modMsg_unseen rfl
    refine After.modMsg (After.same he₂ ?_)
    rw [← he₂] at hr ⊢
    exact msgParseLoop_moves henv env.fuel hr
  | eagain => exact After.pure (.here (.of_passed (.refl _ _) hp))
  | _ => exact After.pure (.here (.of_passed (.refl _ _) hp))

/-- The loop of `msg_recv`. -/
lemma msgRecvLoop_moves (henv : env.Splits) (fuel : ℕ) (hr : Ready (h.net g)) (hp : g.pend = [])
    (ho : (h.net g).Open c) :
    After (msgRecvLoop env c fuel) (Reach Move (h.net g) fun status h' g' =>
      Heard c status (h.net g) (h'.net g')) h := by
  induction fuel generalizing h g with
  | zero => exact After.fault
  | succ fuel ih =>
    refine After.follow (connRecvNext_moves hr.toSound hp ho true) ?_
    rintro o h₁ g₁ hmoves₁ ⟨hpassed₁, hp₁, hrmsg₁⟩
    have hr₁ := hpassed₁.calmer.ready hr (Moves.sound hmoves₁ hr.toSound)
    have ho₁ := hpassed₁.isOpen ho
    cases o with
    | none => exact After.pure (.here (.of_passed hpassed₁ hp₁))
    | some m =>
      refine After.follow (msgRecvChain_moves henv ⟨hr₁, hp₁, ho₁, hrmsg₁ m rfl⟩) ?_
      rintro status h₂ g₂ hmoves₂ hheard₂
      refine After.ite (fun _ => After.pure (.here (hpassed₁.heard hheard₂))) fun hok => ?_
      have hpassed₂ := hheard₂.passed (not_not.mp hok)
      have hp₂ : g₂.pend = [] := hheard₂.spoiled.pend
      have hpassed' := hpassed₁.seq hpassed₂ hp₂
      have hr₂ := hpassed₂.calmer.ready hr₁ (Moves.sound hmoves₂ hr₁.toSound)
      refine After.getConn (After.ite (fun _ => ?_) fun _ =>
        After.pure (.here (.of_passed hpassed' hp₂)))
      refine (ih hr₂ hp₂ (hpassed₂.isOpen ho₁)).mono fun _ h₃ hreach =>
        hreach.mono fun g₃ hheard₃ => ?_
      exact hpassed'.heard hheard₃

/-- **`msg_recv`**. -/
theorem msgRecv_moves (henv : env.Splits) (hr : Ready (h.net g)) (hp : g.pend = [])
    (ho : (h.net g).Open c) :
    After (msgRecv env c) (Reach Move (h.net g) fun status h' g' => Heard c status (h.net g)
      (h'.net g')) h := by
  unfold msgRecv
  have he : (h.modConn c fun x => { x with recvReady := true }).net g = h.net g :=
    Heap.net_modConn_unseen rfl
  refine After.modConn (After.same he ?_)
  rw [← he] at hr ho ⊢
  exact msgRecvLoop_moves henv env.fuel hr hp ho

end GfwProxy
