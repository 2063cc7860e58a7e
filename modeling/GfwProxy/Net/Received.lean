import GfwProxy.Net.Forwarding

set_option autoImplicit false

/-!
# Receiving requests as moves

`req_recv_done`: the request gets its number, is split into fragments or answered by the proxy
itself, and is forwarded.

## Main definitions

* `GfwProxy.Net.New` — a message that a connection can begin to receive.
* `GfwProxy.Net.Spoiled` — a connection that is to be closed.
* `GfwProxy.Heap.ownVector` — a message becomes the owner of a vector of fragments.

## Main results

* `GfwProxy.reqRecvDone_moves`.
-/

namespace GfwProxy

open Function

variable {env : Env} {n n' : Net} {h h' : Heap} {g g' : Ghost} {c s : ConnId} {m r : MsgId}

/-- A new message for connection `c` is in the hands of a handler. -/
structure Net.New (n : Net) (c : ConnId) (m : MsgId) : Prop where
  place : n.g.place m = .hand
  pend : m ∉ n.g.pend
  of : n.Of m c
  blank : n.m.Blank m
  fragOwner : n.m.fragOwner m = none
  fragId : n.m.fragId m = 0

/-- A new message is being received. -/
lemma readMsg_move (ho : (h.net g).Open c) (hm : (h.conn c).rmsg = none) (hr : (h.net g).New c r) :
    Move (h.net g) ((h.modConn c fun x => { x with rmsg := some r }).net
      (g.move r (.reading c))) := by
  have he : (h.modConn c fun x => { x with rmsg := some r }).net (g.move r (.reading c)) =
      { h.net g with c.rmsg := update (h.net g).c.rmsg c (some r) }.move r (.reading c) := by
    rw [Heap.net_move]
    simp [ConnCols.set]
  rw [he]
  exact .read c r hr.place hr.pend ho hm hr.of hr.blank hr.fragOwner hr.fragId

/-- A message has been received on connection `c`, which goes on with the next one, if there is
one. -/
lemma setRmsg_moves {nmsg : Option MsgId} (hs : Sound (h.net g)) (ho : (h.net g).Open c)
    (hm : (h.conn c).rmsg = some m) (hn : ∀ r, nmsg = some r → (h.net g).New c r) :
    ∃ g', Moves (h.net g) ((h.modConn c fun x => { x with rmsg := nmsg }).net g') ∧ g.Moved g' ∧
      g'.place m = .hand := by
  have hplace : g.place m = .reading c := (hs.inv.queues.rmsg c ho m).mp hm
  have hunread : Move (h.net g)
      ((h.modConn c fun x => { x with rmsg := none }).net (g.move m .hand)) := by
    have he : (h.modConn c fun x => { x with rmsg := none }).net (g.move m .hand) =
        { h.net g with c.rmsg := update (h.net g).c.rmsg c none }.move m .hand := by
      rw [Heap.net_move]
      simp [ConnCols.set]
    rw [he]
    exact .unread c m ho hm
  cases nmsg with
  | none => exact ⟨_, .single hunread, Ghost.moved_move m .hand g, by simp [Ghost.move]⟩
  | some r =>
    have hr := hn r rfl
    have hne : m ≠ r := by
      rintro rfl
      have hr' := hr.place
      simp [hplace] at hr'
    have hr₁ : ((h.modConn c fun x => { x with rmsg := none }).net (g.move m .hand)).New c r := by
      refine ⟨?_, hr.pend, ⟨hr.of.1, ?_⟩, { hr.blank with }, hr.fragOwner, hr.fragId⟩
      · simpa [Ghost.move, hne.symm] using hr.place
      · simpa [ConnCols.set] using hr.of.2
    have ho₁ : ((h.modConn c fun x => { x with rmsg := none }).net (g.move m .hand)).Open c := by
      simpa [ConnCols.set] using ho
    have hread := readMsg_move ho₁ (by simp) hr₁
    have he : ((h.modConn c fun x => { x with rmsg := none }).modConn c fun x =>
        { x with rmsg := some r }) =
        h.modConn c fun x => { x with rmsg := some r } := by
      simp [Heap.modConn]
    rw [he] at hread
    refine ⟨(g.move m .hand).move r (.reading c), .tail (.single hunread) hread,
      (Ghost.moved_move m .hand g).trans (Ghost.moved_move r _ _), by simp [Ghost.move, hne]⟩

/-! ## `req_filter` -/

/-- Asking whether a connection is authenticated changes nothing. -/
lemma connAuthenticated_after (h : Heap) (c : ConnId) :
    After (connAuthenticated c) (fun _ h' => h' = h) h := by
  unfold connAuthenticated
  refine After.getConn (After.deref fun o _ => After.getPool fun pool => ?_)
  split <;> exact After.pure rfl

/-- A request that is filtered out is released. -/
lemma reqFilter_moves (hs : Sound (h.net g)) (hm : g.place m = .hand) (hp : m ∉ g.pend) :
    After (reqFilter c m) (Reach Move (h.net g) fun filtered h' g' => g.Moved g' ∧
      (h'.net g').c = (h.net g).c ∧ (filtered = false → g' = g ∧ h'.net g = h.net g ∧
        (h'.msg m).fragment = (h.msg m).fragment ∧ (h.msg m).mlen ≠ 0)) h := by
  unfold reqFilter
  obtain ⟨g₁, hmoves₁, hmoved₁, -, -⟩ := reqPut_moves hs hm hp
  have hconn₁ : ((h.reqPut m).net g₁).c = (h.net g).c := by
    simp only [Heap.net, Heap.reqPut_conn]
  refine After.getMsg (After.ite (fun _ => ?_) fun hmlen => After.ite (fun _ => ?_) fun _ => ?_)
  · exact After.modHeap (After.pure ⟨g₁, hmoves₁, hmoved₁, hconn₁, by simp⟩)
  · have he : (h.modConn c fun x => { x with eof := true, recvReady := false }).net g = h.net g :=
      Heap.net_modConn_unseen rfl
    have hs₂ : Sound ((h.modConn c fun x => { x with eof := true, recvReady := false }).net g) :=
      he ▸ hs
    refine After.modConn (After.same he ?_)
    generalize h.modConn c (fun x => { x with eof := true, recvReady := false }) = h₂ at he hs₂ ⊢
    obtain ⟨g₂, hmoves₂, hmoved₂, -, -⟩ := reqPut_moves hs₂ hm hp
    refine After.modHeap (After.pure ⟨g₂, hmoves₂, hmoved₂, ?_, by simp⟩)
    rw [← he]
    simp only [Heap.net, Heap.reqPut_conn]
  · refine After.skip (connAuthenticated_after h c) fun ok => After.onlyIf (Q := fun _ h' =>
      h'.net g = h.net g ∧ (h'.msg m).fragment = (h.msg m).fragment) (fun _ => ?_)
        (fun _ => ⟨rfl, rfl⟩) ?_
    · refine After.last (After.modMsg (After.pure ⟨Heap.net_modMsg_unseen rfl, ?_⟩))
      simp
    · rintro h' ⟨he, hfrag⟩
      refine After.pure ⟨g, he ▸ .refl, .refl g, ?_, fun _ => ⟨rfl, he, hfrag, hmlen⟩⟩
      rw [he]

/-! ## The number of a request -/

/-- The request gets its number. -/
lemma numberReq_moves (hr : Ready (h.net g)) (hc : (h.net g).Client c) (hm : (h.net g).New c m)
    (hp : g.pend = []) :
    After (numberReq c m) (Reach Move (h.net g) fun _ h' g' => g' = g ∧ (h'.net g).Held c m ∧
      (h'.net g).m.fragOwner m = none ∧ (h'.net g).m.fragId m = 0 ∧
      (h'.net g).c.owner = (h.net g).c.owner ∧ (h'.msg m).fragment = (h.msg m).fragment ∧
      (h'.msg m).noreply = (h.msg m).noreply) h := by
  unfold numberReq
  refine After.getConn (After.modMsg (After.last (After.modConn (After.pure ⟨g, ?_, rfl, ?_⟩))))
  all_goals
    have he : ((h.modMsg m fun x => { x with reqNo := (h.conn c).nReq }).modConn c fun x =>
        { x with nReq := (h.conn c).nReq + 1 }).net g = { h.net g with
          m.reqNo := update (h.net g).m.reqNo m ((h.net g).c.nReq c)
          c.nReq := update (h.net g).c.nReq c ((h.net g).c.nReq c + 1) } := by
      rw [Heap.net_modConn, Heap.net_modMsg]
      simp [ConnCols.set, MsgCols.set]
    rw [he]
  · exact .single (.number c m hm.place hp)
  · refine ⟨⟨hm.place, hc, hr.closing c hc, hm.of, { hm.blank with }, hp, by simp, fun y hy => ?_⟩,
      hm.fragOwner, hm.fragId, rfl, by simp, by simp⟩
    have hne : y ≠ m := by
      rintro rfl
      obtain ⟨srv, hplace⟩ := (hr.inv.queues.omsgq_client c hc y).mp hy
      rw [hm.place] at hplace
      cases hplace
    simpa [hne] using (hr.inv.vec c hc (hr.closing c hc)).lt y hy

/-! ## What an allocation keeps -/

section Allocated

/-- A message that has not changed is blank as before. -/
lemma MsgCols.Blank.congr (hx : h'.msg m = h.msg m) (hb : (h.net g).m.Blank m) :
    (h'.net g').m.Blank m where
  peer := (congrArg Msg.peer hx).trans hb.peer
  tmoData := (congrArg Msg.tmoData hx).trans hb.tmoData
  nfragDone := (congrArg Msg.nfragDone hx).trans hb.nfragDone
  error := (congrArg Msg.error hx).trans hb.error
  done := (congrArg Msg.done hx).trans hb.done
  fdone := (congrArg Msg.fdone hx).trans hb.fdone
  swallow := (congrArg Msg.swallow hx).trans hb.swallow
  counted := (congrArg Msg.counted hx).trans hb.counted

/-- A request of client `c` is not on the free list. -/
lemma Inv.queue_ne_free {y : MsgId} (hi : Inv (h.net g)) (hc : (h.net g).Client c)
    (hy : y ∈ (h.conn c).omsgq) : g.place y ≠ .free := by
  obtain ⟨srv, hplace⟩ := (hi.queues.omsgq_client c hc y).mp hy
  have hplace' : g.place y = .req (some c) srv := hplace
  simp [hplace']

variable (ha : Allocated h h' g g')

include ha

/-- The owner of a message that was not free is the same. -/
lemma Allocated.of (hx : g.place m ≠ .free) (ho : (h.net g).Of m c) : (h'.net g').Of m c := by
  have hmsg := (ha.msg m hx).1
  refine ⟨(congrArg Msg.owner hmsg).trans ho.1, (congrArg Msg.ownerGen hmsg).trans ?_⟩
  show _ = (h'.conn c).gen
  rw [ha.conn]
  exact ho.2

/-- A client is still one. -/
lemma Allocated.client (hc : (h.net g).Client c) : (h'.net g').Client c := by
  show ∃ p, (h'.conn c).owner = _
  rw [ha.conn]
  exact hc

/-- A message held by a client is held still. -/
lemma Allocated.held (hi : Inv (h.net g)) (hm : (h.net g).Held c m) : (h'.net g').Held c m := by
  have hplace : g.place m = .hand := hm.place
  have hfree : g.place m ≠ .free := by simp [hplace]
  obtain ⟨hmsg, hplace'⟩ := ha.msg m hfree
  obtain ⟨place, hg⟩ := ha.moved
  constructor
  case place => exact hplace'.trans hplace
  case client => exact ha.client hm.client
  case closing =>
    rw [hg]
    exact hm.closing
  case of => exact ha.of hfree hm.of
  case blank => exact hm.blank.congr hmsg
  case pend =>
    rw [hg]
    exact hm.pend
  case nReq =>
    show (h'.msg m).reqNo + 1 = (h'.conn c).nReq
    rw [hmsg, ha.conn]
    exact hm.nReq
  case last =>
    intro y hy
    have hy' : y ∈ (h.conn c).omsgq := by
      have h : y ∈ (h'.conn c).omsgq := hy
      rwa [ha.conn] at h
    show (h'.msg y).reqNo < (h'.msg m).reqNo
    rw [hmsg, (ha.msg y (hi.queue_ne_free hm.client hy')).1]
    exact hm.last y hy'

/-- The sub-messages of a request are the same. -/
lemma Allocated.subs {subs : List MsgId} {o : MsgId} (ho : g.place o ≠ .free)
    (hs : (h.net g).Subs c o subs) : (h'.net g').Subs c o subs := by
  have hfree : ∀ y ∈ subs, g.place y ≠ .free := fun y hy => by
    have hplace : g.place y = .hand := hs.place y hy
    simp [hplace]
  have hown := (ha.msg o ho).1
  constructor
  case nodup => exact hs.nodup
  case place => exact fun y hy => (ha.msg y (hfree y hy)).2.trans (hs.place y hy)
  case of => exact fun y hy => ha.of (hfree y hy) (hs.of y hy)
  case blank => exact fun y hy => (hs.blank y hy).congr (ha.msg y (hfree y hy)).1
  case noreply => exact fun y hy =>
    (congrArg Msg.noreply (ha.msg y (hfree y hy)).1).trans (hs.noreply y hy)
  case fragOwner => exact fun y hy =>
    (congrArg Msg.fragOwner (ha.msg y (hfree y hy)).1).trans (hs.fragOwner y hy)
  case fragId =>
    intro y hy
    show (h'.msg y).fragId = (h'.msg o).fragId
    rw [(ha.msg y (hfree y hy)).1, hown]
    exact hs.fragId y hy
  case reqNo =>
    intro y hy
    show (h'.msg y).reqNo = (h'.msg o).reqNo
    rw [(ha.msg y (hfree y hy)).1, hown]
    exact hs.reqNo y hy

/-- The vector of a request is the same. -/
lemma Allocated.vector {subs : List MsgId} (hi : Inv (h.net g)) (hm : (h.net g).Held c m)
    (hv : (h.net g).Vector c m subs) : (h'.net g').Vector c m subs := by
  have hplace : g.place m = .hand := hm.place
  have hfree : g.place m ≠ .free := by simp [hplace]
  have hmsg := (ha.msg m hfree).1
  constructor
  case held => exact ha.subs hfree hv.held
  case self => exact hv.self
  case fragOwner => exact (congrArg Msg.fragOwner hmsg).trans hv.fragOwner
  case nfrag => exact (congrArg Msg.nfrag hmsg).trans hv.nfrag
  case fragId =>
    show (h'.msg m).fragId ≠ 0
    rw [hmsg]
    exact hv.fragId
  case fragId_le =>
    show (h'.msg m).fragId ≤ h'.fragId
    rw [hmsg, ha.fragId]
    exact hv.fragId_le
  case fresh =>
    intro y hy
    have hy' : y ∈ (h.conn c).omsgq := by
      have h : y ∈ (h'.conn c).omsgq := hy
      rwa [ha.conn] at h
    show (h'.msg y).fragId ≠ (h'.msg m).fragId
    rw [hmsg, (ha.msg y (hi.queue_ne_free hm.client hy')).1]
    exact hv.fresh y hy'

end Allocated

/-! ## `req_make_reply` -/

/-- `errno` is recorded, which the view does not see. -/
lemma setErrno_both (h : Heap) (g : Ghost) (c : ConnId) :
    After (setErrno env c) (fun _ h' => h'.net g = h.net g ∧ h'.msg = h.msg ∧ (h'.conn c).err ≠ 0)
      h := by
  refine (setErrno_eq h c).mono fun _ h' he => ?_
  obtain ⟨e, hne, rfl⟩ := he
  exact ⟨Heap.net_modConn_unseen rfl, rfl, by simpa using hne⟩

/-- **`req_make_reply`** on a request, possibly with sub-messages: it is answered by the proxy
itself.

**Proof sketch.** If there is a message for the reply, the request is linked to it, done, and in the
queue of the client in one move; its sub-messages are then pending.  If there is none, only the free
list has changed. -/
theorem reqMakeReply_moves {subs : List MsgId} {d : Set ConnId} (hs : Sound (h.net g))
    (hm : (h.net g).Held c m)
    (hv : subs = [] ∧ (h.msg m).fragOwner = none ∧ (h.msg m).fragId = 0 ∨ (h.net g).Vector c m subs)
    (hdue : g.due ⊆ d) (hdue' : subs = [] → c ∈ d) :
    After (reqMakeReply env c m) (Reach Move (h.net g) fun ok h' g' =>
      (h'.net g').c.owner = (h.net g).c.owner ∧ g'.closing = g.closing ∧ g'.cold = g.cold ∧
      (∀ y, g.place y ≠ .free → (h'.msg y).owner = (h.msg y).owner) ∧
      (ok = true → g'.pend = subs ∧ g'.due = d ∧ (h'.msg m).peer ≠ none) ∧
      (ok = false → g.Moved g' ∧ (h'.net g').Held c m ∧
        ((h.net g).Vector c m subs → (h'.net g').Vector c m subs) ∧
        h'.msg m = h.msg m ∧ (h'.conn c).err ≠ 0)) h := by
  unfold reqMakeReply
  refine After.follow (msgGet_moves hs c false) ?_
  rintro o h₁ g₁ hmoves₁ ⟨halloc, hnew⟩
  have hplace : g.place m = .hand := hm.place
  have hfree : g.place m ≠ .free := by simp [hplace]
  have hown₁ : (h₁.net g₁).c.owner = (h.net g).c.owner := by simp only [Heap.net, halloc.conn]
  have hm₁ := halloc.held hs.inv hm
  cases o with
  | none =>
    refine (setErrno_both h₁ g₁ c).call ?_
    rintro - h₂ ⟨he, hmsg, herr⟩
    obtain ⟨place, hg⟩ := halloc.moved
    refine After.pure ⟨g₁, he ▸ .refl, ?_, by rw [hg], by rw [hg], ?_, by simp, fun _ => ?_⟩
    · rw [he]
      exact hown₁
    · intro y hy
      rw [hmsg, (halloc.msg y hy).1]
    · rw [he, hmsg]
      exact ⟨halloc.moved, hm₁, fun hv => halloc.vector hs.inv hm hv, (halloc.msg m hfree).1, herr⟩
  | some r =>
    obtain ⟨hrfree, hrhand, id, hr⟩ := hnew r rfl
    have hmr : m ≠ r := by
      rintro rfl
      exact hfree hrfree
    have hrs : r ∉ subs := by
      rcases hv with ⟨rfl, -⟩ | hv
      · exact List.not_mem_nil
      · intro hmem
        have hhand : g.place r = .hand := hv.held.place r hmem
        rw [hhand] at hrfree
        cases hrfree
    have hrb : (h₁.net g₁).m.Blank r := by
      constructor <;> simp [hr]
    have hv₁ : subs = [] ∧ (h₁.net g₁).m.fragOwner m = none ∧ (h₁.net g₁).m.fragId m = 0 ∨
        (h₁.net g₁).Vector c m subs := by
      rcases hv with ⟨hnil, ho, hf⟩ | hv
      · refine .inl ⟨hnil, ?_, ?_⟩
        · exact (congrArg Msg.fragOwner (halloc.msg m hfree).1).trans ho
        · exact (congrArg Msg.fragId (halloc.msg m hfree).1).trans hf
      · exact .inr (halloc.vector hs.inv hm hv)
    have hdue₁ : g₁.due ⊆ d := by
      obtain ⟨place, hg⟩ := halloc.moved
      rw [hg]
      exact hdue
    have hmove := Move.reply (n := h₁.net g₁) c m r subs d hm₁ hrhand hrb hmr hrs hv₁ hdue₁ hdue'
    have hlink : (((h₁.modMsg m fun x => { x with peer := some r }).modMsg r fun x =>
          { x with peer := some m, request := false }).modMsg m fun x =>
            { x with done := true }).net g₁ =
        ((h₁.net g₁).link m r).finish m := by
      rw [Heap.net_modMsg, Heap.net_modMsg, Heap.net_modMsg]
      simp [MsgCols.set, Net.link, Net.finish, Heap.modMsg, hmr, hmr.symm]
    let g₂ : Ghost :=
      (({ g₁ with pend := subs, due := d }).move m (.req (some c) none)).move r (.rsp m)
    have he : ((((h₁.modMsg m fun x => { x with peer := some r }).modMsg r fun x =>
        { x with peer := some m, request := false }).modMsg m fun x =>
          { x with done := true }).modConn c
        fun x => { x with omsgq := x.omsgq ++ [m] }).net g₂ =
        ({ ((((h₁.net g₁).link m r).finish m).enqOut c m) with g.pend := subs, g.due := d }
          |>.move m (.req (some c) none) |>.move r (.rsp m)) := by
      rw [← hlink, ← Heap.net_enqOut]
      rfl
    rw [← he] at hmove
    unfold reqClientEnqueueOmsgq
    refine After.modMsg (After.modMsg
      (After.modMsg (After.modConn (After.pure ⟨g₂, .single hmove, ?_, ?_, ?_, ?_, ?_, ?_⟩))))
    · rw [he]
      exact hown₁
    · obtain ⟨place, hg⟩ := halloc.moved
      simp [g₂, Ghost.move, hg]
    · obtain ⟨place, hg⟩ := halloc.moved
      simp [g₂, Ghost.move, hg]
    · intro y hy
      have hyr : y ≠ r := by
        rintro rfl
        exact hy hrfree
      rw [← (halloc.msg y hy).1]
      rcases eq_or_ne y m with rfl | hym
      · simp [Heap.modConn, Heap.modMsg, hmr]
      · simp [Heap.modConn, Heap.modMsg, hym, hyr]
    · intro _
      refine ⟨rfl, rfl, ?_⟩
      simp [Heap.modMsg, hmr]
    · simp

/-! ## `req_recv_done` -/

/-- As `GfwProxy.Net.Passed`, but for connection `c` itself, which is to be closed. -/
structure Net.Spoiled (n n' : Net) (c : ConnId) : Prop where
  due : n'.g.due ⊆ insert c n.g.due
  shut : ∀ x, n'.Open x → x ∈ n'.g.closing → n.Open x ∧ x ∈ n.g.closing ∨ x = c ∧ n.Server c
  client : ∀ x, n'.Client x → n.Client x
  owner : n'.c.owner c = n.c.owner c
  cold : c ∈ n'.g.cold ↔ c ∈ n.g.cold
  cold_sub : n'.g.cold ⊆ n.g.cold
  pend : n'.g.pend = []

/-- What passed by a client without a pending sub-message has at most spoiled it. -/
lemma Net.Passed.spoiled (hp : n.Passed n' c) (hpend : n'.g.pend = []) : n.Spoiled n' c where
  due := hp.calmer.due.trans (Set.subset_insert c _)
  shut x hx hxc := .inl (hp.calmer.shut x hx hxc)
  client := hp.calmer.client
  owner := hp.owner
  cold := hp.cold
  cold_sub := hp.cold_sub
  pend := hpend

/-- What a handler leaves of the clients, if connection `c` is closed in case of an error. -/
structure Handled (c : ConnId) (h h' : Heap) (g g' : Ghost) : Prop where
  spoiled : (h.net g).Spoiled (h'.net g') c
  passed : (h'.conn c).err = 0 → (h.net g).Passed (h'.net g') c

/-- A step that passed by the client has handled it. -/
lemma Handled.of_passed (hp : (h.net g).Passed (h'.net g') c) (hpend : g'.pend = []) :
    Handled c h h' g g' :=
  ⟨hp.spoiled hpend, fun _ => hp⟩

/-- Passing by and then spoiling is spoiling. -/
lemma Net.Passed.then_spoiled {n₁ n₂ n₃ : Net} (h₁ : n₁.Passed n₂ c) (h₂ : n₂.Spoiled n₃ c) :
    n₁.Spoiled n₃ c where
  due := h₂.due.trans (Set.insert_subset_insert h₁.calmer.due)
  shut x hx hxc := by
    rcases h₂.shut x hx hxc with ⟨ho, hc⟩ | ⟨rfl, p, i, ho⟩
    · exact .inl (h₁.calmer.shut x ho hc)
    · exact .inr ⟨rfl, p, i, h₁.owner ▸ ho⟩
  client x hx := h₁.calmer.client x (h₂.client x hx)
  owner := h₂.owner.trans h₁.owner
  cold := h₂.cold.trans h₁.cold
  cold_sub := h₂.cold_sub.trans h₁.cold_sub
  pend := h₂.pend

/-- What happened before the handler. -/
lemma Handled.of_trans {h₁ : Heap} {g₁ : Ghost} (hh : Handled c h₁ h' g₁ g')
    (hp : (h.net g).Passed (h₁.net g₁) c) : Handled c h h' g g' where
  spoiled := hp.then_spoiled hh.spoiled
  passed herr := hp.seq (hh.passed herr) hh.spoiled.pend

/-- The reply callback. -/
lemma replyCb_after (h : Heap) (g : Ghost) (m : MsgId) :
    After (replyCb m) (fun _ h' => h'.net g = h.net g ∧ h'.conn = h.conn) h := by
  unfold replyCb
  exact After.getMsg (After.deref fun r _ =>
    After.modMsg (After.pure ⟨Heap.net_modMsg_unseen rfl, rfl⟩))

/-- `req_recv_done` on a request that is not to be forwarded. -/
lemma reqReply_moves (hr : Ready (h.net g)) (hm : (h.net g).Held c m)
    (ho : (h.msg m).fragOwner = none) (hf : (h.msg m).fragId = 0) :
    After (reqReply env c m) (Reach Move (h.net g) fun _ h' g' => Handled c h h' g g') h := by
  unfold reqReply
  have hp : g.pend = [] := hm.pend
  refine After.follow (reqMakeReply_moves (d := insert c g.due) hr.toSound hm (.inl ⟨rfl, ho, hf⟩)
    (Set.subset_insert c g.due) fun _ => Set.mem_insert c g.due) ?_
  rintro ok h₁ g₁ hmoves₁ ⟨hown, hclosing, hcold, -, htrue, hfalse⟩
  have hs₁ := Moves.sound hmoves₁ hr.toSound
  have howners : ∀ {h' : Heap} {g' : Ghost}, g'.pend = [] → ∀ y ∈ (h'.net g').g.pend,
      (h'.net g').m.owner y = (h.net g).m.owner y := by
    intro h' g' hnil y hy
    have hy' : y ∈ g'.pend := hy
    rw [hnil] at hy'
    cases hy'
  have hpassed : ∀ {h' : Heap} {g' : Ghost}, (h'.net g').c.owner = (h.net g).c.owner →
      g'.closing = g.closing → g'.cold = g.cold → g'.pend = [] → g'.due ⊆ g.due →
      (h.net g).Passed (h'.net g') c :=
    fun ho hcl hco hpend hd =>
      ⟨.of_eq ho hcl hd, congrFun ho c, iff_of_eq (congrArg (c ∈ ·) hco), hco.subset,
        howners hpend⟩
  refine After.ite (fun hno => ?_) fun hyes => ?_
  · obtain rfl : ok = false := by simpa using hno
    obtain ⟨⟨place, rfl⟩, -⟩ := hfalse rfl
    refine (setErrno_moves h₁ _ c).mono fun _ h₂ hreach => hreach.mono fun g₂ hrest => ?_
    obtain ⟨hg, he⟩ := hrest
    subst hg
    refine .of_passed (hpassed ?_ rfl rfl hp subset_rfl) hp
    rw [he]
    exact hown
  obtain rfl : ok = true := by simpa using hyes
  obtain ⟨hpend, hdue, -⟩ := htrue rfl
  refine (replyCb_after h₁ g₁ m).call ?_
  rintro ok h₂ ⟨he₂, hconn₂⟩
  rw [← he₂] at hown hs₁
  refine After.same he₂ (After.ite (fun _ => ?_) fun _ => ?_)
  · -- the client is closed once the handlers return
    refine (setErrno_both h₂ g₁ c).mono fun _ h₃ hrest => ?_
    obtain ⟨he₃, -, herr⟩ := hrest
    refine ⟨g₁, he₃ ▸ .refl, ?_, fun h => absurd h herr⟩
    rw [he₃]
    constructor
    case due => exact hdue.subset
    case shut => exact fun x hx hxc => .inl ⟨by rwa [Net.Open, ← hown], hclosing ▸ hxc⟩
    case client => exact fun x hx => by rwa [Net.Client, ← hown]
    case owner => exact congrFun hown c
    case cold => exact iff_of_eq (congrArg (c ∈ ·) hcold)
    case cold_sub => exact hcold.subset
    case pend => exact hpend
  · refine After.followServer (eventAddOut_moves h₂ g₁ c) ?_
    rintro ok h₃ g₃ hmoves₃ ⟨rfl, hflags, hact, hno⟩
    have hc₂ : (h₂.net g₃).Client c := by
      rw [Net.Client, hown]
      exact hm.client
    have hclient : (h₂.conn c).client = true := (hs₁.inv.addr.pool_client c hc₂).1
    have hcalm : ServerMove (h₃.net g₃) (h₃.net { g₃ with due := g₃.due \ {c} }) := by
      refine .calm c fun hs => .inl ⟨c, hno ?_ hclient⟩
      cases ok with
      | false => rfl
      | true => exact absurd (hact rfl) (by simpa using hs)
    have hown₃ : (h₃.net { g₃ with due := g₃.due \ {c} }).c.owner = (h.net g).c.owner :=
      hflags.view.1.trans hown
    have hdue₃ : g₃.due \ {c} ⊆ g.due := by
      rintro x ⟨hx, hxc⟩
      rw [hdue] at hx
      exact hx.resolve_left hxc
    refine After.pay (.single (.server hcalm)) (After.ite (fun _ => ?_) fun _ => ?_)
    · refine (setErrno_moves h₃ _ c).mono fun _ h₄ hreach => hreach.mono fun g₄ hrest => ?_
      obtain ⟨hg, he⟩ := hrest
      subst hg
      refine .of_passed (hpassed ?_ hclosing hcold hpend hdue₃) hpend
      rw [he]
      exact hown₃
    · exact After.pure (.here (.of_passed (hpassed hown₃ hclosing hcold hpend hdue₃) hpend))

/-! ## The fragment callback -/

/-- Allocations compose. -/
lemma Allocated.trans {h₁ h₂ h₃ : Heap} {g₁ g₂ g₃ : Ghost} (h₁₂ : Allocated h₁ h₂ g₁ g₂)
    (h₂₃ : Allocated h₂ h₃ g₂ g₃) : Allocated h₁ h₃ g₁ g₃ where
  moved := h₁₂.moved.trans h₂₃.moved
  conn := h₂₃.conn.trans h₁₂.conn
  fragId := h₂₃.fragId.trans h₁₂.fragId
  msg x hx := by
    obtain ⟨hmsg, hplace⟩ := h₁₂.msg x hx
    obtain ⟨hmsg', hplace'⟩ := h₂₃.msg x (hplace ▸ hx)
    exact ⟨hmsg'.trans hmsg, hplace'.trans hplace⟩

/-- An address for a sub-message. -/
lemma subAddr_moves (hs : Sound (h.net g)) :
    After subAddr (Reach Move (h.net g) fun m h' g' => g' = g ∧ h'.conn = h.conn ∧
      h'.fragId = h.fragId ∧
      h'.msg = h.msg ∧ (h'.net g).FreshMsg m) h := by
  unfold subAddr
  refine After.readHeap ?_
  cases hfree : h.freeMsgq with
  | cons m rest =>
    have hmove : Move (h.net g) ({ h with freeMsgq := rest }.net g) := .takeMsg m rest hfree
    refine After.modHeap (After.pure ⟨g, .single hmove, rfl, rfl, rfl, rfl, ?_⟩)
    have hnodup := hs.inv.addr.free_nodup
    have hmem := hs.inv.addr.free m
    simp only [Heap.net_statics, hfree, List.nodup_cons, List.mem_cons, true_or,
      forall_const] at hnodup hmem
    exact ⟨hmem.1, hnodup.1, hmem.2⟩
  | nil =>
    have hmove : Move (h.net g) ({ h with nextMsg := h.nextMsg + 1 }.net g) := .growMsg hfree
    refine After.readHeap (After.modHeap (After.pure ⟨g, .single hmove, rfl, rfl, rfl, rfl, ?_⟩))
    refine ⟨?_, by simp [Heap.net, hfree], Nat.lt_succ_self _⟩
    by_contra hused
    exact absurd (hs.inv.addr.used _ hused) (lt_irrefl _)

/-- The fragment callback makes a sub-message of request `o`. -/
lemma makeSub_moves {o : MsgId} (sub : Sub) (hs : Sound (h.net g)) (ho : g.place o ≠ .free) :
    After (makeSub c o sub) (Reach Move (h.net g) fun m h' g' => Allocated h h' g g' ∧
      g.place m = .free ∧
      g'.place m = .hand ∧ ∃ id, h'.msg m =
        { id := id, keys := some sub.keys, mhdr := sub.mhdr, mlen := (unsent sub.mhdr).length
          owner := some c, ownerGen := (h.conn c).gen, request := true
          fragId := (h.msg o).fragId, fragOwner := some o, reqNo := (h.msg o).reqNo }) h := by
  unfold makeSub
  refine After.follow (subAddr_moves hs) ?_
  rintro m h₁ g₁ - ⟨rfl, hconn, hfrag, hmsg, hfresh⟩
  refine After.modHeap (After.getMsg
    (After.modHeap (After.pure ⟨g₁.move m .hand, .single ?_, ?_, hfresh.place,
    by simp [Ghost.move], h₁.msgId + 1, ?_⟩)))
  · rw [Heap.net_move, Heap.net_modMsg]
    refine .newMsg m _ hfresh rfl ?_
    simp [MsgCols.blank_iff, MsgCols.set]
  · refine ⟨⟨_, rfl⟩, hconn, hfrag, fun x hx => ?_⟩
    have hne : x ≠ m := by
      rintro rfl
      exact hx hfresh.place
    exact ⟨by simp [Heap.modMsg, hne, hmsg], by simp [Ghost.move, hne]⟩
  · simp [hmsg, hconn]

/-- The sub-messages of request `o`, one behind another. -/
lemma makeSubs_moves {o : MsgId} (subs : List Sub) {ms₀ : List MsgId} (hs : Sound (h.net g))
    (ho : g.place o ≠ .free) (hms : (h.net g).Subs c o ms₀) :
    After (makeSubs c o subs) (Reach Move (h.net g) fun ms h' g' => Allocated h h' g g' ∧
      (h'.net g').Subs c o (ms₀ ++ ms) ∧ ms.length = subs.length ∧ ∀ y ∈ ms, g.place y = .free)
      h := by
  induction subs generalizing h g ms₀ with
  | nil =>
    refine After.pure (.here ⟨⟨.refl g, rfl, rfl, fun _ _ => ⟨rfl, rfl⟩⟩, ?_, rfl, by simp⟩)
    rwa [List.append_nil]
  | cons sub subs ih =>
    refine After.follow (makeSub_moves sub hs ho) ?_
    rintro m h₁ g₁ hmoves₁ ⟨ha₁, hfree, hhand, id, hmsg⟩
    have hs₁ := Moves.sound hmoves₁ hs
    obtain ⟨hmsg_o, hplace_o⟩ := ha₁.msg o ho
    have hold := ha₁.subs ho hms
    have hnot : m ∉ ms₀ := by
      intro hmem
      have hplace : g.place m = .hand := hms.place m hmem
      rw [hfree] at hplace
      cases hplace
    have hof : (h₁.net g₁).Of m c := by
      refine ⟨congrArg Msg.owner hmsg, (congrArg Msg.ownerGen hmsg).trans ?_⟩
      show _ = (h₁.conn c).gen
      rw [ha₁.conn]
    have hms₁ : (h₁.net g₁).Subs c o (ms₀ ++ [m]) := by
      constructor
      case nodup => simpa [List.nodup_append] using ⟨hold.nodup, fun y hy he => hnot (he ▸ hy)⟩
      all_goals simp only [List.mem_append, List.mem_singleton]
      case place => exact fun y hy => hy.elim (hold.place y) fun h => h ▸ hhand
      case of => exact fun y hy => hy.elim (hold.of y) fun h => h ▸ hof
      case blank =>
        refine fun y hy => hy.elim (hold.blank y) fun h => h ▸ ?_
        constructor <;> simp [hmsg]
      case noreply =>
        exact fun y hy => hy.elim (hold.noreply y) fun h => h ▸ congrArg Msg.noreply hmsg
      case fragOwner =>
        exact fun y hy => hy.elim (hold.fragOwner y) fun h => h ▸ congrArg Msg.fragOwner hmsg
      case fragId =>
        refine fun y hy => hy.elim (hold.fragId y) fun h => h ▸ (congrArg Msg.fragId hmsg).trans ?_
        exact (congrArg Msg.fragId hmsg_o).symm
      case reqNo =>
        refine fun y hy => hy.elim (hold.reqNo y) fun h => h ▸ (congrArg Msg.reqNo hmsg).trans ?_
        exact (congrArg Msg.reqNo hmsg_o).symm
    refine After.follow (ih hs₁ (hplace_o ▸ ho) hms₁) ?_
    rintro ms h₂ g₂ - ⟨ha₂, hsubs, hlen, hfrees⟩
    refine After.pure (.here ⟨ha₁.trans ha₂, ?_, by simp [hlen], ?_⟩)
    · simpa using hsubs
    · intro y hy
      rcases List.mem_cons.mp hy with rfl | hy
      · exact hfree
      · by_contra hused
        have hplace := (ha₁.msg y hused).2
        rw [hfrees y hy] at hplace
        exact hused hplace.symm

/-- Message `m` becomes the owner of a new vector of `n` fragments. -/
def Heap.ownVector (h : Heap) (m : MsgId) (n : ℕ) : Heap :=
  ({ h with fragId := h.fragId + 1 } : Heap).modMsg m fun x =>
    { x with fragId := h.fragId + 1, fragOwner := some m, nfrag := n }

/-- The owner itself. -/
@[simp] lemma Heap.ownVector_msg (n : ℕ) : (h.ownVector m n).msg m =
    { h.msg m with fragId := h.fragId + 1, fragOwner := some m, nfrag := n } :=
  Function.update_self ..

/-- The other messages stay as they are. -/
lemma Heap.ownVector_msg_of_ne {y : MsgId} (n : ℕ) (hne : y ≠ m) :
    (h.ownVector m n).msg y = h.msg y :=
  Function.update_of_ne hne ..

/-- The columns of the net that change. -/
lemma Heap.net_ownVector (n : ℕ) : (h.ownVector m n).net g =
    { h.net g with
      m.fragId := update (h.net g).m.fragId m (h.fragId + 1)
      m.fragOwner := update (h.net g).m.fragOwner m (some m)
      m.nfrag := update (h.net g).m.nfrag m n
      a.fragId := h.fragId + 1 } := by
  have hset : (h.modMsg m fun x =>
      { x with fragId := h.fragId + 1, fragOwner := some m, nfrag := n }).net g =
      { h.net g with
        m.fragId := update (h.net g).m.fragId m (h.fragId + 1)
        m.fragOwner := update (h.net g).m.fragOwner m (some m)
        m.nfrag := update (h.net g).m.nfrag m n } := by
    simp [MsgCols.set]
  exact congrArg (fun n : Net => { n with a.fragId := h.fragId + 1 }) hset

/-- The request in hand is in hand as the owner of a vector. -/
lemma Net.Held.ownVector (hm : (h.net g).Held c m) (n : ℕ) :
    ((h.ownVector m n).net g).Held c m := by
  rw [Heap.net_ownVector]
  exact ⟨hm.place, hm.client, hm.closing, hm.of, { hm.blank with }, hm.pend, hm.nReq, hm.last⟩

/-- The owner and its fragments are a vector, whose id is new in the queue of the client. -/
lemma Net.Subs.vector {h₂ : Heap} {g₂ : Ghost} {ms : List MsgId} (hs : Sound (h.net g))
    (hm : (h.net g).Held c m) (hsub : (h₂.net g₂).Subs c m ms) (hself : m ∉ ms)
    (hmsg : h₂.msg m = (h.ownVector m ms.length).msg m)
    (hfragId : h₂.fragId = h.fragId + 1) (hconn : h₂.conn = h.conn)
    (hold : ∀ y ∈ (h.conn c).omsgq, h₂.msg y = h.msg y) : (h₂.net g₂).Vector c m ms := by
  rw [Heap.ownVector_msg] at hmsg
  constructor
  case held => exact hsub
  case self => exact hself
  case fragOwner => exact congrArg Msg.fragOwner hmsg
  case nfrag => exact congrArg Msg.nfrag hmsg
  case fragId =>
    show (h₂.msg m).fragId ≠ 0
    rw [hmsg]
    exact Nat.succ_ne_zero _
  case fragId_le =>
    show (h₂.msg m).fragId ≤ h₂.fragId
    rw [hmsg, hfragId]
  case fresh =>
    intro y hy
    have hy' : y ∈ (h.conn c).omsgq := by
      have h : y ∈ (h₂.conn c).omsgq := hy
      rwa [hconn] at h
    have hle : (h.msg y).fragId ≤ h.fragId := (hs.inv.vec c hm.client hm.closing).le y hy'
    show (h₂.msg y).fragId ≠ (h₂.msg m).fragId
    rw [hmsg, hold y hy']
    exact (Nat.lt_succ_of_le hle).ne

/-- **The fragment callback**: the request becomes the owner of a vector, if there are
sub-messages.

**Proof sketch.** Giving the request a new vector id is one move, and by the invariant no request in
the queue has that id.  The loop then makes one sub-message after the other, all in hand and with
the owner and the id of the request. -/
theorem fragmentCb_moves (hs : Sound (h.net g)) (hm : (h.net g).Held c m) :
    After (fragmentCb c m) (Reach Move (h.net g) fun ms h' g' => g.Moved g' ∧ h'.conn = h.conn ∧
      (ms = [] ↔ (h.msg m).fragment.subs = []) ∧ (ms = [] → g' = g ∧ h' = h) ∧
      (ms ≠ [] → (h'.net g').Held c m ∧ (h'.net g').Vector c m ms ∧
        (h'.msg m).noreply = (h.msg m).noreply)) h := by
  unfold fragmentCb
  refine After.getMsg (After.ite (fun hnil => ?_) fun hsubs => ?_)
  · exact After.pure (.here
      ⟨.refl g, rfl, by simp [hnil], fun _ => ⟨rfl, rfl⟩, fun h => absurd rfl h⟩)
  refine After.modHeap (After.readHeap (After.modMsg ?_))
  have hplace : g.place m = .hand := hm.place
  set n := (h.msg m).fragment.subs.length
  change After _ _ (h.ownVector m n)
  have hmove : Move (h.net g) ((h.ownVector m n).net g) := by
    rw [Heap.net_ownVector]
    exact .vector m _ hplace hm.pend
  have hs₁ := Moves.sound (.single hmove) hs
  have hempty : ((h.ownVector m n).net g).Subs c m [] := by constructor <;> simp
  refine After.pay (.single hmove) ?_
  refine (makeSubs_moves (h.msg m).fragment.subs hs₁ (by simp [hplace]) hempty).mono
    fun ms h₂ hreach => ?_
  refine hreach.mono fun g₂ hrest => ?_
  obtain ⟨ha, hsub, hlen, hfree⟩ := hrest
  have hne : ms ≠ [] := by
    rintro rfl
    exact hsubs (List.length_eq_zero_iff.mp hlen.symm)
  have hself : m ∉ ms := by
    intro hmem
    have h := hfree m hmem
    rw [hplace] at h
    cases h
  have hold : ∀ y ∈ (h.conn c).omsgq, h₂.msg y = h.msg y := by
    intro y hy
    have hym : y ≠ m := by
      rintro rfl
      obtain ⟨srv, hreq⟩ := (hs.inv.queues.omsgq_client c hm.client y).mp hy
      rw [hm.place] at hreq
      cases hreq
    exact (ha.msg y (hs.inv.queue_ne_free hm.client hy)).1.trans (Heap.ownVector_msg_of_ne n hym)
  have hmsg₂ := (ha.msg m (by simp [hplace])).1
  refine ⟨ha.moved, ha.conn, by simp [hne, hsubs], fun h => absurd h hne,
    fun _ => ⟨ha.held hs₁.inv (hm.ownVector n), ?_, ?_⟩⟩
  · refine Net.Subs.vector hs hm (by simpa using hsub) hself ?_ ha.fragId ha.conn hold
    rw [hlen]
    exact hmsg₂
  · rw [hmsg₂, Heap.ownVector_msg]

/-! ## `req_recv_done` -/

/-- A vector is forwarded when `req_make_reply` has failed: its owner fails with it. -/
lemma reqRecvError_moves {ms : List MsgId} (hs : Sound (h.net g)) (hm : (h.net g).Held c m)
    (hv : (h.net g).Vector c m ms) (hno : (h.msg m).noreply = false) :
    After (reqRecvError env c m false) (Reach Move (h.net g) fun _ h' g' =>
      (h.net g).Passed (h'.net g') c ∧ g'.pend = ms) h := by
  unfold reqRecvError reqClientEnqueueOmsgq
  refine After.modConn ?_
  let g₁ : Ghost :=
    { g with pend := ms, due := insert c g.due, place := update g.place m (.req (some c) none) }
  have he : (h.modConn c fun x => { x with omsgq := x.omsgq ++ [m] }).net g₁ =
      { (h.net g).enqOut c m with g := g₁ } :=
    congrArg (fun n : Net => { n with g := g₁ }) (Heap.net_enqOut (h := h) (g := g))
  have hno₁ : ((h.modConn c fun x => { x with omsgq := x.omsgq ++ [m] }).msg m).noreply = false :=
    hno
  generalize h.modConn c (fun x => { x with omsgq := x.omsgq ++ [m] }) = h₁ at *
  have hmove : Move (h.net g) (((h₁.net g₁).finish m).fail m true) := by
    rw [he]
    exact .failReply c m ms hm hv
  have hof : (h₁.net g₁).Of m c := by
    rw [he]
    exact hm.of
  exact reqForwardError_wake g₁ hs hm.client hm.closing hmove (by rw [he]; rfl)
    (by rw [he]; rfl) rfl rfl subset_rfl hno₁ hof.not_stale

/-- **`req_recv_done`** on a request with sub-messages.

**Proof sketch.** The request is put into the queue, answered or in error; either way its
sub-messages are pending, and `reqForwards_moves` forwards them one by one. -/
theorem reqForwardFrags_moves {ms : List MsgId} (hr : Ready (h.net g)) (hm : (h.net g).Held c m)
    (hv : (h.net g).Vector c m ms) (hne : ms ≠ []) (hno : (h.msg m).noreply = false) (msg : Msg)
    (hmsg : msg.noreply = false) :
    After (reqForwardFrags env c m msg ms) (Reach Move (h.net g) fun _ h' g' =>
      (h.net g).Passed (h'.net g') c ∧ g'.pend = []) h := by
  unfold reqForwardFrags
  refine After.follow (reqMakeReply_moves (d := g.due) hr.toSound hm (.inr hv) subset_rfl fun h =>
    absurd h hne) ?_
  rintro ok h₁ g₁ hmoves₁ ⟨hown, hclosing, hcold, howners, htrue, hfalse⟩
  have hs₁ := Moves.sound hmoves₁ hr.toSound
  have hplace : ∀ y ∈ ms, g.place y ≠ .free := fun y hy => by
    have hhand : g.place y = .hand := hv.held.place y hy
    simp [hhand]
  -- the fragments are forwarded whether there is a reply to their owner or not
  refine After.onlyIf (Q := fun _ h₂ => Reach Move (h₁.net g₁) (fun _ h' g' =>
    (h.net g).Passed (h'.net g') c ∧ g'.pend = ms) () h₂) (fun hfail => ?_) (fun hok => ?_) ?_
  · obtain rfl : ok = false := by simpa using hfail
    obtain ⟨⟨place, rfl⟩, hm₁, hv₁, hmsg₁, -⟩ := hfalse rfl
    rw [hmsg]
    refine (reqRecvError_moves hs₁ hm₁ (hv₁ hv) (by rw [hmsg₁, hno])).mono fun _ h₂ hreach => ?_
    refine hreach.mono fun g₂ hrest => ?_
    obtain ⟨hpassed, hp⟩ := hrest
    refine ⟨⟨?_, ?_, ?_, ?_, fun y hy => ?_⟩, hp⟩
    · exact (Net.Calmer.of_eq hown rfl subset_rfl).trans hpassed.calmer
    · exact hpassed.owner.trans (congrFun hown c)
    · exact hpassed.cold
    · exact hpassed.cold_sub
    · exact (hpassed.owners y hy).trans (howners y (hplace y (hp ▸ hy)))
  · obtain rfl : ok = true := by simpa using hok
    obtain ⟨hp, hdue, -⟩ := htrue rfl
    refine .here ⟨⟨.of_eq hown hclosing hdue.subset, congrFun hown c,
      iff_of_eq (congrArg (c ∈ ·) hcold), hcold.subset, fun y hy => ?_⟩, hp⟩
    exact howners y (hplace y (hp ▸ hy))
  rintro h₂ ⟨g₂, hmoves₂, hpassed, hp⟩
  have hr₂ := hpassed.calmer.ready hr (Moves.sound (hmoves₁.trans hmoves₂) hr.toSound)
  refine After.pay hmoves₂ ((reqForwards_moves ms hr₂ hp fun y hy => ?_).mono fun _ h₃ hreach => ?_)
  · exact (hpassed.owners y (hp.symm ▸ hy)).trans (hv.held.of y hy).1
  · refine hreach.mono fun g₃ hrest => ?_
    obtain ⟨hpassed₃, hp₃⟩ := hrest
    exact ⟨hpassed.seq hpassed₃ hp₃, hp₃⟩

/-- What the parsers promise about request `m`: its fragment callback succeeds, and makes no
sub-messages of a request that expects no reply. -/
def Msg.Splits (x : Msg) : Prop := x.fragment.ok = true ∧ (x.noreply = true → x.fragment.subs = [])

/-- `req_recv_done` on a request that is to be forwarded. -/
lemma reqRoute_moves (hr : Ready (h.net g)) (hm : (h.net g).Held c m)
    (ho : (h.msg m).fragOwner = none) (hf : (h.msg m).fragId = 0) (hsplit : (h.msg m).Splits) :
    After (do
      let subs ← fragmentCb c m
      onlyIf (!(h.msg m).fragment.ok) (reqRecvError env c m (h.msg m).noreply)
      if subs = [] then reqForward env c m
      else reqForwardFrags env c m (h.msg m) subs) (Reach Move (h.net g) fun _ h' g' =>
      (h.net g).Passed (h'.net g') c ∧ g'.pend = []) h := by
  have hp : g.pend = [] := hm.pend
  refine After.follow (fragmentCb_moves hr.toSound hm) ?_
  rintro ms h₁ g₁ hmoves₁ ⟨hmoved, hconn, hiff, hnil, hcons⟩
  have hpassed : (h.net g).Passed (h₁.net g₁) c := hmoved.passed (by simp only [Heap.net, hconn]) hp
  have hr₁ := hpassed.calmer.ready hr (Moves.sound hmoves₁ hr.toSound)
  rw [hsplit.1]
  refine After.onlyIf (Q := fun _ h₂ => h₂ = h₁) (fun h => by cases h) (fun _ => rfl) ?_
  intro h₂ he
  rw [he]
  have hthen : ∀ {h₃ : Heap} {g₃ : Ghost}, (h₁.net g₁).Passed (h₃.net g₃) c ∧ g₃.pend = [] →
      (h.net g).Passed (h₃.net g₃) c ∧ g₃.pend = [] := by
    intro h₃ g₃ hafter
    obtain ⟨hpassed₂, hp₂⟩ := hafter
    exact ⟨hpassed.seq hpassed₂ hp₂, hp₂⟩
  refine After.ite (fun hms => ?_) fun hms => ?_
  · obtain ⟨hg, hh⟩ := hnil hms
    subst hg hh
    exact (reqForward_plain hr hm ho hf).mono fun _ h₂ hreach => hreach.mono fun g₂ => hthen
  · obtain ⟨hm₁, hv₁, hno₁⟩ := hcons hms
    have hno : (h.msg m).noreply = false := by
      by_contra hyes
      exact hms (hiff.mpr (hsplit.2 (by simpa using hyes)))
    exact (reqForwardFrags_moves hr₁ hm₁ hv₁ hms (hno₁.trans hno) _ hno).mono fun _ h₂ hreach =>
      hreach.mono fun g₂ => hthen

/-- **`req_recv_done`**, where the parser keeps its promise about the request.

**Proof sketch.** The request is taken in hand and filtered.  One that passes gets its number, and
is then answered by the proxy itself or forwarded, with or without a vector. -/
theorem reqRecvDone_moves {nmsg : Option MsgId} (hr : Ready (h.net g)) (hp : g.pend = [])
    (hc : (h.net g).Client c) (hm : (h.conn c).rmsg = some m)
    (hn : ∀ r, nmsg = some r → (h.net g).New c r) (hsplit : (h.msg m).mlen ≠ 0 → (h.msg m).Splits) :
    After (reqRecvDone env c m nmsg) (Reach Move (h.net g) fun _ h' g' => Handled c h h' g g' ∧
      ((h.msg m).mlen = 0 → (h.net g).Passed (h'.net g') c)) h := by
  unfold reqRecvDone
  have hopen := hc.isOpen
  have hplace : g.place m = .reading c := (hr.inv.queues.rmsg c hopen m).mp hm
  obtain ⟨-, hof, hblank, howner, hfragId⟩ := hr.inv.facts.reading m c hplace
  obtain ⟨g₁, hmoves₁, hmoved₁, hhand₁⟩ := setRmsg_moves hr.toSound hopen hm hn
  have hview : ((h.modConn c fun x => { x with rmsg := nmsg }).net g₁).c.owner = (h.net g).c.owner ∧
      ((h.modConn c fun x => { x with rmsg := nmsg }).conn c).gen = (h.conn c).gen := by
    refine ⟨?_, by simp⟩
    rw [Heap.net_modConn]
    exact update_eq_self c _
  have hmsg₁ : (h.modConn c fun x => { x with rmsg := nmsg }).msg = h.msg := rfl
  refine After.modConn (After.pay hmoves₁ ?_)
  generalize h.modConn c (fun x => { x with rmsg := nmsg }) = h₁ at *
  have hpassed₁ : (h.net g).Passed (h₁.net g₁) c := hmoved₁.passed hview.1 hp
  have hp₁ : g₁.pend = [] := by
    obtain ⟨place, rfl⟩ := hmoved₁
    exact hp
  have hr₁ := hpassed₁.calmer.ready hr (Moves.sound hmoves₁ hr.toSound)
  have hc₁ : (h₁.net g₁).Client c := by
    rw [Net.Client, hview.1]
    exact hc
  have hnew₁ : (h₁.net g₁).New c m := by
    constructor
    case place => exact hhand₁
    case pend =>
      show m ∉ g₁.pend
      simp [hp₁]
    case of => exact ⟨(congrArg Msg.owner (congrFun hmsg₁ m)).trans hof.1,
      (congrArg Msg.ownerGen (congrFun hmsg₁ m)).trans (hof.2.trans hview.2.symm)⟩
    case blank => exact hblank.congr (congrFun hmsg₁ m)
    case fragOwner => exact (congrArg Msg.fragOwner (congrFun hmsg₁ m)).trans howner
    case fragId => exact (congrArg Msg.fragId (congrFun hmsg₁ m)).trans hfragId
  rw [← congrFun hmsg₁ m] at hsplit ⊢
  have hthen : ∀ {h₂ : Heap} {g₂ : Ghost}, (h₁.net g₁).Passed (h₂.net g₂) c → g₂.pend = [] →
      (h.net g).Passed (h₂.net g₂) c := fun hpassed₂ hp₂ =>
    hpassed₁.seq hpassed₂ hp₂
  refine After.follow (reqFilter_moves hr₁.toSound hhand₁ (by simp [hp₁])) ?_
  rintro filtered h₂ g₂ hmoves₂ ⟨hmoved₂, hconn₂, hfalse⟩
  have hp₂ : g₂.pend = [] := by
    obtain ⟨place, rfl⟩ := hmoved₂
    exact hp₁
  refine After.ite (fun _ => After.pure (.here ?_)) fun hno => ?_
  · have hpassed₂ := hthen (hmoved₂.passed (by rw [hconn₂]) hp₁) hp₂
    exact ⟨.of_passed hpassed₂ hp₂, fun _ => hpassed₂⟩
  obtain ⟨hg, he, hfrag, hmlen⟩ := hfalse (by simpa using hno)
  subst hg
  rw [← he] at hr₁ hc₁ hnew₁ hthen
  refine After.follow (numberReq_moves hr₁ hc₁ hnew₁ hp₁) ?_
  rintro - h₃ g₃ hmoves₃ ⟨rfl, hm₃, howner₃, hfragId₃, hown₃, hfrag₃, hnoreply₃⟩
  have hpassed₃ : (h₂.net g₃).Passed (h₃.net g₃) c := Ghost.Moved.passed (.refl g₃) hown₃ hp₁
  have hr₃ := hpassed₃.calmer.ready hr₁ (Moves.sound hmoves₃ hr₁.toSound)
  refine After.getMsg (After.ite (fun _ => ?_) fun _ => ?_)
  · refine (reqReply_moves hr₃ hm₃ howner₃ hfragId₃).mono fun _ h₄ hreach =>
      hreach.mono fun g₄ hhandled => ?_
    exact ⟨hhandled.of_trans (hthen hpassed₃ hp₁), fun h => absurd h hmlen⟩
  · have hsplit₃ : (h₃.msg m).Splits := by
      obtain ⟨hok, hsubs⟩ := hsplit hmlen
      have hno₂ : (h₂.msg m).noreply = (h₁.msg m).noreply :=
        congrArg (fun n : Net => n.m.noreply m) he
      refine ⟨by rw [hfrag₃, hfrag, hok], fun hyes => ?_⟩
      rw [hfrag₃, hfrag]
      exact hsubs (by rw [← hno₂, ← hnoreply₃, hyes])
    refine (reqRoute_moves hr₃ hm₃ howner₃ hfragId₃ hsplit₃).mono fun _ h₄ hreach => ?_
    refine hreach.mono fun g₄ hrest => ?_
    obtain ⟨hpassed₄, hp₄⟩ := hrest
    refine ⟨.of_passed ?_ hp₄, fun h => absurd h hmlen⟩
    exact hthen (hpassed₃.seq hpassed₄ hp₄) hp₄

end GfwProxy
