import GfwProxy.Net.Answered
import GfwProxy.Net.Sending

set_option autoImplicit false

/-!
# Answering a client as moves

The write handlers of a client connection: the responses of the requests at the head of its queue
are gathered, and the requests whose responses have been sent leave the queue.

## Main definitions

* `GfwProxy.Net.Gathered` — the requests whose responses have been gathered.

## Main results

* `GfwProxy.rspSendNext_moves` — the next response.
-/

namespace GfwProxy

open Function

variable {env : Env} {n n' : Net} {h h' : Heap} {g g' : Ghost} {c : ConnId} {m p r : MsgId}

/-! ## Requests that are marked as done -/

/-- Request `p` is done, and if it is a fragment, it is marked. -/
def Net.Marked (n : Net) (p : MsgId) : Prop :=
  n.m.done p = true ∧ (n.m.fragId p = 0 ∨ n.m.fdone p = true)

/-- The first requests in the queue of client `c`, up to those whose responses have been gathered:
the requests `kept` are behind, and `ps` still to be looked at, with their responses `rs`. -/
structure Net.Gathered (n : Net) (c : ConnId) (kept ps rs : List MsgId) : Prop where
  queue : kept ++ ps <+: n.c.omsgq c
  marked : ∀ p ∈ kept ++ ps, n.Marked p
  linked : ps.map n.m.peer = rs.map some

/-- If requests at the head of the queue are marked, its head is done. -/
lemma Net.headDone {q t : List MsgId} (hq : n.c.omsgq c = q ++ t) (hmark : ∀ p ∈ q, n.Marked p)
    (hne : q ≠ []) : n.HeadDone c := by
  cases q with
  | nil => exact absurd rfl hne
  | cons x q => exact ⟨x, by simp [hq], hmark x List.mem_cons_self⟩

/-- A request that is done is in no queue of a server connection. -/
lemma Inv.ended (hi : Inv n) (hc : n.Client c) (hx : m ∈ n.c.omsgq c) (hd : n.m.done m = true) :
    n.g.place m = .req (some c) none := by
  obtain ⟨srv, hplace⟩ := (hi.queues.omsgq_client c hc m).mp hx
  cases srv with
  | none => exact hplace
  | some x =>
    rw [(hi.facts.srv m (some c) x.1 x.2 hplace).2.1] at hd
    cases hd

/-- A request of a vector that is marked is done, with the whole vector. -/
lemma Inv.vectorDone (hi : Inv n) (hc : n.Client c) (hcl : c ∉ n.g.closing) (hp : p ∈ n.c.omsgq c)
    (hmark : n.Marked p) (hx : m ∈ n.c.omsgq c)
    (he : m = p ∨ n.m.fragId m = n.m.fragId p ∧ n.m.fragId p ≠ 0) :
    n.VectorDone c m := by
  have hv := hi.vec c hc hcl
  have hall : n.m.fragId p ≠ 0 → ∀ y ∈ n.c.omsgq c, n.m.fragId y = n.m.fragId p →
      n.m.done y = true :=
    fun hne => hv.marked p hp (hmark.2.resolve_left hne) hne
  rcases he with rfl | ⟨hid, hne⟩
  · exact ⟨hmark.1, hall⟩
  · exact ⟨hall hne m hx hid, fun _ y hy hy' => hall hne y hy (hy'.trans hid)⟩

/-- Taking a message out of the tree leaves the marks alone. -/
@[simp] lemma Net.tmoDelete_fdone (n : Net) (m : MsgId) : (n.tmoDelete m).m.fdone = n.m.fdone := by
  unfold Net.tmoDelete
  split <;> rfl

/-- Counting a fragment leaves the marks alone. -/
@[simp] lemma Net.count_fdone (n : Net) (m : MsgId) (b : Bool) :
    (n.count m b).m.fdone = n.m.fdone := by
  unfold Net.count
  split <;> rfl

/-- The mark of a done vector is never taken away. -/
lemma ServerMoves.fdone (hm : ServerMoves n n') {x : MsgId} (hx : n.m.fdone x = true) :
    n'.m.fdone x = true := by
  induction hm with
  | refl => exact hx
  | tail _ hm ih =>
    cases hm with
    | fdone => simp [ih]
    | dropIn s m hm => simpa [Net.put, Net.deqIn] using ih
    | dropOut s m hm hs => simpa [Net.put, Net.deqOut] using ih
    | failIn s c m b hm hc => simpa [Net.setDue, Net.fail, Net.finish, Net.move, Net.deqIn] using ih
    | failOut s c m b hm hc hs =>
      simpa [Net.setDue, Net.fail, Net.finish, Net.move, Net.deqOut] using ih
    | _ => exact ih

/-! ## A request leaves the queue of its client -/

/-- Request `m` leaves the queue of client `c`, and is released with its response. -/
def Heap.leave (c : ConnId) (m : MsgId) (h : Heap) : Heap :=
  (h.modConn c fun x => { x with omsgq := x.omsgq.erase m }).reqPut m

/-- Of the connections, only the client of the request has changed. -/
lemma Heap.leave_conn : (h.leave c m).conn =
    update h.conn c { h.conn c with omsgq := (h.conn c).omsgq.erase m } := by
  rw [Heap.leave, Heap.reqPut_conn]
  rfl

/-- The other requests of the client, and the other responses, are as they were. -/
lemma Heap.leave_msg {x : MsgId} (hx : x ≠ m) (hr : (h.msg m).peer ≠ some x) :
    (h.leave c m).msg x = h.msg x :=
  Heap.reqPut_msg (h := h.modConn c fun x => { x with omsgq := x.omsgq.erase m }) hx hr

/-- **A request that is done leaves the queue.** -/
theorem requestLeave_moves (hs : Sound (h.net g)) (hp : g.pend = [])
    (hm : g.place m = .req (some c) none) (hv : (h.net g).VectorDone c m)
    (hh : (h.net g).HeadDone c) :
    ∃ g', Moves (h.net g) ((h.leave c m).net g') ∧ g.Moved g' := by
  have hleave : Move (h.net g)
      ((h.modConn c fun x => { x with omsgq := x.omsgq.erase m }).net (g.move m .hand)) := by
    have he : (h.modConn c fun x => { x with omsgq := x.omsgq.erase m }).net (g.move m .hand) =
        ((h.net g).deqOut c m).move m .hand := by
      rw [Heap.net_move]
      simp [ConnCols.set, Net.deqOut]
    rw [he]
    exact .leave c m hm (.inr ⟨hp, hv, hh⟩)
  obtain ⟨g', hmoves, hmoved, -, -⟩ := reqPut_moves (Moves.sound (.single hleave) hs) (m := m)
    (by simp [Ghost.move]) (by simp [Ghost.move, hp])
  exact ⟨g', .head hleave hmoves, (Ghost.moved_move m .hand g).trans hmoved⟩

/-- A request in the queue is not the response of another one. -/
lemma Inv.peer_ne (hi : Inv n) (hc : n.Client c) (hm : n.g.place m = .req (some c) none) {x : MsgId}
    (hx : x ∈ n.c.omsgq c) : n.m.peer m ≠ some x := by
  intro hpeer
  have hrsp := hi.facts.peer m (some c) x hm hpeer
  obtain ⟨srv, hplace⟩ := (hi.queues.omsgq_client c hc x).mp hx
  rw [hplace] at hrsp
  cases hrsp

/-! ## The response of a request -/

/-- The error marks of a family of messages. -/
lemma Heap.net_ferror (xs : List MsgId) :
    (h.modMsgs xs fun _ x => { x with ferror := true }).net g =
      { h.net g with m.ferror := fun x => if x ∈ xs then true else (h.net g).m.ferror x } := by
  have hmsg : MsgCols.of (h.modMsgs xs fun _ x => { x with ferror := true }).msg =
      { MsgCols.of h.msg with ferror := fun x => if x ∈ xs then true else (h.msg x).ferror } := by
    simp only [Heap.modMsgs, MsgCols.of, MsgCols.mk.injEq]
    refine ⟨?_, ?_, ?_, ?_, ?_, ?_, ?_, ?_, ?_, ?_, ?_, ?_, ?_, ?_, ?_, ?_, ?_⟩ <;>
      (funext x; split_ifs <;> rfl)
  simp only [Heap.net, hmsg]
  rfl

/-- Is request `p` in error, by itself or as a part of a vector? -/
def Net.InError (n : Net) (p : MsgId) : Prop :=
  n.m.error p = true ∨ n.m.fragId p ≠ 0 ∧ n.m.ferror p = true

/-- **`req_error`**: the view changes in the error marks only. -/
theorem reqError_moves (h : Heap) (g : Ghost) (c : ConnId) (p : MsgId) :
    After (reqError c p) (Reach Move (h.net g) fun b h' g' => g' = g ∧ h'.conn = h.conn ∧
      (∃ f, h'.net g = { h.net g with m.ferror := f }) ∧ (b = true ↔ (h'.net g).InError p)) h := by
  unfold reqError
  refine After.getMsg (After.ite (fun he => After.pure (.here ⟨rfl, rfl, ⟨_, rfl⟩, ?_⟩))
    fun he => ?_)
  · simp [Net.InError, he]
  refine After.ite (fun hid => After.pure (.here ⟨rfl, rfl, ⟨_, rfl⟩, ?_⟩)) fun hid => ?_
  · simp [Net.InError, he, hid]
  refine After.ite (fun hf => After.pure (.here ⟨rfl, rfl, ⟨_, rfl⟩, ?_⟩)) fun hf => ?_
  · simp [Net.InError, hid, hf]
  refine After.readHeap (After.readHeap
    (After.ite (fun _ => ?_) fun _ => After.pure (.here ⟨rfl, rfl, ⟨_, rfl⟩, ?_⟩)))
  · refine After.modHeap (After.pure ⟨g, .single ?_, rfl, rfl, ?_, ?_⟩)
    · rw [Heap.net_ferror]
      refine .ferror _ fun x hx => ?_
      split
      · rfl
      · exact hx
    · rw [Heap.net_ferror]
      exact ⟨_, rfl⟩
    · rw [Heap.net_ferror]
      simp [Net.InError, hid]
  · simp [Net.InError, he, hid, hf]

/-- What `rsp_make_error` leaves: the requests `pre` and the request `p` are still the first ones in
the queue of the client. -/
structure Dropped (c : ConnId) (pre : List MsgId) (p : MsgId) (h h' : Heap) (g g' : Ghost) :
    Prop where
  moved : g.Moved g'
  conn : ∃ rest, h'.conn = update h.conn c { h.conn c with omsgq := pre ++ p :: rest }
  msg : ∀ y ∈ pre, h'.msg y = h.msg y

/-- Dropping requests does not close a client. -/
lemma Dropped.client {pre : List MsgId} (hd : Dropped c pre p h h' g g') (hc : (h.net g).Client c) :
    (h'.net g').Client c := by
  obtain ⟨q, ho⟩ := hc
  obtain ⟨rest, hconn⟩ := hd.conn
  refine ⟨q, ?_⟩
  show (h'.conn c).owner = _
  rw [hconn]
  simpa using ho

/-- The loop of `rsp_make_error` over the fragments behind the first one. -/
lemma rspDropFrags_moves {err : ℤ} {pre t : List MsgId} (ms : List MsgId) (hs : Sound (h.net g))
    (hc : (h.net g).Client c) (hcl : c ∉ g.closing) (hp : g.pend = [])
    (hq : (h.conn c).omsgq = pre ++ p :: (ms ++ t)) (hmark : ∀ y ∈ pre ++ [p], (h.net g).Marked y)
    (hid : ∀ y ∈ ms, (h.msg y).fragId = (h.msg p).fragId) (hne : (h.msg p).fragId ≠ 0) :
    After (rspDropFrags c ms err) (Reach Move (h.net g) fun _ h' g' =>
      Dropped c pre p h h' g g' ∧ h'.msg p = h.msg p) h := by
  induction ms generalizing h g err with
  | nil =>
    refine After.pure (.here ⟨⟨.refl g, ⟨t, ?_⟩, fun _ _ => rfl⟩, rfl⟩)
    rw [List.nil_append] at hq
    rw [← hq]
    exact (update_eq_self c h.conn).symm
  | cons m ms ih =>
    have hnodup : (pre ++ p :: m :: (ms ++ t)).Nodup := by
      have h := hs.inv.queues.omsgq_nodup c hc.isOpen
      simp only [Heap.net_conn, hq] at h
      exact h
    have hpmem : p ∈ (h.net g).c.omsgq c := by simp [hq]
    have hmmem : m ∈ (h.net g).c.omsgq c := by simp [hq]
    have hv : (h.net g).VectorDone c m := hs.inv.vectorDone hc hcl hpmem (hmark p (by simp)) hmmem
      (.inr ⟨hid m List.mem_cons_self, hne⟩)
    have hplace : g.place m = .req (some c) none := hs.inv.ended hc hmmem hv.1
    have hh : (h.net g).HeadDone c := by
      refine Net.headDone (q := pre ++ [p]) (t := m :: (ms ++ t)) ?_ hmark (by simp)
      simp [hq]
    have hmq : m ∉ pre ++ [p] := by
      intro hmem
      have h : ((pre ++ [p]) ++ m :: (ms ++ t)).Nodup := by simpa using hnodup
      exact (List.nodup_append.mp h).2.2 m hmem m (by simp) rfl
    have hmms : m ∉ ms := by
      intro hmem
      have h : ((pre ++ [p]) ++ m :: (ms ++ t)).Nodup := by simpa using hnodup
      exact (List.nodup_cons.mp (List.nodup_append.mp h).2.1).1 (List.mem_append_left _ hmem)
    obtain ⟨g₁, hmoves, hmoved⟩ := requestLeave_moves hs hp hplace hv hh
    unfold rspDropFrags reqClientDequeueOmsgq
    refine After.modConn (After.getMsg (After.modHeap ?_))
    show After _ _ (h.leave c m)
    -- the messages that are still looked at are as they were
    have hmsg : ∀ y ∈ pre ++ p :: ms, (h.leave c m).msg y = h.msg y := by
      intro y hy
      refine Heap.leave_msg ?_ (hs.inv.peer_ne hc hplace ?_)
      · rintro rfl
        rcases List.mem_append.mp hy with hy | hy
        · exact hmq (List.mem_append_left _ hy)
        · rcases List.mem_cons.mp hy with rfl | hy
          · exact hmq (by simp)
          · exact hmms hy
      · simp only [Heap.net_conn, hq, List.mem_append, List.mem_cons] at hy ⊢
        tauto
    have hq₁ : ((h.leave c m).conn c).omsgq = pre ++ p :: (ms ++ t) := by
      rw [Heap.leave_conn]
      simp only [update_self, hq]
      have happ : pre ++ p :: (m :: ms ++ t) = (pre ++ [p]) ++ m :: (ms ++ t) := by simp
      rw [happ, List.erase_append_right _ hmq, List.erase_cons_head]
      simp
    have hc₁ : ((h.leave c m).net g₁).Client c := by
      obtain ⟨q, ho⟩ := hc
      refine ⟨q, ?_⟩
      show ((h.leave c m).conn c).owner = _
      rw [Heap.leave_conn]
      simpa using ho
    have hcl₁ : c ∉ g₁.closing ∧ g₁.pend = [] := by
      obtain ⟨place, rfl⟩ := hmoved
      exact ⟨hcl, hp⟩
    have hpm := hmsg p (by simp)
    refine After.pay hmoves ((ih (Moves.sound hmoves hs) hc₁ hcl₁.1 hcl₁.2 hq₁ ?_ ?_ ?_).mono
      fun _ h₂ hreach => hreach.mono fun g₂ hdrop =>
        ⟨⟨hmoved.trans hdrop.1.moved, ?_, ?_⟩, hdrop.2.trans hpm⟩)
    · intro y hy
      have hy' := hmsg y (by
        simp only [List.mem_append, List.mem_cons, List.not_mem_nil, or_false] at hy ⊢
        tauto)
      have hold := hmark y hy
      simp only [Net.Marked, Heap.net_msg] at hold ⊢
      rwa [hy']
    · intro y hy
      rw [hmsg y (by simp [hy]), hpm]
      exact hid y (List.mem_cons_of_mem _ hy)
    · rwa [hpm]
    · obtain ⟨t', hconn⟩ := hdrop.1.conn
      refine ⟨t', ?_⟩
      rw [hconn, Heap.leave_conn]
      simp
    · intro y hy
      rw [hdrop.1.msg y hy]
      exact hmsg y (List.mem_append_left _ hy)

/-- Breaking a link touches no connection. -/
lemma Heap.putPeer_conn : (h.putPeer m).conn = h.conn := by
  unfold Heap.putPeer
  split <;> rfl

/-- Breaking a link changes the request in one field. -/
lemma Heap.putPeer_self (hr : (h.msg m).peer ≠ some m) :
    (h.putPeer m).msg m = { h.msg m with peer := none } := by
  have hsame : ∀ x : Msg, x.peer = none → x = { x with peer := none } := by
    rintro ⟨⟩ ⟨⟩
    rfl
  unfold Heap.putPeer
  cases hp : (h.msg m).peer with
  | none => exact hsame (h.msg m) hp
  | some r =>
    have hne : m ≠ r := by
      rintro rfl
      exact hr hp
    simp [Heap.rspPut, Heap.msgPut, Heap.modMsg, Heap.emit, hne]

/-- The error of the reply: the fragments behind the first one leave the queue. -/
lemma rspDropError_moves {pre rest : List MsgId} (hs : Sound (h.net g)) (hc : (h.net g).Client c)
    (hcl : c ∉ g.closing) (hp : g.pend = []) (hq : (h.conn c).omsgq = pre ++ p :: rest)
    (hmark : ∀ y ∈ pre ++ [p], (h.net g).Marked y) :
    After (rspDropError c (h.msg p) ((tailqAfter p (h.conn c).omsgq).takeWhile fun x =>
      (h.msg x).fragId = (h.msg p).fragId)) (Reach Move (h.net g) fun _ h' g' =>
        Dropped c pre p h h' g g' ∧ h'.msg p = h.msg p) h := by
  have hnodup : (pre ++ p :: rest).Nodup := by
    have h := hs.inv.queues.omsgq_nodup c hc.isOpen
    simp only [Heap.net_conn, hq] at h
    exact h
  have hpre : p ∉ pre := fun hmem => (List.nodup_append.mp hnodup).2.2 p hmem p (by simp) rfl
  rw [hq, (tailq_split hpre).2]
  unfold rspDropError
  refine After.ite (fun hne => ?_) fun _ =>
    After.pure (.here ⟨⟨.refl g, ⟨rest, ?_⟩, fun _ _ => rfl⟩, rfl⟩)
  · refine rspDropFrags_moves (t := rest.dropWhile fun x => (h.msg x).fragId = (h.msg p).fragId) _
      hs hc hcl hp ?_ hmark (fun y hy => ?_) hne
    · rw [List.takeWhile_append_dropWhile]
      exact hq
    · simpa using List.mem_takeWhile_imp hy
  · rw [← hq]
    exact (update_eq_self c h.conn).symm

/-- **`rsp_make_error`**: the old response of the request is released, and there may be a new
one.

**Proof sketch.** First the fragments of a vector are dropped, then the old response is released,
then a message is allocated.  None of these steps touches the requests that were gathered before,
and the request itself keeps its marks. -/
theorem rspMakeError_moves {pre rest : List MsgId} (hs : Sound (h.net g)) (hc : (h.net g).Client c)
    (hcl : c ∉ g.closing) (hp : g.pend = []) (hq : (h.conn c).omsgq = pre ++ p :: rest)
    (hmark : ∀ y ∈ pre ++ [p], (h.net g).Marked y) (herr : (h.net g).InError p) :
    After (rspMakeError env c p) (Reach Move (h.net g) fun o h' g' => Dropped c pre p h h' g g' ∧
      (h'.net g').Marked p ∧ (h'.msg p).peer = none ∧
        ∀ r, o = some r → g'.place r = .hand ∧ (h'.msg r).peer = none ∧ (h'.msg r).tmoData = none)
        h := by
  unfold rspMakeError
  refine After.getConn (After.getMsg
    (After.readHeap (After.follow (rspDropError_moves hs hc hcl hp hq hmark) ?_)))
  rintro err h₁ g₁ hmoves₁ ⟨hdrop, hpm⟩
  have hs₁ := Moves.sound hmoves₁ hs
  have hc₁ := hdrop.client hc
  obtain ⟨rest₁, hconn₁⟩ := hdrop.conn
  have hq₁ : (h₁.conn c).omsgq = pre ++ p :: rest₁ := by
    rw [hconn₁]
    simp
  have hmark₁ : (h₁.net g₁).Marked p := by
    have hold := hmark p (by simp)
    simp only [Net.Marked, Heap.net_msg] at hold ⊢
    rwa [hpm]
  have hmem : ∀ {y : MsgId}, y ∈ pre ++ [p] → y ∈ (h₁.net g₁).c.omsgq c := by
    intro y hy
    simp only [Heap.net_conn, hq₁, List.mem_append, List.mem_cons, List.not_mem_nil,
      or_false] at hy ⊢
    tauto
  have hplace : g₁.place p = .req (some c) none := hs₁.inv.ended hc₁ (hmem (by simp)) hmark₁.1
  have hpre : p ∉ pre := by
    have hnodup := hs₁.inv.queues.omsgq_nodup c hc₁.isOpen
    simp only [Heap.net_conn, hq₁] at hnodup
    exact fun hy => (List.nodup_append.mp hnodup).2.2 p hy p (by simp) rfl
  have herr₁ : (h₁.msg p).error = true ∨ (h₁.msg p).fragId ≠ 0 ∧ (h₁.msg p).ferror = true := by
    rw [hpm]
    exact herr
  -- the old response is released
  obtain ⟨g₂, hmoves₂, hmoved₂, hplace₂, hpeer₂, -⟩ := putPeer_moves hs₁ hplace (.inr herr₁)
  have hself : (h₁.putPeer p).msg p = { h₁.msg p with peer := none } :=
    Heap.putPeer_self (hs₁.inv.peer_ne hc₁ hplace (hmem (by simp)))
  have hother : ∀ y ∈ pre, (h₁.putPeer p).msg y = h.msg y := by
    intro y hy
    have hne : y ≠ p := by
      rintro rfl
      exact hpre hy
    have hpeer : (h₁.msg p).peer ≠ some y := hs₁.inv.peer_ne hc₁ hplace (hmem (by simp [hy]))
    rw [Heap.putPeer_msg hne hpeer]
    exact hdrop.msg y hy
  have hconn₂ : (h₁.putPeer p).conn = h₁.conn := Heap.putPeer_conn
  refine After.modHeap (After.pay hmoves₂ ?_)
  have hs₂ := Moves.sound hmoves₂ hs₁
  generalize h₁.putPeer p = h₂ at hpeer₂ hself hother hconn₂ hs₂ ⊢
  have hused : ∀ y ∈ pre ++ [p], g₂.place y ≠ .free := by
    intro y hy hfree
    have hc₂ : (h₂.net g₂).Client c := by
      obtain ⟨q, ho⟩ := hc₁
      refine ⟨q, ?_⟩
      show (h₂.conn c).owner = _
      rw [hconn₂]
      exact ho
    have hy₂ : y ∈ (h₂.net g₂).c.omsgq c := by
      show y ∈ (h₂.conn c).omsgq
      rw [hconn₂]
      exact hmem hy
    obtain ⟨srv, hy'⟩ := (hs₂.inv.queues.omsgq_client c hc₂ y).mp hy₂
    rw [show (h₂.net g₂).g.place y = Place.free from hfree] at hy'
    cases hy'
  -- the error message
  refine (msgGetError_moves hs₂ _ _).mono fun o h₃ hreach => hreach.mono fun g₃ hrest => ?_
  obtain ⟨halloc, hnew⟩ := hrest
  have hpm₃ : h₃.msg p = { h₁.msg p with peer := none } :=
    ((halloc.msg p (hused p (by simp))).1).trans hself
  refine ⟨⟨(hdrop.moved.trans hmoved₂).trans halloc.moved, ⟨rest₁, ?_⟩, fun y hy => ?_⟩, ?_, ?_, ?_⟩
  · rw [halloc.conn, hconn₂, hconn₁]
  · rw [(halloc.msg y (hused y (List.mem_append_left _ hy))).1, hother y hy]
  · simp only [Net.Marked, Heap.net_msg] at hmark₁ ⊢
    rw [hpm₃]
    exact hmark₁
  · rw [hpm₃]
  · rintro r rfl
    obtain ⟨-, hhand, id, mhdr, mlen, hr⟩ := hnew r rfl
    exact ⟨hhand, by rw [hr], by rw [hr]⟩

/-- The requests that were gathered are as they were. -/
lemma Net.Gathered.frame {kept ps rs : List MsgId} (hg : n.Gathered c kept ps rs)
    (hq : kept ++ ps <+: n'.c.omsgq c) (hmark : ∀ y ∈ kept ++ ps, n.Marked y → n'.Marked y)
    (hpeer : ∀ y ∈ ps, n'.m.peer y = n.m.peer y) : n'.Gathered c kept ps rs where
  queue := hq
  marked y hy := hmark y hy (hg.marked y hy)
  linked := (List.map_congr_left hpeer).trans hg.linked

/-- Dropping requests is something that sending may do. -/
lemma Dropped.sent {pre : List MsgId} (hd : Dropped c pre p h h' g g') : Sent c h h' g g' := by
  obtain ⟨rest, hconn⟩ := hd.conn
  refine ⟨hd.moved, ?_, fun x hx => by simp [hconn, hx]⟩
  show (ConnCols.of h'.conn).owner = _
  rw [Heap.net_conn_update hconn]
  exact update_eq_self c _

/-- What looking for the response behind those of the requests `ps` has found. -/
structure Next (c : ConnId) (ps rs : List MsgId) (o : Option MsgId) (h h' : Heap) (g g' : Ghost) :
    Prop where
  sent : Sent c h h' g g'
  ready : (h'.conn c).sendReady = (h.conn c).sendReady
  found : ∀ r, o = some r → (h'.conn c).smsg = some r ∧ ∃ p,
    (h'.net g').Gathered c [] (ps ++ [p]) (rs ++ [r])
  stopped : o = none → (h'.net g').Gathered c [] ps rs ∧ ((h.conn c).smsg = none →
    (h'.conn c).smsg = none ∧ ((h'.conn c).err ≠ 0 ∨ ∃ x, .idle x ∈ h'.log))

/-- Request `p` and its new response are linked. -/
def Heap.link (p r : MsgId) (h : Heap) : Heap :=
  (h.modMsg r fun x => { x with peer := some p }).modMsg p fun x => { x with peer := some r }

/-- A response is linked to its request, on the view. -/
lemma Heap.net_link (hne : p ≠ r) :
    (h.link p r).net (g.move r (.rsp p)) = ((h.net g).link p r).move r (.rsp p) := by
  rw [Heap.net_move, Heap.link, Heap.net_modMsg, Heap.net_modMsg]
  simp [MsgCols.set, Net.link, Heap.modMsg, hne, update_comm hne.symm]

/-- The choice of a reply behind something that sending has done. -/
lemma Sent.next {ps rs : List MsgId} {o : Option MsgId} {h₁ h₂ : Heap} {g₁ g₂ : Ghost}
    (hs : Sent c h h₁ g g₁) (hready : (h₁.conn c).sendReady = (h.conn c).sendReady)
    (hsmsg : (h₁.conn c).smsg = (h.conn c).smsg) (hn : Next c ps rs o h₁ h₂ g₁ g₂) :
    Next c ps rs o h h₂ g g₂ where
  sent := hs.trans hn.sent
  ready := hn.ready.trans hready
  found := hn.found
  stopped he := ⟨(hn.stopped he).1, fun hnone => (hn.stopped he).2 (hsmsg.trans hnone)⟩

/-- The next request of the queue is linked to its response. -/
lemma Net.Gathered.link {ps rs rest : List MsgId} (hi : Inv n) (hc : n.Client c)
    (hq : n.c.omsgq c = ps ++ p :: rest) (hg : n.Gathered c [] ps rs) (hmark : n.Marked p)
    (hr : n.g.place r = .hand) (hne : p ≠ r) :
    ((n.link p r).move r (.rsp p)).Gathered c [] (ps ++ [p]) (rs ++ [r]) := by
  have hnodup := hi.queues.omsgq_nodup c hc.isOpen
  rw [hq] at hnodup
  have hnotin : ∀ y ∈ ps, y ≠ p ∧ y ≠ r := by
    intro y hy
    have hmem : y ∈ n.c.omsgq c := by simp [hq, hy]
    obtain ⟨srv, hplace⟩ := (hi.queues.omsgq_client c hc y).mp hmem
    constructor
    · rintro rfl
      exact (List.nodup_append.mp hnodup).2.2 y hy y (by simp) rfl
    · rintro rfl
      rw [hr] at hplace
      cases hplace
  refine ⟨⟨rest, by simp [Net.move, Net.link, hq]⟩, fun y hy => ?_, ?_⟩
  · rw [List.nil_append] at hy
    rcases List.mem_append.mp hy with hy | hy
    · exact hg.marked y hy
    · rw [List.mem_singleton.mp hy]
      exact hmark
  · have hps : ps.map ((n.link p r).move r (.rsp p)).m.peer = rs.map some := by
      refine (List.map_congr_left fun y hy => ?_).trans hg.linked
      simp [Net.move, Net.link, hnotin y hy]
    rw [List.map_append, List.map_append, hps]
    simp [Net.move, Net.link, hne]

/-- No reply can be made for the request in error: `errno` is set, and nothing is found. -/
lemma rspNone_moves {ps rs : List MsgId} (hg : (h.net g).Gathered c [] ps rs) :
    After (do setErrno env c; return none)
      (Reach SendMove (h.net g) fun o h' g' => Next c ps rs o h h' g g') h := by
  refine After.call (setErrno_eq h c) ?_
  rintro - h₁ ⟨e, hne, rfl⟩
  have hunseen : (h.modConn c fun x => { x with err := e }).net g = h.net g :=
    Heap.net_modConn_unseen rfl
  refine After.pure ⟨g, hunseen ▸ .refl, ?_, by simp, by simp,
    fun _ => ⟨?_, fun hnone => ⟨?_, .inl ?_⟩⟩⟩
  · exact ⟨.refl g, by rw [hunseen], fun x hx => by simp [Heap.modConn, hx]⟩
  · rwa [hunseen]
  · simpa using hnone
  · simpa using hne

/-- The reply that was made for the request in error is linked to it, and found. -/
lemma rspLink_moves {ps rs rest : List MsgId} (hs : Sound (h.net g)) (hc : (h.net g).Client c)
    (hp : g.pend = []) (hq : (h.conn c).omsgq = ps ++ p :: rest)
    (hg : (h.net g).Gathered c [] ps rs) (hmark : (h.net g).Marked p)
    (hpeer : (h.msg p).peer = none) (hhand : g.place r = .hand)
    (hrpeer : (h.msg r).peer = none) (hrtmo : (h.msg r).tmoData = none) :
    After (do
        modMsg r fun x => { x with peer := some p }
        modMsg p fun x => { x with peer := some r }
        statsPool (← ownerPool c) .forwardError 1
        modConn c fun x => { x with smsg := some r }
        return some r)
      (Reach SendMove (h.net g) fun o h' g' => Next c ps rs o h h' g g') h := by
  have hplace : g.place p = .req (some c) none := hs.inv.ended hc (by simp [hq]) hmark.1
  have hne : p ≠ r := by
    rintro rfl
    rw [hplace] at hhand
    cases hhand
  have hnet := Heap.net_link (h := h) (g := g) hne
  have hmove : Move (h.net g) ((h.link p r).net (g.move r (.rsp p))) := by
    rw [hnet]
    exact .link c p r hplace hmark.1 hpeer hhand hrpeer hrtmo (by simp [hp])
  have hsent : Sent c h (h.link p r) g (g.move r (.rsp p)) :=
    ⟨Ghost.moved_move r _ g, rfl, fun _ _ => rfl⟩
  have hg' : ((h.link p r).net (g.move r (.rsp p))).Gathered c [] (ps ++ [p]) (rs ++ [r]) := by
    rw [hnet]
    exact hg.link hs.inv hc hq hmark hhand hne
  have hready : ((h.link p r).conn c).sendReady = (h.conn c).sendReady := rfl
  refine After.modMsg (After.modMsg ?_)
  show After _ _ (h.link p r)
  refine After.pay (.single (.move hmove)) ?_
  generalize h.link p r = h₁ at hsent hg' hready ⊢
  generalize g.move r (.rsp p) = g₁ at hsent hg' ⊢
  refine After.ownerPool fun q _ =>
    After.statsPool (After.modConn (After.pay (.single (cursor_move (some r)))
      (After.pure (.here ?_))))
  refine ⟨hsent.trans (.cursor h₁ g₁ (some r)), ?_, ?_, fun he => by cases he⟩
  · simp [hready]
  · rintro _ ⟨⟩
    refine ⟨by simp, p, ?_⟩
    rw [Heap.net_cursor]
    exact ⟨hg'.queue, hg'.marked, hg'.linked⟩

/-- The response of a request that is not in error is found. -/
lemma rspPeer_moves {ps rs rest : List MsgId} (hq : (h.conn c).omsgq = ps ++ p :: rest)
    (hg : (h.net g).Gathered c [] ps rs) (hmark : (h.net g).Marked p)
    (hr : (h.msg p).peer = some r) :
    After (do
        let r := (← getMsg p).peer
        modConn c fun x => { x with smsg := r }
        return r)
      (Reach SendMove (h.net g) fun o h' g' => Next c ps rs o h h' g g') h := by
  refine After.getMsg (After.modConn (After.pay (.single (cursor_move _)) (After.pure (.here ?_))))
  rw [hr]
  refine ⟨.cursor h g (some r), by simp, ?_, fun he => by cases he⟩
  rintro _ ⟨⟩
  refine ⟨by simp, p, ?_⟩
  rw [Heap.net_cursor]
  refine ⟨⟨rest, by simp [hq]⟩, fun y hy => ?_, ?_⟩
  · rw [List.nil_append] at hy
    rcases List.mem_append.mp hy with hy | hy
    · exact hg.marked y hy
    · rwa [List.mem_singleton.mp hy]
  · rw [List.map_append, List.map_append]
    exact congrArg₂ _ hg.linked (by simp [hr])

/-- The response of request `p`, the next one in the queue.

**Proof sketch.** If the request is in error, a reply is made for it, and linked to it; otherwise it
has a response, as every request that is done has. -/
lemma rspOf_moves {ps rs rest : List MsgId} (hs : Sound (h.net g)) (ha : Answered (h.net g))
    (hc : (h.net g).Client c) (hcl : c ∉ g.closing) (hp : g.pend = [])
    (hq : (h.conn c).omsgq = ps ++ p :: rest) (hg : (h.net g).Gathered c [] ps rs)
    (hmark : (h.net g).Marked p) :
    After (rspOf env c p) (Reach SendMove (h.net g) fun o h' g' => Next c ps rs o h h' g g') h := by
  unfold rspOf
  refine After.followMove (reqError_moves h g c p) ?_
  rintro b h₁ g₁ hmoves₁ ⟨rfl, hconn₁, ⟨f, he₁⟩, hb⟩
  have hs₁ := Moves.sound hmoves₁ hs
  have hq₁ : (h₁.conn c).omsgq = ps ++ p :: rest := by rw [hconn₁, hq]
  have hc₁ : (h₁.net g₁).Client c := by
    rw [he₁]
    exact hc
  have hmark₁ : (h₁.net g₁).Marked p := by
    rw [he₁]
    exact hmark
  have hg₁ : (h₁.net g₁).Gathered c [] ps rs := by
    rw [he₁]
    exact ⟨hg.queue, hg.marked, hg.linked⟩
  have hsent₁ : Sent c h h₁ g₁ g₁ := ⟨.refl g₁, by rw [he₁], fun x _ => by rw [hconn₁]⟩
  refine After.ite (fun hyes => ?_) fun hno => ?_
  · -- the request is in error
    have hmarks₁ : ∀ y ∈ ps ++ [p], (h₁.net g₁).Marked y := by
      intro y hy
      rcases List.mem_append.mp hy with hy | hy
      · exact hg₁.marked y hy
      · rwa [List.mem_singleton.mp hy]
    refine After.followMove (rspMakeError_moves hs₁ hc₁ hcl hp hq₁ hmarks₁ (hb.mp hyes)) ?_
    rintro o h₂ g₂ hmoves₂ ⟨hdrop, hmark₂, hpeer₂, hnew⟩
    have hs₂ := Moves.sound hmoves₂ hs₁
    have hc₂ := hdrop.client hc₁
    have hsent₂ := hsent₁.trans hdrop.sent
    obtain ⟨rest₂, hconn₂⟩ := hdrop.conn
    have hq₂ : (h₂.conn c).omsgq = ps ++ p :: rest₂ := by
      rw [hconn₂]
      simp
    have hg₂ : (h₂.net g₂).Gathered c [] ps rs := by
      refine hg₁.frame ⟨p :: rest₂, by simp [hq₂]⟩ (fun y hy hold => ?_) fun y hy => ?_
      · simp only [Net.Marked, Heap.net_msg] at hold ⊢
        rwa [hdrop.msg y hy]
      · simp only [Heap.net_msg]
        rw [hdrop.msg y hy]
    have hready₂ : (h₂.conn c).sendReady = (h.conn c).sendReady := by
      rw [hconn₂, hconn₁]
      simp
    have hsmsg₂ : (h₂.conn c).smsg = (h.conn c).smsg := by
      rw [hconn₂, hconn₁]
      simp
    have hnext : ∀ {x : Core (Option MsgId)},
        After x (Reach SendMove (h₂.net g₂) fun o h' g' => Next c ps rs o h₂ h' g₂ g') h₂ →
        After x (Reach SendMove (h₂.net g₂) fun o h' g' => Next c ps rs o h h' g₁ g') h₂ :=
      fun hx => hx.mono fun o' h₃ hreach => hreach.mono fun g₃ hfound =>
        hsent₂.next hready₂ hsmsg₂ hfound
    cases o with
    | none => exact hnext (rspNone_moves hg₂)
    | some r =>
      obtain ⟨hhand, hrpeer, hrtmo⟩ := hnew r rfl
      exact hnext
        (rspLink_moves hs₂ hc₂ (hdrop.sent.pend hp) hq₂ hg₂ hmark₂ hpeer₂ hhand hrpeer hrtmo)
  · -- the request has a response
    have herr : ¬(h₁.net g₁).InError p := fun herr => hno (hb.mpr herr)
    have hmem : p ∈ (h₁.net g₁).c.omsgq c := by simp [hq₁]
    have hplace : g₁.place p = .req (some c) none := hs₁.inv.ended hc₁ hmem hmark₁.1
    have hpeer : (h₁.msg p).peer ≠ none := by
      rcases Moves.answered hmoves₁ hs.inv ha p c ⟨hplace, hcl, hmark₁.1⟩ with he | he | he
      · exact absurd (.inl he) herr
      · exact absurd (.inr he) herr
      · exact he
    obtain ⟨r, hr⟩ := Option.ne_none_iff_exists'.mp hpeer
    exact (rspPeer_moves hq₁ hg₁ hmark₁ hr).mono fun o' h₂ hreach => hreach.mono fun g₂ hfound =>
      hsent₁.next (by rw [hconn₁]) (by rw [hconn₁]) hfound

/-! ## `rsp_send_next` -/

/-- A request that was gathered has a response. -/
lemma Net.Gathered.peer {kept ps rs : List MsgId} (hg : n.Gathered c kept ps rs) (hp : p ∈ ps) :
    ∃ r, n.m.peer p = some r := by
  have hmem : n.m.peer p ∈ ps.map n.m.peer := List.mem_map_of_mem hp
  rw [hg.linked] at hmem
  obtain ⟨r, -, hr⟩ := List.mem_map.mp hmem
  exact ⟨r, hr.symm⟩

/-- The request of a response that was gathered. -/
lemma Inv.peer_peer (hi : Inv n) (hc : n.Client c) (hp : p ∈ n.c.omsgq c) (hd : n.m.done p = true)
    (hr : n.m.peer p = some r) : n.m.peer r = some p :=
  (hi.facts.rsp r p (hi.facts.peer p (some c) r (hi.ended hc hp hd) hr)).2.1

/-- The cursor is the response of the last request of `ps`. -/
def Heap.CursorAt (h : Heap) (c : ConnId) (ps : List MsgId) : Prop :=
  (h.conn c).smsg = ps.getLast?.bind fun p => (h.msg p).peer

/-- The cursor tells which request is next. -/
lemma rspCursor_after {ps rs rest : List MsgId} (hi : Inv (h.net g)) (hc : (h.net g).Client c)
    (hg : (h.net g).Gathered c [] ps rs) (hq : (h.conn c).omsgq = ps ++ rest)
    (hcur : h.CursorAt c ps) :
    After (rspCursor (h.conn c)) (fun o h' => h' = h ∧ o = rest.head?) h := by
  unfold rspCursor
  rw [show (h.conn c).smsg = _ from hcur]
  rcases List.eq_nil_or_concat ps with rfl | ⟨ps', p, rfl⟩
  · exact After.pure ⟨rfl, by rw [hq]; rfl⟩
  · rw [List.concat_eq_append] at hq hg ⊢
    obtain ⟨r, hr⟩ := hg.peer (p := p) (by simp)
    have hr' : (h.msg p).peer = some r := hr
    have hpeer : (h.msg r).peer = some p :=
      hi.peer_peer hc (by simp [hq]) (hg.marked p (by simp)).1 hr
    have hnodup := hi.queues.omsgq_nodup c hc.isOpen
    simp only [Heap.net_conn, hq, List.append_assoc, List.singleton_append] at hnodup
    have hnotin : p ∉ ps' := fun hmem => (List.nodup_append.mp hnodup).2.2 p hmem p (by simp) rfl
    simp only [List.getLast?_append, List.getLast?_singleton, Option.some_or, Option.bind_some, hr']
    refine After.getMsg ?_
    rw [hpeer]
    refine After.deref fun p' hp' => After.pure ⟨rfl, ?_⟩
    obtain rfl := Option.some.inj hp'
    rw [hq, List.append_assoc]
    exact tailqNext_append rest hnotin

/-- Nothing more is gathered, and the cursor is forgotten. -/
lemma Next.ends {ps rs : List MsgId} {h₁ : Heap} (hs : Sent c h h₁ g g)
    (hg : (h₁.net g).Gathered c [] ps rs) (hready : (h₁.conn c).sendReady = (h.conn c).sendReady)
    (hidle : (h.conn c).smsg = none → ∃ x, .idle x ∈ h₁.log) :
    Next c ps rs none h (h₁.modConn c fun x => { x with smsg := none }) g g := by
  refine ⟨hs.trans (.cursor h₁ g none), by simp [hready], by simp,
    fun _ => ⟨?_, fun hnone => ⟨by simp, .inr ?_⟩⟩⟩
  · rw [Heap.net_cursor]
    exact ⟨hg.queue, hg.marked, hg.linked⟩
  · exact hidle hnone

/-- Without a cursor nothing has been gathered. -/
lemma Heap.CursorAt.eq_nil {ps rs : List MsgId} (hcur : h.CursorAt c ps)
    (hg : (h.net g).Gathered c [] ps rs) (hnone : (h.conn c).smsg = none) : ps = [] := by
  rcases List.eq_nil_or_concat ps with rfl | ⟨ps', p, rfl⟩
  · rfl
  · obtain ⟨r, hr⟩ := hg.peer (p := p) (by simp)
    have hr' : (h.msg p).peer = some r := hr
    have hsmsg : (h.conn c).smsg = some r := by
      rw [show (h.conn c).smsg = _ from hcur]
      simpa using hr'
    rw [hnone] at hsmsg
    cases hsmsg

/-- The next request is not done: nothing more is sent.  If nothing was gathered, the wakeup is
consumed in vain, which is logged. -/
lemma rspIdle_moves {ps rs : List MsgId} (hg : (h.net g).Gathered c [] ps rs) :
    After (do
        onlyIf (h.conn c).smsg.isNone (emit (.idle c))
        modConn c fun x => { x with smsg := none }
        return none)
      (Reach SendMove (h.net g) fun o h' g' => Next c ps rs o h h' g g') h := by
  refine After.onlyIf (Q := fun _ h₁ => h₁ = if (h.conn c).smsg.isNone then h.emit (.idle c) else h)
    (fun hnone => After.last (After.emit (After.pure (by simp [hnone]))))
    (fun hnone => by simp [hnone]) ?_
  rintro h₁ rfl
  cases hnone : (h.conn c).smsg with
  | some r =>
    refine After.modConn (After.pay (.single (cursor_move none)) (After.pure (.here
      (Next.ends (.refl c h g) hg rfl fun he => ?_))))
    rw [hnone] at he
    cases he
  | none =>
    have hidle : SendMove (h.net g) ((h.emit (.idle c)).net g) :=
      .move (.server (.note (.idle c) rfl))
    refine After.modConn (After.pay (.tail (.single hidle) (cursor_move none))
      (After.pure (.here (Next.ends ⟨.refl g, rfl, fun _ _ => rfl⟩ ?_ rfl fun _ => ?_))))
    · exact ⟨hg.queue, hg.marked, hg.linked⟩
    · exact ⟨c, by simp [Heap.emit]⟩

/-- The verdict of `req_done` leaves what was gathered as it was. -/
lemma Net.Gathered.flags {kept ps rs : List MsgId} (hg : n.Gathered c kept ps rs)
    (hf : n.Flags n') (hm : ServerMoves n n') (hq : n'.c.omsgq = n.c.omsgq) :
    n'.Gathered c kept ps rs := by
  have hview : n'.m.done = n.m.done ∧ n'.m.fragId = n.m.fragId ∧ n'.m.peer = n.m.peer := by
    obtain ⟨_, _, _, _, _, he⟩ := hf
    exact ⟨by rw [he], by rw [he], by rw [he]⟩
  have hqueue : kept ++ ps <+: n'.c.omsgq c := by
    rw [hq]
    exact hg.queue
  refine hg.frame hqueue (fun y _ hold => ⟨?_, ?_⟩) fun y _ => by rw [hview.2.2]
  · rw [hview.1]
    exact hold.1
  · rw [hview.2.1]
    exact hold.2.imp_right fun hy => ServerMoves.fdone hm hy

/-- **`rsp_send_next`**: the next response.

**Proof sketch.** The cursor stands on the last response that was gathered, so the candidate is the
request behind those that were gathered, or the head of the queue.  If it is done, `rspOf_moves`
finds its response; if not, and nothing was gathered, a wakeup is consumed in vain, which is
logged. -/
theorem rspSendNext_moves {ps rs : List MsgId} (hs : Sound (h.net g)) (ha : Answered (h.net g))
    (hc : (h.net g).Client c) (hcl : c ∉ g.closing) (hp : g.pend = [])
    (hg : (h.net g).Gathered c [] ps rs) (hcur : h.CursorAt c ps) :
    After (rspSendNext env c)
      (Reach SendMove (h.net g) fun o h' g' => Next c ps rs o h h' g g') h := by
  obtain ⟨rest, hq⟩ := hg.queue
  have hq' : (h.conn c).omsgq = ps ++ rest := hq.symm
  unfold rspSendNext
  refine After.getConn (After.ite (fun hnone => ?_) fun hsome => ?_)
  · -- an empty queue
    rw [Option.isNone_iff_eq_none.mp hnone]
    refine After.call (R := fun _ _ => False) ?_ fun _ _ hf => hf.elim
    exact After.fault_bind
  unfold rspSendFrom
  refine After.call (rspCursor_after hs.inv hc hg hq' hcur) ?_
  rintro o h₀ ⟨hh, ho⟩
  rw [hh, ho]
  cases rest with
  | nil =>
    refine After.modConn (After.pay (.single (cursor_move none))
      (After.pure (.here (Next.ends (.refl c h g) hg rfl ?_))))
    intro hnone
    rw [hcur.eq_nil hg hnone] at hq'
    rw [hq'] at hsome
    simp at hsome
  | cons p rest =>
    have hmem : p ∈ (h.conn c).omsgq := by simp [hq']
    have hhead : g.pend = [] ∧ (h.net g).HeadDone c ∨ (h.conn c).omsgq.head? = some p := by
      rcases ps with _ | ⟨x, ps⟩
      · exact .inr (by simp [hq'])
      · exact .inl ⟨hp, Net.headDone (t := p :: rest) hq' hg.marked (by simp)⟩
    have hdone : After (reqDone env c (some p)) (Reach SendMove (h.net g) fun ok h' g' =>
        g' = g ∧ ServerMoves (h.net g) (h'.net g) ∧ (h.net g).Flags (h'.net g) ∧
          (h'.net g).Verdict c p ok ∧
          h'.conn = h.conn ∧ h'.log = h.log) h := by
      refine (reqDone_moves hc hcl hmem hhead).mono fun ok h' hreach => ?_
      obtain ⟨g', hmoves, rfl, hrest⟩ := hreach
      exact ⟨g', Moves.send (ServerMoves.moves hmoves), rfl, hmoves, hrest⟩
    refine After.follow hdone ?_
    rintro ok h₁ g₁ - ⟨rfl, hmoves₁, hflags, hverdict, hconn₁, hlog₁⟩
    have hs₁ := Moves.sound (ServerMoves.moves hmoves₁) hs
    have hq₁ : (h₁.conn c).omsgq = ps ++ p :: rest := by rw [hconn₁, hq']
    have hc₁ : (h₁.net g₁).Client c := by
      obtain ⟨q, ho⟩ := hc
      refine ⟨q, ?_⟩
      show (h₁.conn c).owner = _
      rw [hconn₁]
      exact ho
    have hg₁ : (h₁.net g₁).Gathered c [] ps rs :=
      hg.flags hflags hmoves₁ (congrArg (fun conn c => (conn c).omsgq) hconn₁)
    have hsent₁ : Sent c h h₁ g₁ g₁ := by
      refine ⟨.refl g₁, ?_, fun x _ => by rw [hconn₁]⟩
      show (ConnCols.of h₁.conn).owner = _
      rw [hconn₁]
      rfl
    refine After.ite (fun hok => ?_) fun hok => ?_
    · have ha₁ := Moves.answered (ServerMoves.moves hmoves₁) hs.inv ha
      refine (rspOf_moves hs₁ ha₁ hc₁ hcl hp hq₁ hg₁ (hverdict.marked hok)).mono fun o h₂ hreach =>
        hreach.mono fun g₂ hnext => hsent₁.next (by rw [hconn₁]) (by rw [hconn₁]) hnext
    · rw [← hconn₁]
      refine (rspIdle_moves hg₁).mono fun o h₂ hreach => hreach.mono fun g₂ hnext =>
        hsent₁.next (by rw [hconn₁]) (by rw [hconn₁]) hnext

/-! ## `msg_send` -/

/-- The moves of sending keep `GfwProxy.Answered`. -/
lemma SendMoves.answered (hm : SendMoves n n') (hs : Sound n) (ha : Answered n) : Answered n' := by
  induction hm with
  | refl => exact ha
  | tail hms hm ih =>
    cases hm with
    | move hm => exact hm.answered (SendMoves.sound hms hs).inv ih
    | cursor c x => exact ih.same subset_rfl fun _ => ⟨rfl, rfl, rfl, rfl, rfl, rfl⟩

/-- What the write path of client `c` relies on. -/
structure Answering (n : Net) (c : ConnId) : Prop where
  sound : Sound n
  answered : Answered n
  client : n.Client c
  closing : c ∉ n.g.closing
  pend : n.g.pend = []

/-- The moves of sending keep what the write handler relies on. -/
lemma Answering.sends (ha : Answering (h.net g) c) (hm : SendMoves (h.net g) (h'.net g'))
    (hs : Sent c h h' g g') :
    Answering (h'.net g') c where
  sound := SendMoves.sound hm ha.sound
  answered := SendMoves.answered hm ha.sound ha.answered
  client := by
    obtain ⟨p, ho⟩ := ha.client
    exact ⟨p, by rw [hs.owner]; exact ho⟩
  closing := by
    obtain ⟨place, hg⟩ := hs.moved
    rw [hg]
    exact ha.closing
  pend := hs.pend ha.pend

/-- The first loop of `msg_send_chain` on a client connection. -/
lemma msgGather_client_moves {fuel : ℕ} {ps q : List MsgId} {iov : List (List UInt8)}
    (ha : Answering (h.net g) c) (hg : (h.net g).Gathered c [] ps (q ++ [m]))
    (hcur : h.CursorAt c ps) :
    After (msgGather env c fuel m q iov) (Reach SendMove (h.net g) fun r h' g' => Sent c h h' g g' ∧
      (h'.conn c).sendReady = (h.conn c).sendReady ∧ ∃ ps', (h'.net g').Gathered c [] ps' r.1)
      h := by
  induction fuel generalizing h g ps q m iov with
  | zero => exact After.fault
  | succ fuel ih =>
    unfold msgGather
    refine After.getMsg (After.ite (fun _ => After.pure (.here ⟨.refl c h g, rfl, ps, hg⟩))
      fun _ => ?_)
    unfold connSendNext
    simp only [bind_assoc]
    refine After.getConn ?_
    rw [show (h.conn c).client = true from (ha.sound.inv.addr.pool_client c ha.client).1]
    refine After.follow (rspSendNext_moves ha.sound ha.answered ha.client ha.closing
      ha.pend hg hcur) ?_
    rintro o h₁ g₁ hmoves₁ hnext
    cases o with
    | none => exact After.pure (.here ⟨hnext.sent, hnext.ready, ps, (hnext.stopped rfl).1⟩)
    | some r =>
      obtain ⟨hsmsg, p, hg₁⟩ := hnext.found r rfl
      have hcur₁ : h₁.CursorAt c (ps ++ [p]) := by
        have hpeer := congrArg List.getLast? hg₁.linked
        rw [Heap.CursorAt, hsmsg]
        simpa using hpeer.symm
      refine (ih (ha.sends hmoves₁ hnext.sent) hg₁ hcur₁).mono fun _ h₂ hreach => ?_
      obtain ⟨g₂, hmoves₂, hsent₂, hready₂, hg₂⟩ := hreach
      exact ⟨g₂, hmoves₂, hnext.sent.trans hsent₂, hready₂.trans hnext.ready, hg₂⟩

/-- A response has been sent: its request leaves the queue. -/
lemma finalize_client_after (hc : (h.conn c).client = true) (hr : (h.msg r).peer = some p) :
    After (finalize c r) (fun _ h' => h' = h.leave c p) h := by
  unfold finalize noteSent
  simp only [bind_assoc]
  refine After.getMsg (After.getConn ?_)
  rw [hc]
  refine After.onlyIf (Q := fun _ h' => h' = h) (fun hno => by simp at hno) (fun _ => rfl) ?_
  rintro h₁ rfl
  unfold connSendDone rspSendDone reqClientDequeueOmsgq
  refine After.getConn ?_
  rw [hc]
  refine After.getMsg ?_
  rw [hr]
  refine After.deref fun p' hp' => ?_
  obtain rfl := Option.some.inj hp'
  exact After.modConn (After.last (After.modHeap (After.pure rfl)))

/-- A request leaves the queue, and the others are as they were. -/
lemma Net.Gathered.leave {kept ps rs : List MsgId} (hi : Inv (h.net g)) (hc : (h.net g).Client c)
    (hg : (h.net g).Gathered c kept (p :: ps) (r :: rs)) :
    ((h.leave c p).net g').Gathered c kept ps rs := by
  obtain ⟨rest, hq⟩ := hg.queue
  have hq' : (h.conn c).omsgq = kept ++ p :: (ps ++ rest) := by
    rw [show (h.conn c).omsgq = _ from hq.symm]
    simp
  have hnodup := hi.queues.omsgq_nodup c hc.isOpen
  simp only [Heap.net_conn, hq'] at hnodup
  have hp : p ∉ kept ∧ p ∉ ps := by
    constructor
    · exact fun hmem => (List.nodup_append.mp hnodup).2.2 p hmem p (by simp) rfl
    · exact fun hmem => (List.nodup_cons.mp (List.nodup_append.mp hnodup).2.1).1
        (List.mem_append_left _ hmem)
  have hplace := hi.ended hc (m := p) (by simp [hq']) (hg.marked p (by simp)).1
  have hmsg : ∀ y ∈ kept ++ ps, (h.leave c p).msg y = h.msg y := by
    intro y hy
    refine Heap.leave_msg ?_ (hi.peer_ne hc hplace ?_)
    · rintro rfl
      exact (List.mem_append.mp hy).elim hp.1 hp.2
    · simp only [Heap.net_conn, hq', List.mem_append, List.mem_cons] at hy ⊢
      tauto
  refine ⟨⟨rest, ?_⟩, fun y hy => ?_, ?_⟩
  · show kept ++ ps ++ rest = ((h.leave c p).conn c).omsgq
    rw [Heap.leave_conn]
    simp only [update_self, hq']
    rw [List.erase_append_right _ hp.1, List.erase_cons_head, List.append_assoc]
  · have hold := hg.marked y (by
      simp only [List.mem_append, List.mem_cons] at hy ⊢
      tauto)
    simp only [Net.Marked, Heap.net_msg] at hold ⊢
    rwa [hmsg y hy]
  · have hold := (List.cons.inj hg.linked).2
    refine (List.map_congr_left fun y hy => ?_).trans hold
    simp only [Heap.net_msg]
    rw [hmsg y (List.mem_append_right _ hy)]

/-- The last loop of `msg_send_chain` on a client connection. -/
lemma msgSent_client_moves {k : ℕ} {kept ps : List MsgId} (rs : List MsgId) (hs : Sound (h.net g))
    (hc : (h.net g).Client c) (hcl : c ∉ g.closing) (hp : g.pend = [])
    (hg : (h.net g).Gathered c kept ps rs) :
    After (msgSent c k rs) (Reach Move (h.net g) fun _ h' g' => SentFrom c h h' g g') h := by
  induction rs generalizing h g k kept ps with
  | nil => exact After.pure (.here (.refl c h g))
  | cons r rs ih =>
    cases ps with
    | nil => exact absurd hg.linked (by simp)
    | cons p ps =>
    -- the loop goes on behind response `r`, whose request has left the queue or not
    have hrest : ∀ {i : ℕ} {l : List MsgId} {h₁ : Heap} {g₁ : Ghost}, Moves (h.net g) (h₁.net g₁) →
        SentFrom c h h₁ g g₁ → (h₁.net g₁).Gathered c l ps rs →
        After (msgSent c i rs) (Reach Move (h₁.net g₁) fun _ h' g' => SentFrom c h h' g g') h₁ := by
      intro i l h₁ g₁ hmoves hsent hg₁
      have hc₁ : (h₁.net g₁).Client c := by
        obtain ⟨q, ho⟩ := hc
        exact ⟨q, by rw [hsent.owner]; exact ho⟩
      obtain ⟨place, hgh⟩ := hsent.moved
      have hcl₁ : c ∉ g₁.closing ∧ g₁.pend = [] := by
        rw [hgh]
        exact ⟨hcl, hp⟩
      exact (ih (Moves.sound hmoves hs) hc₁ hcl₁.1 hcl₁.2 hg₁).mono fun _ h₂ hreach =>
        hreach.mono fun g₂ hsent₂ => hsent.trans hsent₂
    have hfinal : ∀ {b : Bool} {i : ℕ} {h₀ : Heap}, Moves (h.net g) (h₀.net g) →
        SentFrom c h h₀ g g → (h₀.net g).Gathered c kept (p :: ps) (r :: rs) →
        After (do onlyIf b (finalize c r); msgSent c i rs)
          (Reach Move (h₀.net g) fun _ h' g' => SentFrom c h h' g g') h₀ := by
      intro b i h₀ hmoves hsent hg₀
      cases b with
      | false =>
        refine hrest (l := kept ++ [p]) hmoves hsent ⟨?_, ?_, (List.cons.inj hg₀.linked).2⟩
        · simpa using hg₀.queue
        · simpa using hg₀.marked
      | true =>
        have hs₀ := Moves.sound hmoves hs
        have hc₀ : (h₀.net g).Client c := by
          obtain ⟨q, ho⟩ := hc
          exact ⟨q, by rw [hsent.owner]; exact ho⟩
        obtain ⟨rest, hq⟩ := hg₀.queue
        have hmem : p ∈ (h₀.net g).c.omsgq c := by
          rw [← hq]
          simp
        have hmark := hg₀.marked p (by simp)
        have hpeer : (h₀.msg r).peer = some p :=
          hs₀.inv.peer_peer hc₀ hmem hmark.1 (Option.some.inj (congrArg List.head? hg₀.linked))
        obtain ⟨g₁, hmoves₁, hmoved₁⟩ := requestLeave_moves hs₀ hp (hs₀.inv.ended hc₀ hmem hmark.1)
          (hs₀.inv.vectorDone hc₀ hcl hmem hmark hmem (.inl rfl))
          (Net.headDone (t := rest) hq.symm hg₀.marked (by simp))
        show After (finalize c r >>= fun _ => msgSent c i rs) _ h₀
        refine After.call (finalize_client_after (hs₀.inv.addr.pool_client c hc₀).1 hpeer) ?_
        rintro - _ rfl
        have hsent₁ : SentFrom c h₀ (h₀.leave c p) g g₁ := by
          have hconn := Heap.leave_conn (h := h₀) (c := c) (m := p)
          refine ⟨hmoved₁, ?_, ?_, ?_, by simp [hconn]⟩
          all_goals
            simp only [Heap.net]
            rw [Heap.net_conn_update hconn]
            exact update_eq_self c _
        exact After.pay hmoves₁ (hrest (hmoves.trans hmoves₁) (hsent.trans hsent₁)
          (hg₀.leave hs₀.inv hc₀))
    unfold msgSent
    refine After.getMsg (After.ite (fun _ => ?_) fun _ => ?_)
    · have hthis := hfinal (b := decide ((h.msg r).mlen = 0)) (i := 0) .refl (.refl c h g) hg
      exact hthis
    refine After.follow (noteWritten_moves h g c r _ _) ?_
    rintro - h₁ g₁ hmoves₁ ⟨rfl, ⟨log, he⟩, hready⟩
    refine After.modMsg ?_
    have hunseen : (h₁.modMsg r fun x =>
        { x with mhdr := (consumeMbufs k (h.msg r).mhdr).1 }).net g₁ = h₁.net g₁ :=
      Heap.net_modMsg_unseen rfl
    refine After.same hunseen (hfinal ?_ ⟨.refl g₁, ?_, ?_, ?_, hready⟩ ?_)
    · rw [hunseen]
      exact hmoves₁
    · rw [hunseen, he]
    · rw [hunseen, he]
    · rw [hunseen, he]
    · rw [hunseen, he]
      exact ⟨hg.queue, hg.marked, hg.linked⟩

/-- **`msg_send_chain`** on a client connection.

**Proof sketch.** The loops before and behind the `writev` are `msgGather_client_moves` and
`msgSent_client_moves`; between them only the marks for written bytes change, and a write that is
not complete leaves the socket full. -/
theorem msgSendChain_client_moves (ha : Answering (h.net g) c) (hcold : c ∈ g.cold) {p : MsgId}
    (hg : (h.net g).Gathered c [] [p] [m]) (hcur : (h.conn c).smsg = some m) :
    After (msgSendChain env c m) (Reach SendMove (h.net g) fun status h' g' => Sent c h h' g g' ∧
      (h'.conn c).smsg = none ∧ h.Shortened c status h') h := by
  have hpeer : (h.msg p).peer = some m := Option.some.inj (congrArg List.head? hg.linked)
  have hcur' : h.CursorAt c [p] := by
    rw [Heap.CursorAt, hcur]
    simpa using hpeer.symm
  unfold msgSendChain
  refine After.follow (msgGather_client_moves (q := []) ha hg hcur') ?_
  rintro ⟨sendq, iov⟩ h₁ g₁ hmoves₁ ⟨hsent₁, hready₁, ps, hg₁⟩
  refine After.modConn (After.pay (.single (cursor_move none)) ?_)
  have hsent₂ := hsent₁.trans (.cursor h₁ g₁ none)
  have hmoves₂ := hmoves₁.tail (cursor_move (h := h₁) (g := g₁) (c := c) none)
  have hready₂ : ((h₁.modConn c fun x => { x with smsg := none }).conn c).sendReady =
      (h.conn c).sendReady := by
    simp [hready₁]
  have hnone₂ : ((h₁.modConn c fun x => { x with smsg := none }).conn c).smsg = none := by simp
  have hg₂ : ((h₁.modConn c fun x => { x with smsg := none }).net g₁).Gathered c [] ps sendq := by
    rw [Heap.net_cursor]
    exact ⟨hg₁.queue, hg₁.marked, hg₁.linked⟩
  generalize (h₁.modConn c fun x => { x with smsg := none }) =
    h₂ at hsent₂ hmoves₂ hready₂ hnone₂ hg₂ ⊢
  have hcold₂ : c ∈ g₁.cold := by
    obtain ⟨place, rfl⟩ := hsent₁.moved
    exact hcold
  refine After.follow (sendGathered_moves (fun _ => hcold₂) iov) ?_
  rintro ⟨status, k⟩ h₃ g₃ hmoves₃ ⟨rfl, hwrote, hshort⟩
  have hsent₃ := hsent₂.trans hwrote.sent
  have hmoves₃ := hmoves₂.trans hmoves₃
  have ha₃ := ha.sends hmoves₃ hsent₃
  obtain ⟨b, he⟩ := hwrote
  have hg₃ : (h₃.net g₃).Gathered c [] ps sendq := by
    rw [he]
    exact ⟨hg₂.queue, hg₂.marked, hg₂.linked⟩
  refine After.followMove (msgSent_client_moves sendq ha₃.sound ha₃.client ha₃.closing ha₃.pend hg₃)
    ?_
  rintro - h₄ g₄ - hsent₄
  refine After.pure (.here ⟨hsent₃.trans hsent₄.sent, ?_, fun hr hstatus hr' => ?_⟩)
  · have hsmsg₃ : (h₃.conn c).smsg = none := (congrArg (fun n : Net => n.c.smsg c) he).trans hnone₂
    exact (congrFun hsent₄.smsg c).trans hsmsg₃
  · have hne : status ≠ .error := by
      rintro rfl
      exact hstatus (if_pos rfl)
    exact (congrFun hsent₄.lastShort c).trans
      (hshort (hready₂.trans hr) hne (hsent₄.sendReady.symm.trans hr'))

/-- The write path of a client ends with a short write, or with nothing to send at the head of its
queue. -/
def Heap.Settles (h : Heap) (c : ConnId) : Prop :=
  (h.conn c).lastShort = true ∨ ∃ x, .idle x ∈ h.log

/-- **`msg_send`** on a client connection.

**Proof sketch.** Induction on the fuel.  Each round finds a response and sends the chain that
begins with it, or finds none and stops. -/
theorem msgSendLoop_client_moves (fuel : ℕ) (ha : Answering (h.net g) c) (hcold : c ∈ g.cold)
    (hcur : (h.conn c).smsg = none) (hready : (h.conn c).sendReady = true) :
    After (msgSendLoop env c fuel) (Reach SendMove (h.net g) fun status h' g' => Sent c h h' g g' ∧
      (h'.conn c).smsg = none ∧ (status = .ok → (h'.conn c).err = 0 → h'.Settles c)) h := by
  induction fuel generalizing h g with
  | zero => exact After.fault
  | succ fuel ih =>
    unfold msgSendLoop connSendNext
    simp only [bind_assoc]
    refine After.getConn ?_
    rw [show (h.conn c).client = true from (ha.sound.inv.addr.pool_client c ha.client).1]
    have hg : (h.net g).Gathered c [] [] [] := ⟨List.nil_prefix, by simp, rfl⟩
    refine After.follow (rspSendNext_moves ha.sound ha.answered ha.client ha.closing
      ha.pend hg hcur) ?_
    rintro o h₁ g₁ hmoves₁ hnext
    have ha₁ := ha.sends hmoves₁ hnext.sent
    cases o with
    | none =>
      obtain ⟨hnone, hstop⟩ := (hnext.stopped rfl).2 hcur
      refine After.pure (.here ⟨hnext.sent, hnone, fun _ herr => .inr ?_⟩)
      exact hstop.resolve_left (not_not_intro herr)
    | some m =>
      obtain ⟨hsmsg, p, hg₁⟩ := hnext.found m rfl
      have hcold₁ : c ∈ g₁.cold := by
        obtain ⟨place, rfl⟩ := hnext.sent.moved
        exact hcold
      have hready₁ := hnext.ready.trans hready
      refine After.follow (msgSendChain_client_moves ha₁ hcold₁ hg₁ hsmsg) ?_
      rintro status h₂ g₂ hmoves₂ ⟨hsent₂, hnone₂, hshort⟩
      have hsent := hnext.sent.trans hsent₂
      refine After.ite (fun hne => After.pure (.here ⟨hsent, hnone₂, fun hok => absurd hok hne⟩))
        fun hok => ?_
      refine After.getConn (After.ite (fun hagain => ?_) fun hstop => ?_)
      · have hcold₂ : c ∈ g₂.cold := by
          obtain ⟨place, rfl⟩ := hsent₂.moved
          exact hcold₁
        exact (ih (ha₁.sends hmoves₂ hsent₂) hcold₂ hnone₂ hagain).mono fun _ h₃ hreach =>
          hreach.mono fun g₃ hafter => ⟨hsent.trans hafter.1, hafter.2⟩
      · refine After.pure (.here
          ⟨hsent, hnone₂, fun _ _ => .inl (hshort hready₁ ?_ (by simpa using hstop))⟩)
        rw [not_not.mp hok]
        rintro ⟨⟩

end GfwProxy
