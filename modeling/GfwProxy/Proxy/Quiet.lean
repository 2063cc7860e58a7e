import GfwProxy.Lib.Exec
import GfwProxy.Proxy.Ledger
import GfwProxy.Proxy.Loop

set_option autoImplicit false

/-!
# What neither opens nor closes a connection

Few functions open, connect or close a connection, or mark one `done`.  All others leave what is
kept of these as it was, whatever else they do to the queues, the messages and the statistics.

## Main definitions

* `GfwProxy.Part` — a part of the state that is about the links of connections and `done` only.
* `GfwProxy.Quiet` — the computation leaves such a part as it was.

## Main results

* One lemma for each function of the handlers that is quiet.

## Design

The bytes written to the socket are in the ledger, so of the send path only what comes before and
after the `writev` is quiet.  What marks a connection `done` is quiet for the ledger only.
-/

namespace GfwProxy

open Exec

/-- Ghost: the event that a connection becomes `done`. -/
def Ev.isDone : Ev → Bool
  | .done .. => true
  | _ => false

/-- Ghost: which connections became `done`, the last one first. -/
def Heap.closings (h : Heap) : List Ev := h.log.filter Ev.isDone

/-- From `h` to `h'`, neither the connections nor their lists have changed, and no connection has
become `done`. -/
structure Heap.SameConns (h h' : Heap) : Prop where
  conn : h'.conn = h.conn
  sConnq : h'.sConnq = h.sConnq
  freeConnq : h'.freeConnq = h.freeConnq
  nextConn : h'.nextConn = h.nextConn
  closings : h'.closings = h.closings

/-- A part of the state that depends on the lists of connections, on their links, on `done`, and on
the gauges only. -/
class Part {β : Type} (π : St → β) : Prop where
  heap : ∀ (σ : St) (h : Heap), σ.heap.SameConns h → π { σ with heap := h } = π σ
  conn : ∀ (σ : St) (c : ConnId) (f : Conn → Conn),
    (∀ x, (f x).link = x.link ∧ (f x).done = x.done) →
    π { σ with heap := σ.heap.modConn c f } = π σ
  rest : ∀ σ σ' : St, σ'.heap = σ.heap →
    (∀ p i, σ'.serverStat p i .serverConnections = σ.serverStat p i .serverConnections) →
    π σ' = π σ

/-- The ledger is such a part. -/
instance : Part St.ledger where
  heap σ h hs := by
    unfold St.ledger
    simp only [hs.conn, hs.sConnq, hs.freeConnq, hs.nextConn]
  conn σ c f hf := by
    ext1
    case link =>
      funext x
      rcases eq_or_ne x c with rfl | hne
      · simpa [St.ledger, Heap.modConn] using (hf (σ.heap.conn x)).1
      · simp [St.ledger, Heap.modConn, hne]
    all_goals rfl
  rest σ σ' hheap hstat := by
    unfold St.ledger
    simp only [hheap, hstat]

/-- The computation leaves a part of the state as it was. -/
abbrev Quiet {β α : Type} (π : St → β) (x : Core α) : Prop := Keeps π x

namespace Quiet

variable {α β γ : Type} {π : St → γ} [Part π] {x y : Core α} {f : α → Core β} {env : Env}
  {c s : ConnId} {m : MsgId}

section Rules

omit [Part π]

/-- A pure computation is quiet. -/
protected lemma pure (a : α) : Quiet π (pure a) := Keeps.pure a

/-- Quiet computations compose. -/
protected lemma bind (hx : Quiet π x) (hf : ∀ a, Quiet π (f a)) : Quiet π (x >>= f) :=
  Keeps.bind hx hf

/-- The rule of the conditional. -/
protected lemma ite {p : Prop} [Decidable p] (ht : Quiet π x) (hf : Quiet π y) :
    Quiet π (if p then x else y) :=
  Keeps.ite ht hf

/-- A quiet computation that is run only under a condition. -/
protected lemma onlyIf (b : Bool) {x : Core Unit} (hx : Quiet π x) : Quiet π (onlyIf b x) :=
  Keeps.ite hx (Keeps.pure ())

/-! ## Statements -/

/-- A statement that reads the state. -/
protected lemma read {x : Core α} (v : St → α) (hx : ∀ σ, x σ = .ok (v σ, σ)) : Quiet π x :=
  Keeps.run v id hx fun _ => rfl

/-- Reading the heap changes nothing. -/
protected lemma readHeap (f : Heap → α) : Quiet π (readHeap f) :=
  Quiet.read (fun σ => f σ.heap) fun _ => rfl

/-- Reading a connection changes nothing. -/
protected lemma getConn (c : ConnId) : Quiet π (getConn c) := Quiet.readHeap _

/-- Reading a message changes nothing. -/
protected lemma getMsg (m : MsgId) : Quiet π (getMsg m) := Quiet.readHeap _

/-- Reading a pool changes nothing. -/
protected lemma getPool (p : ℕ) : Quiet π (getPool p) :=
  Quiet.read (fun σ => σ.pool p) fun _ => rfl

/-- A fault has no state behind it. -/
protected lemma fault (e : Fault) : Quiet π (fault e : Core α) := by
  rintro σ a σ' ⟨⟩

/-- A dereference faults or changes nothing. -/
protected lemma deref (o : Option α) : Quiet π (deref o) := by
  cases o with
  | none => exact Quiet.fault _
  | some a => exact Quiet.pure a

/-- The cast of an owner faults or changes nothing. -/
protected lemma ownerServer (s : ConnId) : Quiet π (ownerServer s) := by
  refine .bind (.getConn s) fun conn => ?_
  split
  · exact .pure _
  · exact .fault _

/-- The cast of an owner faults or changes nothing. -/
protected lemma ownerPool (c : ConnId) : Quiet π (ownerPool c) := by
  refine .bind (.getConn c) fun conn => ?_
  split
  · exact .pure _
  · exact .fault _

/-- `conn_authenticated` reads a flag. -/
protected lemma connAuthenticated (c : ConnId) : Quiet π (connAuthenticated c) :=
  .bind (.getConn c) fun _ => .bind (.deref _) fun _ => .bind (.getPool _) fun _ =>
    .ite (.pure _) (.pure _)

/-- The first key of a request is read. -/
protected lemma firstKey (m : MsgId) : Quiet π (firstKey m) := by
  refine .bind (.getMsg m) fun msg => ?_
  split
  · exact .fault _
  · exact .fault _
  · exact .pure _

/-- Whether an event closes the connection is read from it. -/
protected lemma mustClose (c : ConnId) (status : Rstatus) : Quiet π (mustClose c status) :=
  .bind (.getConn c) fun _ => .pure _

end Rules

/-- A change of the objects other than the connections and their lists. -/
protected lemma modHeap {f : Heap → Heap} (hf : ∀ h : Heap, h.SameConns (f h)) :
    Quiet π (modHeap f) :=
  Keeps.run (fun _ => ()) (fun σ => { σ with heap := f σ.heap }) (fun _ => rfl) fun σ =>
    Part.heap σ _ (hf σ.heap)

/-- Messages are no part of it. -/
protected lemma modMsg (m : MsgId) (f : Msg → Msg) : Quiet π (modMsg m f) :=
  .modHeap fun _ => ⟨rfl, rfl, rfl, rfl, rfl⟩

/-- Another event than that of a connection that becomes `done`. -/
protected lemma emit (e : Ev) (he : e.isDone = false) : Quiet π (emit e) :=
  .modHeap fun _ => ⟨rfl, rfl, rfl, rfl, List.filter_cons_of_neg (by simp [he])⟩

/-- A change of a connection in a field that is not in its link. -/
protected lemma modConn (c : ConnId) {f : Conn → Conn}
    (hf : ∀ x, (f x).link = x.link ∧ (f x).done = x.done) : Quiet π (modConn c f) :=
  Keeps.run (fun _ => ()) (fun σ => { σ with heap := σ.heap.modConn c f }) (fun _ => rfl)
    fun σ => Part.conn σ c f hf

/-- A statement that changes neither the objects nor the gauges. -/
protected lemma other {x : Core α} (v : St → α) (t : St → St) (hx : ∀ σ, x σ = .ok (v σ, t σ))
    (hheap : ∀ σ, (t σ).heap = σ.heap)
    (hstat : ∀ σ p i, (t σ).serverStat p i .serverConnections =
      σ.serverStat p i .serverConnections) : Quiet π x :=
  Keeps.run v t hx fun σ => Part.rest σ _ (hheap σ) (hstat σ)

/-- An answer of the environment changes the clock only. -/
protected lemma ask (f : ℕ → α) : Quiet π (ask f) :=
  .other (fun σ => f σ.tick) (fun σ => { σ with tick := σ.tick + 1 }) (fun _ => rfl) (fun _ => rfl)
    fun _ _ _ => rfl

/-- A hook of the protocol. -/
protected lemma callHook (hook : Hook) : Quiet π (callHook hook) :=
  .other (fun _ => ()) hook.run (fun _ => rfl) hook.heap fun σ p i => by rw [hook.serverStat]

/-- Reading the error number changes the clock only. -/
protected lemma getErrno : Quiet π (getErrno env) := Quiet.ask _

/-- The operations on a pool do not touch connections. -/
protected lemma runPool (p : ℕ) (f : ServerPool → Except Fault (α × ServerPool)) :
    Quiet π (runPool p f) := by
  intro σ a σ' hr
  unfold runPool at hr
  cases hf : f (σ.pool p) with
  | error e => simp [hf] at hr
  | ok r =>
    simp only [hf, Except.ok.injEq, Prod.mk.injEq] at hr
    obtain ⟨-, rfl⟩ := hr
    exact Part.rest _ _ rfl fun _ _ => rfl

/-- The statistics of a pool are no part of it. -/
protected lemma statsPool (p : ℕ) (name : PoolStat) (val : ℤ) : Quiet π (statsPool p name val) :=
  .other (fun _ => ()) _ (fun _ => rfl) (fun _ => rfl) fun _ _ _ => rfl

omit [Part π] in
/-- Setting another metric of a server leaves the gauge as it is. -/
lemma setServerStat_gauge (σ : St) (p i : ℕ) {name : ServerStat}
    (hname : name ≠ .serverConnections) (val : ℤ) (p' i' : ℕ) :
    (σ.setServerStat p i name val).serverStat p' i' .serverConnections =
      σ.serverStat p' i' .serverConnections := by
  rcases eq_or_ne p' p with rfl | hp
  · rcases eq_or_ne i' i with rfl | hi
    · simp [St.setServerStat, hname.symm]
    · simp [St.setServerStat, hi]
  · simp [St.setServerStat, hp]

/-- Of the statistics of a server, only the gauge of connections is part of it. -/
protected lemma statsServer (p i : ℕ) (name : ServerStat) (hname : name ≠ .serverConnections)
    (val : ℤ) : Quiet π (statsServer p i name val) :=
  .other (fun _ => ()) _ (fun _ => rfl) (fun _ => rfl) fun σ => setServerStat_gauge σ p i hname _

/-- Time stamps are no gauge. -/
protected lemma statsServerSetTs (p i : ℕ) (name : ServerStat) (hname : name ≠ .serverConnections)
    (val : ℤ) : Quiet π (statsServerSetTs p i name val) :=
  .other (fun _ => ()) _ (fun _ => rfl) (fun _ => rfl) fun σ => setServerStat_gauge σ p i hname _

/-! ## Events, timers and messages -/

/-- `conn->err` is set. -/
protected lemma setErrno (c : ConnId) : Quiet π (setErrno env c) :=
  .bind .getErrno fun _ => .modConn c fun _ => ⟨rfl, rfl⟩

/-- `event_add_out` sets flags of the connection. -/
protected lemma eventAddOut (c : ConnId) : Quiet π (eventAddOut env c) := by
  refine .bind (.getConn c) fun conn => .ite (.pure _) (.bind (.ask _) fun ok => .ite ?_ ?_)
  · exact .bind (.modConn c fun _ => ⟨rfl, rfl⟩) fun _ => .pure _
  · exact .bind (.onlyIf _ (.emit _ rfl)) fun _ => .pure _

/-- `event_del_out` sets flags of the connection. -/
protected lemma eventDelOut (c : ConnId) : Quiet π (eventDelOut env c) := by
  refine .bind (.getConn c) fun conn => .ite (.pure _) (.bind (.ask _) fun ok => .ite ?_ (.pure _))
  exact .bind (.modConn c fun _ => ⟨rfl, rfl⟩) fun _ => .pure _

/-- `event_add_conn` sets flags of the connection. -/
protected lemma eventAddConn (c : ConnId) : Quiet π (eventAddConn env c) := by
  refine .bind (.ask _) fun ok => .ite ?_ (.pure _)
  exact .bind (.modConn c fun _ => ⟨rfl, rfl⟩) fun _ => .pure _

/-- `event_del_conn` sets flags of the connection. -/
protected lemma eventDelConn (c : ConnId) : Quiet π (eventDelConn env c) :=
  .bind (.ask _) fun _ => .onlyIf _ (.modConn c fun _ => ⟨rfl, rfl⟩)

/-- Taking a message out of the timeout tree. -/
protected lemma tmoDelete (m : MsgId) : Quiet π (modHeap (Heap.tmoDelete m)) := by
  refine .modHeap fun h => ?_
  unfold Heap.tmoDelete
  split
  · exact ⟨rfl, rfl, rfl, rfl, rfl⟩
  · exact ⟨rfl, rfl, rfl, rfl, rfl⟩

/-- Releasing the response of a request. -/
protected lemma putPeer (m : MsgId) : Quiet π (modHeap (Heap.putPeer m)) := by
  refine .modHeap fun h => ?_
  unfold Heap.putPeer
  split
  · exact ⟨rfl, rfl, rfl, rfl, rfl⟩
  · exact ⟨rfl, rfl, rfl, rfl, rfl⟩

/-- `msg_put` changes the free list of messages. -/
protected lemma msgPut (m : MsgId) : Quiet π (modHeap (Heap.msgPut m)) :=
  .modHeap fun _ => ⟨rfl, rfl, rfl, rfl, rfl⟩

/-- `rsp_put` is `msg_put`. -/
protected lemma rspPut (m : MsgId) : Quiet π (modHeap (Heap.rspPut m)) := Quiet.msgPut m

/-- `req_put` puts the request and its response. -/
protected lemma reqPut (m : MsgId) : Quiet π (modHeap (Heap.reqPut m)) := by
  have hseq : modHeap (Heap.reqPut m) = (do
      modHeap (Heap.putPeer m)
      modHeap (Heap.tmoDelete m)
      modHeap (Heap.msgPut m)) := rfl
  rw [hseq]
  exact .bind (.putPeer m) fun _ => .bind (.tmoDelete m) fun _ => .msgPut m

/-- `msg_tmo_insert` changes the tree of timers. -/
protected lemma msgTmoInsert (m : MsgId) (s : ConnId) : Quiet π (msgTmoInsert env m s) := by
  have htimeout : Quiet π (serverTimeout s) :=
    .bind (.ownerServer s) fun _ => .bind (.getPool _) fun _ => .pure _
  refine .bind htimeout fun timeout => .ite (.pure _) (.bind (.ask _) fun now => ?_)
  exact .modHeap fun _ => ⟨rfl, rfl, rfl, rfl, rfl⟩

/-- `_msg_get` takes a message. -/
protected lemma msgGet₀ : Quiet π (msgGet₀ env) := by
  have haddr : Quiet π (msgAddr env) := by
    refine .bind (.readHeap _) fun free => ?_
    split
    · refine .bind ?_ fun _ => .pure _
      exact .modHeap fun _ => ⟨rfl, rfl, rfl, rfl, rfl⟩
    · refine .bind (.ask _) fun ok =>
        .ite (.bind (.readHeap _) fun m => .bind ?_ fun _ => .pure _) (.pure _)
      exact .modHeap fun _ => ⟨rfl, rfl, rfl, rfl, rfl⟩
  refine .bind haddr fun r => ?_
  cases r with
  | none => exact .pure _
  | some m =>
    refine .bind ?_ fun _ => .bind (.ask _) fun ok => .ite (.bind ?_ fun _ => .pure _) (.pure _)
    · exact .modHeap fun _ => ⟨rfl, rfl, rfl, rfl, rfl⟩
    · exact .modHeap fun _ => ⟨rfl, rfl, rfl, rfl, rfl⟩

/-- `msg_get` takes a message. -/
protected lemma msgGet (c : ConnId) (request : Bool) : Quiet π (msgGet env c request) := by
  refine .bind .msgGet₀ fun r => ?_
  cases r with
  | none => exact .pure _
  | some m => exact .bind (.getConn c) fun _ => .bind (.modMsg m _) fun _ => .pure _

/-- `msg_get_error` takes a message and writes to it. -/
protected lemma msgGetError (redis : Bool) (err : ℤ) : Quiet π (msgGetError env redis err) := by
  refine .bind .msgGet₀ fun r => ?_
  cases r with
  | none => exact .pure _
  | some m =>
    refine .bind (.ask _) fun ok => .ite ?_ ?_
    · exact .bind (.modMsg m _) fun _ => .pure _
    · exact .bind (.msgPut m) fun _ => .pure _

/-! ## Requests -/

/-- `req_done` marks messages. -/
protected lemma reqDone (c : ConnId) (m : Option MsgId) : Quiet π (reqDone env c m) := by
  refine .bind (.deref m) fun m => .bind (.getMsg m) fun msg => ?_
  refine .ite (.pure _) (.ite (.pure _) (.ite (.pure _) (.ite (.pure _) ?_)))
  refine .bind (.readHeap _) fun run => .bind (.readHeap _) fun open_ => .ite (.pure _) ?_
  refine .bind ?_ fun _ => .bind (.ask _) fun bytes => .bind ?_ fun _ => .pure _
  · exact .modHeap fun _ => ⟨rfl, rfl, rfl, rfl, rfl⟩
  · exact .modHeap fun _ => ⟨rfl, rfl, rfl, rfl, rfl⟩

/-- `req_error` marks messages. -/
protected lemma reqError (c : ConnId) (m : MsgId) : Quiet π (reqError c m) := by
  refine .bind (.getMsg m) fun msg => .ite (.pure _) (.ite (.pure _) (.ite (.pure _) ?_))
  refine .bind (.readHeap _) fun run => .bind (.readHeap _) fun error => .ite ?_ (.pure _)
  exact .bind (.modHeap fun _ => ⟨rfl, rfl, rfl, rfl, rfl⟩) fun _ => .pure _

/-- Counting a message into or out of a queue of server connection `s`. -/
protected lemma countQueue (s : ConnId) (m : MsgId) (n bytes : ServerStat) (v : ℤ)
    (w : Msg → ℤ) (hn : n ≠ .serverConnections) (hb : bytes ≠ .serverConnections) :
    Quiet π (do
      let (p, i) ← ownerServer s
      statsServer p i n v
      statsServer p i bytes (w (← getMsg m))) :=
  .bind (.ownerServer s) fun _ => .bind (.statsServer _ _ n hn _) fun _ =>
    .bind (.getMsg m) fun _ => .statsServer _ _ bytes hb _

/-- `req_server_enqueue_imsgq` changes a queue and the statistics. -/
protected lemma reqServerEnqueueImsgq (s : ConnId) (m : MsgId) :
    Quiet π (reqServerEnqueueImsgq env s m) :=
  .bind (.getMsg m) fun _ => .bind (.onlyIf _ (.msgTmoInsert m s)) fun _ =>
    .bind (.modConn s fun _ => ⟨rfl, rfl⟩) fun _ =>
      .countQueue s m .inQueue .inQueueBytes 1 (fun x => x.mlen) nofun nofun

/-- `req_server_dequeue_imsgq` changes a queue and the statistics. -/
protected lemma reqServerDequeueImsgq (s : ConnId) (m : MsgId) :
    Quiet π (reqServerDequeueImsgq s m) :=
  .bind (.modConn s fun _ => ⟨rfl, rfl⟩) fun _ =>
    .countQueue s m .inQueue .inQueueBytes (-1) (fun x => -x.mlen) nofun nofun

/-- `req_server_enqueue_omsgq` changes a queue and the statistics. -/
protected lemma reqServerEnqueueOmsgq (s : ConnId) (m : MsgId) :
    Quiet π (reqServerEnqueueOmsgq s m) :=
  .bind (.modConn s fun _ => ⟨rfl, rfl⟩) fun _ =>
    .countQueue s m .outQueue .outQueueBytes 1 (fun x => x.mlen) nofun nofun

/-- `req_server_dequeue_omsgq` changes a queue, the timers and the statistics. -/
protected lemma reqServerDequeueOmsgq (s : ConnId) (m : MsgId) :
    Quiet π (reqServerDequeueOmsgq s m) :=
  .bind (.tmoDelete m) fun _ => .bind (.modConn s fun _ => ⟨rfl, rfl⟩) fun _ =>
    .countQueue s m .outQueue .outQueueBytes (-1) (fun x => -x.mlen) nofun nofun

/-- `req_client_enqueue_omsgq` changes a queue. -/
protected lemma reqClientEnqueueOmsgq (c : ConnId) (m : MsgId) :
    Quiet π (reqClientEnqueueOmsgq c m) :=
  .modConn c fun _ => ⟨rfl, rfl⟩

/-- `req_client_dequeue_omsgq` changes a queue. -/
protected lemma reqClientDequeueOmsgq (c : ConnId) (m : MsgId) :
    Quiet π (reqClientDequeueOmsgq c m) :=
  .modConn c fun _ => ⟨rfl, rfl⟩

/-! ## Connections -/

/-- The request that was being received is put. -/
protected lemma discardReq (c : ConnId) (m : Option MsgId) : Quiet π (discardReq c m) := by
  cases m with
  | none => exact .pure _
  | some m => exact .bind (.modConn c fun _ => ⟨rfl, rfl⟩) fun _ => .reqPut m

/-- The response that was being received is put. -/
protected lemma discardRsp (s : ConnId) (m : Option MsgId) : Quiet π (discardRsp s m) := by
  cases m with
  | none => exact .pure _
  | some m => exact .bind (.modConn s fun _ => ⟨rfl, rfl⟩) fun _ => .rspPut m

/-- The loop of `client_close` dequeues requests, and puts or swallows them. -/
protected lemma clientCloseMsgs (c : ConnId) (ms : List MsgId) :
    Quiet π (clientCloseMsgs c ms) := by
  induction ms with
  | nil => exact .pure _
  | cons m ms ih =>
    refine .bind (.bind (.reqClientDequeueOmsgq c m) fun _ => ?_) fun _ => ih
    exact .bind (.getMsg m) fun _ => .ite (.reqPut m) (.modMsg m _)

/-- `server_failure` counts failures in the pool. -/
protected lemma serverFailureOf (p i : ℕ) : Quiet π (serverFailureOf env p i) := by
  refine .bind (.ask _) fun now₁ => .bind (.ask _) fun now₂ => .bind (.ask _) fun alloc => ?_
  refine .bind (.runPool p _) fun r => ?_
  cases r with
  | none => exact .pure _
  | some now =>
    exact .bind (.statsServerSetTs p i .serverEjectedAt nofun now) fun _ => .statsPool p _ _

/-- `server_ok` resets the failures in the pool. -/
protected lemma serverOkOf (s : ConnId) : Quiet π (serverOkOf s) :=
  .bind (.ownerServer s) fun _ => .runPool _ _

/-- The owner of a vector counts a fragment. -/
protected lemma countFragment (m : MsgId) : Quiet π (countFragment m) := by
  refine .bind (.getMsg m) fun msg => ?_
  split
  · exact .pure _
  · exact .bind (.readHeap _) fun _ => .bind (.readHeap _) fun _ => .bind (.emit _ rfl) fun _ =>
      .bind (.modMsg _ _) fun _ => .modMsg m _

/-- An access to a client is logged. -/
protected lemma touch (c : ConnId) (m : MsgId) : Quiet π (touch c m) :=
  .bind (.getMsg m) fun _ => .bind (.readHeap _) fun _ => .emit _ rfl

/-- The client is registered for write events if its first request is done. -/
protected lemma wakeHead (c : ConnId) : Quiet π (wakeHead env c) :=
  .bind (.getConn c) fun _ => .bind (.reqDone c _) fun _ => .ite (.eventAddOut c) (.pure _)

/-- `server_close` swallows a request, or completes it in error and wakes its client. -/
protected lemma serverCloseMsg (s : ConnId) (out : Bool) (m : MsgId) :
    Quiet π (serverCloseMsg env s out m) := by
  have hdequeue : Quiet π (serverDequeue s out m) :=
    .ite (.reqServerDequeueOmsgq s m) (.reqServerDequeueImsgq s m)
  refine .bind hdequeue fun _ => .bind (.getMsg m) fun msg => .ite (.reqPut m) ?_
  refine .bind (.deref _) fun c => .bind (.touch c m) fun _ => .bind (.getConn s) fun conn => ?_
  exact .bind (.modMsg m _) fun _ => .bind (.countFragment m) fun _ => .bind (.wakeHead c)
    fun _ => .pure _

/-- The loops of `server_close` are quiet, as each round is. -/
protected lemma serverCloseMsgs (s : ConnId) (out : Bool) (ms : List MsgId) :
    Quiet π (serverCloseMsgs env s out ms) := by
  induction ms with
  | nil => exact .pure _
  | cons m ms ih => exact .bind (.serverCloseMsg s out m) fun _ => ih

/-- `server_pool_server` may rebuild the continuum. -/
protected lemma serverPoolServer (p : ℕ) (key : List UInt8) :
    Quiet π (serverPoolServer env p key) := by
  refine .bind (.getPool p) fun pool => .bind (.ask _) fun rnd => ?_
  split
  · exact .fault _
  · exact .ite (.pure _) (.fault _)

/-- `server_connect` fails with an error on the connection. -/
protected lemma connectFailed (s : ConnId) : Quiet π (connectFailed env s) :=
  .bind .getErrno fun _ => .bind (.modConn s fun _ => ⟨rfl, rfl⟩) fun _ => .pure _

/-! ## Receiving and forwarding requests -/

/-- `req_make_reply` takes a response and enqueues the request. -/
protected lemma reqMakeReply (c : ConnId) (m : MsgId) : Quiet π (reqMakeReply env c m) := by
  refine .bind (.msgGet c false) fun r => ?_
  cases r with
  | none => exact .bind (.setErrno c) fun _ => .pure _
  | some r =>
    exact .bind (.modMsg m _) fun _ => .bind (.modMsg r _) fun _ => .bind (.modMsg m _) fun _ =>
      .bind (.reqClientEnqueueOmsgq c m) fun _ => .pure _

/-- `req_filter` puts a request that is not forwarded; after a `quit` it sets `eof`. -/
protected lemma reqFilter (c : ConnId) (m : MsgId) : Quiet π (reqFilter c m) := by
  refine .bind (.getMsg m) fun msg => .ite (.bind (.reqPut m) fun _ => .pure _) (.ite ?_ ?_)
  · exact .bind (.modConn c fun _ => ⟨rfl, rfl⟩) fun _ => .bind (.reqPut m) fun _ => .pure _
  · exact .bind (.connAuthenticated c) fun _ => .bind (.onlyIf _ (.modMsg m _)) fun _ => .pure _

/-- `req_forward_error` completes the request in error and may wake the client. -/
protected lemma reqForwardError (c : ConnId) (m : MsgId) : Quiet π (reqForwardError env c m) := by
  refine .bind .getErrno fun err => .bind (.modMsg m _) fun _ => .bind (.getMsg m) fun msg => ?_
  refine .ite (.reqPut m) (.bind (.touch c m) fun _ => .bind (.wakeHead c) fun ok => ?_)
  exact .onlyIf _ (.setErrno c)

/-- `req_forward_stats` counts in the statistics. -/
protected lemma reqForwardStats (s : ConnId) (m : MsgId) : Quiet π (reqForwardStats s m) :=
  .countQueue s m .requests .requestBytes 1 (fun x => x.mlen) nofun nofun

/-- The callback of the protocol may mark the connection as authenticated. -/
protected lemma ensureAuth (s : ConnId) : Quiet π (ensureAuth env s) := by
  refine .bind (.connAuthenticated s) fun ok =>
    .ite (.pure _) (.bind (.ask _) fun ok => .ite ?_ (.pure _))
  exact .bind (.modConn s fun _ => ⟨rfl, rfl⟩) fun _ => .pure _

/-- `req_forward` has not enqueued the request. -/
protected lemma reqForwardFailed (c s : ConnId) (m : MsgId) :
    Quiet π (reqForwardFailed env c s m) :=
  .bind (.getMsg m) fun _ => .bind (.onlyIf _ (.emit _ rfl)) fun _ =>
    .bind (.reqForwardError c m) fun _ => .setErrno s

/-- A request that expects a reply is enqueued for the client. -/
protected lemma expectReply (c : ConnId) (m : MsgId) : Quiet π (expectReply c m) :=
  .bind (.touch c m) fun _ => .reqClientEnqueueOmsgq c m

/-- The server connection is registered for write events. -/
protected lemma waitOut (s : ConnId) : Quiet π (waitOut env s) :=
  .bind (.getConn s) fun _ => .ite (.eventAddOut s) (.pure _)

/-- The fragment callback takes one message for each part of the request. -/
protected lemma makeSubs (c : ConnId) (o : MsgId) (subs : List Sub) :
    Quiet π (makeSubs c o subs) := by
  have haddr : Quiet π subAddr := by
    refine .bind (.readHeap _) fun free => ?_
    split
    · refine .bind ?_ fun _ => .pure _
      exact .modHeap fun _ => ⟨rfl, rfl, rfl, rfl, rfl⟩
    · refine .bind (.readHeap _) fun m => .bind ?_ fun _ => .pure _
      exact .modHeap fun _ => ⟨rfl, rfl, rfl, rfl, rfl⟩
  induction subs with
  | nil => exact .pure _
  | cons sub subs ih =>
    refine .bind (.bind haddr fun m => ?_) fun m => .bind ih fun ms => .pure _
    refine .bind ?_ fun _ => .bind (.getMsg o) fun owner => .bind ?_ fun _ => .pure _
    · exact .modHeap fun _ => ⟨rfl, rfl, rfl, rfl, rfl⟩
    · exact .modHeap fun _ => ⟨rfl, rfl, rfl, rfl, rfl⟩

/-- `msg->fragment` splits the request. -/
protected lemma fragmentCb (c : ConnId) (m : MsgId) : Quiet π (fragmentCb c m) := by
  refine .bind (.getMsg m) fun msg => .ite (.pure _) (.bind ?_ fun _ => ?_)
  · exact .modHeap fun _ => ⟨rfl, rfl, rfl, rfl, rfl⟩
  · exact .bind (.readHeap _) fun id => .bind (.modMsg m _) fun _ => .makeSubs c m _

/-- The reply of the proxy itself is linked, and may wake the client. -/
protected lemma reqReply (c : ConnId) (m : MsgId) : Quiet π (reqReply env c m) := by
  have hreply : Quiet π (replyCb m) :=
    .bind (.getMsg m) fun _ => .bind (.deref _) fun r => .bind (.modMsg r _) fun _ => .pure _
  refine .bind (.reqMakeReply c m) fun ok => .ite (.setErrno c) (.bind hreply fun ok => ?_)
  exact .ite (.setErrno c) (.bind (.eventAddOut c) fun ok => .ite (.setErrno c) (.pure _))

/-- A request that was not split is completed in error. -/
protected lemma reqRecvError (c : ConnId) (m : MsgId) (noreply : Bool) :
    Quiet π (reqRecvError env c m noreply) :=
  .bind (.onlyIf _ (.reqClientEnqueueOmsgq c m)) fun _ => .reqForwardError c m

/-- Requests are numbered for the proofs. -/
protected lemma numberReq (c : ConnId) (m : MsgId) : Quiet π (numberReq c m) :=
  .bind (.getConn c) fun _ => .bind (.modMsg m _) fun _ => .modConn c fun _ => ⟨rfl, rfl⟩

/-- `req_send_done` moves a request from one queue to the other. -/
protected lemma reqSendDone (s : ConnId) (m : MsgId) : Quiet π (reqSendDone s m) :=
  .bind (.reqServerDequeueImsgq s m) fun _ => .bind (.getMsg m) fun _ =>
    .ite (.reqServerEnqueueOmsgq s m) (.reqPut m)

/-! ## Receiving and sending responses -/

/-- A response is recorded for the proofs. -/
protected lemma answer (s : ConnId) (a : Answer) : Quiet π (answer s a) :=
  .modConn s fun _ => ⟨rfl, rfl⟩

/-- `pre_coalesce` counts a fragment. -/
protected lemma preCoalesceCb (m p : MsgId) : Quiet π (preCoalesceCb m p) := by
  refine .bind (.getMsg p) fun pmsg => .ite (.pure _) (.bind (.countFragment p) fun _ => ?_)
  refine .bind (.getMsg m) fun msg => .bind (.modMsg m _) fun _ => ?_
  cases msg.preCoalesce.err with
  | none => exact .pure _
  | some err => exact .modMsg p _

/-- `rsp_forward` links the response, and may wake the client. -/
protected lemma rspForward (s : ConnId) (m : MsgId) : Quiet π (rspForward env s m) := by
  have hstats : ∀ msgsize, Quiet π (rspForwardStats s msgsize) := fun msgsize =>
    .bind (.ownerServer s) fun _ => .bind (.statsServer _ _ .responses nofun _) fun _ =>
      .statsServer _ _ .responseBytes nofun _
  refine .bind (.getMsg m) fun msg => .bind (.serverOkOf s) fun _ => .bind (.getConn s)
    fun conn => ?_
  refine .bind (.deref _) fun p => .bind (.reqServerDequeueOmsgq s p) fun _ => ?_
  refine .bind (.modMsg p _) fun _ => .bind (.getMsg p) fun _ => .bind (.readHeap _) fun _ => ?_
  refine .bind (.emit _ rfl) fun _ => .bind (.getMsg p) fun _ => .bind (.answer s _) fun _ => ?_
  refine .bind (.modMsg p _) fun _ => .bind (.modMsg m _) fun _ =>
    .bind (.preCoalesceCb m p) fun _ => ?_
  refine .bind (.getMsg p) fun _ => .bind (.deref _) fun c => .bind (.touch c p) fun _ => ?_
  exact .bind (.wakeHead c) fun ok => .bind (.onlyIf _ (.setErrno c)) fun _ => hstats _

/-- The loop of `rsp_make_error` dequeues the fragments of a vector. -/
protected lemma rspDropFrags (c : ConnId) (ms : List MsgId) (err : ℤ) :
    Quiet π (rspDropFrags c ms err) := by
  induction ms generalizing err with
  | nil => exact .pure _
  | cons m ms ih =>
    exact .bind (.reqClientDequeueOmsgq c m) fun _ => .bind (.getMsg m) fun _ =>
      .bind (.reqPut m) fun _ => ih _

/-- `rsp_make_error` takes an error response. -/
protected lemma rspMakeError (c : ConnId) (m : MsgId) : Quiet π (rspMakeError env c m) :=
  .bind (.getConn c) fun _ => .bind (.getMsg m) fun _ => .bind (.readHeap _) fun _ =>
    .bind (.ite (.rspDropFrags c _ _) (.pure _)) fun _ => .bind (.putPeer m) fun _ =>
      .msgGetError _ _

/-- The response to a request is its peer, or an error response. -/
protected lemma rspOf (c : ConnId) (p : MsgId) : Quiet π (rspOf env c p) := by
  refine .bind (.reqError c p) fun error => .ite (.bind (.rspMakeError c p) fun r => ?_) ?_
  · cases r with
    | none => exact .bind (.setErrno c) fun _ => .pure _
    | some r =>
      refine .bind (.modMsg r _) fun _ => .bind (.modMsg p _) fun _ => .bind (.ownerPool c)
        fun _ => ?_
      exact .bind (.statsPool _ _ _) fun _ => .bind (.modConn c fun _ => ⟨rfl, rfl⟩)
        fun _ => .pure _
  · exact .bind (.getMsg p) fun _ => .bind (.modConn c fun _ => ⟨rfl, rfl⟩) fun _ => .pure _

/-- `rsp_send_next` finds the response behind the last one. -/
protected lemma rspSendFrom (c : ConnId) (conn : Conn) : Quiet π (rspSendFrom env c conn) := by
  have hcursor : Quiet π (rspCursor conn) := by
    unfold rspCursor
    split
    · exact .pure _
    · exact .bind (.getMsg _) fun _ => .bind (.deref _) fun _ => .pure _
  refine .bind hcursor fun r => ?_
  cases r with
  | none => exact .bind (.modConn c fun _ => ⟨rfl, rfl⟩) fun _ => .pure _
  | some p =>
    refine .bind (.reqDone c _) fun ok =>
      .ite (.rspOf c p) (.bind (.onlyIf _ (.emit _ rfl)) fun _ => ?_)
    exact .bind (.modConn c fun _ => ⟨rfl, rfl⟩) fun _ => .pure _

/-- When nothing is outstanding, `req_done` fails. -/
protected lemma rspSendNext (c : ConnId) : Quiet π (rspSendNext env c) := by
  refine .bind (.getConn c) fun conn => ?_
  cases hfirst : conn.omsgq.head? with
  | none =>
    have hfault : Quiet π (reqDone env c none >>= fun ok =>
        if ok then rspSendFrom env c conn else rspSendNothing env c conn) := by
      rintro σ a σ' ⟨⟩
    exact .ite hfault (.rspSendFrom c conn)
  | some first => exact Quiet.rspSendFrom c conn

/-- `rsp_send_done` dequeues a request and puts it. -/
protected lemma rspSendDone (c : ConnId) (m : MsgId) : Quiet π (rspSendDone c m) :=
  .bind (.getMsg m) fun _ => .bind (.deref _) fun p => .bind (.reqClientDequeueOmsgq c p) fun _ =>
    .reqPut p

/-! ## Transfer and the event loop -/

/-- `conn_recv` sets flags of the connection. -/
protected lemma connRecv (c : ConnId) : Quiet π (connRecv env c) := by
  refine .bind (.ask _) fun r => ?_
  cases r with
  | data n short => exact .bind (.modConn c fun _ => ⟨rfl, rfl⟩) fun _ => .pure _
  | again => exact .bind (.modConn c fun _ => ⟨rfl, rfl⟩) fun _ => .pure _
  | failed =>
    exact .bind (.modConn c fun _ => ⟨rfl, rfl⟩) fun _ => .bind (.setErrno c) fun _ => .pure _

/-- What was written to a client is recorded for the proofs. -/
protected lemma noteWritten (c : ConnId) (m : MsgId) (written : ℕ) (all : Bool) :
    Quiet π (noteWritten c m written all) := by
  have hstarted : Quiet π (noteStarted c m) :=
    .bind (.getMsg m) fun _ => .bind (.deref _) fun _ => .bind (.getMsg _) fun _ =>
      .bind (.modMsg m _) fun _ => .modConn c fun _ => ⟨rfl, rfl⟩
  exact .bind (.getMsg m) fun _ => .bind (.getConn c) fun _ => .bind (.onlyIf _ hstarted) fun _ =>
    .onlyIf _ (.emit _ rfl)

/-- A message that was sent as a whole is done with. -/
protected lemma finalize (c : ConnId) (m : MsgId) : Quiet π (finalize c m) := by
  have hsent : Quiet π (noteSent c m) :=
    .bind (.getMsg m) fun _ => .bind (.getConn c) fun _ =>
      .onlyIf _ (.modConn c fun _ => ⟨rfl, rfl⟩)
  exact .bind hsent fun _ => .bind (.getConn c) fun _ => .ite (.rspSendDone c m) (.reqSendDone c m)

/-- The loop of `msg_send_chain` after the `writev` moves the positions. -/
protected lemma msgSent (c : ConnId) (n : ℕ) (ms : List MsgId) : Quiet π (msgSent c n ms) := by
  induction ms generalizing n with
  | nil => exact .pure _
  | cons m ms ih =>
    refine .bind (.getMsg m) fun msg => .ite ?_ ?_
    · exact .bind (.onlyIf _ (.finalize c m)) fun _ => ih 0
    · exact .bind (.noteWritten c m _ _) fun _ => .bind (.modMsg m _) fun _ =>
        .bind (.onlyIf _ (.finalize c m)) fun _ => ih _

/-- The timeout of the event loop is no part of it. -/
protected lemma setTimeout (timeout : ℤ) : Quiet π (setTimeout timeout) :=
  .other (fun _ => ()) _ (fun _ => rfl) (fun _ => rfl) fun _ _ _ => rfl

/-- The notification for write events is consumed. -/
protected lemma deliver (c : ConnId) : Quiet π (deliver c) := .modConn c fun _ => ⟨rfl, rfl⟩

/-- The socket of the client has room again. -/
protected lemma becomeWritable (c : ConnId) : Quiet π (becomeWritable c) :=
  .modConn c fun _ => ⟨rfl, rfl⟩

/-- The message that is being received, or a new one. -/
protected lemma nextMessage {get : Core (Option MsgId)} (hget : Quiet π get) (c : ConnId)
    (rmsg : Option MsgId) (alloc : Bool) : Quiet π (match rmsg with
      | some m => return some m
      | none => do
        if !alloc then return none
        match ← get with
        | none => return none
        | some m =>
          modConn c fun x => { x with rmsg := some m }
          return some m) := by
  split
  · exact .pure _
  · refine .ite (.pure _) (.bind hget fun r => ?_)
    cases r with
    | none => exact .pure _
    | some m => exact .bind (.modConn c fun _ => ⟨rfl, rfl⟩) fun _ => .pure _

/-- `req_get` takes a message. -/
protected lemma reqGet (c : ConnId) : Quiet π (reqGet env c) :=
  .bind (.msgGet c true) fun _ => .bind (.onlyIf _ (.setErrno c)) fun _ => .pure _

/-- `rsp_get` takes a message. -/
protected lemma rspGet (s : ConnId) : Quiet π (rspGet env s) :=
  .bind (.msgGet s false) fun _ => .bind (.onlyIf _ (.setErrno s)) fun _ => .pure _

/-! ## What marks a connection `done` -/

/-- The ledger does not say which connections are `done`. -/
protected lemma setDone (f : Closer) (c : ConnId) :
    Quiet St.ledger (modHeap (Heap.setDone f c)) := by
  refine Keeps.run (fun _ => ()) (fun σ => { σ with heap := σ.heap.setDone f c }) (fun _ => rfl) ?_
  intro σ
  ext1
  case link =>
    funext x
    rcases eq_or_ne x c with rfl | hne
    · simp [St.ledger, Heap.setDone, Heap.modConn, Heap.emit, Conn.link]
    · simp [St.ledger, Heap.setDone, Heap.modConn, Heap.emit, hne]
  all_goals rfl

/-- `server_resolve` fails with an error on the connection. -/
protected lemma resolveFailed (s : ConnId) : Quiet St.ledger (resolveFailed s) :=
  .bind (.modConn s fun _ => ⟨rfl, rfl⟩) fun _ => .setDone .serverRef s

/-- `req_recv_next` sets `done` of the client, or takes a message. -/
protected lemma reqRecvNext (c : ConnId) (alloc : Bool) :
    Quiet St.ledger (reqRecvNext env c alloc) := by
  refine .bind (.getConn c) fun conn => .ite ?_ (.nextMessage (.reqGet c) c conn.rmsg alloc)
  refine .bind (.discardReq c _) fun _ => .bind (.getConn c) fun conn => ?_
  exact .bind (.onlyIf _ (.setDone _ c)) fun _ => .pure _

/-- `rsp_recv_next` sets `done` of the connection, or takes a message. -/
protected lemma rspRecvNext (s : ConnId) (alloc : Bool) :
    Quiet St.ledger (rspRecvNext env s alloc) := by
  refine .bind (.getConn s) fun conn => .ite ?_ (.nextMessage (.rspGet s) s conn.rmsg alloc)
  exact .bind (.discardRsp s _) fun _ => .bind (.setDone _ s) fun _ => .pure _

/-- An error in the data from a server sets `done` and `err`. -/
protected lemma closeInval (s : ConnId) : Quiet St.ledger (closeInval s) :=
  .bind (.modConn s fun _ => ⟨rfl, rfl⟩) fun _ => .setDone .rspFilter s

/-- `rsp_filter` puts a response, or lets it through. -/
protected lemma rspFilter (s : ConnId) (m : MsgId) : Quiet St.ledger (rspFilter env s m) := by
  refine .bind (.getMsg m) fun msg => .ite (.bind (.rspPut m) fun _ => .pure _) ?_
  refine .bind (.getConn s) fun conn => ?_
  split
  · exact .bind (.answer s _) fun _ => .bind (.rspPut m) fun _ => .bind (.closeInval s)
      fun _ => .pure _
  · refine .bind (.getMsg _) fun pmsg => .ite ?_ (.ite ?_ (.pure _))
    · exact .bind (.answer s _) fun _ => .bind (.rspPut m) fun _ => .bind (.closeInval s)
        fun _ => .pure _
    · exact .bind (.callHook _) fun _ => .bind (.answer s _) fun _ =>
        .bind (.reqServerDequeueOmsgq s _) fun _ => .bind (.modMsg _ _) fun _ =>
          .bind (.rspPut m) fun _ => .bind (.reqPut _) fun _ => .pure _

/-- `rsp_recv_done` filters the response and forwards it. -/
protected lemma rspRecvDone (s : ConnId) (m : MsgId) (nmsg : Option MsgId) :
    Quiet St.ledger (rspRecvDone env s m nmsg) :=
  .bind (.modConn s fun _ => ⟨rfl, rfl⟩) fun _ => .bind (.rspFilter s m) fun _ =>
    .ite (.pure _) (.rspForward s m)

/-- `recv_next` of either kind of connection. -/
protected lemma connRecvNext (c : ConnId) (alloc : Bool) :
    Quiet St.ledger (connRecvNext env c alloc) :=
  .bind (.getConn c) fun _ => .ite (.reqRecvNext c alloc) (.rspRecvNext c alloc)

end Quiet

end GfwProxy
