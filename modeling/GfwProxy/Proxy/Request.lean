import GfwProxy.Proxy.Message

set_option autoImplicit false

/-!
# Requests and their queues

The first half of `gf_request.c`: releasing a request, deciding whether it is done or in error,
and the queues of client and server connections.

## Main definitions

* `GfwProxy.Heap.reqPut`, `GfwProxy.Heap.rspPut` — release a request with its response.
* `GfwProxy.Heap.fragRun` — the fragments next to a request in the queue of its client.
* `GfwProxy.reqDone`, `GfwProxy.reqError` — the verdicts on a request.
* `GfwProxy.reqServerEnqueueImsgq` and the other queue operations.
-/

namespace GfwProxy

/-- `rsp_put`. -/
def Heap.rspPut (m : MsgId) (h : Heap) : Heap := h.msgPut m

/-- Break the link of a request to its response, if there is one, and release the response. -/
def Heap.putPeer (m : MsgId) (h : Heap) : Heap :=
  match (h.msg m).peer with
  | none => h
  | some r =>
    let h := h.modMsg m fun x => { x with peer := none }
    let h := h.modMsg r fun x => { x with peer := none }
    h.rspPut r

/-- `req_put`. -/
def Heap.reqPut (m : MsgId) (h : Heap) : Heap := ((h.putPeer m).tmoDelete m).msgPut m

/-- Releasing a request touches no connection. -/
lemma Heap.reqPut_conn (h : Heap) (m : MsgId) : (h.reqPut m).conn = h.conn := by
  have hpeer : (h.putPeer m).conn = h.conn := by
    unfold Heap.putPeer
    split <;> rfl
  have htmo : ((h.putPeer m).tmoDelete m).conn = (h.putPeer m).conn := by
    unfold Heap.tmoDelete
    split <;> rfl
  exact htmo.trans hpeer

/-! ## Verdicts -/

/-- The requests next to `m` in the queue `q` that carry its fragment id: those before it and
those after it, nearest first. -/
def Heap.fragRun (h : Heap) (q : List MsgId) (m : MsgId) : List MsgId :=
  let same : MsgId → Bool := fun x => (h.msg x).fragId = (h.msg m).fragId
  (tailqBefore m q).takeWhile same ++ (tailqAfter m q).takeWhile same

/-- The two sides of `m` in a queue. -/
lemma tailq_split {m : MsgId} {a b : List MsgId} (ha : m ∉ a) :
    tailqBefore m (a ++ m :: b) = a.reverse ∧ tailqAfter m (a ++ m :: b) = b := by
  have hne : ∀ x ∈ a, decide (x ≠ m) = true := by
    intro x hx
    simp only [ne_eq, decide_not, Bool.not_eq_eq_eq_not, Bool.not_true, decide_eq_false_iff_not]
    rintro rfl
    exact ha hx
  constructor
  · rw [tailqBefore, List.takeWhile_append_of_pos hne]
    simp
  · rw [tailqAfter, List.dropWhile_append_of_pos hne]
    simp

/-- Update all messages of a list. -/
def Heap.modMsgs (xs : List MsgId) (f : MsgId → Msg → Msg) (h : Heap) : Heap :=
  { h with msg := fun x => if x ∈ xs then f x (h.msg x) else h.msg x }

/-- The post-coalesce callback on a vector of requests: the bytes it leaves in their
responses. -/
def Heap.postCoalesce (vector : List MsgId) (bytes : MsgId → List Mbuf) (h : Heap) : Heap :=
  h.modMsgs (vector.filterMap fun x => (h.msg x).peer) fun r x =>
    { x with mhdr := bytes r, mlen := (unsent (bytes r)).length }

/-- Whether `req_done` finds request `m` of the queue `q` done. -/
def Heap.isDone (h : Heap) (q : List MsgId) (m : MsgId) : Bool :=
  let msg := h.msg m
  msg.done && (msg.fragId = 0 || msg.fdone ||
    (msg.nfrag ≤ msg.nfragDone && (h.fragRun q m).all fun x => (h.msg x).done))

/-- `req_done`. -/
def reqDone (env : Env) (c : ConnId) (m : Option MsgId) : Core Bool := do
  let m ← deref m
  let msg ← getMsg m
  if !msg.done then return false
  if msg.fragId = 0 then return true
  -- request has already been marked as done
  if msg.fdone then return true
  if msg.nfragDone < msg.nfrag then return false
  -- check all fragments of the given request vector are done
  let run ← readHeap fun h => h.fragRun (h.conn c).omsgq m
  if ← readHeap fun h => run.any fun x => !(h.msg x).done then return false
  modHeap (Heap.modMsgs (m :: run) fun _ x => { x with fdone := true })
  let bytes ← ask env.postCoalesce
  modHeap (Heap.postCoalesce (m :: run) bytes)
  return true

/-- `req_error`. -/
def reqError (c : ConnId) (m : MsgId) : Core Bool := do
  let msg ← getMsg m
  if msg.error then return true
  if msg.fragId = 0 then return false
  -- request has already been marked to be in error
  if msg.ferror then return true
  let run ← readHeap fun h => h.fragRun (h.conn c).omsgq m
  if ← readHeap fun h => run.any fun x => (h.msg x).error then
    modHeap (Heap.modMsgs (m :: run) fun _ x => { x with ferror := true })
    return true
  else return false

/-! ## Queues -/

/-- `req_server_enqueue_imsgq`. -/
def reqServerEnqueueImsgq (env : Env) (s : ConnId) (m : MsgId) : Core Unit := do
  -- noreply request are free from timeouts
  onlyIf (!(← getMsg m).noreply) (msgTmoInsert env m s)
  modConn s fun x => { x with imsgq := x.imsgq ++ [m] }
  let (p, i) ← ownerServer s
  statsServer p i .inQueue 1
  statsServer p i .inQueueBytes (← getMsg m).mlen

/-- `req_server_dequeue_imsgq`. -/
def reqServerDequeueImsgq (s : ConnId) (m : MsgId) : Core Unit := do
  modConn s fun x => { x with imsgq := x.imsgq.erase m }
  let (p, i) ← ownerServer s
  statsServer p i .inQueue (-1)
  statsServer p i .inQueueBytes (-(← getMsg m).mlen)

/-- `req_client_enqueue_omsgq`. -/
def reqClientEnqueueOmsgq (c : ConnId) (m : MsgId) : Core Unit :=
  modConn c fun x => { x with omsgq := x.omsgq ++ [m] }

/-- `req_server_enqueue_omsgq`. -/
def reqServerEnqueueOmsgq (s : ConnId) (m : MsgId) : Core Unit := do
  modConn s fun x => { x with omsgq := x.omsgq ++ [m] }
  let (p, i) ← ownerServer s
  statsServer p i .outQueue 1
  statsServer p i .outQueueBytes (← getMsg m).mlen

/-- `req_client_dequeue_omsgq`. -/
def reqClientDequeueOmsgq (c : ConnId) (m : MsgId) : Core Unit :=
  modConn c fun x => { x with omsgq := x.omsgq.erase m }

/-- `req_server_dequeue_omsgq`. -/
def reqServerDequeueOmsgq (s : ConnId) (m : MsgId) : Core Unit := do
  modHeap (Heap.tmoDelete m)
  modConn s fun x => { x with omsgq := x.omsgq.erase m }
  let (p, i) ← ownerServer s
  statsServer p i .outQueue (-1)
  statsServer p i .outQueueBytes (-(← getMsg m).mlen)

end GfwProxy
