import GfwProxy.Proxy.Forward

set_option autoImplicit false

/-!
# Forwarding responses

`gf_response.c`: receiving a response from a server, linking it to the request it answers, and
sending it to the client.

## Main definitions

* `GfwProxy.rspRecvNext`, `GfwProxy.rspRecvDone` — the read handlers of a server connection.
* `GfwProxy.rspFilter`, `GfwProxy.rspForward` — what becomes of a response.
* `GfwProxy.rspSendNext`, `GfwProxy.rspSendDone` — the write handlers of a client connection.
-/

namespace GfwProxy

/-- `rsp_get`. -/
def rspGet (env : Env) (s : ConnId) : Core (Option MsgId) := do
  let m ← msgGet env s false
  onlyIf m.isNone (setErrno env s)
  return m

/-- `rsp_recv_next`. -/
def rspRecvNext (env : Env) (s : ConnId) (alloc : Bool) : Core (Option MsgId) := do
  let conn ← getConn s
  if conn.eof then
    -- server sent eof before sending the entire request
    discardRsp s conn.rmsg
    modHeap (Heap.setDone .rspRecvNext s)
    return none
  else
    match conn.rmsg with
    | some m => return some m
    | none =>
      if !alloc then return none
      match ← rspGet env s with
      | none => return none
      | some m =>
        modConn s fun x => { x with rmsg := some m }
        return some m

/-- Ghost: record what becomes of a response. -/
def answer (s : ConnId) (a : Answer) : Core Unit :=
  modConn s fun x => { x with answers := x.answers ++ [a] }

/-- Close the connection with `EINVAL` once the handlers return. -/
def closeInval (s : ConnId) : Core Unit := do
  modConn s fun x => { x with err := einval }
  modHeap (Heap.setDone .rspFilter s)

/-- `rsp_filter`; is the response filtered out? -/
def rspFilter (env : Env) (s : ConnId) (m : MsgId) : Core Bool := do
  let msg ← getMsg m
  if msg.mlen = 0 then
    modHeap (Heap.rspPut m)
    return true
  else
    match (← getConn s).omsgq.head? with
    | none =>
      -- stray response
      answer s .stray
      modHeap (Heap.rspPut m)
      closeInval s
      return true
    | some p =>
      let pmsg ← getMsg p
      if msg.failure then
        answer s .failed
        modHeap (Heap.rspPut m)
        closeInval s
        return true
      else if pmsg.swallow then
        callHook (env.swallowMsg s p m)
        answer s (.swallowed pmsg.id)
        reqServerDequeueOmsgq s p
        modMsg p fun x => { x with done := true }
        modHeap (Heap.rspPut m)
        modHeap (Heap.reqPut p)
        return true
      else return false

/-- The error that the pre-coalesce callback raises for request `p`. -/
def raiseError (p : MsgId) : Option ℤ → Core Unit
  | none => pure ()
  | some err => modMsg p fun x => { x with error := true, err := err }

/-- The pre-coalesce callback of response `m` to request `p`. -/
def preCoalesceCb (m p : MsgId) : Core Unit := do
  if (← getMsg p).fragId = 0 then return
  else
    countFragment p
    let callback := (← getMsg m).preCoalesce
    modMsg m fun x => { x with mhdr := callback.mhdr, mlen := (unsent callback.mhdr).length }
    raiseError p callback.err

/-- `rsp_forward_stats`. -/
def rspForwardStats (s : ConnId) (msgsize : ℕ) : Core Unit := do
  let (p, i) ← ownerServer s
  statsServer p i .responses 1
  statsServer p i .responseBytes msgsize

/-- `rsp_forward`. -/
def rspForward (env : Env) (s : ConnId) (m : MsgId) : Core Unit := do
  let msgsize := (← getMsg m).mlen
  -- response from server implies that server is ok and heartbeating
  serverOkOf s
  -- dequeue peer message (request) from server
  let p ← deref (← getConn s).omsgq.head?
  reqServerDequeueOmsgq s p
  modMsg p fun x => { x with done := true }
  -- establish msg <-> pmsg (response <-> request) link
  emit (.link (← getMsg p).id (← readHeap fun h => h.stale p))
  answer s (.linked (← getMsg p).id)
  modMsg p fun x => { x with peer := some m }
  modMsg m fun x => { x with peer := some p }
  preCoalesceCb m p
  let c ← deref (← getMsg p).owner
  touch c p
  let ok ← wakeHead env c
  onlyIf (!ok) (setErrno env c)
  rspForwardStats s msgsize

/-- `rsp_recv_done`. -/
def rspRecvDone (env : Env) (s : ConnId) (m : MsgId) (nmsg : Option MsgId) : Core Unit := do
  modConn s fun x => { x with rmsg := nmsg }
  if ← rspFilter env s m then return
  rspForward env s m

/-- The loop of `rsp_make_error` over the fragments behind the first one: they leave the queue
and are released, and the first error among them is returned. -/
def rspDropFrags (c : ConnId) : List MsgId → ℤ → Core ℤ
  | [], err => return err
  | m :: ms, err => do
    reqClientDequeueOmsgq c m
    let msg ← getMsg m
    modHeap (Heap.reqPut m)
    rspDropFrags c ms (if err = 0 ∧ msg.err ≠ 0 then msg.err else err)

/-- The error of the reply to request `msg`: its own, or the first one among the fragments behind
it, which leave the queue. -/
def rspDropError (c : ConnId) (msg : Msg) (frags : List MsgId) : Core ℤ :=
  if msg.fragId ≠ 0 then rspDropFrags c frags 0 else return msg.err

/-- `rsp_make_error`. -/
def rspMakeError (env : Env) (c : ConnId) (m : MsgId) : Core (Option MsgId) := do
  let conn ← getConn c
  let msg ← getMsg m
  let frags ← readHeap fun h =>
    (tailqAfter m conn.omsgq).takeWhile fun x => (h.msg x).fragId = msg.fragId
  let err ← rspDropError c msg frags
  modHeap (Heap.putPeer m)
  msgGetError env conn.redis err

/-- The response that is sent for request `p`, which is done. -/
def rspOf (env : Env) (c : ConnId) (p : MsgId) : Core (Option MsgId) := do
  if ← reqError c p then
    match ← rspMakeError env c p with
    | none =>
      setErrno env c
      return none
    | some r =>
      modMsg r fun x => { x with peer := some p }
      modMsg p fun x => { x with peer := some r }
      statsPool (← ownerPool c) .forwardError 1
      modConn c fun x => { x with smsg := some r }
      return some r
  else
    let r := (← getMsg p).peer
    modConn c fun x => { x with smsg := r }
    return r

/-- The first request that `rsp_send_next` considers: the head of the queue, or the one behind the
request whose response is being sent. -/
def rspCursor (conn : Conn) : Core (Option MsgId) := do
  match conn.smsg with
  | none => return conn.omsgq.head?
  | some r =>
    let p ← deref (← getMsg r).peer
    return tailqNext p conn.omsgq

/-- `rsp_send_next` when something may be outstanding. -/
def rspSendFrom (env : Env) (c : ConnId) (conn : Conn) : Core (Option MsgId) := do
  match ← rspCursor conn with
  | none =>
    modConn c fun x => { x with smsg := none }
    return none
  | some p =>
    if ← reqDone env c (some p) then rspOf env c p
    else
      onlyIf conn.smsg.isNone (emit (.idle c))
      modConn c fun x => { x with smsg := none }
      return none

/-- `rsp_send_next` when nothing is outstanding. -/
def rspSendNothing (env : Env) (c : ConnId) (conn : Conn) : Core (Option MsgId) := do
  onlyIf conn.eof (modHeap (Heap.setDone .rspSendNext c))
  let ok ← eventDelOut env c
  onlyIf (!ok) (setErrno env c)
  return none

/-- `rsp_send_next`. -/
def rspSendNext (env : Env) (c : ConnId) : Core (Option MsgId) := do
  let conn ← getConn c
  let first := conn.omsgq.head?
  if first.isNone then
    if ← reqDone env c first then rspSendFrom env c conn else rspSendNothing env c conn
  else rspSendFrom env c conn

/-- `rsp_send_done`. -/
def rspSendDone (c : ConnId) (m : MsgId) : Core Unit := do
  let p ← deref (← getMsg m).peer
  -- dequeue request from client outq
  reqClientDequeueOmsgq c p
  modHeap (Heap.reqPut p)

end GfwProxy
