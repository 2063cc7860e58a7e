import GfwProxy.Proxy.Connection

set_option autoImplicit false

/-!
# Forwarding requests

The second half of `gf_request.c`: receiving a request from a client, forwarding it to a server
connection, and sending it.

## Main definitions

* `GfwProxy.reqRecvNext`, `GfwProxy.reqRecvDone` — the read handlers of a client connection.
* `GfwProxy.reqForward` — route a request to a server connection.
* `GfwProxy.reqSendNext`, `GfwProxy.reqSendDone` — the write handlers of a server connection.
-/

namespace GfwProxy

/-- Record `errno` in the connection. -/
def setErrno (env : Env) (c : ConnId) : Core Unit := do
  let err ← getErrno env
  modConn c fun x => { x with err := err }

/-- `req_get`. -/
def reqGet (env : Env) (c : ConnId) : Core (Option MsgId) := do
  let m ← msgGet env c true
  onlyIf m.isNone (setErrno env c)
  return m

/-- `req_recv_next`. -/
def reqRecvNext (env : Env) (c : ConnId) (alloc : Bool) : Core (Option MsgId) := do
  let conn ← getConn c
  if conn.eof then
    -- client sent eof before sending the entire request
    discardReq c conn.rmsg
    onlyIf (!clientActive (← getConn c)) (modHeap (Heap.setDone .reqRecvNext c))
    return none
  else
    match conn.rmsg with
    | some m => return some m
    | none =>
      if !alloc then return none
      match ← reqGet env c with
      | none => return none
      | some m =>
        modConn c fun x => { x with rmsg := some m }
        return some m

/-- `req_make_reply`; does it succeed? -/
def reqMakeReply (env : Env) (c : ConnId) (m : MsgId) : Core Bool := do
  match ← msgGet env c false with
  | none =>
    setErrno env c
    return false
  | some r =>
    modMsg m fun x => { x with peer := some r }
    modMsg r fun x => { x with peer := some m, request := false }
    modMsg m fun x => { x with done := true }
    reqClientEnqueueOmsgq c m
    return true

/-- `req_filter`; is the request filtered out? -/
def reqFilter (c : ConnId) (m : MsgId) : Core Bool := do
  let msg ← getMsg m
  if msg.mlen = 0 then
    modHeap (Heap.reqPut m)
    return true
  else if msg.quit then
    modConn c fun x => { x with eof := true, recvReady := false }
    modHeap (Heap.reqPut m)
    return true
  else
    onlyIf (!(← connAuthenticated c)) (modMsg m fun x => { x with noforward := true })
    return false

/-- `req_forward_error`. -/
def reqForwardError (env : Env) (c : ConnId) (m : MsgId) : Core Unit := do
  let err ← getErrno env
  modMsg m fun x => { x with done := true, error := true, err := err }
  -- noreply request don't expect any response
  if (← getMsg m).noreply then modHeap (Heap.reqPut m)
  else
    touch c m
    let ok ← wakeHead env c
    onlyIf (!ok) (setErrno env c)

/-- `req_forward_stats`. -/
def reqForwardStats (s : ConnId) (m : MsgId) : Core Unit := do
  let (p, i) ← ownerServer s
  statsServer p i .requests 1
  statsServer p i .requestBytes (← getMsg m).mlen

/-- The first key of a request. -/
def firstKey (m : MsgId) : Core (List UInt8) := do
  match (← getMsg m).keys with
  | none => fault .released
  | some [] => fault .outOfBounds
  | some (key :: _) => pure key

/-- The add-auth callback for server connection `s`; does it succeed? -/
def addAuth (env : Env) (s : ConnId) : Core Bool := do
  if ← ask env.addAuth then
    modConn s fun x => { x with authenticated := true }
    return true
  else return false

/-- What `req_forward` does when it cannot use the server connection `s` that it has found. -/
def reqForwardFailed (env : Env) (c s : ConnId) (m : MsgId) : Core Unit := do
  let msg ← getMsg m
  onlyIf msg.fragOwner.isSome (emit (.fwdFail msg.id))
  reqForwardError env c m
  setErrno env s

/-- `req_forward` enqueues the request into the client outq, if a response is expected. -/
def expectReply (c : ConnId) (m : MsgId) : Core Unit := do
  touch c m
  reqClientEnqueueOmsgq c m

/-- The server connection waits for write events, if the request is the first one to send. -/
def waitOut (env : Env) (s : ConnId) : Core Bool := do
  if (← getConn s).imsgq = [] then eventAddOut env s else return true

/-- The server connection is authenticated, or a request to do so has been added. -/
def ensureAuth (env : Env) (s : ConnId) : Core Bool := do
  if ← connAuthenticated s then return true else addAuth env s

/-- `req_forward`. -/
def reqForward (env : Env) (c : ConnId) (m : MsgId) : Core Unit := do
  onlyIf (!(← getMsg m).noreply) (expectReply c m)
  let key ← firstKey m
  let p ← ownerPool c
  match ← serverPoolConn env p key with
  | none =>
    countFragment m
    reqForwardError env c m
  | some s =>
    if !(← waitOut env s) then reqForwardFailed env c s m
    else if !(← ensureAuth env s) then reqForwardFailed env c s m
    else
      reqServerEnqueueImsgq env s m
      reqForwardStats s m

/-- Forward the requests of a list. -/
def reqForwards (env : Env) (c : ConnId) : List MsgId → Core Unit
  | [] => pure ()
  | m :: ms => do
    reqForward env c m
    reqForwards env c ms

/-- An address for a sub-message.  (What the fragment callback makes, it has memory for.) -/
def subAddr : Core MsgId := do
  match ← readHeap Heap.freeMsgq with
  | m :: rest =>
    modHeap fun h => { h with freeMsgq := rest }
    return m
  | [] =>
    let m ← readHeap Heap.nextMsg
    modHeap fun h => { h with nextMsg := m + 1 }
    return m

/-- The fragment callback makes one sub-message of request `o`: a new request with the fragment
id of `o`. -/
def makeSub (c : ConnId) (o : MsgId) (sub : Sub) : Core MsgId := do
  let m ← subAddr
  modHeap fun h => { h with msgId := h.msgId + 1 }
  let owner ← getMsg o
  modHeap fun h => h.modMsg m fun _ =>
    { id := h.msgId, keys := some sub.keys, mhdr := sub.mhdr, mlen := (unsent sub.mhdr).length
      owner := some c, ownerGen := (h.conn c).gen, request := true
      fragId := owner.fragId, fragOwner := some o, reqNo := owner.reqNo }
  return m

/-- The sub-messages of request `o`. -/
def makeSubs (c : ConnId) (o : MsgId) : List Sub → Core (List MsgId)
  | [] => return []
  | sub :: subs => do
    let m ← makeSub c o sub
    let ms ← makeSubs c o subs
    return m :: ms

/-- The fragment callback of request `m`: if it makes sub-messages, the request becomes the
owner of a vector with a new fragment id. -/
def fragmentCb (c : ConnId) (m : MsgId) : Core (List MsgId) := do
  let subs := (← getMsg m).fragment.subs
  if subs = [] then return []
  else
    modHeap fun h => { h with fragId := h.fragId + 1 }
    let id ← readHeap Heap.fragId
    modMsg m fun x => { x with fragId := id, fragOwner := some m, nfrag := subs.length }
    makeSubs c m subs

/-- The reply callback of request `m`. -/
def replyCb (m : MsgId) : Core Bool := do
  let msg ← getMsg m
  let r ← deref msg.peer
  modMsg r fun x =>
    { x with mhdr := msg.reply.mhdr, mlen := (unsent msg.reply.mhdr).length }
  return msg.reply.ok

/-- Ghost: give the request the next number of its connection. -/
def numberReq (c : ConnId) (m : MsgId) : Core Unit := do
  let n := (← getConn c).nReq
  modMsg m fun x => { x with reqNo := n }
  modConn c fun x => { x with nReq := n + 1 }

/-- `req_recv_done` on a request that is not to be forwarded. -/
def reqReply (env : Env) (c : ConnId) (m : MsgId) : Core Unit := do
  if !(← reqMakeReply env c m) then setErrno env c
  else if !(← replyCb m) then setErrno env c
  else if !(← eventAddOut env c) then setErrno env c
  else return

/-- What `req_recv_done` does where the fragment callback or `req_make_reply` fails, before it
goes on. -/
def reqRecvError (env : Env) (c : ConnId) (m : MsgId) (noreply : Bool) : Core Unit := do
  onlyIf (!noreply) (reqClientEnqueueOmsgq c m)
  reqForwardError env c m

/-- `req_recv_done` on a request of which the fragment callback has made sub-messages. -/
def reqForwardFrags (env : Env) (c : ConnId) (m : MsgId) (msg : Msg) (subs : List MsgId) :
    Core Unit := do
  let ok ← reqMakeReply env c m
  onlyIf (!ok) (reqRecvError env c m msg.noreply)
  reqForwards env c subs

/-- `req_recv_done`. -/
def reqRecvDone (env : Env) (c : ConnId) (m : MsgId) (nmsg : Option MsgId) : Core Unit := do
  modConn c fun x => { x with rmsg := nmsg }
  if ← reqFilter c m then return
  numberReq c m
  let msg ← getMsg m
  if msg.noforward then reqReply env c m
  else
    -- do fragment
    let subs ← fragmentCb c m
    onlyIf (!msg.fragment.ok) (reqRecvError env c m msg.noreply)
    -- if no fragment happened
    if subs = [] then reqForward env c m
    else reqForwardFrags env c m msg subs

/-- `req_send_next`. -/
def reqSendNext (env : Env) (s : ConnId) : Core (Option MsgId) := do
  onlyIf (← getConn s).connecting (serverConnected env s)
  let conn ← getConn s
  match conn.imsgq.head? with
  | none =>
    -- nothing to send as the server inq is empty
    let ok ← eventDelOut env s
    onlyIf (!ok) (setErrno env s)
    return none
  | some first =>
    let next := match conn.smsg with
      | none => some first
      | some m => tailqNext m conn.imsgq
    modConn s fun x => { x with smsg := next }
    return next

/-- `req_send_done`. -/
def reqSendDone (s : ConnId) (m : MsgId) : Core Unit := do
  reqServerDequeueImsgq s m
  -- enqueue message (request) in server outq, if response is expected
  if !(← getMsg m).noreply then reqServerEnqueueOmsgq s m
  else modHeap (Heap.reqPut m)

end GfwProxy
