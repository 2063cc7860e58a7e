import GfwProxy.Proxy.State

set_option autoImplicit false

/-!
# Events, timers and messages

The functions of `event/gf_epoll.c` that register a connection for events, and those of
`gf_message.c` that allocate and release messages and keep the timeout tree.

## Main definitions

* `GfwProxy.eventAddOut`, `GfwProxy.eventDelOut`, `GfwProxy.eventAddConn`,
  `GfwProxy.eventDelConn` — the registration of a connection.
* `GfwProxy.msgTmoInsert`, `GfwProxy.Heap.tmoDelete` — the timeout tree.
* `GfwProxy.msgGet`, `GfwProxy.msgGetError`, `GfwProxy.Heap.msgPut` — messages.

## Design

Events are edge-triggered: the ghost field `evOut` of a connection tells whether a write
notification is pending.  It arises when the connection is registered for write events, and is
lost when that registration is taken back.  The timeout tree is the list of its messages in
order; a node with an existing key goes behind the nodes with that key.
-/

namespace GfwProxy

/-! ## `gf_epoll.c` -/

/-- `event_add_out`; does it succeed? -/
def eventAddOut (env : Env) (c : ConnId) : Core Bool := do
  let conn ← getConn c
  if conn.sendActive then return true
  if ← ask env.epollCtl then
    modConn c fun x => { x with sendActive := true, evOut := true }
    return true
  else
    onlyIf conn.client (emit (.noWake c))
    return false

/-- `event_del_out`; does it succeed? -/
def eventDelOut (env : Env) (c : ConnId) : Core Bool := do
  if !(← getConn c).sendActive then return true
  if ← ask env.epollCtl then
    modConn c fun x => { x with sendActive := false, evOut := false }
    return true
  else return false

/-- `event_add_conn`; does it succeed? -/
def eventAddConn (env : Env) (c : ConnId) : Core Bool := do
  if ← ask env.epollCtl then
    modConn c fun x => { x with sendActive := true, recvActive := true, evOut := true }
    return true
  else return false

/-- `event_del_conn`; its callers ignore whether it succeeds. -/
def eventDelConn (env : Env) (c : ConnId) : Core Unit := do
  let ok ← ask env.epollCtl
  onlyIf ok (modConn c fun x => { x with sendActive := false, recvActive := false, evOut := false })

/-! ## The timeout tree -/

/-- `rbtree_insert` of the node of `m` with the given key and data. -/
def Heap.tmoInsert (m : MsgId) (key : ℤ) (s : ConnId) (h : Heap) : Heap :=
  let h := h.modMsg m fun x => { x with tmoKey := key, tmoData := some s }
  { h with tmoRbt := h.tmoRbt.takeWhile (fun x => (h.msg x).tmoKey ≤ key) ++
      m :: h.tmoRbt.dropWhile (fun x => (h.msg x).tmoKey ≤ key) }

/-- `msg_tmo_delete`. -/
def Heap.tmoDelete (m : MsgId) (h : Heap) : Heap :=
  -- already deleted
  if (h.msg m).tmoData = none then h
  else
    let h := h.modMsg m fun x => { x with tmoData := none }
    { h with tmoRbt := h.tmoRbt.erase m }

/-- `server_timeout`. -/
def serverTimeout (s : ConnId) : Core ℤ := do
  let (p, _) ← ownerServer s
  return (← getPool p).timeout

/-- `msg_tmo_insert`. -/
def msgTmoInsert (env : Env) (m : MsgId) (s : ConnId) : Core Unit := do
  let timeout ← serverTimeout s
  if timeout < 0 then return
  let now ← ask env.msec
  modHeap (Heap.tmoInsert m (now + timeout) s)

/-! ## Messages -/

/-- The bytes of a message that are not sent yet. -/
def unsent (mhdr : List Mbuf) : List UInt8 := mhdr.flatMap Mbuf.rest

/-- The first half of `_msg_get`: an address for the message. -/
def msgAddr (env : Env) : Core (Option MsgId) := do
  match ← readHeap Heap.freeMsgq with
  | m :: rest =>
    modHeap fun h => { h with freeMsgq := rest }
    return some m
  | [] =>
    if ← ask env.alloc then
      let m ← readHeap Heap.nextMsg
      modHeap fun h => { h with nextMsg := m + 1 }
      return some m
    else return none

/-- `_msg_get`. -/
def msgGet₀ (env : Env) : Core (Option MsgId) := do
  match ← msgAddr env with
  | none => return none
  | some m =>
    modHeap fun h => { h with msgId := h.msgId + 1 }
    -- the keys array; without it the message goes back to the allocator
    if ← ask env.alloc then
      modHeap fun h => h.modMsg m fun _ => { id := h.msgId, keys := some [] }
      return some m
    else return none

/-- `msg_get`. -/
def msgGet (env : Env) (c : ConnId) (request : Bool) : Core (Option MsgId) := do
  match ← msgGet₀ env with
  | none => return none
  | some m =>
    let gen := (← getConn c).gen
    modMsg m fun x => { x with owner := some c, ownerGen := gen, request := request }
    return some m

/-- The text of `msg_get_error`, as far as it fits into one mbuf. -/
def errorText (env : Env) (redis : Bool) (err : ℤ) : List UInt8 :=
  let protstr := if redis then "-ERR".toUTF8 else "SERVER_ERROR".toUTF8
  let errstr := if err ≠ 0 then env.strerror err else "unknown".toUTF8.toList
  (protstr.toList ++ " ".toUTF8.toList ++ errstr ++ "\r\n".toUTF8.toList).take (env.mbufSize - 1)

/-- `msg_put`. -/
def Heap.msgPut (m : MsgId) (h : Heap) : Heap :=
  let h := h.emit (.release (h.msg m).id)
  let h := h.modMsg m fun x => { x with mhdr := [], keys := none }
  { h with freeMsgq := m :: h.freeMsgq }

/-- `msg_get_error`. -/
def msgGetError (env : Env) (redis : Bool) (err : ℤ) : Core (Option MsgId) := do
  match ← msgGet₀ env with
  | none => return none
  | some m =>
    -- the mbuf
    if ← ask env.alloc then
      let text := errorText env redis err
      modMsg m fun x => { x with mhdr := [{ rest := text }], mlen := text.length, isError := true }
      return some m
    else
      modHeap (Heap.msgPut m)
      return none

end GfwProxy
