import GfwProxy.Proxy.Request

set_option autoImplicit false

/-!
# Connections to clients and servers

Allocating and releasing connections (`gf_connection.c`), closing a client connection
(`gf_client.c`), and opening and closing server connections (`gf_server.c`).

## Main definitions

* `GfwProxy.connGet`, `GfwProxy.Heap.connPut` — connection objects and their owners.
* `GfwProxy.clientClose`, `GfwProxy.serverClose` — what becomes of the requests of a connection.
* `GfwProxy.serverConnect`, `GfwProxy.serverPoolConn` — a connection to the server of a key.

## Design

The loops over a queue run over the list that the queue holds when they start: each round reads
the next element before it removes the current one, and removes no other.
-/

namespace GfwProxy

/-- The value of `ETIMEDOUT`. -/
def etimedout : ℤ := 110

/-- The value of `EINVAL`. -/
def einval : ℤ := 22

/-- The value of `GF_ERROR`. -/
def gfError : ℤ := -1

/-! ## `gf_connection.c` -/

/-- The first half of `_conn_get`: an address for the connection. -/
def connAddr (env : Env) : Core (Option ConnId) := do
  match ← readHeap Heap.freeConnq with
  | c :: rest =>
    modHeap fun h => { h with freeConnq := rest }
    return some c
  | [] =>
    if ← ask env.alloc then
      let c ← readHeap Heap.nextConn
      modHeap fun h => { h with nextConn := c + 1 }
      return some c
    else return none

/-- `_conn_get`. -/
def connGet₀ (env : Env) : Core (Option ConnId) := do
  match ← connAddr env with
  | none => return none
  | some c =>
    modConn c fun x => { gen := x.gen }
    return some c

/-- Replace `s_conn_q` of server `i` of pool `p`. -/
def Heap.setConnq (p i : ℕ) (q : List ConnId) (h : Heap) : Heap :=
  { h with sConnq := fun p' i' => if p' = p ∧ i' = i then q else h.sConnq p' i' }

/-- `client_ref`. -/
def clientRef (c : ConnId) (p : ℕ) : Core Unit :=
  modConn c fun x => { x with owner := some (.pool p) }

/-- Without an address, a new connection to a server is closed. -/
def resolveFailed (s : ConnId) : Core Unit := do
  modConn s fun x => { x with err := gfError }
  modHeap (Heap.setDone .serverRef s)

/-- `server_ref`. -/
def serverRef (env : Env) (s : ConnId) (p i : ℕ) : Core Unit := do
  let ok ← ask env.resolve
  onlyIf (!ok) (resolveFailed s)
  modHeap fun h => h.setConnq p i (h.sConnq p i ++ [s])
  modConn s fun x => { x with owner := some (.server p i) }

/-- `conn_get` for a client connection of pool `p`. -/
def connGetClient (env : Env) (p : ℕ) (redis : Bool) : Core (Option ConnId) := do
  match ← connGet₀ env with
  | none => return none
  | some c =>
    modConn c fun x => { x with redis := redis, client := true }
    modHeap fun h => { h with ncurrCconn := h.ncurrCconn + 1 }
    clientRef c p
    return some c

/-- `conn_get` for a connection to server `i` of pool `p`. -/
def connGetServer (env : Env) (p i : ℕ) (redis : Bool) : Core (Option ConnId) := do
  match ← connGet₀ env with
  | none => return none
  | some s =>
    modConn s fun x => { x with redis := redis, client := false }
    serverRef env s p i
    return some s

/-- `conn_put`. -/
def Heap.connPut (c : ConnId) (h : Heap) : Heap :=
  let ncurrCconn := if (h.conn c).client then h.ncurrCconn - 1 else h.ncurrCconn
  let h := h.modConn c fun x => { x with gen := x.gen + 1 }
  { h with freeConnq := c :: h.freeConnq, ncurrCconn := ncurrCconn }

/-- The pool of an owner. -/
def Owner.poolOf : Owner → ℕ
  | .pool p => p
  | .server p _ => p

/-- `conn_authenticated`. -/
def connAuthenticated (c : ConnId) : Core Bool := do
  let conn ← getConn c
  let owner ← deref conn.owner
  if !(← getPool owner.poolOf).requireAuth then return true
  return conn.authenticated

/-! ## `gf_client.c` -/

/-- `client_unref`. -/
def clientUnref (c : ConnId) : Core Unit := do
  let _ ← ownerPool c
  modConn c fun x => { x with owner := none }

/-- `client_active`. -/
def clientActive (conn : Conn) : Bool :=
  conn.omsgq ≠ [] || conn.rmsg.isSome || conn.smsg.isSome

/-- `client_close_stats`. -/
def clientCloseStats (p : ℕ) (eof : Bool) : Core Unit := do
  statsPool p .clientConnections (-1)
  statsPool p (if eof then .clientEof else .clientErr) 1

/-- One round of the loop of `client_close` over the outstanding requests: a request that is
done is released, any other one is left to the server connection, to be swallowed. -/
def clientCloseMsg (c : ConnId) (m : MsgId) : Core Unit := do
  reqClientDequeueOmsgq c m
  if (← getMsg m).done then modHeap (Heap.reqPut m)
  else modMsg m fun x => { x with swallow := true }

/-- The loop of `client_close`. -/
def clientCloseMsgs (c : ConnId) : List MsgId → Core Unit
  | [] => pure ()
  | m :: ms => do
    clientCloseMsg c m
    clientCloseMsgs c ms

/-- Discard the request that client connection `c` is receiving. -/
def discardReq (c : ConnId) : Option MsgId → Core Unit
  | none => pure ()
  | some m => do
    modConn c fun x => { x with rmsg := none }
    modHeap (Heap.reqPut m)

/-- `client_close`. -/
def clientClose (c : ConnId) : Core Unit := do
  let conn ← getConn c
  let p ← ownerPool c
  clientCloseStats p conn.eof
  if conn.sd < 0 then
    clientUnref c
    modHeap (Heap.connPut c)
  else
    discardReq c conn.rmsg
    clientCloseMsgs c conn.omsgq
    clientUnref c
    modConn c fun x => { x with sd := -1 }
    modHeap (Heap.connPut c)

/-! ## `gf_server.c` -/

/-- `server_unref`. -/
def serverUnref (s : ConnId) : Core Unit := do
  let (p, i) ← ownerServer s
  modConn s fun x => { x with owner := none }
  modHeap fun h => h.setConnq p i ((h.sConnq p i).erase s)

/-- `server_active`. -/
def serverActive (conn : Conn) : Bool :=
  conn.imsgq ≠ [] || conn.omsgq ≠ [] || conn.rmsg.isSome || conn.smsg.isSome

/-- `server_conn` for server `i` of pool `p`. -/
def serverConn (env : Env) (p i : ℕ) : Core (Option ConnId) := do
  let pool ← getPool p
  let q ← readHeap fun h => h.sConnq p i
  if q.length < pool.serverConnections then connGetServer env p i pool.redis
  else
    -- pick a server connection from the head of the queue and insert it back into the tail
    match q with
    | [] => fault .nullDeref
    | s :: rest =>
      modHeap (Heap.setConnq p i (rest ++ [s]))
      return some s

/-- `server_failure` on server `i` of pool `p`, with its clock readings and statistics. -/
def serverFailureOf (env : Env) (p i : ℕ) : Core Unit := do
  let now₁ ← ask env.usec
  let now₂ ← ask env.usec
  let alloc ← ask env.alloc
  match ← runPool p (serverFailure env.point now₁ now₂ alloc i) with
  | none => pure ()
  | some now =>
    statsServerSetTs p i .serverEjectedAt now
    statsPool p .serverEjects 1

/-- `server_ok` on the server of connection `s`. -/
def serverOkOf (s : ConnId) : Core Unit := do
  let (p, i) ← ownerServer s
  runPool p fun pool => do return ((), ← serverOk i pool)

/-- `server_close_stats`. -/
def serverCloseStats (p i : ℕ) (err : ℤ) (eof connected : Bool) : Core Unit := do
  onlyIf connected (statsServer p i .serverConnections (-1))
  if eof then statsServer p i .serverEof 1
  else if err = etimedout then statsServer p i .serverTimedout 1
  else statsServer p i .serverErr 1

/-- `frag_owner->nfrag_done++` on behalf of fragment `m`, if it is one. -/
def countFragment (m : MsgId) : Core Unit := do
  let msg ← getMsg m
  match msg.fragOwner with
  | none => pure ()
  | some o =>
    emit (.fragInc msg.id (← readHeap fun h => h.stale m) (← readHeap fun h => h.ownerReleased m))
    modMsg o fun x => { x with nfragDone := x.nfragDone + 1 }
    modMsg m fun x => { x with counted := x.counted + 1 }

/-- Ghost: connection `c` is about to be touched on behalf of request `m`. -/
def touch (c : ConnId) (m : MsgId) : Core Unit := do
  emit (.touch c (← getMsg m).id (← readHeap fun h => h.stale m))

/-- If the request at the head of the queue of client `c` is done, wait for write events;
`false` if that fails. -/
def wakeHead (env : Env) (c : ConnId) : Core Bool := do
  if ← reqDone env c (← getConn c).omsgq.head? then eventAddOut env c
  else return true

/-- Dequeue a request from the queue of those that wait for a response, or of those that are not
sent. -/
def serverDequeue (s : ConnId) (out : Bool) (m : MsgId) : Core Unit :=
  if out then reqServerDequeueOmsgq s m else reqServerDequeueImsgq s m

/-- One round of the loops of `server_close`, over the requests that are not sent (`out` is
false) and over those that wait for a response. -/
def serverCloseMsg (env : Env) (s : ConnId) (out : Bool) (m : MsgId) : Core Unit := do
  serverDequeue s out m
  let msg ← getMsg m
  -- no error response if the client has closed its connection or does not expect a reply
  if msg.swallow || (!out && msg.noreply) then modHeap (Heap.reqPut m)
  else
    let c ← deref msg.owner
    touch c m
    let err := (← getConn s).err
    modMsg m fun x => { x with done := true, error := true, err := err }
    countFragment m
    let _ ← wakeHead env c

/-- The loops of `server_close`. -/
def serverCloseMsgs (env : Env) (s : ConnId) (out : Bool) : List MsgId → Core Unit
  | [] => pure ()
  | m :: ms => do
    serverCloseMsg env s out m
    serverCloseMsgs env s out ms

/-- Ghost: a queue of connection `s` holds a request with a timer that is neither done nor in
error. -/
def Heap.armed (h : Heap) (s : ConnId) : Bool :=
  ((h.conn s).imsgq ++ (h.conn s).omsgq).any fun m =>
    (h.msg m).tmoData.isSome && !(h.msg m).done && !(h.msg m).error

/-- Discard the response that server connection `s` is receiving. -/
def discardRsp (s : ConnId) : Option MsgId → Core Unit
  | none => pure ()
  | some m => do
    modConn s fun x => { x with rmsg := none }
    modHeap (Heap.rspPut m)

/-- `server_close`. -/
def serverClose (env : Env) (s : ConnId) : Core Unit := do
  let conn ← getConn s
  let (p, i) ← ownerServer s
  serverCloseStats p i conn.err conn.eof conn.connected
  modConn s fun x => { x with connected := false }
  if conn.sd > 0 then
    onlyIf (← readHeap fun h => h.armed s) (emit (.abandon s))
    serverFailureOf env p i
    serverUnref s
    modHeap (Heap.connPut s)
  else
    serverCloseMsgs env s false conn.imsgq
    serverCloseMsgs env s true conn.omsgq
    discardRsp s conn.rmsg
    serverFailureOf env p i
    serverUnref s
    modConn s fun x => { x with sd := -1 }
    modHeap (Heap.connPut s)

/-- Record `errno` in the connection, after which `server_connect` fails. -/
def connectFailed (env : Env) (s : ConnId) : Core Bool := do
  let err ← getErrno env
  modConn s fun x => { x with err := err }
  return false

/-- `server_connect`; does it succeed? -/
def serverConnect (env : Env) (s : ConnId) : Core Bool := do
  let conn ← getConn s
  if conn.err ≠ 0 then return false
  -- already connected on server connection
  if conn.sd > 0 then return true
  let sd ← ask env.socket
  modConn s fun x => { x with sd := sd }
  if sd < 0 then connectFailed env s
  else if !(← ask env.setNonblocking) then connectFailed env s
  else if !(← eventAddConn env s) then connectFailed env s
  else
    match ← ask env.connect with
    | .inprogress =>
      modConn s fun x => { x with connecting := true }
      return true
    | .failed => connectFailed env s
    | .ok =>
      modConn s fun x => { x with connected := true }
      return true

/-- Call the `post_connect` hook of connection `s`. -/
def postConnect (env : Env) (s : ConnId) : Core Unit := do
  modConn s fun x => { x with posted := x.posted ++ [x.out.length] }
  callHook (env.postConnect s)

/-- `server_connected`. -/
def serverConnected (env : Env) (s : ConnId) : Core Unit := do
  let (p, i) ← ownerServer s
  statsServer p i .serverConnections 1
  modConn s fun x => { x with connecting := false, connected := true }
  postConnect env s

/-- `server_pool_server`: the index of the server of a key. -/
def serverPoolServer (env : Env) (p : ℕ) (key : List UInt8) : Core ℕ := do
  let pool ← getPool p
  let rnd ← ask env.random
  match serverPoolIdx pool key rnd with
  | .error e => fault e
  | .ok i => if i < pool.server.length then pure i else fault .outOfBounds

/-- `server_pool_conn`. -/
def serverPoolConn (env : Env) (p : ℕ) (key : List UInt8) : Core (Option ConnId) := do
  let now₁ ← ask env.usec
  let now₂ ← ask env.usec
  let alloc ← ask env.alloc
  let gate ← runPool p (serverPoolUpdate env.point now₁ now₂ alloc)
  if gate ≠ .ok then return none
  let i ← serverPoolServer env p key
  match ← serverConn env p i with
  | none => return none
  | some s =>
    if ← serverConnect env s then return some s
    else
      serverClose env s
      return none

end GfwProxy
