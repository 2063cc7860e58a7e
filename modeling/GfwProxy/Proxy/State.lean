import Mathlib.Logic.Function.Basic
import GfwProxy.Pool.Failure

set_option autoImplicit false

/-!
# Connections, messages and the state of the proxy

The fields of `struct conn` (`gf_connection.h`) and `struct msg` (`gf_message.h`) that the event
handlers read and write, the objects they are kept in, and the answers the handlers get from
outside: from the system calls, from the allocator and from the protocol callbacks.

## Main definitions

* `GfwProxy.Mbuf`, `GfwProxy.Msg`, `GfwProxy.Conn` — the objects.
* `GfwProxy.Heap` — all connections and messages, the free lists, the timeout tree, and a log of
  what the handlers did.
* `GfwProxy.St`, `GfwProxy.Env`, `GfwProxy.Core` — the state of the proxy, the answers of its
  environment, and the computations that act on both.

## Design

Connections and messages are named by their address.  An address is recycled through a free
list as in the source, so a link to a released object leads to whatever lives there now.  A
message is in use exactly when its `keys` array exists: `_msg_get` creates it and `msg_put`
destroys it.  The queues of a connection are lists, head first.

The protocol parsers are not part of the repository.  What they decide about a message, and
what the callbacks they install do with it, is data of the message (`fragment`, `reply`,
`failure`, `preCoalesce`).  The callbacks touch no queue.  The hooks `post_connect` and
`swallow_msg` of a connection are not part of it either: they are answers of the environment, of
which the handlers see nothing (`GfwProxy.Hook`).

The counters and the statistics are numbers without bound, where the source has `uint32_t`,
`uint64_t` and `int64_t`.

Ghost fields are written and never read by the handlers; they record what happened, to be able
to speak about it.
-/

namespace GfwProxy

/-- The address of a connection. -/
abbrev ConnId := ℕ

/-- The address of a message. -/
abbrev MsgId := ℕ

/-- The owner of a connection: the pool of a client connection, the server of a server
connection (`server->owner` is the pool `p`). -/
inductive Owner
  | pool (p : ℕ)
  | server (p i : ℕ)
  deriving DecidableEq, Repr

/-- A message buffer: the bytes from `start` to `pos`, and those from `pos` to `last`. -/
structure Mbuf where
  sent : List UInt8 := []
  rest : List UInt8 := []
  deriving DecidableEq, Repr

/-- A sub-message as the fragment callback makes it.  Only a parser marks a request as noreply
or quit, so sub-messages are neither. -/
structure Sub where
  keys : List (List UInt8) := []
  mhdr : List Mbuf := []
  deriving DecidableEq, Repr

/-- What the fragment callback does: whether it succeeds, and the sub-messages it appends to the
queue. -/
structure Fragmented where
  ok : Bool := true
  subs : List Sub := []
  deriving DecidableEq, Repr

/-- What the reply callback does: whether it succeeds, and the bytes of the response. -/
structure Replied where
  ok : Bool := true
  mhdr : List Mbuf := []
  deriving DecidableEq, Repr

/-- What the pre-coalesce callback of a response does if the request is a fragment: the bytes it
leaves in the response, and the error it raises for the request. -/
structure Coalesced where
  mhdr : List Mbuf := []
  err : Option ℤ := none
  deriving DecidableEq, Repr

/-- `struct msg`.  The fields `tmoData` and `tmoKey` are those of its timeout node, whose data is
null while it is not in the tree; `keys` is null once the message is on the free list.  The last
fields are ghosts: the incarnation of the owner that the message was allocated for, how often
`nfrag_done` was incremented for this fragment, the number of the request on its connection,
whether `msg_get_error` made the message, and whether a byte of it was written. -/
structure Msg where
  id : ℕ := 0
  peer : Option MsgId := none
  owner : Option ConnId := none
  tmoData : Option ConnId := none
  tmoKey : ℤ := 0
  mhdr : List Mbuf := []
  mlen : ℕ := 0
  keys : Option (List (List UInt8)) := none
  fragOwner : Option MsgId := none
  nfrag : ℕ := 0
  nfragDone : ℕ := 0
  fragId : ℕ := 0
  err : ℤ := 0
  error : Bool := false
  ferror : Bool := false
  request : Bool := false
  quit : Bool := false
  noreply : Bool := false
  noforward : Bool := false
  done : Bool := false
  fdone : Bool := false
  swallow : Bool := false
  fragment : Fragmented := {}
  reply : Replied := {}
  failure : Bool := false
  preCoalesce : Coalesced := {}
  ownerGen : ℕ := 0
  counted : ℕ := 0
  reqNo : ℕ := 0
  isError : Bool := false
  started : Bool := false

/-- Ghost: a response whose first byte was written to a client, with all its bytes at that
time, the id of the message it answers and the number of the request it belongs to. -/
structure Started where
  reqNo : ℕ
  id : ℕ
  bytes : List UInt8
  deriving DecidableEq, Repr

/-- Ghost: what became of a non-empty response received from a server: it was linked to the
request with an id, swallowed with it, or dropped because no request was outstanding or because
it reported a failure. -/
inductive Answer
  | linked (id : ℕ)
  | swallowed (id : ℕ)
  | stray
  | failed
  deriving DecidableEq, Repr

/-- `struct conn`.  The last fields are ghosts: how often the object was put on the free list,
whether a write notification is pending, whether the last writev was short or returned EAGAIN,
how many requests were received, the bytes written to the socket, the responses whose first byte
was written, the ids of the requests sent that expect a reply, what became of the non-empty
responses received, and for each call of `post_connect` the number of bytes written before it. -/
structure Conn where
  owner : Option Owner := none
  sd : ℤ := -1
  imsgq : List MsgId := []
  omsgq : List MsgId := []
  rmsg : Option MsgId := none
  smsg : Option MsgId := none
  err : ℤ := 0
  recvActive : Bool := false
  recvReady : Bool := false
  sendActive : Bool := false
  sendReady : Bool := false
  client : Bool := false
  connecting : Bool := false
  connected : Bool := false
  eof : Bool := false
  done : Bool := false
  redis : Bool := false
  authenticated : Bool := false
  gen : ℕ := 0
  evOut : Bool := false
  lastShort : Bool := false
  nReq : ℕ := 0
  out : List UInt8 := []
  started : List Started := []
  sent : List ℕ := []
  answers : List Answer := []
  posted : List ℕ := []

/-- Ghost: the functions that set `done` of a connection. -/
inductive Closer
  | serverRef
  | reqRecvNext
  | rspRecvNext
  | rspFilter
  | rspSendNext
  deriving DecidableEq, Repr

/-- Ghost: what the handlers do that the properties speak about.  `stale` tells whether the
client connection that the request with this id came from is closed.

* `link` — `rsp_forward` links the request to a response;
* `touch` — a client connection is touched on behalf of the request;
* `fragInc` — `nfrag_done` of the fragment owner, which may be `released`, is incremented;
* `release` — the message is released;
* `abandon` — `server_close` leaves an open connection whose queues hold a request with a timer;
* `fwdFail` — a fragment fails in `req_forward` without being counted;
* `noWake` — `event_add_out` fails on a client connection;
* `idle` — a write event finds that the request at the head of the queue is not done;
* `cut` — a writev ends inside an error reply;
* `done` — function `f` sets `done` of a connection, which may be of a `client`, at the end of the
  file (`eof`), and have nothing outstanding, partially received or partially sent (`idle`). -/
inductive Ev
  | link (id : ℕ) (stale : Bool)
  | touch (c : ConnId) (id : ℕ) (stale : Bool)
  | fragInc (id : ℕ) (stale released : Bool)
  | release (id : ℕ)
  | abandon (s : ConnId)
  | fwdFail (id : ℕ)
  | noWake (c : ConnId)
  | idle (c : ConnId)
  | cut (c : ConnId)
  | done (f : Closer) (c : ConnId) (client eof idle : Bool)
  deriving DecidableEq, Repr

/-- The objects of the proxy and the static variables that keep them: the free lists, the next
address that `gf_alloc` returns for either kind, the counters, the timeout tree in order, and
`s_conn_q` of server `i` of pool `p`. -/
structure Heap where
  conn : ConnId → Conn := fun _ => {}
  msg : MsgId → Msg := fun _ => {}
  freeConnq : List ConnId := []
  nextConn : ConnId := 0
  ncurrCconn : ℕ := 0
  freeMsgq : List MsgId := []
  nextMsg : MsgId := 0
  msgId : ℕ := 0
  fragId : ℕ := 0
  tmoRbt : List MsgId := []
  sConnq : ℕ → ℕ → List ConnId := fun _ _ => []
  log : List Ev := []

/-- The metrics of a pool that the handlers update. -/
inductive PoolStat
  | clientEof
  | clientErr
  | clientConnections
  | serverEjects
  | forwardError
  deriving DecidableEq, Repr

/-- The metrics of a server that the handlers update. -/
inductive ServerStat
  | serverEof
  | serverErr
  | serverTimedout
  | serverConnections
  | serverEjectedAt
  | requests
  | requestBytes
  | responses
  | responseBytes
  | inQueue
  | inQueueBytes
  | outQueue
  | outQueueBytes
  deriving DecidableEq, Repr

/-- The state of the proxy, with `ctx->timeout` and the number of answers taken from the
environment in the current step. -/
structure St where
  heap : Heap := {}
  pool : ℕ → ServerPool := fun _ => { server := [] }
  poolStat : ℕ → PoolStat → ℤ := fun _ _ => 0
  serverStat : ℕ → ℕ → ServerStat → ℤ := fun _ _ _ => 0
  timeout : ℤ := 0
  tick : ℕ := 0

/-- What `connect` returns. -/
inductive Connected
  | ok
  | inprogress
  | failed
  deriving DecidableEq, Repr

/-- What `read` returns: `n` bytes (fewer than asked for, if `short`; end of file, if `n` is 0),
EAGAIN or an error. -/
inductive Received
  | data (n : ℕ) (short : Bool)
  | again
  | failed
  deriving DecidableEq, Repr

/-- What the parser leaves in a message it has completed. -/
structure Parsed where
  mhdr : List Mbuf := []
  keys : List (List UInt8) := []
  quit : Bool := false
  noreply : Bool := false
  noforward : Bool := false
  fragment : Fragmented := {}
  reply : Replied := {}
  failure : Bool := false
  preCoalesce : Coalesced := {}
  deriving DecidableEq, Repr

/-- What the parser returns: a completed message and the number of bytes left after it, or one
of the other results. -/
inductive Parse
  | ok (p : Parsed) (left : ℕ)
  | repair
  | again
  | failed
  deriving DecidableEq, Repr

/-- What `writev` returns. -/
inductive Written
  | bytes (n : ℕ)
  | again
  | failed
  deriving DecidableEq, Repr

/-- What a hook of the protocol does.  It changes neither the objects nor the pools nor the
statistics of servers. -/
structure Hook where
  run : St → St
  heap : ∀ σ, (run σ).heap = σ.heap
  pool : ∀ σ, (run σ).pool = σ.pool
  serverStat : ∀ σ, (run σ).serverStat = σ.serverStat

/-- A hook that does nothing. -/
def Hook.skip : Hook := ⟨id, fun _ => rfl, fun _ => rfl, fun _ => rfl⟩

/-- The answers of the environment.  Those of the calls are indexed by the number of answers
already taken: the clocks, whether an allocation succeeds, `errno` (a positive number) after a
failed call, the calls on sockets, the parser of a message, the add-auth callback, the hooks of
the connections, and the bytes that the post-coalesce callback leaves in the response of each
request of the vector. -/
structure Env where
  fuel : ℕ := 100
  usec : ℕ → ℤ := fun _ => 0
  msec : ℕ → ℤ := fun _ => 0
  alloc : ℕ → Bool := fun _ => true
  errno : ℕ → ℕ := fun _ => 0
  epollCtl : ℕ → Bool := fun _ => true
  resolve : ℕ → Bool := fun _ => true
  socket : ℕ → ℤ := fun _ => 3
  setNonblocking : ℕ → Bool := fun _ => true
  soerror : ℕ → ℤ := fun _ => 0
  connect : ℕ → Connected := fun _ => .ok
  recv : ℕ → Received := fun _ => .again
  parse : ℕ → Parse := fun _ => .again
  writev : ℕ → Written := fun _ => .again
  random : ℕ → ℕ := fun _ => 0
  addAuth : ℕ → Bool := fun _ => true
  postConnect : ConnId → Hook := fun _ => .skip
  swallowMsg : ConnId → MsgId → MsgId → Hook := fun _ _ _ => .skip
  postCoalesce : ℕ → MsgId → List Mbuf := fun _ _ => []
  strerror : ℤ → List UInt8 := fun _ => []
  mbufSize : ℕ := 512
  point : List UInt8 → ℕ → ℕ → ℕ := fun _ _ _ => 0
  maxNcconn : ℕ := 1024
  maxTimeout : ℤ := 30000

/-! ## Computations -/

/-- A computation of the proxy. -/
abbrev Core := StateT St (Except Fault)

/-- An optional statement. -/
def onlyIf (b : Bool) (x : Core Unit) : Core Unit := if b then x else pure ()

/-- Read the objects. -/
def readHeap {α : Type} (f : Heap → α) : Core α := fun σ => .ok (f σ.heap, σ)

/-- Write the objects. -/
def modHeap (f : Heap → Heap) : Core Unit := fun σ => .ok ((), { σ with heap := f σ.heap })

/-- Stop. -/
def fault {α : Type} (e : Fault) : Core α := fun _ => .error e

/-- Take an answer of the environment. -/
def ask {α : Type} (f : ℕ → α) : Core α := fun σ => .ok (f σ.tick, { σ with tick := σ.tick + 1 })

/-- The value of a link, which must not be null. -/
def deref {α : Type} : Option α → Core α
  | none => fault .nullDeref
  | some a => pure a

/-- Replace connection `c`. -/
def Heap.modConn (c : ConnId) (f : Conn → Conn) (h : Heap) : Heap :=
  { h with conn := Function.update h.conn c (f (h.conn c)) }

/-- Replace message `m`. -/
def Heap.modMsg (m : MsgId) (f : Msg → Msg) (h : Heap) : Heap :=
  { h with msg := Function.update h.msg m (f (h.msg m)) }

/-- Ghost: log an event. -/
def Heap.emit (e : Ev) (h : Heap) : Heap := { h with log := e :: h.log }

def getConn (c : ConnId) : Core Conn := readHeap fun h => h.conn c

def getMsg (m : MsgId) : Core Msg := readHeap fun h => h.msg m

def modConn (c : ConnId) (f : Conn → Conn) : Core Unit := modHeap (Heap.modConn c f)

def modMsg (m : MsgId) (f : Msg → Msg) : Core Unit := modHeap (Heap.modMsg m f)

def emit (e : Ev) : Core Unit := modHeap (Heap.emit e)

/-- Call a hook. -/
def callHook (hook : Hook) : Core Unit := fun σ => .ok ((), hook.run σ)

/-- Ghost: nothing is outstanding, partially received or partially sent. -/
def Conn.idle (x : Conn) : Bool := x.omsgq = [] && x.rmsg.isNone && x.smsg.isNone

/-- `conn->done = 1`, in function `f`. -/
def Heap.setDone (f : Closer) (c : ConnId) (h : Heap) : Heap :=
  (h.emit (.done f c (h.conn c).client (h.conn c).eof (h.conn c).idle)).modConn c fun x =>
    { x with done := true }

/-- Read a pool. -/
def getPool (p : ℕ) : Core ServerPool := fun σ => .ok (σ.pool p, σ)

/-- Run an operation of a pool. -/
def runPool {α : Type} (p : ℕ) (f : ServerPool → Except Fault (α × ServerPool)) : Core α :=
  fun σ =>
    match f (σ.pool p) with
    | .error e => .error e
    | .ok (a, pool) => .ok (a, { σ with pool := Function.update σ.pool p pool })

/-- `errno` after a failed call. -/
def getErrno (env : Env) : Core ℤ := ask fun t => (env.errno t : ℤ) + 1

/-- Ghost: has the client connection that request `m` came from been closed? -/
def Heap.stale (h : Heap) (m : MsgId) : Bool :=
  match (h.msg m).owner with
  | none => true
  | some c => (h.conn c).gen ≠ (h.msg m).ownerGen

/-- Ghost: has the fragment owner of `m` been released? -/
def Heap.ownerReleased (h : Heap) (m : MsgId) : Bool :=
  match (h.msg m).fragOwner with
  | none => true
  | some o => (h.msg o).keys.isNone || (h.msg o).fragId ≠ (h.msg m).fragId

/-! ## Statistics -/

/-- `stats_pool_incr_by`, and `stats_pool_decr_by` with a negative value. -/
def statsPool (p : ℕ) (name : PoolStat) (val : ℤ) : Core Unit := fun σ =>
  let stat := Function.update (σ.poolStat p) name (σ.poolStat p name + val)
  .ok ((), { σ with poolStat := Function.update σ.poolStat p stat })

/-- Set a metric of server `i` of pool `p`. -/
def St.setServerStat (σ : St) (p i : ℕ) (name : ServerStat) (val : ℤ) : St :=
  let stat := Function.update (σ.serverStat p i) name val
  { σ with serverStat := Function.update σ.serverStat p (Function.update (σ.serverStat p) i stat) }

/-- `stats_server_incr_by`, and `stats_server_decr_by` with a negative value. -/
def statsServer (p i : ℕ) (name : ServerStat) (val : ℤ) : Core Unit := fun σ =>
  .ok ((), σ.setServerStat p i name (σ.serverStat p i name + val))

/-- `stats_server_set_ts`. -/
def statsServerSetTs (p i : ℕ) (name : ServerStat) (val : ℤ) : Core Unit := fun σ =>
  .ok ((), σ.setServerStat p i name val)

/-- The server that owns connection `s`. -/
def ownerServer (s : ConnId) : Core (ℕ × ℕ) := do
  match (← getConn s).owner with
  | some (.server p i) => return (p, i)
  | _ => fault .nullDeref

/-- The pool that owns client connection `c`. -/
def ownerPool (c : ConnId) : Core ℕ := do
  match (← getConn c).owner with
  | some (.pool p) => return p
  | _ => fault .nullDeref

/-! ## Queues -/

/-- `TAILQ_NEXT`: the element after `m`; the links of a message outside the queue lead
nowhere. -/
def tailqNext (m : MsgId) : List MsgId → Option MsgId
  | [] => none
  | x :: xs => if x = m then xs.head? else tailqNext m xs

/-- The neighbours of `m` before it, nearest first. -/
def tailqBefore (m : MsgId) (q : List MsgId) : List MsgId := (q.takeWhile (· ≠ m)).reverse

/-- The elements after `m`, nearest first. -/
def tailqAfter (m : MsgId) (q : List MsgId) : List MsgId := (q.dropWhile (· ≠ m)).tail

end GfwProxy
