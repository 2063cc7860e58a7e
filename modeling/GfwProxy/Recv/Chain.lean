import Mathlib.Data.List.ModifyLast
import GfwProxy.Hashkit.ServerPool
import GfwProxy.Lib.Total

set_option autoImplicit false

/-!
# The receive path, byte by byte

`msg_recv` of `gf_message.c` with the functions that it calls, for one client or server connection:
`msg_recv_chain` reads into the last mbuf of the message that is being received, and `msg_parse`
lets the parser decide where the message ends; `mbuf_split` of `gf_mbuf.c` moves the bytes behind it
to a new mbuf.

## Main definitions

* `GfwProxy.Recv.Mbuf`, `GfwProxy.Recv.Msg`, `GfwProxy.Recv.St` — the objects.
* `GfwProxy.Recv.mbufSplit`, `GfwProxy.Recv.msgParsed`, `GfwProxy.Recv.msgRepair`,
  `GfwProxy.Recv.msgParse`, `GfwProxy.Recv.msgRecvChain`, `GfwProxy.Recv.msgRecv`.

## Design

The parser is a parameter: it reads the whole message, including its own part `σ` of it, and answers
with a result, the new `pos` and its new part.  So is what the `recv_done` handler does with a
message once it has made the next one the message of the connection.  Messages are known by their
`id`, which `_msg_get` gives only once; mbufs are known by their place in a message, and their
memory is that of the chunk with which the allocator answers.
-/

namespace GfwProxy.Recv

abbrev MsgId := ℕ

/-- `struct mbuf`, with the memory from `start` to `bound` (`end` in the source). -/
structure Mbuf where
  start : ℕ
  pos : ℕ
  last : ℕ
  bound : ℕ
  mem : List UInt8
  deriving DecidableEq, Repr

/-- `mbuf_full`. -/
def Mbuf.full (b : Mbuf) : Bool := b.last = b.bound

/-- `mbuf_length`. -/
def mbufLength (b : Mbuf) : ℕ := u32 (b.last - b.pos)

/-- `mbuf_size`. -/
def mbufSize (b : Mbuf) : ℕ := u32 (b.bound - b.last)

/-- The `n` bytes of memory from `p` on. -/
def Mbuf.slice (b : Mbuf) (p n : ℕ) : List UInt8 := (b.mem.drop (p - b.start)).take n

/-- The bytes from `pos` to `last`. -/
def Mbuf.bytes (b : Mbuf) : List UInt8 := b.slice b.pos (b.last - b.pos)

/-- Bytes are written at `last`, which is moved behind them. -/
def Mbuf.write (b : Mbuf) (bytes : List UInt8) : Mbuf :=
  let i := b.last - b.start
  { b with
    mem := b.mem.take i ++ bytes ++ b.mem.drop (i + bytes.length), last := b.last + bytes.length }

/-- `mbuf_copy` of `n` bytes from `pos` in another mbuf. -/
def mbufCopy (mbuf src : Mbuf) (pos n : ℕ) : Mbuf :=
  if n = 0 then mbuf else mbuf.write (src.slice pos n)

/-- `struct msg`, as far as the receive path uses it; `state` is the part of the parser. -/
structure Msg (σ : Type) where
  mhdr : List Mbuf := []
  pos : ℕ := 0
  mlen : ℕ := 0
  state : σ
  deriving DecidableEq, Repr

/-- The bytes of a message. -/
def Msg.bytes {σ : Type} (m : Msg σ) : List UInt8 := m.mhdr.flatMap Mbuf.bytes

/-- `msg_parse_result_t`; an error leaves `errno`. -/
inductive ParseResult
  | ok
  | error (errno : ℤ)
  | repair
  | again
  deriving DecidableEq, Repr

/-- What the parser leaves in a message. -/
structure Parsed (σ : Type) where
  result : ParseResult
  pos : ℕ
  state : σ

/-- The answer to a `read`: the bytes that there are, or the end of the stream if there are none. -/
inductive Read
  | data (bytes : List UInt8)
  | eintr
  | again
  | failed (errno : ℤ)
  deriving DecidableEq, Repr

/-- A chunk of the allocator, with room for `size` bytes. -/
structure Chunk (size : ℕ) where
  addr : ℕ
  mem : List UInt8
  length_mem : mem.length = size

/-- What the `recv_done` handler does to the connection: it may fail, ask to close it, or receive
the quit command. -/
structure Handled where
  err : ℤ := 0
  done : Bool := false
  quit : Bool := false

/-- The parameters: the part of the parser in a new message, the parser, the chunks by the number of
those given before, whether an allocation of a message succeeds, by the number of those before, the
handler by the messages passed to it so far, and whether the connection is active. -/
structure Env (σ : Type) (size : ℕ) where
  state₀ : σ
  parser : Msg σ → Parsed σ
  chunk : ℕ → Option (Chunk size)
  msgAlloc : ℕ → Bool := fun _ => true
  handler : List (Msg σ) → Handled := fun _ => {}
  client : Bool := false
  active : List (Msg σ) → Bool := fun _ => true

/-- The connection and the messages.  `input` holds the answers to the next reads; `nchunk` is the
number of chunks given.  `received` holds the bytes read, and `passed` the messages as they were
passed to `recv_done`. -/
structure St (σ : Type) where
  msg : MsgId → Msg σ
  msgId : MsgId := 0
  rmsg : Option MsgId := none
  eof : Bool := false
  done : Bool := false
  recvReady : Bool := false
  err : ℤ := 0
  nchunk : ℕ := 0
  input : List Read := []
  received : List UInt8 := []
  passed : List (Msg σ) := []

abbrev Core (σ : Type) := StateT (St σ) (Except Fault)

variable {σ : Type} {size : ℕ}

/-- Message `m` is updated. -/
def St.modMsg (s : St σ) (m : MsgId) (f : Msg σ → Msg σ) : St σ :=
  { s with msg := fun x => if x = m then f (s.msg m) else s.msg x }

def modMsg (m : MsgId) (f : Msg σ → Msg σ) : Core σ Unit := modify fun s => s.modMsg m f

/-! ## `gf_mbuf.c` -/

/-- The mbuf of a chunk. -/
def Chunk.mbuf (c : Chunk size) : Mbuf :=
  { start := c.addr, pos := c.addr, last := c.addr, bound := c.addr + size, mem := c.mem }

/-- `mbuf_get`. -/
def mbufGet (env : Env σ size) : Core σ (Option Mbuf) := do
  let s ← get
  modify fun s => { s with nchunk := s.nchunk + 1 }
  return (env.chunk s.nchunk).map Chunk.mbuf

/-- `STAILQ_LAST` of the mbufs of a message. -/
def St.lastMbuf (s : St σ) (m : MsgId) : Option Mbuf := (s.msg m).mhdr.getLast?

/-- `mbuf_insert`, at the end of the mbufs of a message. -/
def Msg.insert (x : Msg σ) (mbuf : Mbuf) : Msg σ := { x with mhdr := x.mhdr ++ [mbuf] }

/-- `mbuf_split` of the last mbuf of `m` at `pos`, without a precopy handler. -/
def mbufSplit (env : Env σ size) (m : MsgId) (pos : ℕ) : Core σ (Option Mbuf) := do
  let s ← get
  match s.lastMbuf m with
  | none => throw .nullDeref
  | some mbuf =>
    match ← mbufGet env with
    | none => return none
    | some nbuf =>
      -- adjust mbuf
      modMsg m fun x => { x with mhdr := x.mhdr.modifyLast fun b => { b with last := pos } }
      -- copy data from mbuf to nbuf
      return some (mbufCopy nbuf mbuf pos (mbuf.last - pos))

/-! ## The handlers of the connection -/

/-- `msg_get`. -/
def msgGet (env : Env σ size) : Core σ (Option MsgId) := do
  let s ← get
  if env.msgAlloc s.msgId then
    modify fun s => { s with msgId := s.msgId + 1 }
    modMsg (s.msgId + 1) fun _ => { state := env.state₀ }
    return some (s.msgId + 1)
  else return none

/-- The `recv_next` handler of a connection that is done at the end of the stream if `idle`
holds. -/
def recvNextOr (env : Env σ size) (idle : Bool) (alloc : Bool) : Core σ (Option MsgId) := do
  let s ← get
  if s.eof then
    -- the peer sent eof before sending the entire message
    modify fun s => { s with rmsg := none, done := s.done || idle }
    return none
  else
    match s.rmsg with
    | some m => return some m
    | none =>
      if alloc then
        match ← msgGet env with
        | some m =>
          modify fun s => { s with rmsg := some m }
          return some m
        | none => return none
      else return none

/-- `rsp_recv_next`. -/
def rspRecvNext (env : Env σ size) (alloc : Bool) : Core σ (Option MsgId) :=
  recvNextOr env true alloc

/-- `req_recv_next`. -/
def reqRecvNext (env : Env σ size) (alloc : Bool) : Core σ (Option MsgId) := do
  let s ← get
  recvNextOr env (!env.active s.passed) alloc

/-- `conn->recv_next`. -/
def recvNext (env : Env σ size) (alloc : Bool) : Core σ (Option MsgId) :=
  if env.client then reqRecvNext env alloc else rspRecvNext env alloc

/-- `conn->recv_done`: both handlers first enqueue the next message, if any. -/
def recvDone (env : Env σ size) (m : MsgId) (nmsg : Option MsgId) : Core σ Unit := do
  let s ← get
  let handled := env.handler (s.passed ++ [s.msg m])
  modify fun s => { s with
    rmsg := nmsg
    passed := s.passed ++ [s.msg m]
    err := if handled.err = 0 then s.err else handled.err
    done := s.done || handled.done
    eof := s.eof || handled.quit
    recvReady := s.recvReady && !handled.quit }

/-! ## `gf_message.c` -/

/-- `msg_parsed`. -/
def msgParsed (env : Env σ size) (m : MsgId) : Core σ Rstatus := do
  let s ← get
  match s.lastMbuf m with
  | none => throw .nullDeref
  | some mbuf =>
    if (s.msg m).pos = mbuf.last then
      -- no more data to parse
      recvDone env m none
      return .ok
    else
      match ← mbufSplit env m (s.msg m).pos with
      | none => return .enomem
      | some nbuf =>
        match ← msgGet env with
        | none => return .enomem
        | some nmsg =>
          modMsg nmsg fun x => { x.insert nbuf with pos := nbuf.pos, mlen := mbufLength nbuf }
          -- update length of current (msg)
          modMsg m fun x => { x with mlen := u32 (x.mlen + (2 ^ 32 - mbufLength nbuf)) }
          recvDone env m (some nmsg)
          return .ok

/-- `msg_repair`. -/
def msgRepair (env : Env σ size) (m : MsgId) : Core σ Rstatus := do
  let s ← get
  match ← mbufSplit env m (s.msg m).pos with
  | none => return .enomem
  | some nbuf =>
    modMsg m fun x => { x.insert nbuf with pos := nbuf.pos }
    return .ok

/-- What `msg_parse` does with the result of the parser. -/
def msgResult (env : Env σ size) (m : MsgId) : ParseResult → Core σ Rstatus
  | .ok => msgParsed env m
  | .repair => msgRepair env m
  | .again => return .ok
  | .error errno => do
    modify fun s => { s with err := errno }
    return .error

/-- `msg_parse`. -/
def msgParse (env : Env σ size) (m : MsgId) : Core σ Rstatus := do
  let s ← get
  if (s.msg m).mlen = 0 then
    -- no data to parse
    recvDone env m none
    return .ok
  else
    let parsed := env.parser (s.msg m)
    modMsg m fun x => { x with pos := parsed.pos, state := parsed.state }
    let status ← msgResult env m parsed.result
    let s ← get
    return if s.err ≠ 0 then .error else status

/-- The body of the loop of `msg_recv_chain`: it goes on with the next message to parse. -/
def parseNext (env : Env σ size) (m : MsgId) : Core σ (MsgId ⊕ Rstatus) := do
  let status ← msgParse env m
  if status ≠ .ok then return .inr status
  else
    -- get next message to parse
    match ← recvNext env false with
    | none => return .inr .ok
    | some nmsg => return if nmsg = m then .inr .ok else .inl nmsg

/-- The answer to the next `read` that no signal interrupts, and those that follow; without an
answer there is nothing to read. -/
def nextRead : List Read → Read × List Read
  | [] => (.again, [])
  | .eintr :: rest => nextRead rest
  | r :: rest => (r, rest)

/-- `conn_recv` into a buffer of `msize` bytes, with the bytes read. -/
def connRecv (msize : ℕ) : Core σ (Rstatus × List UInt8) := do
  let s ← get
  let (r, input) := nextRead s.input
  match r with
  | .data bytes =>
    -- what does not fit is left for the next read
    let left := bytes.drop msize
    let bytes := bytes.take msize
    modify fun s => { s with
      input := if left = [] then input else .data left :: input
      recvReady := s.recvReady && bytes.length = msize && bytes ≠ []
      eof := s.eof || bytes = []
      received := s.received ++ bytes }
    return (.ok, bytes)
  | .failed errno =>
    modify fun s => { s with input := input, recvReady := false, err := errno }
    return (.error, [])
  | _ =>
    modify fun s => { s with input := input, recvReady := false }
    return (.eagain, [])

/-- The first part of `msg_recv_chain`: an mbuf with room at the end of the message. -/
def recvMbuf (env : Env σ size) (m : MsgId) : Core σ (Option Mbuf) := do
  let s ← get
  if (s.lastMbuf m).all Mbuf.full then
    match ← mbufGet env with
    | none => return none
    | some mbuf =>
      modMsg m fun x => { x.insert mbuf with pos := mbuf.pos }
      return some mbuf
  else return s.lastMbuf m

/-- `msg_recv_chain`, with the number of rounds that its loop may take. -/
def msgRecvChain (env : Env σ size) (fuel : ℕ) (m : MsgId) : Core σ Rstatus := do
  match ← recvMbuf env m with
  | none => return .enomem
  | some mbuf =>
    let (status, bytes) ← connRecv (mbufSize mbuf)
    match status with
    | .ok =>
      modMsg m fun x => { x with
        mhdr := x.mhdr.modifyLast fun b => b.write bytes, mlen := u32 (x.mlen + u32 bytes.length) }
      Exec.loop .fuel (parseNext env) fuel m
    | .eagain => return .ok
    | _ => return .error

/-- The body of the loop of `msg_recv`: it goes on, or it returns. -/
def msgRecvNext (env : Env σ size) (fuel : ℕ) (_ : Unit) : Core σ (Unit ⊕ Rstatus) := do
  match ← recvNext env true with
  | none => return .inr .ok
  | some m =>
    let status ← msgRecvChain env fuel m
    if status ≠ .ok then return .inr status
    else
      let s ← get
      return if s.recvReady then .inl () else .inr .ok

/-- `msg_recv`, with the number of rounds that its loop and that of `msg_recv_chain` may take. -/
def msgRecv (env : Env σ size) (rounds fuel : ℕ) : Core σ Rstatus := do
  modify fun s => { s with recvReady := true }
  Exec.loop .fuel (msgRecvNext env fuel) rounds ()

end GfwProxy.Recv
