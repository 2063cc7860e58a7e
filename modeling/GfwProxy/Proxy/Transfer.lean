import GfwProxy.Proxy.Response

set_option autoImplicit false

/-!
# Receiving and sending messages

The second half of `gf_message.c`: `msg_recv` reads from a connection and hands the messages
that the parser completes to the read handler; `msg_send` gathers the buffers of as many
messages as the write handler offers, writes them with one `writev`, and accounts for what was
written.

## Main definitions

* `GfwProxy.msgRecv`, `GfwProxy.msgRecvChain`, `GfwProxy.msgParse`, `GfwProxy.msgParsed`.
* `GfwProxy.msgSend`, `GfwProxy.msgSendChain` — with `GfwProxy.gatherMbufs`, `GfwProxy.msgGather`
  for the iovecs and `GfwProxy.consumeMbufs`, `GfwProxy.msgSent` for the accounting.

## Design

The receive path is modelled message by message: a read adds to the length of the message that
is being received, and a parser that completes a message says what is in it and how many bytes
are left over.  The send path is modelled byte by byte.  A loop that has no bound in the source
runs for at most `fuel` rounds.
-/

namespace GfwProxy

/-! ## Receiving -/

/-- The `recv_next` handler of a connection. -/
def connRecvNext (env : Env) (c : ConnId) (alloc : Bool) : Core (Option MsgId) := do
  if (← getConn c).client then reqRecvNext env c alloc else rspRecvNext env c alloc

/-- The `recv_done` handler of a connection. -/
def connRecvDone (env : Env) (c : ConnId) (m : MsgId) (nmsg : Option MsgId) : Core Unit := do
  if (← getConn c).client then reqRecvDone env c m nmsg else rspRecvDone env c m nmsg

/-- `conn_recv`, with the number of bytes read. -/
def connRecv (env : Env) (c : ConnId) : Core (Rstatus × ℕ) := do
  match ← ask env.recv with
  | .data n short =>
    modConn c fun x =>
      { x with recvReady := x.recvReady && !short && n ≠ 0, eof := x.eof || n = 0 }
    return (.ok, n)
  | .again =>
    modConn c fun x => { x with recvReady := false }
    return (.eagain, 0)
  | .failed =>
    modConn c fun x => { x with recvReady := false }
    setErrno env c
    return (.error, 0)

/-- The parser has completed message `m`. -/
def setParsed (m : MsgId) (p : Parsed) : Core Unit :=
  modMsg m fun x => { x with
    mhdr := p.mhdr, mlen := (unsent p.mhdr).length, keys := some p.keys
    quit := p.quit, noreply := p.noreply, noforward := p.noforward, fragment := p.fragment
    reply := p.reply, failure := p.failure, preCoalesce := p.preCoalesce }

/-- `msg_parsed` when `left` bytes are left behind the message: they become the next one. -/
def msgSplit (env : Env) (c : ConnId) (m : MsgId) (left : ℕ) : Core Rstatus := do
  if ← ask env.alloc then
    let msg ← getMsg m
    match ← msgGet env (← deref msg.owner) msg.request with
    | none => return .enomem
    | some nmsg =>
      modMsg nmsg fun x => { x with mlen := left }
      connRecvDone env c m (some nmsg)
      return .ok
  else return .enomem

/-- `msg_parsed`, with the number of bytes behind the message. -/
def msgParsed (env : Env) (c : ConnId) (m : MsgId) (left : ℕ) : Core Rstatus := do
  if left = 0 then
    -- no more data to parse
    connRecvDone env c m none
    return .ok
  else msgSplit env c m left

/-- What `msg_parse` does with the result of the parser. -/
def msgResult (env : Env) (c : ConnId) (m : MsgId) : Parse → Core Rstatus
  | .ok p left => do
    setParsed m p
    msgParsed env c m left
  | .repair => do
    if ← ask env.alloc then return .ok else return .enomem
  | .again => return .ok
  | .failed => do
    setErrno env c
    return .error

/-- `msg_parse`. -/
def msgParse (env : Env) (c : ConnId) (m : MsgId) : Core Rstatus := do
  if (← getMsg m).mlen = 0 then
    -- no data to parse
    connRecvDone env c m none
    return .ok
  else
    let result ← ask env.parse
    let status ← msgResult env c m result
    return if (← getConn c).err ≠ 0 then .error else status

/-- The parse loop of `msg_recv_chain`. -/
def msgParseLoop (env : Env) (c : ConnId) : ℕ → MsgId → Core Rstatus
  | 0, _ => fault .fuel
  | fuel + 1, m => do
    let status ← msgParse env c m
    if status ≠ .ok then return status
    else
      -- get next message to parse
      match ← connRecvNext env c false with
      | none => return .ok
      | some nmsg => if nmsg = m then return .ok else msgParseLoop env c fuel nmsg

/-- `msg_recv_chain`. -/
def msgRecvChain (env : Env) (c : ConnId) (m : MsgId) : Core Rstatus := do
  -- a new mbuf, if the last one is full
  if ← ask env.alloc then
    let r ← connRecv env c
    match r.1 with
    | .ok =>
      modMsg m fun x => { x with mlen := x.mlen + r.2 }
      msgParseLoop env c env.fuel m
    | .eagain => return .ok
    | _ => return .error
  else return .enomem

/-- `msg_recv`, which has set `recv_ready`. -/
def msgRecvLoop (env : Env) (c : ConnId) : ℕ → Core Rstatus
  | 0 => fault .fuel
  | fuel + 1 => do
    match ← connRecvNext env c true with
    | none => return .ok
    | some m =>
      let status ← msgRecvChain env c m
      if status ≠ .ok then return status
      else if (← getConn c).recvReady then msgRecvLoop env c fuel
      else return .ok

/-- `msg_recv`. -/
def msgRecv (env : Env) (c : ConnId) : Core Rstatus := do
  modConn c fun x => { x with recvReady := true }
  msgRecvLoop env c env.fuel

/-! ## Sending -/

/-- `GF_IOV_MAX`. -/
def iovMax : ℕ := 128

/-- `SSIZE_MAX`. -/
def ssizeMax : ℕ := 2 ^ 63 - 1

/-- The number of bytes in a list of iovecs. -/
def nsend (iov : List (List UInt8)) : ℕ := (iov.map List.length).sum

/-- The `send_next` handler of a connection. -/
def connSendNext (env : Env) (c : ConnId) : Core (Option MsgId) := do
  if (← getConn c).client then rspSendNext env c else reqSendNext env c

/-- The `send_done` handler of a connection. -/
def connSendDone (c : ConnId) (m : MsgId) : Core Unit := do
  if (← getConn c).client then rspSendDone c m else reqSendDone c m

/-- Push the buffers of a message onto the iovecs, as long as there is room. -/
def gatherMbufs : List Mbuf → List (List UInt8) → List (List UInt8)
  | [], iov => iov
  | b :: bs, iov =>
    if iov.length < iovMax ∧ nsend iov < ssizeMax then
      if b.rest = [] then gatherMbufs bs iov
      else gatherMbufs bs (iov ++ [b.rest.take (ssizeMax - nsend iov)])
    else iov

/-- The first loop of `msg_send_chain`: the messages to send, and their iovecs. -/
def msgGather (env : Env) (c : ConnId) :
    ℕ → MsgId → List MsgId → List (List UInt8) → Core (List MsgId × List (List UInt8))
  | 0, _, _, _ => fault .fuel
  | fuel + 1, m, sendq, iov => do
    let sendq := sendq ++ [m]
    let iov := gatherMbufs (← getMsg m).mhdr iov
    if iov.length ≥ iovMax ∨ nsend iov ≥ ssizeMax then return (sendq, iov)
    else
      match ← connSendNext env c with
      | none => return (sendq, iov)
      | some next => msgGather env c fuel next sendq iov

/-- `conn_sendv`, with the number of bytes sent. -/
def connSendv (env : Env) (c : ConnId) (iov : List (List UInt8)) : Core (Rstatus × ℕ) := do
  match ← ask env.writev with
  | .bytes n =>
    -- at most what was asked for
    let n := min n (nsend iov)
    let short := decide (n < nsend iov)
    modConn c fun x =>
      { x with
        sendReady := x.sendReady && !short, lastShort := short
        out := x.out ++ iov.flatten.take n }
    return (.ok, n)
  | .again =>
    modConn c fun x => { x with sendReady := false, lastShort := true }
    return (.eagain, 0)
  | .failed =>
    modConn c fun x => { x with sendReady := false }
    setErrno env c
    return (.error, 0)

/-- The inner loop of the accounting of `msg_send_chain`: the buffers of a message after `n`
bytes were sent from it, how many of these are left for the messages behind it, and whether the
message has been sent completely. -/
def consumeMbufs : ℕ → List Mbuf → List Mbuf × ℕ × Bool
  | n, [] => ([], n, true)
  | n, b :: bs =>
    if b.rest = [] then
      let (bs, n, all) := consumeMbufs n bs
      (b :: bs, n, all)
    else if n < b.rest.length then
      -- mbuf was sent partially; process remaining bytes later
      ({ sent := b.sent ++ b.rest.take n, rest := b.rest.drop n } :: bs, 0, false)
    else
      -- mbuf was sent completely; mark it empty
      let (bs, n, all) := consumeMbufs (n - b.rest.length) bs
      ({ sent := b.sent ++ b.rest, rest := [] } :: bs, n, all)

/-- Ghost: the first byte of response `m` is written to client connection `c`. -/
def noteStarted (c : ConnId) (m : MsgId) : Core Unit := do
  let msg ← getMsg m
  let pmsg ← getMsg (← deref msg.peer)
  modMsg m fun x => { x with started := true }
  modConn c fun x =>
    { x with started := x.started ++ [⟨pmsg.reqNo, pmsg.id, unsent msg.mhdr⟩] }

/-- Ghost: `written` bytes of message `m` were written to connection `c`, which `all` of it may
be. -/
def noteWritten (c : ConnId) (m : MsgId) (written : ℕ) (all : Bool) : Core Unit := do
  let msg ← getMsg m
  let client := (← getConn c).client
  onlyIf (client && written ≠ 0 && !msg.started) (noteStarted c m)
  onlyIf (client && written ≠ 0 && msg.isError && !all) (emit (.cut c))

/-- Ghost: all of message `m` was sent on connection `c`. -/
def noteSent (c : ConnId) (m : MsgId) : Core Unit := do
  let msg ← getMsg m
  onlyIf (!(← getConn c).client && !msg.noreply)
    (modConn c fun x => { x with sent := x.sent ++ [msg.id] })

/-- Message `m` has been sent completely. -/
def finalize (c : ConnId) (m : MsgId) : Core Unit := do
  noteSent c m
  connSendDone c m

/-- The last loop of `msg_send_chain`: account for the `n` bytes that were sent. -/
def msgSent (c : ConnId) : ℕ → List MsgId → Core Unit
  | _, [] => pure ()
  | n, m :: ms => do
    let msg ← getMsg m
    if n = 0 then
      onlyIf (msg.mlen = 0) (finalize c m)
      msgSent c 0 ms
    else
      -- adjust mbufs of the sent message
      let r := consumeMbufs n msg.mhdr
      noteWritten c m (n - r.2.1) r.2.2
      modMsg m fun x => { x with mhdr := r.1 }
      onlyIf r.2.2 (finalize c m)
      msgSent c r.2.1 ms

/-- `msg_send_chain` writes what it has gathered, if that is anything. -/
def sendGathered (env : Env) (c : ConnId) (iov : List (List UInt8)) : Core (Rstatus × ℕ) :=
  if nsend iov ≠ 0 then connSendv env c iov else return (.ok, 0)

/-- `msg_send_chain`. -/
def msgSendChain (env : Env) (c : ConnId) (m : MsgId) : Core Rstatus := do
  let g ← msgGather env c env.fuel m [] []
  modConn c fun x => { x with smsg := none }
  let r ← sendGathered env c g.2
  msgSent c r.2 g.1
  return if r.1 = .error then .error else .ok

/-- `msg_send`, which has set `send_ready`. -/
def msgSendLoop (env : Env) (c : ConnId) : ℕ → Core Rstatus
  | 0 => fault .fuel
  | fuel + 1 => do
    match ← connSendNext env c with
    | none => return .ok
    | some m =>
      let status ← msgSendChain env c m
      if status ≠ .ok then return status
      else if (← getConn c).sendReady then msgSendLoop env c fuel
      else return .ok

/-- `msg_send`. -/
def msgSend (env : Env) (c : ConnId) : Core Rstatus := do
  modConn c fun x => { x with sendReady := true }
  msgSendLoop env c env.fuel

end GfwProxy
