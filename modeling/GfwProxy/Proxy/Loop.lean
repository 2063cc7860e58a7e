import GfwProxy.Proxy.Transfer

set_option autoImplicit false

/-!
# The event loop

The callback of the event loop, the timeouts and the listening socket (`gf_core.c`,
`gf_proxy.c`), and the runs they make up.

## Main definitions

* `GfwProxy.coreCore`, `GfwProxy.coreTimeout`, `GfwProxy.proxyAccept`,
  `GfwProxy.serverEachPreconnect`.
* `GfwProxy.Input`, `GfwProxy.step` — what can happen between two callbacks, and what the proxy
  does then.
* `GfwProxy.Run` — the states reached by any sequence of inputs, with any answers of the
  environment.

## Design

A write event is delivered to any connection at any time, whether a notification is pending or
not; it takes the pending one away.  A fault ends a run: the process is gone.
-/

namespace GfwProxy

/-- `core_close`. -/
def coreClose (env : Env) (c : ConnId) : Core Unit := do
  eventDelConn env c
  if (← getConn c).client then clientClose c else serverClose env c

/-- `core_error`. -/
def coreError (env : Env) (c : ConnId) : Core Unit := do
  let err ← ask env.soerror
  modConn c fun x => { x with err := err }
  coreClose env c

/-- Whether `core_core` closes the connection after `core_recv` or `core_send`. -/
def mustClose (c : ConnId) (status : Rstatus) : Core Bool := do
  let conn ← getConn c
  return status ≠ .ok || conn.done || conn.err ≠ 0

/-- The write half of `core_core`. -/
def coreSend (env : Env) (c : ConnId) : Core Unit := do
  let status ← msgSend env c
  onlyIf (← mustClose c status) (coreClose env c)

/-- `core_core`. -/
def coreCore (env : Env) (c : ConnId) (err read write : Bool) : Core Unit := do
  -- conn is already unrefed
  if (← getConn c).owner.isNone then return
  -- error takes precedence over read | write
  else if err then coreError env c
  else if read then
    let status ← msgRecv env c
    if ← mustClose c status then coreClose env c
    else onlyIf write (coreSend env c)
  else onlyIf write (coreSend env c)

/-- Set `ctx->timeout`. -/
def setTimeout (timeout : ℤ) : Core Unit := fun σ => .ok ((), { σ with timeout := timeout })

/-- The loop of `core_timeout`. -/
def coreTimeoutLoop (env : Env) : ℕ → Core Unit
  | 0 => fault .fuel
  | fuel + 1 => do
    match ← readHeap fun h => h.tmoRbt.head? with
    | none => setTimeout env.maxTimeout
    | some m =>
      let msg ← getMsg m
      -- skip over req that are in-error or done
      if msg.error || msg.done then
        modHeap (Heap.tmoDelete m)
        coreTimeoutLoop env fuel
      else
        let s ← deref msg.tmoData
        let now ← ask env.msec
        if now < msg.tmoKey then
          setTimeout (min (msg.tmoKey - now) env.maxTimeout)
        else
          modHeap (Heap.tmoDelete m)
          onlyIf (← getConn s).client (touch s m)
          modConn s fun x => { x with err := etimedout }
          coreClose env s
          coreTimeoutLoop env fuel

/-- `core_timeout`.  Each round takes a message out of the tree, and none puts one in. -/
def coreTimeout (env : Env) : Core Unit := do
  let n ← readHeap fun h => h.tmoRbt.length
  coreTimeoutLoop env (n + 1)

/-- `proxy_accept` on the listening socket of pool `p`, with the socket that `accept`
returns. -/
def proxyAccept (env : Env) (p sd : ℕ) : Core Unit := do
  if env.maxNcconn ≤ (← readHeap Heap.ncurrCconn) then return
  else
    match ← connGetClient env p (← getPool p).redis with
    | none => return
    | some c =>
      modConn c fun x => { x with sd := sd }
      statsPool p .clientConnections 1
      if !(← ask env.setNonblocking) then clientClose c
      else if !(← eventAddConn env c) then clientClose c
      else return

/-- `server_each_preconnect` for server `i` of pool `p`. -/
def serverEachPreconnect (env : Env) (p i : ℕ) : Core Unit := do
  match ← serverConn env p i with
  | none => return
  | some s => if ← serverConnect env s then return else serverClose env s

/-- What happens between two callbacks of the event loop. -/
inductive Input
  /-- a client connects to pool `p` -/
  | accept (p sd : ℕ)
  /-- events are reported for the connection object `c` -/
  | event (c : ConnId) (err read write : Bool)
  /-- the loop looks for expired requests -/
  | timeout
  /-- the socket of connection `c` becomes writable after a short or EAGAIN write -/
  | writable (c : ConnId)
  /-- server `i` of pool `p` is connected to in advance -/
  | preconnect (p i : ℕ)
  deriving DecidableEq, Repr

/-- Ghost: the write notification of connection `c` is delivered. -/
def deliver (c : ConnId) : Core Unit := modConn c fun x => { x with evOut := false }

/-- Ghost: the kernel reports that the socket of connection `c` has become writable. -/
def becomeWritable (c : ConnId) : Core Unit :=
  modConn c fun x => { x with evOut := x.evOut || x.lastShort }

/-- What the proxy does on an input. -/
def step (env : Env) : Input → Core Unit
  | .accept p sd => proxyAccept env p sd
  | .event c err read write => do
    onlyIf write (deliver c)
    coreCore env c err read write
  | .timeout => coreTimeout env
  | .writable c => becomeWritable c
  | .preconnect p i => serverEachPreconnect env p i

/-- The answers of the environment are counted from the start of a step. -/
def St.start (σ : St) : St := { σ with tick := 0 }

/-- The proxy before it has accepted or opened a connection, with any pools. -/
structure St.Init (σ : St) : Prop where
  heap : σ.heap = {}

/-- The states reached from `σ₀` by any sequence of inputs, with any answers `P` of the
environment. -/
inductive Run (P : Env → Prop) (σ₀ : St) : St → Prop
  | init : Run P σ₀ σ₀
  | step {σ σ' : St} (hr : Run P σ₀ σ) (env : Env) (henv : P env) (input : Input)
      (h : GfwProxy.step env input σ.start = .ok ((), σ')) : Run P σ₀ σ'

end GfwProxy
