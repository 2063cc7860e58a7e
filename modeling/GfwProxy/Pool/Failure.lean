import GfwProxy.Hashkit.Update

set_option autoImplicit false

/-!
# Ejecting and re-admitting servers

The operations of `gf_server.c` that write the retry time of a server or decide whether a pool
is dispatched on: `server_failure`, `server_ok` and `server_pool_update`, and the runs they make
up from `server_pool_init` on.

## Main definitions

* `GfwProxy.serverFailure`, `GfwProxy.serverOk`, `GfwProxy.serverPoolUpdate`.
* `GfwProxy.PoolRun` — the pools reached by any sequence of these operations, with the last
  clock reading.

## Design

Each operation takes the clock readings it may make, in the order in which it makes them; an
operation that returns early leaves the later ones unused.  A run only asks that the readings
do not go back and do not fail, so an unused reading may be filled in freely.
-/

namespace GfwProxy

variable (point : List UInt8 → ℕ → ℕ → ℕ)

/-- Replace server `i` of the pool. -/
def ServerPool.setServer (pool : ServerPool) (i : ℕ) (f : Server → Server) : ServerPool :=
  { pool with server := pool.server.modify i f }

/-- `server_failure` on server `i`, with the reading of the retry time and that of the rebuild.
The time is returned when the server is ejected, for the statistics. -/
def serverFailure (now₁ now₂ : ℤ) (alloc : Bool) (i : ℕ) (pool : ServerPool) :
    Except Fault (Option ℤ × ServerPool) :=
  match pool.server[i]? with
  | none => .error .nullDeref
  | some s =>
    if !pool.autoEjectHosts then .ok (none, pool)
    else
      let count := u32 (s.failureCount + 1)
      let pool := pool.setServer i fun s => { s with failureCount := count }
      if count < pool.serverFailureLimit then .ok (none, pool)
      else if now₁ < 0 then .ok (none, pool)
      else do
        let next := now₁ + pool.serverRetryTimeout
        let pool := pool.setServer i fun s => { s with failureCount := 0, nextRetry := next }
        -- a failed rebuild is only logged
        let (_, pool) ← serverPoolRun point now₂ alloc pool
        .ok (some now₁, pool)

/-- `server_ok` on server `i`. -/
def serverOk (i : ℕ) (pool : ServerPool) : Except Fault ServerPool :=
  match pool.server[i]? with
  | none => .error .nullDeref
  | some s =>
    if s.failureCount ≠ 0 then
      .ok (pool.setServer i fun s => { s with failureCount := 0, nextRetry := 0 })
    else .ok pool

/-- The outcome of `server_pool_update`: the pool may be dispatched on, it is refused with
`ECONNREFUSED`, or the update failed. -/
inductive Gate
  | ok
  | refused
  | failed
  deriving DecidableEq, Repr

/-- `server_pool_update`. -/
def serverPoolUpdate (now₁ now₂ : ℤ) (alloc : Bool) (pool : ServerPool) :
    Except Fault (Gate × ServerPool) :=
  if !pool.autoEjectHosts then .ok (.ok, pool)
  else if pool.nextRebuild = 0 then .ok (.ok, pool)
  else if now₁ < 0 then .ok (.failed, pool)
  else if now₁ ≤ pool.nextRebuild then
    if pool.nliveServer = 0 then .ok (.refused, pool) else .ok (.ok, pool)
  else do
    let (status, pool) ← serverPoolRun point now₂ alloc pool
    .ok (if status = .ok then .ok else .failed, pool)

/-- A pool as `conf_pool_each_transform` sets it up, with `auto_eject_hosts` on: at least one
server, positive weights, no retry time yet, no continuum yet. -/
structure ServerPool.Fresh (pool : ServerPool) : Prop where
  autoEjectHosts : pool.autoEjectHosts = true
  server_ne_nil : pool.server ≠ []
  weight_pos : ∀ s ∈ pool.server, 0 < s.weight
  totalWeight_lt : (pool.server.map Server.weight).sum < 2 ^ 32 - 10
  nextRetry : ∀ s ∈ pool.server, s.nextRetry = 0
  failureCount : ∀ s ∈ pool.server, s.failureCount = 0
  continuum : pool.continuum = []
  nserverContinuum : pool.nserverContinuum = 0

/-- The pools reached from `pool₀` by `server_pool_init` and any sequence of `server_failure`,
`server_ok` and `server_pool_conn`, with the last clock reading.  `okd` may forbid calls of
`server_ok` on some servers. -/
inductive PoolRun (okd : ServerPool → ℕ → Prop) (pool₀ : ServerPool) : ServerPool → ℤ → Prop
  | init {t : ℤ} {st : Rstatus} {pool : ServerPool} (ht : 0 ≤ t)
      (h : serverPoolRun point t true pool₀ = .ok (st, pool)) : PoolRun okd pool₀ pool t
  | failure {pool pool' : ServerPool} {t now₁ now₂ : ℤ} {i : ℕ} {e : Option ℤ}
      (hr : PoolRun okd pool₀ pool t) (h₁ : t ≤ now₁) (h₂ : now₁ ≤ now₂)
      (h : serverFailure point now₁ now₂ true i pool = .ok (e, pool')) :
      PoolRun okd pool₀ pool' now₂
  | ok {pool pool' : ServerPool} {t : ℤ} {i : ℕ}
      (hr : PoolRun okd pool₀ pool t) (hi : okd pool i) (h : serverOk i pool = .ok pool') :
      PoolRun okd pool₀ pool' t
  | conn {pool pool' : ServerPool} {t now₁ now₂ : ℤ} {g : Gate}
      (hr : PoolRun okd pool₀ pool t) (h₁ : t ≤ now₁) (h₂ : now₁ ≤ now₂)
      (h : serverPoolUpdate point now₁ now₂ true pool = .ok (g, pool')) :
      PoolRun okd pool₀ pool' now₂

end GfwProxy
