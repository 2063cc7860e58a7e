import Mathlib.Data.List.Sort
import Mathlib.Data.Rat.Floor
import GfwProxy.Hashkit.ServerPool

set_option autoImplicit false

/-!
# Building and reading the continuum

The three distributions of `hashkit/`: `ketama_update`, `modula_update` and `random_update`
rebuild the continuum of a pool from the servers that are live at a clock reading, and
`ketama_dispatch`, `modula_dispatch` and `random_dispatch` map a hash to a server index.

## Main definitions

* `GfwProxy.scanServers` — the first loop of all three updates: count the live servers and
  their weight, and find the next time to rebuild.
* `GfwProxy.Distribution`, `GfwProxy.updateContinuum` — what the updates share, and the five
  values in which they differ.
* `GfwProxy.ketamaUpdate`, `GfwProxy.modulaUpdate`, `GfwProxy.randomUpdate`.
* `GfwProxy.ketamaDispatch`, `GfwProxy.modulaDispatch`, `GfwProxy.randomDispatch`.

## Design

An update takes the clock reading `now` and whether `gf_realloc` succeeds; the points of
ketama are an arbitrary function `point` of the server name, the pointer index and the
alignment, standing for the MD5 digest of `name-index`.  The share of a server in ketama is
the formula of the source in exact arithmetic.
-/

namespace GfwProxy

/-! ## The first pass -/

/-- The counters of the first pass over the servers. -/
structure Scan where
  /-- # live server -/
  nliveServer : ℕ := 0
  /-- total live server weight -/
  totalWeight : ℕ := 0
  /-- next distribution rebuild time in usec -/
  nextRebuild : ℤ := 0
  deriving DecidableEq, Repr

/-- One round of the first pass at time `now`: a server whose retry time has passed becomes
live and loses its retry time, one that is still ejected may bring the next rebuild forward. -/
def scanServer (autoEjectHosts : Bool) (now : ℤ) (sc : Scan) (s : Server) : Scan × Server :=
  let (sc, s) :=
    if autoEjectHosts then
      if s.nextRetry ≤ now then
        ({ sc with nliveServer := sc.nliveServer + 1 }, { s with nextRetry := 0 })
      else if sc.nextRebuild = 0 ∨ s.nextRetry < sc.nextRebuild then
        ({ sc with nextRebuild := s.nextRetry }, s)
      else (sc, s)
    else ({ sc with nliveServer := sc.nliveServer + 1 }, s)
  -- count weight only for live servers
  if !autoEjectHosts || s.nextRetry ≤ now then
    ({ sc with totalWeight := u32 (sc.totalWeight + s.weight) }, s)
  else (sc, s)

/-- The first pass over all servers. -/
def scanServers (autoEjectHosts : Bool) (now : ℤ) : Scan → List Server → Scan × List Server
  | sc, [] => (sc, [])
  | sc, s :: ss =>
    let (sc, s) := scanServer autoEjectHosts now sc s
    let (sc, ss) := scanServers autoEjectHosts now sc ss
    (sc, s :: ss)

/-! ## The updates -/

/-- The values in which the three updates differ. -/
structure Distribution where
  /-- the count that is compared with `nserver_continuum` -/
  need : Scan → ℕ
  /-- # extra slots to build into continuum -/
  addition : ℕ
  /-- points per server -/
  pointsPerServer : ℕ
  /-- the points written for a live server -/
  points : Scan → ℕ → Server → List Continuum
  /-- what is done to the points once they are all written -/
  order : List Continuum → List Continuum

/-- The points of the servers from index `i` on that are not ejected at `now`, in the order in
which the second pass writes them. -/
def livePoints (autoEjectHosts : Bool) (now : ℤ) (points : ℕ → Server → List Continuum) :
    ℕ → List Server → List Continuum
  | _, [] => []
  | i, s :: ss =>
    (if autoEjectHosts && s.nextRetry > now then [] else points i s) ++
      livePoints autoEjectHosts now points (i + 1) ss

/-- The second pass: size the continuum if need be, write the points, count them. -/
def fillContinuum (d : Distribution) (now : ℤ) (alloc : Bool) (sc : Scan) (pool : ServerPool) :
    Except Fault (Rstatus × ServerPool) :=
  if d.need sc > pool.nserverContinuum && !alloc then .ok (.enomem, pool)
  else
    let pool :=
      if d.need sc > pool.nserverContinuum then
        let nserverContinuum := u32 (d.need sc + d.addition)
        { pool with
          continuum := growContinuum (u32 (nserverContinuum * d.pointsPerServer)) pool.continuum
          nserverContinuum := nserverContinuum }
      else pool
    let pts := livePoints pool.autoEjectHosts now (d.points sc) 0 pool.server
    match writeSlots pool.continuum 0 pts with
    | none => .error .outOfBounds
    | some arr =>
      let ncontinuum := u32 pts.length
      .ok (.ok, { pool with
        ncontinuum := ncontinuum
        continuum := d.order (arr.take ncontinuum) ++ arr.drop ncontinuum })

/-- What `ketama_update`, `modula_update` and `random_update` share. -/
def updateContinuum (d : Distribution) (now : ℤ) (alloc : Bool) (pool : ServerPool) :
    Except Fault (Rstatus × ServerPool) :=
  if now < 0 then .ok (.error, pool)
  else
    let (sc, server) := scanServers pool.autoEjectHosts now {} pool.server
    let pool := { pool with
      server := server, nextRebuild := sc.nextRebuild, nliveServer := sc.nliveServer }
    -- with no live server the continuum is kept as it is
    if sc.nliveServer = 0 then .ok (.ok, pool)
    else fillContinuum d now alloc sc pool

/-- `modula_update`: each live server owns `weight` consecutive slots. -/
def modulaUpdate (now : ℤ) (alloc : Bool) (pool : ServerPool) :
    Except Fault (Rstatus × ServerPool) :=
  updateContinuum
    { need := Scan.totalWeight
      addition := 10
      pointsPerServer := 1
      points := fun _ i s => List.replicate s.weight ⟨i, 0⟩
      order := id }
    now alloc pool

/-- `random_update`: each live server owns one slot. -/
def randomUpdate (now : ℤ) (alloc : Bool) (pool : ServerPool) :
    Except Fault (Rstatus × ServerPool) :=
  updateContinuum
    { need := Scan.nliveServer
      addition := 10
      pointsPerServer := 1
      points := fun _ i _ => [⟨i, 0⟩]
      order := id }
    now alloc pool

/-- The `pointer_per_server` of `ketama_update` in exact arithmetic.  The conversion to
`uint32_t` is left out: it is undefined for a value of `2 ^ 32` or more, and writing that many
points is out of bounds anyway. -/
def ketamaShare (weight totalWeight nliveServer : ℕ) : ℕ :=
  let pct : ℚ := weight / totalWeight
  ⌊pct * 160 / 4 * nliveServer + 1 / 10 ^ 10⌋₊ * 4

/-- The points that `ketama_update` writes for server `i`: four for each pointer index. -/
def ketamaPoints (point : List UInt8 → ℕ → ℕ → ℕ) (sc : Scan) (i : ℕ) (s : Server) :
    List Continuum :=
  (List.range (ketamaShare s.weight sc.totalWeight sc.nliveServer / 4)).flatMap fun k =>
    (List.range 4).map fun x => ⟨i, point s.name k x⟩

/-- `ketama_update`. -/
def ketamaUpdate (point : List UInt8 → ℕ → ℕ → ℕ) (now : ℤ) (alloc : Bool)
    (pool : ServerPool) : Except Fault (Rstatus × ServerPool) :=
  updateContinuum
    { need := Scan.nliveServer
      addition := 10
      pointsPerServer := 160
      points := ketamaPoints point
      order := List.insertionSort fun a b => a.value ≤ b.value }
    now alloc pool

/-! ## The dispatches -/

/-- The binary search of `ketama_dispatch` on the half-open interval `[left, right)`; the
interval is empty after `fuel` rounds as long as `right - left ≤ fuel`. -/
def ketamaSearch (continuum : List Continuum) (hash : ℕ) :
    ℕ → ℕ → ℕ → Except Fault ℕ
  | 0, left, right => if left < right then .error .fuel else .ok right
  | fuel + 1, left, right =>
    if left < right then
      let middle := left + (right - left) / 2
      match continuum[middle]? with
      | none => .error .outOfBounds
      | some c =>
        if c.value < hash then ketamaSearch continuum hash fuel (middle + 1) right
        else ketamaSearch continuum hash fuel left middle
    else .ok right

/-- The index stored in a slot. -/
def slotIndex (continuum : List Continuum) (i : ℕ) : Except Fault ℕ :=
  match continuum[i]? with
  | none => .error .outOfBounds
  | some c => .ok c.index

/-- `ketama_dispatch`. -/
def ketamaDispatch (continuum : List Continuum) (ncontinuum hash : ℕ) : Except Fault ℕ := do
  let right ← ketamaSearch continuum hash ncontinuum 0 ncontinuum
  slotIndex continuum (if right = ncontinuum then 0 else right)

/-- `modula_dispatch`. -/
def modulaDispatch (continuum : List Continuum) (ncontinuum hash : ℕ) : Except Fault ℕ :=
  if ncontinuum = 0 then .error .outOfBounds
  else slotIndex continuum (hash % ncontinuum)

/-- `random_dispatch`, with the value that `random()` returns. -/
def randomDispatch (continuum : List Continuum) (ncontinuum rnd : ℕ) : Except Fault ℕ :=
  if ncontinuum = 0 then .error .outOfBounds
  else slotIndex continuum (rnd % ncontinuum)

/-! ## Routing a key -/

/-- `server_pool_run`. -/
def serverPoolRun (point : List UInt8 → ℕ → ℕ → ℕ) (now : ℤ) (alloc : Bool)
    (pool : ServerPool) : Except Fault (Rstatus × ServerPool) :=
  match pool.distType with
  | .ketama => ketamaUpdate point now alloc pool
  | .modula => modulaUpdate now alloc pool
  | .random => randomUpdate now alloc pool

/-- `server_pool_hash`. -/
def serverPoolHash (pool : ServerPool) (key : List UInt8) : ℕ :=
  if pool.server.length = 1 then 0
  else if key.length = 0 then 0
  else pool.keyHash key

/-- The part of the key inside the hash tag, when the pool has one and the key holds it with at
least one byte in between; the whole key otherwise. -/
def hashTagged (hashTag : Option (UInt8 × UInt8)) (key : List UInt8) : List UInt8 :=
  match hashTag with
  | none => key
  | some (a, b) =>
    match key.idxOf? a with
    | none => key
    | some start =>
      let rest := key.drop (start + 1)
      match rest.idxOf? b with
      | none => key
      | some len => if len + 1 > 1 then rest.take len else key

/-- `server_pool_idx`, with the value that `random()` returns if it is called. -/
def serverPoolIdx (pool : ServerPool) (key : List UInt8) (rnd : ℕ) : Except Fault ℕ :=
  -- skip hashing and dispatching for pools with only one server
  if pool.server.length = 1 then .ok 0
  else
    let key := hashTagged pool.hashTag key
    match pool.distType with
    | .ketama => ketamaDispatch pool.continuum pool.ncontinuum (serverPoolHash pool key)
    | .modula => modulaDispatch pool.continuum pool.ncontinuum (serverPoolHash pool key)
    | .random => randomDispatch pool.continuum pool.ncontinuum rnd

end GfwProxy
