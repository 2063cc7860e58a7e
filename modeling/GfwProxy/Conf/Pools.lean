import Mathlib.Data.List.Sort
import GfwProxy.Conf.Server

set_option autoImplicit false

/-!
# Validating the pools

`conf_validate_server`, `conf_validate_pool` and `conf_post_validate` of `gf_conf.c`: the defaults
of the directives that are not set, and the search for duplicates.

## Main definitions

* `GfwProxy.PoolConf` — a pool of the configuration.
* `GfwProxy.Qsort` — what the program relies on when it calls `qsort`.
* `GfwProxy.confValidateServer`, `GfwProxy.confValidatePool`, `GfwProxy.confPostValidate`.
* `GfwProxy.PoolConf.Valid` — the conditions on a single pool.

## Main results

* `GfwProxy.confValidatePool_eq_ok_iff` — the pools that are accepted one by one.
* `GfwProxy.conf_duplicates_iff` — names of servers, listen strings and names of pools are accepted
  exactly if they are pairwise distinct.
-/

namespace GfwProxy

/-! ## Pools -/

/-- `hash_type_t`. -/
inductive HashType
  | oneAtATime
  | md5
  | crc16
  | crc32
  | crc32a
  | fnv1_64
  | fnv1a_64
  | fnv1_32
  | fnv1a_32
  | hsieh
  | murmur
  | jenkins
  deriving DecidableEq, Repr

/-- `CONF_UNSET_NUM`. -/
def confUnsetNum : ℤ := -1

/-- `struct conf_listen`, as far as the validation reads it. -/
structure ConfListen where
  /-- listen: as "hostname:port" -/
  pname : List UInt8 := []
  /-- valid? -/
  valid : Bool := false
  deriving DecidableEq, Repr

/-- `struct conf_pool`, as far as the validation reads and writes it; an unset hash or distribution
is `none`. -/
structure PoolConf where
  name : List UInt8
  listen : ConfListen := {}
  hash : Option HashType := none
  distribution : Option DistType := none
  timeout : ℤ := confUnsetNum
  backlog : ℤ := confUnsetNum
  clientConnections : ℤ := confUnsetNum
  tcpkeepalive : ℤ := confUnsetNum
  redis : ℤ := confUnsetNum
  redisAuth : List UInt8 := []
  redisDb : ℤ := confUnsetNum
  preconnect : ℤ := confUnsetNum
  autoEjectHosts : ℤ := confUnsetNum
  serverConnections : ℤ := confUnsetNum
  serverRetryTimeout : ℤ := confUnsetNum
  serverFailureLimit : ℤ := confUnsetNum
  server : List ConfServer := []
  valid : Bool := false
  reuseport : ℤ := confUnsetNum
  deriving DecidableEq, Repr

/-- A number, or the default if it is unset. -/
def orDefault (n dflt : ℤ) : ℤ := if n = confUnsetNum then dflt else n

/-- The defaults that `conf_validate_pool` sets before it looks at `server_connections`. -/
def PoolConf.setDefaults (cp : PoolConf) : PoolConf :=
  { cp with
    distribution := cp.distribution.getD .ketama
    hash := cp.hash.getD .fnv1a_64
    timeout := orDefault cp.timeout (-1)
    backlog := orDefault cp.backlog 512
    clientConnections := 0
    redis := orDefault cp.redis 0
    tcpkeepalive := orDefault cp.tcpkeepalive 0
    reuseport := orDefault cp.reuseport 0
    redisDb := orDefault cp.redisDb 0
    preconnect := orDefault cp.preconnect 0
    autoEjectHosts := orDefault cp.autoEjectHosts 0 }

/-- Those that it sets behind that. -/
def PoolConf.setServerDefaults (cp : PoolConf) : PoolConf :=
  { cp with
    serverConnections := orDefault cp.serverConnections 1
    serverRetryTimeout := orDefault cp.serverRetryTimeout 30000
    serverFailureLimit := orDefault cp.serverFailureLimit 2 }

/-! ## The validation -/

/-- `qsort`: its result is a permutation that is sorted by the comparison function, if that is
consistent. -/
structure Qsort where
  sort {α : Type} (cmp : α → α → ℤ) (xs : List α) : List α
  perm {α : Type} (cmp : α → α → ℤ) (xs : List α) : (sort cmp xs).Perm xs
  sorted {α : Type} {cmp : α → α → ℤ} (xs : List α) (h : Comparator.Consistent cmp) :
    Comparator.Sorted cmp (sort cmp xs)

variable (qsort : Qsort)

/-- `conf_server_name_cmp`. -/
def confServerNameCmp (s1 s2 : ConfServer) : ℤ := stringCompare s1.name s2.name

/-- `conf_pool_name_cmp`. -/
def confPoolNameCmp (p1 p2 : PoolConf) : ℤ := stringCompare p1.name p2.name

/-- `conf_pool_listen_cmp`. -/
def confPoolListenCmp (p1 p2 : PoolConf) : ℤ := stringCompare p1.listen.pname p2.listen.pname

/-- `conf_validate_server`, with the array that it sorts. -/
def confValidateServer (server : List ConfServer) : Rstatus × List ConfServer :=
  if server.length = 0 then (.error, server)
  else
    let server := qsort.sort confServerNameCmp server
    (if Comparator.adjacentEqual confServerNameCmp server then .error else .ok, server)

/-- `conf_validate_pool`. -/
def confValidatePool (cp : PoolConf) : Rstatus × PoolConf :=
  if !cp.listen.valid then (.error, cp)
  else
    let cp := cp.setDefaults
    if cp.serverConnections = 0 then (.error, cp)
    else
      let cp := cp.setServerDefaults
      if cp.redis = 0 ∧ 0 < cp.redisAuth.length then (.error, cp)
      else
        let (status, server) := confValidateServer qsort cp.server
        let cp := { cp with server := server }
        if status ≠ .ok then (status, cp) else (.ok, { cp with valid := true })

/-- The first loop of `conf_post_validate`. -/
def confValidatePools : List PoolConf → Rstatus × List PoolConf
  | [] => (.ok, [])
  | cp :: pool =>
    let (status, cp) := confValidatePool qsort cp
    if status ≠ .ok then (status, cp :: pool)
    else
      let (status, pool) := confValidatePools pool
      (status, cp :: pool)

/-- `conf_post_validate`, with the array of pools. -/
def confPostValidate (pool : List PoolConf) : Rstatus × List PoolConf :=
  if pool.length = 0 then (.error, pool)
  else
    let (status, pool) := confValidatePools qsort pool
    if status ≠ .ok then (status, pool)
    else
      -- disallow pools with duplicate listen: key values
      let pool := qsort.sort confPoolListenCmp pool
      if Comparator.adjacentEqual confPoolListenCmp pool then (.error, pool)
      else
        -- disallow pools with duplicate names
        let pool := qsort.sort confPoolNameCmp pool
        (if Comparator.adjacentEqual confPoolNameCmp pool then .error else .ok, pool)

/-! ## Duplicates -/

/-- The search for duplicates: sort, then compare neighbours. -/
lemma adjacentEqual_sort_iff {α : Type} (f : α → List UInt8) {xs : List α}
    (h0 : ∀ x ∈ xs, (0 : UInt8) ∉ f x) :
    Comparator.adjacentEqual (fun a b => stringCompare (f a) (f b))
        (qsort.sort (fun a b => stringCompare (f a) (f b)) xs) = false ↔ (xs.map f).Nodup := by
  have hcmp : Comparator.Consistent fun a b => stringCompare (f a) (f b) :=
    stringCompare_consistent.comap f
  have hperm := qsort.perm (fun a b => stringCompare (f a) (f b)) xs
  rw [← (hperm.map f).nodup_iff]
  refine Comparator.adjacentEqual_eq_false_iff hcmp f (qsort.sorted xs hcmp) fun a ha b _ => ?_
  exact stringCompare_eq_zero_iff (h0 a (hperm.mem_iff.mp ha))

variable {qsort}

/-- **Servers are accepted exactly if there is one, and their names are distinct.** -/
theorem confValidateServer_eq_ok_iff {server : List ConfServer}
    (h0 : ∀ s ∈ server, (0 : UInt8) ∉ s.name) :
    (confValidateServer qsort server).1 = .ok ↔
      server ≠ [] ∧ (server.map ConfServer.name).Nodup := by
  have hdup : Comparator.adjacentEqual confServerNameCmp (qsort.sort confServerNameCmp server) =
      false ↔ _ := adjacentEqual_sort_iff qsort ConfServer.name h0
  rw [← hdup]
  cases server with
  | nil => simp [confValidateServer]
  | cons s server => simp [confValidateServer]

/-- The conditions on a single pool. -/
structure PoolConf.Valid (cp : PoolConf) : Prop where
  listen : cp.listen.valid = true
  serverConnections : cp.serverConnections ≠ 0
  redisAuth : cp.redis ≠ 0 ∧ cp.redis ≠ confUnsetNum ∨ cp.redisAuth = []
  server_ne_nil : cp.server ≠ []
  server_nodup : (cp.server.map ConfServer.name).Nodup

/-- The strings of a pool have no null byte. -/
structure PoolConf.NullFree (cp : PoolConf) : Prop where
  name : (0 : UInt8) ∉ cp.name
  listen : (0 : UInt8) ∉ cp.listen.pname
  server : ∀ s ∈ cp.server, (0 : UInt8) ∉ s.name

/-- **A pool is accepted exactly if it meets the conditions.** -/
theorem confValidatePool_eq_ok_iff {cp : PoolConf} (h0 : cp.NullFree) :
    (confValidatePool qsort cp).1 = .ok ↔ cp.Valid := by
  have hserver : (confValidateServer qsort cp.server).1 = .ok ↔ _ :=
    confValidateServer_eq_ok_iff h0.server
  have hauth : ¬(orDefault cp.redis 0 = 0 ∧ 0 < cp.redisAuth.length) ↔
      cp.redis ≠ 0 ∧ cp.redis ≠ confUnsetNum ∨ cp.redisAuth = [] := by
    rw [← List.length_eq_zero_iff]
    unfold orDefault
    split_ifs <;> omega
  have hvalid : cp.Valid ↔ cp.listen.valid = true ∧ cp.serverConnections ≠ 0 ∧
      ¬(orDefault cp.redis 0 = 0 ∧ 0 < cp.redisAuth.length) ∧
      (confValidateServer qsort cp.server).1 = .ok := by
    rw [hauth, hserver]
    constructor
    · rintro ⟨h1, h2, h3, h4, h5⟩
      exact ⟨h1, h2, h3, h4, h5⟩
    · rintro ⟨h1, h2, h3, h4, h5⟩
      exact ⟨h1, h2, h3, h4, h5⟩
  rw [hvalid]
  unfold confValidatePool
  by_cases hl : cp.listen.valid = true
  swap
  · simp [hl]
  by_cases hc : cp.serverConnections = 0
  · simp [hl, hc, PoolConf.setDefaults]
  by_cases ha : orDefault cp.redis 0 = 0 ∧ 0 < cp.redisAuth.length
  · simp [hl, hc, ha, PoolConf.setDefaults, PoolConf.setServerDefaults]
  by_cases hs : (confValidateServer qsort cp.server).1 = .ok
  · simp [hl, hc, ha, hs, PoolConf.setDefaults, PoolConf.setServerDefaults]
  · simp [hl, hc, ha, hs, PoolConf.setDefaults, PoolConf.setServerDefaults]

/-- The validation keeps the name and the listen string of a pool. -/
lemma confValidatePool_keeps (cp : PoolConf) :
    (confValidatePool qsort cp).2.name = cp.name ∧
      (confValidatePool qsort cp).2.listen = cp.listen := by
  unfold confValidatePool
  by_cases hl : (!cp.listen.valid) = true
  · rw [if_pos hl]
    exact ⟨rfl, rfl⟩
  by_cases hc : cp.setDefaults.serverConnections = 0
  · rw [if_neg hl, if_pos hc]
    exact ⟨rfl, rfl⟩
  rw [if_neg hl, if_neg hc]
  dsimp only
  by_cases ha : cp.setDefaults.setServerDefaults.redis = 0 ∧
      0 < cp.setDefaults.setServerDefaults.redisAuth.length
  · rw [if_pos ha]
    exact ⟨rfl, rfl⟩
  by_cases hs : (confValidateServer qsort cp.setDefaults.setServerDefaults.server).1 ≠ .ok
  · rw [if_neg ha, if_pos hs]
    exact ⟨rfl, rfl⟩
  · rw [if_neg ha, if_neg hs]
    exact ⟨rfl, rfl⟩

/-- All pools pass exactly if each of them is valid. -/
lemma confValidatePools_eq_ok_iff {pool : List PoolConf} (h0 : ∀ cp ∈ pool, cp.NullFree) :
    (confValidatePools qsort pool).1 = .ok ↔ ∀ cp ∈ pool, cp.Valid := by
  induction pool with
  | nil => simp [confValidatePools]
  | cons cp pool ih =>
    have hcp : (confValidatePool qsort cp).1 = .ok ↔ cp.Valid :=
      confValidatePool_eq_ok_iff (h0 cp (by simp))
    have hrest := ih fun x hx => h0 x (by simp [hx])
    rw [List.forall_mem_cons, ← hcp, ← hrest]
    simp only [confValidatePools]
    split_ifs with hs
    · simp [hs]
    · simpa using fun _ => not_not.mp hs

/-- The loop over the pools keeps their names and listen strings. -/
lemma confValidatePools_keeps (pool : List PoolConf) :
    (confValidatePools qsort pool).2.map (fun cp => (cp.name, cp.listen)) =
      pool.map fun cp => (cp.name, cp.listen) := by
  induction pool with
  | nil => rfl
  | cons cp pool ih =>
    have hcp := @confValidatePool_keeps qsort cp
    simp only [confValidatePools]
    split_ifs
    · simp [hcp]
    · simp [hcp, ih]

/-- **The pools are accepted exactly if each one is, and their listen strings and their names are
distinct.**

**Proof sketch.** The loop over the pools changes neither of these strings, and each of the two
searches sorts the pools by one of them and compares neighbours. -/
theorem confPostValidate_eq_ok_iff {pool : List PoolConf} (h0 : ∀ cp ∈ pool, cp.NullFree) :
    (confPostValidate qsort pool).1 = .ok ↔
      pool ≠ [] ∧ (∀ cp ∈ pool, cp.Valid) ∧ (pool.map fun cp => cp.listen.pname).Nodup ∧
        (pool.map PoolConf.name).Nodup := by
  have hvalid := @confValidatePools_eq_ok_iff qsort pool h0
  have hkeeps := @confValidatePools_keeps qsort pool
  rw [← hvalid]
  unfold confPostValidate
  by_cases hnil : pool.length = 0
  · simp [List.length_eq_zero_iff.mp hnil, confValidatePools]
  have hne : pool ≠ [] := fun h => hnil (by rw [h]; rfl)
  obtain ⟨⟨status, pool'⟩, hrun⟩ : ∃ r, confValidatePools qsort pool = r := ⟨_, rfl⟩
  rw [hrun] at hkeeps
  have hlisten : pool'.map (fun cp => cp.listen.pname) = pool.map fun cp => cp.listen.pname := by
    simpa [Function.comp_def] using congrArg (List.map fun x => x.2.pname) hkeeps
  have hname : pool'.map PoolConf.name = pool.map PoolConf.name := by
    simpa [Function.comp_def] using congrArg (List.map Prod.fst) hkeeps
  have hlisten0 : ∀ cp ∈ pool', (0 : UInt8) ∉ cp.listen.pname := by
    intro cp hcp
    obtain ⟨cp', hcp', he⟩ := List.mem_map.mp (hlisten ▸ List.mem_map_of_mem hcp)
    rw [← he]
    exact (h0 cp' hcp').listen
  have hname0 : ∀ cp ∈ pool', (0 : UInt8) ∉ cp.name := by
    intro cp hcp
    obtain ⟨cp', hcp', he⟩ := List.mem_map.mp (hname ▸ List.mem_map_of_mem hcp)
    rw [← he]
    exact (h0 cp' hcp').name
  have hdup₁ : Comparator.adjacentEqual confPoolListenCmp (qsort.sort confPoolListenCmp pool') =
      false ↔ _ := adjacentEqual_sort_iff qsort (fun cp : PoolConf => cp.listen.pname) hlisten0
  have hperm := qsort.perm confPoolListenCmp pool'
  have hdup₂ : Comparator.adjacentEqual confPoolNameCmp
      (qsort.sort confPoolNameCmp (qsort.sort confPoolListenCmp pool')) = false ↔ _ :=
    adjacentEqual_sort_iff qsort PoolConf.name fun cp hcp => hname0 cp (hperm.mem_iff.mp hcp)
  rw [(hperm.map PoolConf.name).nodup_iff, hname] at hdup₂
  rw [hlisten] at hdup₁
  rw [if_neg hnil, hrun, ← hdup₁, ← hdup₂]
  by_cases hs : status = .ok
  · cases hd₁ : Comparator.adjacentEqual confPoolListenCmp (qsort.sort confPoolListenCmp pool') with
    | true => simp [hs, hd₁]
    | false => simp [hs, hd₁, hne]
  · simp [hs]

variable (qsort)

/-- **The search for duplicates is exact**, in the servers of a pool and among the pools. -/
theorem conf_duplicates_iff :
    (∀ server : List ConfServer, (∀ s ∈ server, (0 : UInt8) ∉ s.name) →
      ((confValidateServer qsort server).1 = .ok ↔
        server ≠ [] ∧ (server.map ConfServer.name).Nodup)) ∧
    ∀ pool : List PoolConf, (∀ cp ∈ pool, cp.NullFree) →
      ((confPostValidate qsort pool).1 = .ok ↔
        pool ≠ [] ∧ (∀ cp ∈ pool, cp.Valid) ∧ (pool.map fun cp => cp.listen.pname).Nodup ∧
          (pool.map PoolConf.name).Nodup) :=
  ⟨fun _ h0 => confValidateServer_eq_ok_iff h0, fun _ h0 => confPostValidate_eq_ok_iff h0⟩

/-- Insertion sort is one way to sort. -/
def insertionQsort : Qsort where
  sort cmp xs := xs.insertionSort fun a b => cmp a b ≤ 0
  perm cmp xs := List.perm_insertionSort (fun a b => cmp a b ≤ 0) xs
  sorted {α cmp} xs h := by
    have htotal : Std.Total fun a b : α => cmp a b ≤ 0 := ⟨h.total⟩
    have htrans : IsTrans α fun a b => cmp a b ≤ 0 := ⟨h.trans⟩
    exact List.pairwise_insertionSort _ xs

/-- Three servers, two of which have the same name. -/
def threeServers : List ConfServer := [{ name := [98] }, { name := [97, 97] }, { name := [98] }]

/-- Two pools of the same name, on different addresses. -/
def duplicatePool : List PoolConf :=
  [{ name := [112], listen := { pname := [49], valid := true }, server := [{ name := [97] }] },
    { name := [112], listen := { pname := [50], valid := true }, server := [{ name := [98] }] }]

/-- Three servers, two of which have the same name, and two pools of the same name. -/
theorem duplicatePool_duplicates :
    ((confValidateServer insertionQsort threeServers).1 = .ok ↔
      threeServers ≠ [] ∧ (threeServers.map ConfServer.name).Nodup) ∧
    ((confPostValidate insertionQsort duplicatePool).1 = .ok ↔
      duplicatePool ≠ [] ∧ (∀ cp ∈ duplicatePool, cp.Valid) ∧
        (duplicatePool.map fun cp => cp.listen.pname).Nodup ∧
        (duplicatePool.map PoolConf.name).Nodup) :=
  ⟨(conf_duplicates_iff insertionQsort).1 threeServers (by decide),
    (conf_duplicates_iff insertionQsort).2 duplicatePool fun cp h => by
      simp only [duplicatePool, List.mem_cons, List.not_mem_nil, or_false] at h
      rcases h with rfl | rfl
      · exact ⟨by decide, by decide, by decide⟩
      · exact ⟨by decide, by decide, by decide⟩⟩

end GfwProxy
