import Mathlib.Order.Bounds.Basic
import Mathlib.Order.Interval.Finset.Nat
import GfwProxy.Pool.Capacity

set_option autoImplicit false

/-!
# With modula the shares are the weights

After a successful `modula_update` each live server owns as many consecutive slots as its weight, in
the order of the servers, and `modula_dispatch` sends as many residues of the hash to it.

## Main definitions

* `GfwProxy.firstSlot` — the slots of the live servers before a server.
* `GfwProxy.ModulaShares` — what an update leaves in the pool.
* `GfwProxy.ModulaHistory` — the pools that any updates, at any times and with any servers, lead to.

## Main results

* `GfwProxy.getElem?_livePoints` — who owns a slot.
* `GfwProxy.ModulaHistory.shares` — an update of any such pool leaves exactly the shares.

## Design

The first pass takes the retry times of the live servers away, so the second pass decides about
other retry times than the first one; `liveIn_resetIn` says that it decides the same.  The only
thing that a history has to keep is that the continuum has the slots that it was last sized for.
-/

namespace GfwProxy

/-! ## The slots of a server -/

/-- The number of slots of the live servers before server `i`. -/
def firstSlot (live : Server → Bool) (ss : List Server) (i : ℕ) : ℕ :=
  weights ((ss.take i).filter live)

section Slots

variable {auto : Bool} {now : ℤ} {s : Server} {ss : List Server}

/-- The first server has its slots from the start. -/
@[simp] lemma firstSlot_zero (live : Server → Bool) (ss : List Server) :
    firstSlot live ss 0 = 0 := by
  simp [firstSlot, weights]

/-- The slots of a later server come behind those of the first. -/
@[simp] lemma firstSlot_cons_succ (live : Server → Bool) (s : Server) (ss : List Server) (i : ℕ) :
    firstSlot live (s :: ss) (i + 1) = (if live s then s.weight else 0) + firstSlot live ss i := by
  cases h : live s <;> simp [firstSlot, weights, h]

/-- The slots of a live server are among those of all of them. -/
lemma firstSlot_add_le {live : Server → Bool} {i : ℕ} (hs : ss[i]? = some s) (hl : live s = true) :
    firstSlot live ss i + s.weight ≤ weights (ss.filter live) := by
  induction ss generalizing i with
  | nil => simp at hs
  | cons s₀ ss ih =>
    have hw : weights ((s₀ :: ss).filter live) =
        (if live s₀ then s₀.weight else 0) + weights (ss.filter live) := by
      cases h : live s₀ <;> simp [weights, h]
    cases i with
    | zero =>
      obtain rfl : s₀ = s := by simpa using hs
      rw [hw, firstSlot_zero, hl, if_pos rfl]
      omega
    | succ i =>
      have := ih (by simpa using hs)
      rw [hw, firstSlot_cons_succ]
      omega

/-- The second pass leaves out the servers that are not live. -/
lemma livePoints_cons (points : ℕ → Server → List Continuum) (i : ℕ) :
    livePoints auto now points i (s :: ss) =
      (if s.liveIn auto now then points i s else []) ++ livePoints auto now points (i + 1) ss := by
  have hlive : (auto && decide (s.nextRetry > now)) = !s.liveIn auto now := by
    cases auto <;> simp [Server.liveIn, Server.liveAt, ← decide_not]
  rw [livePoints, hlive]
  cases s.liveIn auto now <;> simp

/-- **Who owns a slot.**  The `weight` slots of a live server are those behind the slots of the live
servers before it.

**Proof sketch.** By induction on the servers: a slot is one of the first server, or one of the
others, whose slots start behind those of the first one. -/
theorem getElem?_livePoints (ss : List Server) : ∀ first k i : ℕ,
    (livePoints auto now (fun i s => List.replicate s.weight ⟨i, 0⟩) first ss)[k]? = some ⟨i, 0⟩ ↔
      ∃ j s, i = first + j ∧ ss[j]? = some s ∧ s.liveIn auto now = true ∧
        firstSlot (Server.liveIn auto now) ss j ≤ k ∧
        k < firstSlot (Server.liveIn auto now) ss j + s.weight := by
  induction ss with
  | nil => intro first k i; simp [livePoints]
  | cons s ss ih =>
    intro first k i
    rw [livePoints_cons]
    set own := if s.liveIn auto now then List.replicate s.weight (⟨first, 0⟩ : Continuum)
      else [] with hown
    have hlen : own.length = if s.liveIn auto now then s.weight else 0 := by
      rw [hown]
      split_ifs <;> simp
    rcases Nat.lt_or_ge k own.length with hk | hk
    · have hl : s.liveIn auto now = true := by
        by_contra hl
        rw [hlen, if_neg hl] at hk
        omega
      rw [hlen, if_pos hl] at hk
      rw [List.getElem?_append_left (by rw [hlen, if_pos hl]; exact hk), hown, if_pos hl,
        List.getElem?_replicate_of_lt hk]
      constructor
      · intro h
        obtain rfl : first = i := by simpa using h
        exact ⟨0, s, rfl, rfl, hl, by simp, by simpa using hk⟩
      · rintro ⟨j, s', rfl, hj, -, hle, -⟩
        cases j with
        | zero => rfl
        | succ j =>
          rw [firstSlot_cons_succ, if_pos hl] at hle
          omega
    · rw [List.getElem?_append_right hk, ih (first + 1) (k - own.length) i]
      constructor
      · rintro ⟨j, s', rfl, hj, hl, hle, hlt⟩
        refine ⟨j + 1, s', by omega, by simpa using hj, hl, ?_, ?_⟩
        · rw [firstSlot_cons_succ, ← hlen]
          omega
        · rw [firstSlot_cons_succ, ← hlen]
          omega
      · rintro ⟨j, s', rfl, hj, hl, hle, hlt⟩
        cases j with
        | zero =>
          obtain rfl : s = s' := by simpa using hj
          rw [firstSlot_zero] at hlt
          rw [hlen, if_pos hl] at hk
          omega
        | succ j =>
          rw [firstSlot_cons_succ, ← hlen] at hle hlt
          exact ⟨j, s', by omega, by simpa using hj, hl, by omega, by omega⟩

/-- All points of modula have the value 0. -/
lemma value_of_mem_livePoints {c : Continuum} : ∀ {i : ℕ},
    c ∈ livePoints auto now (fun i s => List.replicate s.weight ⟨i, 0⟩) i ss → c.value = 0 := by
  induction ss with
  | nil => intro i h; simp [livePoints] at h
  | cons s ss ih =>
    intro i h
    rw [livePoints_cons] at h
    rcases List.mem_append.mp h with h | h
    · split_ifs at h
      · rw [List.eq_of_mem_replicate h]
      · simp at h
    · exact ih h

/-- The first pass does not change whose slots are before those of a server. -/
lemma firstSlot_map_resetIn (hnow : 0 ≤ now) (ss : List Server) (i : ℕ) :
    firstSlot (Server.liveIn auto now) (ss.map (resetIn auto now)) i =
      firstSlot (Server.liveIn auto now) ss i := by
  have h := @filter_resetIn auto now hnow id (ss.take i)
  simp only [id_eq] at h
  rw [firstSlot, firstSlot, weights, weights, ← List.map_take]
  exact congrArg List.sum h

/-- Who owns a slot, by the servers before the first pass. -/
lemma getElem?_livePoints_resetIn (hnow : 0 ≤ now) (k i : ℕ) :
    (livePoints auto now (fun i s => List.replicate s.weight ⟨i, 0⟩) 0
        (ss.map (resetIn auto now)))[k]? = some ⟨i, 0⟩ ↔
      ∃ s, ss[i]? = some s ∧ s.liveIn auto now = true ∧
        firstSlot (Server.liveIn auto now) ss i ≤ k ∧
        k < firstSlot (Server.liveIn auto now) ss i + s.weight := by
  rw [getElem?_livePoints]
  constructor
  · rintro ⟨j, s', rfl, hj, hl, hle, hlt⟩
    rw [zero_add]
    rw [List.getElem?_map, Option.map_eq_some_iff] at hj
    obtain ⟨s, hj, rfl⟩ := hj
    rw [liveIn_resetIn hnow] at hl
    rw [firstSlot_map_resetIn hnow] at hle hlt
    rw [resetIn_weight] at hlt
    exact ⟨s, hj, hl, hle, hlt⟩
  · rintro ⟨s, hi, hl, hle, hlt⟩
    refine ⟨i, resetIn auto now s, (zero_add i).symm, by simp [hi], ?_, ?_, ?_⟩
    · rwa [liveIn_resetIn hnow]
    · rwa [firstSlot_map_resetIn hnow]
    · rwa [firstSlot_map_resetIn hnow, resetIn_weight]

end Slots

/-! ## The next rebuild -/

/-- Without `auto_eject_hosts` there is nothing to wait for. -/
lemma scanServers_false_nextRebuild (now : ℤ) (ss : List Server) :
    ∀ sc : Scan, (scanServers false now sc ss).1.nextRebuild = sc.nextRebuild := by
  induction ss with
  | nil => intro sc; rfl
  | cons s ss ih =>
    intro sc
    simp only [scanServers, scanServer, ih]
    rfl

/-- **The next rebuild** is at the first retry time of a server that is not live; it is 0 if all
are. -/
theorem scanServers_isLeast {auto : Bool} {now : ℤ} (hnow : 0 ≤ now) (ss : List Server) :
    ((∀ s ∈ ss, s.liveIn auto now = true) → (scanServers auto now {} ss).1.nextRebuild = 0) ∧
      ((∃ s ∈ ss, s.liveIn auto now = false) →
        IsLeast {t | ∃ s ∈ ss, s.liveIn auto now = false ∧ s.nextRetry = t}
          (scanServers auto now {} ss).1.nextRebuild) := by
  cases auto with
  | false =>
    refine ⟨fun _ => scanServers_false_nextRebuild now ss {}, ?_⟩
    rintro ⟨s, -, h⟩
    simp [Server.liveIn] at h
  | true =>
    rw [liveIn_true]
    have hle := scanServers_nextRebuild_le_dead hnow ss {} le_rfl
    have hmem := scanServers_nextRebuild_eq hnow ss {}
    constructor
    · intro hall
      rcases hmem with h | ⟨s, hs, hd, -⟩
      · exact h
      · rw [hall s hs] at hd
        cases hd
    · rintro ⟨s, hs, hd⟩
      constructor
      · rcases hmem with h | ⟨s', hs', hd', h⟩
        · -- the retry time of an ejected server is not 0
          have hpos := (hle s hs hd).1
          rw [h] at hpos
          exact absurd hpos (lt_irrefl _)
        · exact ⟨s', hs', hd', h.symm⟩
      · rintro t ⟨s', hs', hd', rfl⟩
        exact (hle s' hs' hd').2

/-! ## One update -/

/-- What `modula_update` makes of `updateContinuum`. -/
def modulaDistribution : Distribution :=
  { need := Scan.totalWeight, addition := 10, pointsPerServer := 1
    points := fun _ i s => List.replicate s.weight ⟨i, 0⟩, order := id }

/-- `modula_update` is `updateContinuum` of its distribution. -/
lemma modulaUpdate_eq (now : ℤ) (alloc : Bool) (pool : ServerPool) :
    modulaUpdate now alloc pool = updateContinuum modulaDistribution now alloc pool := rfl

/-- A server has as many slots as it weighs. -/
lemma modulaDistribution_unit : modulaDistribution.Unit := ⟨rfl, rfl, fun _ => rfl⟩

/-- The distribution of modula is lawful. -/
lemma modulaDistribution_lawful : modulaDistribution.Lawful :=
  @distribution_lawful (fun _ _ _ => 0) .modula

/-- Writing slots does not change how many there are. -/
lemma length_writeSlots {pts : List Continuum} : ∀ {arr arr' : List Continuum} {i : ℕ},
    writeSlots arr i pts = some arr' → arr'.length = arr.length := by
  induction pts with
  | nil =>
    intro arr arr' i h
    rw [← Option.some.inj h]
  | cons p pts ih =>
    intro arr arr' i h
    rw [writeSlots] at h
    split_ifs at h
    rw [ih h, List.length_set]

/-- The second pass of modula leaves the continuum with the slots that it was last sized for, also
when a counter wraps. -/
lemma fillContinuum_keeps_sized {d : Distribution} (hd : d.Unit) {now : ℤ}
    {alloc : Bool} {sc : Scan} {pool pool' : ServerPool} {st : Rstatus} (hs : pool.Sized)
    (h : fillContinuum d now alloc sc pool = .ok (st, pool')) : pool'.Sized := by
  unfold fillContinuum at h
  by_cases hfail : (d.need sc > pool.nserverContinuum && !alloc) = true
  · rw [if_pos hfail] at h
    obtain ⟨-, rfl⟩ := Prod.mk.inj (Except.ok.inj h)
    exact hs
  rw [if_neg hfail] at h
  simp only [hd.addition, hd.pointsPerServer, hd.order, mul_one] at h
  split at h
  · cases h
  rename_i arr harr
  obtain ⟨-, rfl⟩ := Prod.mk.inj (Except.ok.inj h)
  have hlen := length_writeSlots harr
  unfold ServerPool.Sized
  simp only [List.take_append_drop]
  rw [hlen]
  split_ifs
  · have hu : ∀ n, u32 (u32 n) = u32 n := fun n => Nat.mod_mod n _
    simp only [length_growContinuum, hu]
    exact ⟨le_rfl, Nat.mod_lt _ (by norm_num)⟩
  · exact hs

/-- The second pass without memory fails, or does what it does with memory. -/
lemma fillContinuum_alloc (d : Distribution) (now : ℤ) (alloc : Bool) (sc : Scan)
    (pool : ServerPool) :
    fillContinuum d now alloc sc pool = .ok (.enomem, pool) ∧ alloc = false ∨
      fillContinuum d now alloc sc pool = fillContinuum d now true sc pool := by
  cases alloc with
  | true => exact .inr rfl
  | false =>
    by_cases hgrow : d.need sc > pool.nserverContinuum
    · exact .inl ⟨by simp [fillContinuum, hgrow], rfl⟩
    · exact .inr (by simp [fillContinuum, hgrow])

/-- An update of modula leaves the continuum with the slots that it was last sized for. -/
lemma modulaUpdate_sized {now : ℤ} {alloc : Bool} {pool pool' : ServerPool} {st : Rstatus}
    (hs : pool.Sized) (h : modulaUpdate now alloc pool = .ok (st, pool')) : pool'.Sized := by
  rw [modulaUpdate_eq, updateContinuum] at h
  split_ifs at h with hnow
  · obtain ⟨-, rfl⟩ := Prod.mk.inj (Except.ok.inj h)
    exact hs
  simp only at h
  split_ifs at h with hlive
  · obtain ⟨-, rfl⟩ := Prod.mk.inj (Except.ok.inj h)
    exact hs
  · exact fillContinuum_keeps_sized modulaDistribution_unit (by exact hs) h

/-- What a successful `modula_update` at time `now` leaves in the pool: the shares are the
weights. -/
structure ModulaShares (now : ℤ) (pool pool' : ServerPool) : Prop where
  /-- only the retry times of the live servers change -/
  server : pool'.server = pool.server.map (resetIn pool.autoEjectHosts now)
  nliveServer : pool'.nliveServer = (pool.liveServers now).length
  /-- nothing is waited for if all servers are live -/
  nextRebuild_live : (∀ s ∈ pool.server, s.liveIn pool.autoEjectHosts now = true) →
    pool'.nextRebuild = 0
  /-- the first retry time of the others is waited for -/
  nextRebuild_dead : (∃ s ∈ pool.server, s.liveIn pool.autoEjectHosts now = false) →
    IsLeast {t | ∃ s ∈ pool.server, s.liveIn pool.autoEjectHosts now = false ∧ s.nextRetry = t}
      pool'.nextRebuild
  /-- there are as many slots as the live servers weigh, and they are allocated -/
  ncontinuum : pool'.ncontinuum = weights (pool.liveServers now)
  room : pool'.ncontinuum ≤ pool'.continuum.length
  /-- slot `k` is owned by `i` exactly if it is one of the `weight` slots behind those of the live
  servers before it -/
  owner : ∀ k < pool'.ncontinuum, ∀ i, pool'.continuum[k]?.map Continuum.index = some i ↔
    ∃ s, pool.server[i]? = some s ∧ s.liveIn pool.autoEjectHosts now = true ∧
      firstSlot (Server.liveIn pool.autoEjectHosts now) pool.server i ≤ k ∧
      k < firstSlot (Server.liveIn pool.autoEjectHosts now) pool.server i + s.weight
  /-- a hash is sent where its residue is, to a live server -/
  dispatch : ∀ hash, ∃ i s, pool.server[i]? = some s ∧
    s.liveIn pool.autoEjectHosts now = true ∧
    modulaDispatch pool'.continuum pool'.ncontinuum hash = .ok i ∧
    modulaDispatch pool'.continuum pool'.ncontinuum (hash % pool'.ncontinuum) = .ok i
  /-- as many residues are sent to a live server as it weighs, and none to another one -/
  residues : ∀ i s, pool.server[i]? = some s →
    ((Finset.range pool'.ncontinuum).filter fun r =>
      modulaDispatch pool'.continuum pool'.ncontinuum r = .ok i).card =
        if s.liveIn pool.autoEjectHosts now then s.weight else 0

section Dispatch

variable {cs : List Continuum} {n r i : ℕ}

/-- A residue is sent to the owner of its slot. -/
lemma modulaDispatch_iff (hr : r < n) (hn : n ≤ cs.length) :
    modulaDispatch cs n r = .ok i ↔ cs[r]?.map Continuum.index = some i := by
  have hget : cs[r]? = some cs[r] := List.getElem?_eq_getElem (by omega)
  rw [modulaDispatch, if_neg (by omega), Nat.mod_eq_of_lt hr, slotIndex, hget]
  simp

/-- Only the hash modulo the number of slots matters. -/
lemma modulaDispatch_mod (cs : List Continuum) (n hash : ℕ) :
    modulaDispatch cs n (hash % n) = modulaDispatch cs n hash := by
  rw [modulaDispatch, modulaDispatch, Nat.mod_mod]

end Dispatch

/-- As many residues are sent to a server as it has consecutive slots. -/
lemma card_residues {cs : List Continuum} {n i first weight : ℕ} (hn : n ≤ cs.length)
    (hle : first + weight ≤ n)
    (hown : ∀ r < n, cs[r]?.map Continuum.index = some i ↔ first ≤ r ∧ r < first + weight) :
    ((Finset.range n).filter fun r => modulaDispatch cs n r = .ok i).card = weight := by
  have hset : ((Finset.range n).filter fun r => modulaDispatch cs n r = .ok i) =
      Finset.Ico first (first + weight) := by
    ext r
    rw [Finset.mem_filter, Finset.mem_range, Finset.mem_Ico]
    constructor
    · rintro ⟨hr, h⟩
      exact (hown r hr).mp ((modulaDispatch_iff hr hn).mp h)
    · intro h
      have hr : r < n := by omega
      exact ⟨hr, (modulaDispatch_iff hr hn).mpr ((hown r hr).mpr h)⟩
  rw [hset, Nat.card_Ico]
  omega

section Owners

variable {pool : ServerPool} {now : ℤ} {cs : List Continuum} {n : ℕ}

/-- A hash is sent to the server that owns the slot of its residue, which is live. -/
lemma modulaDispatch_live (hn : 0 < n) (hroom : n ≤ cs.length)
    (howner : ∀ k < n, ∀ i, cs[k]?.map Continuum.index = some i ↔
      ∃ s, pool.server[i]? = some s ∧ s.liveIn pool.autoEjectHosts now = true ∧
        firstSlot (Server.liveIn pool.autoEjectHosts now) pool.server i ≤ k ∧
        k < firstSlot (Server.liveIn pool.autoEjectHosts now) pool.server i + s.weight)
    (hash : ℕ) : ∃ i s, pool.server[i]? = some s ∧ s.liveIn pool.autoEjectHosts now = true ∧
      modulaDispatch cs n hash = .ok i ∧ modulaDispatch cs n (hash % n) = .ok i := by
  have hr : hash % n < n := Nat.mod_lt _ hn
  obtain ⟨i, hi⟩ : ∃ i, cs[hash % n]?.map Continuum.index = some i := by
    rw [List.getElem?_eq_getElem (by omega)]
    exact ⟨_, rfl⟩
  obtain ⟨s, hget, hl, -⟩ := (howner _ hr i).mp hi
  have hdispatch := (modulaDispatch_iff hr hroom).mpr hi
  refine ⟨i, s, hget, hl, ?_, hdispatch⟩
  rw [modulaDispatch_mod] at hdispatch
  exact hdispatch

/-- As many residues are sent to a live server as it weighs, and none to another one. -/
lemma card_residues_of_owner (hlength : n = weights (pool.liveServers now)) (hroom : n ≤ cs.length)
    (howner : ∀ k < n, ∀ i, cs[k]?.map Continuum.index = some i ↔
      ∃ s, pool.server[i]? = some s ∧ s.liveIn pool.autoEjectHosts now = true ∧
        firstSlot (Server.liveIn pool.autoEjectHosts now) pool.server i ≤ k ∧
        k < firstSlot (Server.liveIn pool.autoEjectHosts now) pool.server i + s.weight)
    {i : ℕ} {s : Server} (hget : pool.server[i]? = some s) :
    ((Finset.range n).filter fun r => modulaDispatch cs n r = .ok i).card =
      if s.liveIn pool.autoEjectHosts now then s.weight else 0 := by
  by_cases hl : s.liveIn pool.autoEjectHosts now = true
  · rw [if_pos hl]
    refine card_residues hroom ((firstSlot_add_le hget hl).trans hlength.ge) fun r hr => ?_
    refine (howner r hr i).trans ?_
    constructor
    · rintro ⟨s', hget', -, h⟩
      obtain rfl : s = s' := Option.some.inj (hget.symm.trans hget')
      exact h
    · intro h
      exact ⟨s, hget, hl, h⟩
  · rw [if_neg hl]
    refine @card_residues _ _ i 0 0 hroom (Nat.zero_le _) fun r hr => ?_
    refine (howner r hr i).trans ?_
    constructor
    · rintro ⟨s', hget', hl', -⟩
      obtain rfl : s = s' := Option.some.inj (hget.symm.trans hget')
      exact absurd hl' hl
    · intro h
      omega

end Owners

/-- **One update.**  In a continuum that has the slots that it was last sized for, an update with a
live weight that can be counted stays inside it and leaves the shares.

**Proof sketch.** The live weight is what the continuum is sized for, and it is the number of points
that the second pass writes; `getElem?_livePoints` says where the points of a server are. -/
theorem modulaUpdate_shares {pool : ServerPool} (hs : pool.Sized) (now : ℤ) (alloc : Bool)
    (hlo : 1 ≤ weights (pool.liveServers now))
    (hhi : weights (pool.liveServers now) ≤ 2 ^ 32 - 11) :
    ∃ st pool', modulaUpdate now alloc pool = .ok (st, pool') ∧
      (0 ≤ now → alloc = true → st = .ok) ∧ (st = .ok → ModulaShares now pool pool') := by
  rw [modulaUpdate_eq, updateContinuum]
  by_cases hneg : now < 0
  · rw [if_pos hneg]
    exact ⟨.error, pool, rfl, fun h => absurd h (by omega), fun h => by cases h⟩
  have hnow : 0 ≤ now := by omega
  obtain ⟨hserver, hlive, hweight⟩ := scanServers_spec pool.autoEjectHosts hnow pool.server
  obtain ⟨hall, hdead⟩ := @scanServers_isLeast pool.autoEjectHosts now hnow pool.server
  rw [if_neg hneg]
  rcases hscan : scanServers pool.autoEjectHosts now {} pool.server with ⟨sc, ss⟩
  rw [hscan] at hserver hlive hweight hall hdead
  simp only at hserver hlive hweight hall hdead ⊢
  subst hserver
  change weights (pool.liveServers now) < 2 ^ 32 → sc.totalWeight = weights (pool.liveServers now)
    at hweight
  have htotal := hweight (by omega)
  have hz : sc.nliveServer ≠ 0 := by
    rw [hlive]
    intro h0
    have hnil : pool.liveServers now = [] := List.eq_nil_of_length_eq_zero h0
    rw [hnil] at hlo
    simp [weights] at hlo
  rw [if_neg hz]
  -- the pool before the second pass
  set pool₁ : ServerPool := { pool with
    server := pool.server.map (resetIn pool.autoEjectHosts now)
    nextRebuild := sc.nextRebuild, nliveServer := sc.nliveServer } with hpool₁
  have hs₁ : pool₁.Sized := hs
  have hlength : (livePoints pool₁.autoEjectHosts now (modulaDistribution.points sc) 0
      pool₁.server).length = weights (pool.liveServers now) := by
    have hpoints : ∀ i s, (modulaDistribution.points sc i s).length = id s.weight := by
      intro i s
      simp [modulaDistribution]
    rw [length_livePoints hpoints]
    exact congrArg List.sum (filter_resetIn hnow id pool.server)
  rcases fillContinuum_alloc modulaDistribution now alloc sc pool₁ with ⟨h, halloc⟩ | h
  · refine ⟨.enomem, pool₁, h, fun _ ha => ?_, fun h => by cases h⟩
    rw [ha] at halloc
    cases halloc
  obtain ⟨pool', hfill, -⟩ := fillContinuum_sized modulaDistribution_unit hs₁
    (show sc.totalWeight < 2 ^ 32 - 10 by omega)
    (show _ ≤ sc.totalWeight by rw [hlength, htotal])
  refine ⟨.ok, pool', h.trans hfill, fun _ _ => rfl, fun _ => ?_⟩
  obtain ⟨nsc, rest, rfl, -⟩ := fillContinuum_ok modulaDistribution_lawful hs₁.2 hfill
  set pts := livePoints pool₁.autoEjectHosts now (modulaDistribution.points sc) 0 pool₁.server
  have howner : ∀ k < pts.length, ∀ i, (pts ++ rest)[k]?.map Continuum.index = some i ↔
      ∃ s, pool.server[i]? = some s ∧ s.liveIn pool.autoEjectHosts now = true ∧
        firstSlot (Server.liveIn pool.autoEjectHosts now) pool.server i ≤ k ∧
        k < firstSlot (Server.liveIn pool.autoEjectHosts now) pool.server i + s.weight := by
    intro k hk i
    rw [← getElem?_livePoints_resetIn hnow, List.getElem?_append_left hk]
    show pts[k]?.map Continuum.index = some i ↔ pts[k]? = some ⟨i, 0⟩
    rw [List.getElem?_eq_getElem hk]
    have hvalue : pts[k].value = 0 := value_of_mem_livePoints (List.getElem_mem hk)
    rw [Option.map_some, Option.some.injEq, Option.some.injEq]
    constructor
    · rintro rfl
      rw [← hvalue]
    · intro h
      rw [h]
  have hroom : pts.length ≤ (pts ++ rest).length := by simp
  exact {
    server := rfl
    nliveServer := hlive
    nextRebuild_live := hall
    nextRebuild_dead := hdead
    ncontinuum := hlength
    room := hroom
    owner := howner
    dispatch := modulaDispatch_live (hlo.trans hlength.ge) hroom howner
    residues := fun i s hget => card_residues_of_owner hlength hroom howner hget }

/-! ## Histories -/

/-- The pools that updates lead to, from an empty continuum on: at any times, with and without
memory, and with any changes of the servers and of the rest of the pool in between. -/
inductive ModulaHistory : ServerPool → Prop
  | start {pool : ServerPool} (hc : pool.continuum = []) (hn : pool.nserverContinuum = 0) :
      ModulaHistory pool
  | change {pool pool' : ServerPool} (h : ModulaHistory pool)
      (hc : pool'.continuum = pool.continuum)
      (hn : pool'.nserverContinuum = pool.nserverContinuum) : ModulaHistory pool'
  | update {pool pool' : ServerPool} {st : Rstatus} (h : ModulaHistory pool) (now : ℤ)
      (alloc : Bool) (hu : modulaUpdate now alloc pool = .ok (st, pool')) : ModulaHistory pool'

/-- Every history keeps the slots that the continuum was last sized for. -/
lemma ModulaHistory.sized {pool : ServerPool} (h : ModulaHistory pool) : pool.Sized := by
  induction h with
  | start hc hn =>
    unfold ServerPool.Sized
    rw [hc, hn]
    exact ⟨le_rfl, by norm_num⟩
  | change h hc hn ih =>
    unfold ServerPool.Sized
    rw [hc, hn]
    exact ih
  | update h now alloc hu ih => exact modulaUpdate_sized ih hu

/-- **With modula the shares are the weights.**  Whatever updates a pool has seen, with whatever
sizes of its array, an update with a live weight between 1 and `2 ^ 32 - 11` stays inside the array,
it succeeds if there is memory, and a successful one leaves each live server exactly `weight`
consecutive slots in the order of the servers, the next rebuild at the first retry time of the
others, and exactly `weight` residues of the hash.

**Proof sketch.** `modulaUpdate_shares` for a continuum that has the slots that it was last sized
for, which every history keeps. -/
theorem ModulaHistory.shares {pool : ServerPool} (h : ModulaHistory pool) (now : ℤ) (alloc : Bool)
    (hlo : 1 ≤ weights (pool.liveServers now))
    (hhi : weights (pool.liveServers now) ≤ 2 ^ 32 - 11) :
    ∃ st pool', modulaUpdate now alloc pool = .ok (st, pool') ∧
      (0 ≤ now → alloc = true → st = .ok) ∧ (st = .ok → ModulaShares now pool pool') :=
  modulaUpdate_shares h.sized now alloc hlo hhi

/-- Three servers of weights 2, 1 and 3, the second of which is ejected until time 50. -/
def threeWeights : ServerPool :=
  { server := [⟨[1], 2, 0, 0⟩, ⟨[2], 1, 50, 0⟩, ⟨[3], 3, 7, 0⟩], autoEjectHosts := true }

/-- Two of three servers are live, with weights 2 and 3. -/
theorem threeWeights_shares :
    weights (threeWeights.liveServers 10) = 5 ∧
      (modulaUpdate 10 true threeWeights).map (fun r =>
        (r.2.nextRebuild, (r.2.continuum.take r.2.ncontinuum).map Continuum.index)) =
        .ok (50, [0, 0, 2, 2, 2]) ∧
      ∃ pool', modulaUpdate 10 true threeWeights = .ok (.ok, pool') ∧
        ModulaShares 10 threeWeights pool' := by
  refine ⟨by decide +kernel, by decide +kernel, ?_⟩
  obtain ⟨st, pool', h, hok, hshares⟩ := @ModulaHistory.shares threeWeights (.start rfl rfl)
    10 true (by decide +kernel) (by decide +kernel)
  obtain rfl := hok (by decide) rfl
  exact ⟨pool', h, hshares rfl⟩

end GfwProxy
