import Mathlib.Algebra.BigOperators.Ring.Finset
import GfwProxy.Pool.Ejection

set_option autoImplicit false

/-!
# The continuum has room for its points

The number of slots that a rebuild allocates and the number of points that it writes are computed
separately, from 32-bit counters.  As long as these do not wrap, every rebuild stays inside the
slots allocated so far, whichever servers are live.

## Main definitions

* `GfwProxy.ServerPool.Accepted` — a pool as the configuration accepts it, before its first rebuild.
* `GfwProxy.Rebuilds` — the pools reached by any sequence of ejections, re-admissions and rebuilds.
* `GfwProxy.ServerPool.Fits` — the counters do not wrap with all servers live.

## Main results

* `GfwProxy.Rebuilds.capacity` — no rebuild of a pool that fits writes outside the continuum.
* `GfwProxy.modulaUpdate_overflow` — with a larger total weight, the first rebuild of modula does.

## Design

The slots allocated are `nserver_continuum` times the points per server at all times; the points
written are at most the live count (or weight) times the points per server.
-/

namespace GfwProxy

variable {point : List UInt8 → ℕ → ℕ → ℕ}

/-- Whether a server is dispatched on after a rebuild at time `now`. -/
def Server.liveIn (autoEjectHosts : Bool) (now : ℤ) (s : Server) : Bool :=
  !autoEjectHosts || s.liveAt now

/-- The servers that a rebuild at time `now` dispatches on. -/
def ServerPool.liveServers (now : ℤ) (pool : ServerPool) : List Server :=
  pool.server.filter (Server.liveIn pool.autoEjectHosts now)

/-- The sum of the weights of some servers. -/
def weights (ss : List Server) : ℕ := (ss.map Server.weight).sum

/-! ## The first pass -/

/-- What the first pass makes of a server. -/
def resetIn (autoEjectHosts : Bool) (now : ℤ) (s : Server) : Server :=
  if autoEjectHosts then resetRetry now s else s

/-- A reset does not change the weight. -/
@[simp] lemma resetIn_weight (auto : Bool) (now : ℤ) (s : Server) :
    (resetIn auto now s).weight = s.weight := by
  cases auto <;> simp [resetIn]

/-- A reset does not change the name. -/
@[simp] lemma resetIn_name (auto : Bool) (now : ℤ) (s : Server) :
    (resetIn auto now s).name = s.name := by
  unfold resetIn resetRetry
  split_ifs <;> rfl

/-- With auto-ejection the live servers are those at the time. -/
lemma liveIn_true (now : ℤ) : Server.liveIn true now = Server.liveAt now := by
  funext s
  simp [Server.liveIn]

/-- With auto-ejection a reset depends on the time. -/
lemma resetIn_true (now : ℤ) : resetIn true now = resetRetry now := by
  funext s
  simp [resetIn]

/-- A reset does not change whether a server is live. -/
lemma liveIn_resetIn {auto : Bool} {now : ℤ} (hnow : 0 ≤ now) (s : Server) :
    (resetIn auto now s).liveIn auto now = s.liveIn auto now := by
  cases auto <;> simp [resetIn, Server.liveIn, liveAt_resetRetry hnow]

/-- Without `auto_eject_hosts` all servers are live. -/
lemma scanServers_false (now : ℤ) (ss : List Server) :
    ∀ sc : Scan, (scanServers false now sc ss).2 = ss ∧
      (scanServers false now sc ss).1.nliveServer = sc.nliveServer + ss.length ∧
      (sc.totalWeight + weights ss < 2 ^ 32 →
        (scanServers false now sc ss).1.totalWeight = sc.totalWeight + weights ss) := by
  induction ss with
  | nil => intro sc; simp [scanServers, weights]
  | cons s ss ih =>
    intro sc
    obtain ⟨hserver, hlive, hweight⟩ := ih { sc with
      nliveServer := sc.nliveServer + 1, totalWeight := u32 (sc.totalWeight + s.weight) }
    simp only [scanServers, scanServer, Bool.false_eq_true, if_false, Bool.not_false, Bool.true_or,
      if_true]
    simp only at hlive hweight
    refine ⟨by rw [hserver], by rw [hlive, List.length_cons]; omega, fun hlt => ?_⟩
    simp only [weights, List.map_cons, List.sum_cons] at hlt hweight ⊢
    have hu : u32 (sc.totalWeight + s.weight) = sc.totalWeight + s.weight :=
      Nat.mod_eq_of_lt (by omega)
    rw [hweight (by rw [hu]; omega), hu]
    omega

/-- The first pass: the servers it leaves, and what it counts. -/
lemma scanServers_spec (auto : Bool) {now : ℤ} (hnow : 0 ≤ now) (ss : List Server) :
    (scanServers auto now {} ss).2 = ss.map (resetIn auto now) ∧
    (scanServers auto now {} ss).1.nliveServer = (ss.filter (Server.liveIn auto now)).length ∧
    (weights (ss.filter (Server.liveIn auto now)) < 2 ^ 32 →
      (scanServers auto now {} ss).1.totalWeight =
      weights (ss.filter (Server.liveIn auto now))) := by
  cases auto with
  | false =>
    obtain ⟨hserver, hlive, hweight⟩ := scanServers_false now ss {}
    have hfilter : ss.filter (Server.liveIn false now) = ss := by simp [Server.liveIn]
    have hmap : ss.map (resetIn false now) = ss := List.map_id ss
    simp only [zero_add] at hlive hweight
    rw [hfilter, hmap]
    exact ⟨hserver, hlive, hweight⟩
  | true =>
    rw [liveIn_true, resetIn_true]
    refine ⟨scanServers_snd hnow ss {}, ?_, fun hlt => ?_⟩
    · rw [scanServers_nliveServer hnow ss {}, List.countP_eq_length_filter]
      simp
    · simpa [weights, liveWeight] using
        scanServers_totalWeight hnow ss {} (by simpa [weights, liveWeight] using hlt)

/-! ## The points -/

/-- How many points are written, if a server has as many as its weight tells. -/
lemma length_livePoints {auto : Bool} {now : ℤ} {points : ℕ → Server → List Continuum}
    {len : ℕ → ℕ} (hlen : ∀ i s, (points i s).length = len s.weight) (ss : List Server) :
    ∀ i, (livePoints auto now points i ss).length =
      ((ss.filter (Server.liveIn auto now)).map fun s => len s.weight).sum := by
  induction ss with
  | nil => intro i; rfl
  | cons s ss ih =>
    intro i
    have hlive : (auto && decide (s.nextRetry > now)) = !s.liveIn auto now := by
      cases auto <;> simp [Server.liveIn, Server.liveAt, ← decide_not]
    simp only [livePoints, List.length_append, ih, hlive]
    cases h : s.liveIn auto now <;> simp [h, hlen]

/-- The first pass does not change how many points are written. -/
lemma filter_resetIn {auto : Bool} {now : ℤ} (hnow : 0 ≤ now) (len : ℕ → ℕ) (ss : List Server) :
    ((ss.map (resetIn auto now)).filter (Server.liveIn auto now)).map (fun s => len s.weight) =
      (ss.filter (Server.liveIn auto now)).map fun s => len s.weight := by
  rw [List.filter_map, List.map_map]
  have hfilter : Server.liveIn auto now ∘ resetIn auto now = Server.liveIn auto now := by
    funext s
    exact liveIn_resetIn hnow s
  rw [hfilter]
  refine List.map_congr_left fun s _ => ?_
  simp

/-- A point names one of the servers. -/
lemma index_of_mem_livePoints {auto : Bool} {now : ℤ} {points : ℕ → Server → List Continuum}
    (hindex : ∀ i s, ∀ c ∈ points i s, c.index = i) {ss : List Server} {c : Continuum} :
    ∀ {i : ℕ}, c ∈ livePoints auto now points i ss → c.index < i + ss.length := by
  induction ss with
  | nil => intro i h; simp [livePoints] at h
  | cons s ss ih =>
    intro i h
    rcases List.mem_append.mp h with h | h
    · have hmem : c ∈ points i s := by
        split_ifs at h with hdead
        · simp at h
        · exact h
      have := hindex i s c hmem
      simp only [List.length_cons]
      omega
    · have := ih h
      simp only [List.length_cons]
      omega

/-! ## The share of a server -/

/-- The servers do not get more than 160 points each, on average. -/
lemma sum_ketamaShare_le {ss : List Server} (hw : 0 < weights ss) (hn : ss.length < 2 ^ 32) :
    (ss.map fun s => ketamaShare s.weight (weights ss) ss.length).sum ≤ ss.length * 160 := by
  set n := ss.length with hn'
  set total := weights ss with htotal
  let share : Server → ℚ := fun s => s.weight * (40 * n / total) + 1 / 10 ^ 10
  have hpos : (0 : ℚ) < total := by exact_mod_cast hw
  have hshare : ∀ s, ketamaShare s.weight total n = ⌊share s⌋₊ * 4 := by
    intro s
    have h : (s.weight / total * 160 / 4 * n + 1 / 10 ^ 10 : ℚ) = share s := by
      simp only [share]
      ring
    simp only [ketamaShare, h]
  -- each share is rounded down
  have hfloor : ((ss.map fun s => ⌊share s⌋₊).sum : ℚ) ≤ (ss.map share).sum := by
    rw [Nat.cast_list_sum, List.map_map]
    refine List.sum_le_sum fun s _ => Nat.floor_le ?_
    positivity
  have hsum : (ss.map share).sum = 40 * n + n * (1 / 10 ^ 10) := by
    have hweights : (ss.map fun s => (s.weight : ℚ)).sum = total := by
      rw [htotal, weights, Nat.cast_list_sum, List.map_map]
      rfl
    simp only [share, List.sum_map_add, List.sum_map_mul_right, hweights, List.map_const',
      List.sum_replicate, nsmul_eq_mul, ← hn']
    field_simp
  -- the excess of all servers together is less than a point
  have hexcess : (n : ℚ) * (1 / 10 ^ 10) < 1 := by
    have : (n : ℚ) < 2 ^ 32 := by exact_mod_cast hn
    linarith
  have hlt : ((ss.map fun s => ⌊share s⌋₊).sum : ℚ) < (40 * n + 1 : ℕ) := by
    rw [Nat.cast_add, Nat.cast_mul, Nat.cast_ofNat, Nat.cast_one]
    linarith
  have hle := Nat.cast_lt.mp hlt
  simp only [hshare]
  rw [List.sum_map_mul_right]
  omega

/-- Among some servers one has at least its share of the weight. -/
lemma exists_weights_le {ss : List Server} (hne : ss ≠ []) :
    ∃ s ∈ ss, weights ss ≤ s.weight * ss.length := by
  by_contra hcon
  push Not at hcon
  have hsum : (ss.map fun s => s.weight * ss.length).sum < (ss.map fun _ => weights ss).sum :=
    List.sum_lt_sum_of_ne_nil hne _ _ hcon
  rw [List.sum_map_mul_right, List.map_const', List.sum_replicate, smul_eq_mul, mul_comm] at hsum
  exact absurd hsum (lt_irrefl _)

/-- The number of points of a server, by its weight. -/
def DistType.npoints (dist : DistType) (sc : Scan) (weight : ℕ) : ℕ :=
  match dist with
  | .ketama => ketamaShare weight sc.totalWeight sc.nliveServer
  | .modula => weight
  | .random => 1

variable (point) in
/-- The number of points of a server. -/
lemma length_points (dist : DistType) (sc : Scan) (i : ℕ) (s : Server) :
    ((distribution point dist).points sc i s).length = dist.npoints sc s.weight := by
  cases dist with
  | ketama =>
    have hdvd : 4 ∣ ketamaShare s.weight sc.totalWeight sc.nliveServer := Dvd.intro_left _ rfl
    simp only [distribution, ketamaPoints, List.length_flatMap, List.length_map, List.length_range,
      List.map_const', List.sum_replicate, smul_eq_mul, DistType.npoints]
    omega
  | modula => simp [distribution, DistType.npoints]
  | random => simp [distribution, DistType.npoints]

/-! ## Room -/

/-- What a rebuild needs slots for, by the servers that are live. -/
def DistType.need (dist : DistType) (live : List Server) : ℕ :=
  match dist with
  | .modula => weights live
  | _ => live.length

/-- The points per server. -/
def DistType.perServer (dist : DistType) : ℕ :=
  match dist with
  | .ketama => 160
  | _ => 1

/-- The counters do not wrap: not the number of slots that are allocated for all servers, and in
ketama not the total weight. -/
def ServerPool.Fits (pool : ServerPool) : Prop :=
  (pool.distType.need pool.server + 10) * pool.distType.perServer < 2 ^ 32 ∧
    (pool.distType = .ketama → weights pool.server < 2 ^ 32)

instance (pool : ServerPool) : Decidable pool.Fits := by
  unfold ServerPool.Fits
  infer_instance

/-- The slots allocated are those that the pool was sized for, and these are no more than for all
servers. -/
structure ServerPool.Roomy (pool : ServerPool) : Prop where
  length : pool.continuum.length = pool.nserverContinuum * pool.distType.perServer
  le : pool.nserverContinuum ≤ pool.distType.need pool.server + 10

/-- Some of the servers weigh no more than all. -/
lemma weights_filter_le (p : Server → Bool) (ss : List Server) :
    weights (ss.filter p) ≤ weights ss :=
  (List.filter_sublist.map Server.weight).sum_le_sum fun _ _ => Nat.zero_le _

/-- Some of the servers need no more slots than all. -/
lemma need_filter_le (dist : DistType) (p : Server → Bool) (ss : List Server) :
    dist.need (ss.filter p) ≤ dist.need ss := by
  cases dist with
  | modula => exact weights_filter_le p ss
  | ketama => exact List.length_filter_le p ss
  | random => exact List.length_filter_le p ss

/-- The live servers do not get more points than they need. -/
lemma sum_points_le {dist : DistType} {sc : Scan} {live : List Server}
    (hn : sc.nliveServer = live.length) (ht : dist = .ketama → sc.totalWeight = weights live)
    (hlen : dist = .ketama → live.length < 2 ^ 32) (hpos : ∀ s ∈ live, 0 < s.weight) :
    (live.map fun s => dist.npoints sc s.weight).sum ≤ dist.need live * dist.perServer := by
  cases dist with
  | ketama =>
    rcases live with _ | ⟨s, live⟩
    · simp
    have hw : 0 < weights (s :: live) := by
      have := hpos s (by simp)
      simp only [weights, List.map_cons, List.sum_cons]
      omega
    simp only [DistType.npoints, ht rfl, hn]
    exact sum_ketamaShare_le hw (hlen rfl)
  | modula => simp [DistType.need, DistType.perServer, DistType.npoints, weights]
  | random => simp [DistType.need, DistType.perServer, DistType.npoints]

/-- A live server has a point. -/
lemma sum_points_pos {dist : DistType} {sc : Scan} {live : List Server} (hne : live ≠ [])
    (hn : sc.nliveServer = live.length) (ht : dist = .ketama → sc.totalWeight = weights live)
    (hpos : ∀ s ∈ live, 0 < s.weight) :
    0 < (live.map fun s => dist.npoints sc s.weight).sum := by
  obtain ⟨s, hs, hle⟩ := exists_weights_le hne
  refine lt_of_lt_of_le ?_ (List.single_le_sum (by simp) _ (List.mem_map_of_mem hs))
  have hweight := hpos s hs
  cases dist with
  | ketama =>
    have hw : 0 < weights live :=
      lt_of_lt_of_le hweight (List.single_le_sum (by simp) _ (List.mem_map_of_mem hs))
    have := le_ketamaShare hw hle
    simp only [DistType.npoints, ht rfl, hn]
    omega
  | modula => exact hweight
  | random => exact Nat.one_pos

/-- Points that fit into the continuum are written into its first slots. -/
lemma writeSlots_fit {arr pts : List Continuum} (hle : pts.length ≤ arr.length)
    (hlt : arr.length < 2 ^ 32) : writeSlots arr 0 pts = some (pts ++ arr.drop pts.length) := by
  have hex : ∃ arr', writeSlots arr 0 pts = some arr' := writeSlots_isSome (by omega) hlt
  obtain ⟨arr', h⟩ := hex
  obtain ⟨-, rfl⟩ := writeSlots_eq_some (Nat.zero_le _) hlt h
  simpa using h

/-- The second pass fails to allocate, or puts the points of the live servers into the first slots
of a continuum that has room for them. -/
lemma fillContinuum_room {dist : DistType} (now : ℤ) (alloc : Bool) {sc : Scan}
    {pool : ServerPool} (hdist : pool.distType = dist) (hroom : pool.Roomy)
    (hfit : (dist.need pool.server + 10) * dist.perServer < 2 ^ 32)
    (hneed : (distribution point dist).need sc ≤ dist.need pool.server)
    (hpts : (livePoints pool.autoEjectHosts now ((distribution point dist).points sc) 0
      pool.server).length ≤ (distribution point dist).need sc * dist.perServer) :
    fillContinuum (distribution point dist) now alloc sc pool = .ok (.enomem, pool) ∨
      ∃ nserverContinuum continuum, ∃ pts : List Continuum,
        pts.Perm (livePoints pool.autoEjectHosts now ((distribution point dist).points sc) 0
          pool.server) ∧
        fillContinuum (distribution point dist) now alloc sc pool =
          .ok (.ok, { pool with
            nserverContinuum := nserverContinuum, ncontinuum := pts.length
            continuum := pts ++ continuum }) ∧
        (pts ++ continuum).length = nserverContinuum * dist.perServer ∧
        nserverContinuum ≤ dist.need pool.server + 10 := by
  obtain ⟨hlength, hle⟩ := hroom
  rw [hdist] at hlength hle
  have hpps : 0 < dist.perServer := by cases dist <;> simp [DistType.perServer]
  have hadd : (distribution point dist).addition = 10 := by cases dist <;> rfl
  have hper : (distribution point dist).pointsPerServer = dist.perServer := by cases dist <;> rfl
  have hperm : ∀ l, ((distribution point dist).order l).Perm l := (distribution_lawful dist).order
  have hstep : ∀ arr pts : List Continuum, pts.length ≤ arr.length → arr.length < 2 ^ 32 →
      writeSlots arr 0 pts = some (pts ++ arr.drop pts.length) ∧ u32 pts.length = pts.length :=
    fun _ _ h₁ h₂ => ⟨writeSlots_fit h₁ h₂, Nat.mod_eq_of_lt (by omega)⟩
  have hneedlt : (distribution point dist).need sc + 10 < 2 ^ 32 := by
    have := Nat.le_mul_of_pos_right (dist.need pool.server + 10) hpps
    omega
  have hmul : ∀ k ≤ dist.need pool.server + 10, k * dist.perServer < 2 ^ 32 := fun k hk =>
    lt_of_le_of_lt (Nat.mul_le_mul_right _ hk) hfit
  have hroom₁ := Nat.mul_le_mul_right dist.perServer
    (show (distribution point dist).need sc ≤ (distribution point dist).need sc + 10 by omega)
  unfold fillContinuum
  rw [hadd, hper]
  generalize hp : livePoints pool.autoEjectHosts now ((distribution point dist).points sc) 0
    pool.server = pts at hpts
  by_cases hgrow : (distribution point dist).need sc > pool.nserverContinuum
  · cases alloc with
    | false =>
      left
      simp [hgrow]
    | true =>
      right
      set slots := ((distribution point dist).need sc + 10) * dist.perServer with hslots
      have hlen : (growContinuum slots pool.continuum).length = slots := by simp
      have hlt : slots < 2 ^ 32 := hmul _ (by omega)
      obtain ⟨hwrite, hu⟩ := hstep (growContinuum slots pool.continuum) pts (by omega) (by omega)
      have hu₁ : u32 ((distribution point dist).need sc + 10) =
        (distribution point dist).need sc + 10 := Nat.mod_eq_of_lt hneedlt
      have hu₂ : u32 slots = slots := Nat.mod_eq_of_lt hlt
      refine ⟨(distribution point dist).need sc + 10,
        (growContinuum slots pool.continuum).drop pts.length,
        (distribution point dist).order pts, hperm pts, ?_, ?_, by omega⟩
      · simp [hgrow, hu₁, ← hslots, hu₂, hp, hwrite, hu, (hperm pts).length_eq]
      · rw [List.length_append, (hperm pts).length_eq, List.length_drop, hlen]
        omega
  · right
    have hle' : (distribution point dist).need sc ≤ pool.nserverContinuum := by omega
    have hroom₂ := Nat.mul_le_mul_right dist.perServer hle'
    obtain ⟨hwrite, hu⟩ := hstep pool.continuum pts (by omega)
      (by rw [hlength]; exact hmul _ hle)
    refine ⟨pool.nserverContinuum, pool.continuum.drop pts.length,
      (distribution point dist).order pts, hperm pts, ?_, ?_, hle⟩
    · simp [hgrow, hp, hwrite, hu, (hperm pts).length_eq]
    · rw [List.length_append, (hperm pts).length_eq, List.length_drop]
      omega

/-! ## One rebuild -/

/-- The settings that a rebuild does not change. -/
structure ServerPool.SameSettings (pool pool' : ServerPool) : Prop where
  distType : pool'.distType = pool.distType
  autoEjectHosts : pool'.autoEjectHosts = pool.autoEjectHosts
  weight : pool'.server.map Server.weight = pool.server.map Server.weight
  name : pool'.server.map Server.name = pool.server.map Server.name

/-- The first pass keeps the settings. -/
lemma sameSettings_reset (pool : ServerPool) (now : ℤ) (nliveServer : ℕ) (nextRebuild : ℤ) :
    pool.SameSettings { pool with
      server := pool.server.map (resetIn pool.autoEjectHosts now)
      nextRebuild := nextRebuild, nliveServer := nliveServer } := by
  refine ⟨rfl, rfl, ?_, ?_⟩ <;> simp [Function.comp_def]

/-- A rebuild with a clock reading and memory succeeds. -/
lemma updateContinuum_status {d : Distribution} {now : ℤ} {pool pool' : ServerPool} {st : Rstatus}
    (hnow : 0 ≤ now) (h : updateContinuum d now true pool = .ok (st, pool')) : st = .ok := by
  unfold updateContinuum at h
  rw [if_neg (not_lt.mpr hnow)] at h
  simp only at h
  split_ifs at h
  · exact (Prod.mk.inj (Except.ok.inj h)).1.symm
  · rcases fillContinuum_cases h with ⟨-, -, h'⟩ | rfl
    · cases h'
    · rfl

/-- What a rebuild leaves: the settings, fewer than `2 ^ 32` slots and, if it succeeds with a live
server, the points of the live servers in the slots that are dispatched on. -/
lemma updateContinuum_ok {d : Distribution} (hd : d.Lawful) {now : ℤ} {alloc : Bool}
    {pool pool' : ServerPool} {st : Rstatus} (hcap : pool.continuum.length < 2 ^ 32)
    (h : updateContinuum d now alloc pool = .ok (st, pool')) :
    pool.SameSettings pool' ∧ pool'.continuum.length < 2 ^ 32 ∧
      (st = .ok → pool.liveServers now ≠ [] → ∃ sc : Scan, ∃ rest,
        sc.nliveServer = (pool.liveServers now).length ∧
        (weights (pool.liveServers now) < 2 ^ 32 →
          sc.totalWeight = weights (pool.liveServers now)) ∧
        pool'.ncontinuum = (livePoints pool.autoEjectHosts now (d.points sc) 0
          (pool.server.map (resetIn pool.autoEjectHosts now))).length ∧
        pool'.continuum = d.order (livePoints pool.autoEjectHosts now (d.points sc) 0
          (pool.server.map (resetIn pool.autoEjectHosts now))) ++ rest) := by
  unfold updateContinuum at h
  by_cases hnow : now < 0
  · rw [if_pos hnow] at h
    obtain ⟨rfl, rfl⟩ := Prod.mk.inj (Except.ok.inj h)
    exact ⟨⟨rfl, rfl, rfl, rfl⟩, hcap, by simp⟩
  obtain ⟨hserver, hlive, hweight⟩ := scanServers_spec pool.autoEjectHosts
    (show 0 ≤ now by omega) pool.server
  rcases hscan : scanServers pool.autoEjectHosts now {} pool.server with ⟨sc, ss⟩
  rw [hscan] at h hserver hlive hweight
  simp only at hserver hlive hweight
  subst hserver
  simp only [if_neg hnow] at h
  have hsame := sameSettings_reset pool now sc.nliveServer sc.nextRebuild
  by_cases hz : sc.nliveServer = 0
  · rw [if_pos hz] at h
    obtain ⟨rfl, rfl⟩ := Prod.mk.inj (Except.ok.inj h)
    refine ⟨hsame, hcap, fun _ hne => absurd ?_ hne⟩
    exact List.eq_nil_of_length_eq_zero (by rw [← hz, hlive]; rfl)
  rw [if_neg hz] at h
  rcases fillContinuum_cases h with ⟨rfl, rfl, -⟩ | rfl
  · exact ⟨hsame, hcap, by simp⟩
  · obtain ⟨nsc, rest, rfl, hlen⟩ := fillContinuum_ok hd (by exact hcap) h
    exact ⟨⟨rfl, rfl, hsame.weight, hsame.name⟩, hlen,
      fun _ _ => ⟨sc, rest, hlive, hweight, rfl, rfl⟩⟩

/-! ## Rebuilds -/

/-- A pool as the configuration accepts it, before its first rebuild. -/
structure ServerPool.Accepted (pool : ServerPool) : Prop where
  server_ne_nil : pool.server ≠ []
  /-- the number of servers is a `uint32_t` -/
  length_lt : pool.server.length < 2 ^ 32
  weight : ∀ s ∈ pool.server, 1 ≤ s.weight ∧ s.weight ≤ 2 ^ 31 - 1
  nextRetry : ∀ s ∈ pool.server, s.nextRetry = 0
  continuum : pool.continuum = []
  nserverContinuum : pool.nserverContinuum = 0

/-- The pools reached from `pool₀` by any sequence of ejections and re-admissions, which change the
retry times and the failure counts, and of rebuilds, at any times and successful or not. -/
inductive Rebuilds (point : List UInt8 → ℕ → ℕ → ℕ) (pool₀ : ServerPool) : ServerPool → Prop
  | start : Rebuilds point pool₀ pool₀
  | retry {pool : ServerPool} (hr : Rebuilds point pool₀ pool) (f : ℕ → ℤ × ℕ) :
      Rebuilds point pool₀ { pool with
        server := pool.server.mapIdx fun i s =>
          { s with nextRetry := (f i).1, failureCount := (f i).2 } }
  | rebuild {pool pool' : ServerPool} {st : Rstatus} (hr : Rebuilds point pool₀ pool) (now : ℤ)
      (alloc : Bool) (h : serverPoolRun point now alloc pool = .ok (st, pool')) :
      Rebuilds point pool₀ pool'

/-- What a rebuild leaves for the dispatch: slots inside the continuum, each of a server. -/
structure ServerPool.Dispatchable (pool : ServerPool) : Prop where
  pos : 1 ≤ pool.ncontinuum
  le : pool.ncontinuum ≤ pool.continuum.length
  index : ∀ c ∈ pool.continuum.take pool.ncontinuum, c.index < pool.server.length

/-- A reset does not change how many slots are needed. -/
lemma need_resetIn (dist : DistType) (auto : Bool) (now : ℤ) (ss : List Server) :
    dist.need (ss.map (resetIn auto now)) = dist.need ss := by
  cases dist <;> simp [DistType.need, weights, Function.comp_def]

variable (point) in
/-- **One rebuild** of a pool with room stays inside the continuum and leaves it with room.

**Proof sketch.** The points of the live servers are no more than these need slots for; the
continuum has that many slots already, or is resized to ten more. -/
theorem serverPoolRun_room {pool : ServerPool} (hfit : pool.Fits) (hroom : pool.Roomy)
    (hpos : ∀ s ∈ pool.server, 0 < s.weight) (hlen : pool.server.length < 2 ^ 32) (now : ℤ)
    (alloc : Bool) :
    ∃ st pool', serverPoolRun point now alloc pool = .ok (st, pool') ∧ pool'.Roomy ∧
      (st = .ok → pool.liveServers now ≠ [] → pool'.Dispatchable) := by
  rw [serverPoolRun_eq]
  unfold updateContinuum
  by_cases hnow : now < 0
  · exact ⟨.error, pool, by simp [hnow], hroom, by simp⟩
  obtain ⟨hserver, hlive, hweight⟩ := scanServers_spec pool.autoEjectHosts
    (show 0 ≤ now by omega) pool.server
  rcases hscan : scanServers pool.autoEjectHosts now {} pool.server with ⟨sc, ss⟩
  rw [hscan] at hserver hlive hweight
  simp only at hserver hlive hweight
  subst hserver
  set live := pool.server.filter (Server.liveIn pool.autoEjectHosts now) with hlive'
  have hlivepos : ∀ s ∈ live, 0 < s.weight := fun s hs => hpos s (List.mem_filter.mp hs).1
  have hneed := need_resetIn pool.distType pool.autoEjectHosts now pool.server
  -- the pool before the second pass
  set pool₁ : ServerPool := { pool with
    server := pool.server.map (resetIn pool.autoEjectHosts now)
    nextRebuild := sc.nextRebuild, nliveServer := sc.nliveServer } with hpool₁
  have hroom₁ : pool₁.Roomy := ⟨hroom.length, by rw [hneed]; exact hroom.le⟩
  by_cases hz : sc.nliveServer = 0
  · refine ⟨.ok, pool₁, by simp [hnow, hz, hpool₁], hroom₁, fun _ hne => absurd ?_ hne⟩
    exact List.eq_nil_of_length_eq_zero (by rw [← hz, hlive]; rfl)
  simp only [if_neg hnow, if_neg hz]
  change ∃ st pool', fillContinuum (distribution point pool.distType) now alloc sc pool₁ = _ ∧ _
  -- the points of the live servers
  have ht : pool.distType ≠ .random → sc.totalWeight = weights live := by
    intro hdist
    refine hweight (lt_of_le_of_lt (weights_filter_le _ _) ?_)
    obtain ⟨hmul, hketama⟩ := hfit
    cases hd : pool.distType with
    | ketama => exact hketama hd
    | random => exact absurd hd hdist
    | modula =>
      simp only [hd, DistType.need, DistType.perServer] at hmul
      omega
  have hketama : pool.distType = .ketama → sc.totalWeight = weights live := fun hd =>
    ht (by rw [hd]; decide)
  have hneed₁ : (distribution point pool.distType).need sc = pool.distType.need live := by
    cases hd : pool.distType with
    | ketama => exact hlive
    | random => exact hlive
    | modula => exact ht (by rw [hd]; decide)
  have hpts : (livePoints pool₁.autoEjectHosts now ((distribution point pool.distType).points sc) 0
      pool₁.server).length = (live.map fun s => pool.distType.npoints sc s.weight).sum := by
    have hlength := length_points point pool.distType sc
    rw [length_livePoints hlength]
    exact congrArg List.sum (filter_resetIn (by omega) _ _)
  have hle := sum_points_le hlive hketama
    (fun _ => lt_of_le_of_lt (List.length_filter_le _ _) hlen) hlivepos
  have hneedle : pool.distType.need live ≤ pool.distType.need pool.server :=
    need_filter_le pool.distType _ pool.server
  rcases fillContinuum_room now alloc (show pool₁.distType = _ from rfl) hroom₁
    (by rw [hneed]; exact hfit.1) (by rw [hneed, hneed₁]; exact hneedle)
    (by rw [hpts, hneed₁]; exact hle) with h | ⟨nsc, continuum, pts, hperm, h, hlength, hnsc⟩
  · exact ⟨_, _, h, hroom₁, by simp⟩
  · refine ⟨_, _, h, ⟨hlength, hnsc⟩, fun _ hne => ⟨?_, by simp, fun c hc => ?_⟩⟩
    · rw [hperm.length_eq, hpts]
      exact sum_points_pos hne hlive hketama hlivepos
    · have hmem := hperm.mem_iff.mp (by simpa using hc)
      have := index_of_mem_livePoints ((distribution_lawful pool.distType).index sc) hmem
      simpa using this

/-! ## Runs -/

namespace ServerPool.SameSettings

variable {pool pool' pool'' : ServerPool}

/-- Settings stay the same over several rebuilds. -/
lemma trans (h : pool.SameSettings pool') (h' : pool'.SameSettings pool'') :
    pool.SameSettings pool'' :=
  ⟨h'.distType.trans h.distType, h'.autoEjectHosts.trans h.autoEjectHosts,
    h'.weight.trans h.weight, h'.name.trans h.name⟩

/-- The number of servers is a setting. -/
lemma length (h : pool.SameSettings pool') : pool'.server.length = pool.server.length := by
  simpa using congrArg List.length h.weight

/-- The number of slots needed is a setting. -/
lemma need (h : pool.SameSettings pool') :
    pool'.distType.need pool'.server = pool.distType.need pool.server := by
  rw [h.distType]
  cases pool.distType with
  | modula => simp only [DistType.need, weights, h.weight]
  | ketama => exact h.length
  | random => exact h.length

/-- Whether the slots fit is decided by the settings. -/
lemma fits (h : pool.SameSettings pool') (hfit : pool.Fits) : pool'.Fits := by
  refine ⟨by rw [h.need, h.distType]; exact hfit.1, fun hd => ?_⟩
  rw [weights, h.weight]
  exact hfit.2 (h.distType.symm.trans hd)

/-- What holds of all weights still does. -/
lemma forall_weight (h : pool.SameSettings pool') {P : ℕ → Prop}
    (hP : ∀ s ∈ pool.server, P s.weight) : ∀ s ∈ pool'.server, P s.weight := by
  intro s hs
  have hmem : s.weight ∈ pool.server.map Server.weight := by
    rw [← h.weight]
    exact List.mem_map_of_mem hs
  obtain ⟨s', hs', he⟩ := List.mem_map.mp hmem
  exact he ▸ hP s' hs'

end ServerPool.SameSettings

/-- Changing the retry times and the failure counts keeps the settings. -/
lemma sameSettings_retry (pool : ServerPool) (f : ℕ → ℤ × ℕ) :
    pool.SameSettings { pool with
      server := pool.server.mapIdx fun i s =>
        { s with nextRetry := (f i).1, failureCount := (f i).2 } } := by
  refine ⟨rfl, rfl, List.ext_getElem? fun k => ?_, List.ext_getElem? fun k => ?_⟩ <;>
  · simp only [List.getElem?_map, List.getElem?_mapIdx, Option.map_map]
    rfl

/-- A run keeps the settings, and never allocates `2 ^ 32` slots. -/
lemma Rebuilds.sameSettings {pool₀ pool : ServerPool} (h₀ : pool₀.Accepted)
    (hr : Rebuilds point pool₀ pool) :
    pool₀.SameSettings pool ∧ pool.continuum.length < 2 ^ 32 := by
  induction hr with
  | start => exact ⟨⟨rfl, rfl, rfl, rfl⟩, by simp [h₀.continuum]⟩
  | retry hr f ih => exact ⟨ih.1.trans (sameSettings_retry _ f), ih.2⟩
  | rebuild hr now alloc h ih =>
    rw [serverPoolRun_eq] at h
    obtain ⟨hsame, hcap, -⟩ := updateContinuum_ok (distribution_lawful _) ih.2 h
    exact ⟨ih.1.trans hsame, hcap⟩

/-- Every pool that is reached has room, if the counters do not wrap. -/
lemma Rebuilds.roomy {pool₀ pool : ServerPool} (h₀ : pool₀.Accepted) (hfit : pool₀.Fits)
    (hr : Rebuilds point pool₀ pool) : pool.Roomy := by
  have hpos : ∀ s ∈ pool₀.server, 0 < s.weight := fun s hs => (h₀.weight s hs).1
  induction hr with
  | start =>
    refine ⟨?_, ?_⟩
    · simp [h₀.continuum, h₀.nserverContinuum]
    · simp [h₀.nserverContinuum]
  | retry hr f ih => exact ⟨ih.length, by rw [(sameSettings_retry _ f).need]; exact ih.le⟩
  | rebuild hr now alloc h ih =>
    have hsame := (hr.sameSettings h₀).1
    obtain ⟨st', pool'', h', hroom', -⟩ := serverPoolRun_room point (hsame.fits hfit) ih
      (hsame.forall_weight hpos) (by rw [hsame.length]; exact h₀.length_lt) now alloc
    obtain ⟨rfl, rfl⟩ := Prod.mk.inj (Except.ok.inj (h.symm.trans h'))
    exact hroom'

/-- **Continuum capacity.**  While the counters of a pool do not wrap, no rebuild in any run writes
outside the slots that are allocated, and a successful one with a live server leaves slots to
dispatch on, all inside the continuum and each with the index of a server.

**Proof sketch.** `serverPoolRun_room` for the last rebuild; every pool before it has room. -/
theorem Rebuilds.capacity {pool₀ pool : ServerPool} (h₀ : pool₀.Accepted) (hfit : pool₀.Fits)
    (hr : Rebuilds point pool₀ pool) (now : ℤ) (alloc : Bool) :
    ∃ st pool', serverPoolRun point now alloc pool = .ok (st, pool') ∧
      (st = .ok → pool.liveServers now ≠ [] → pool'.Dispatchable) := by
  have hsame := (hr.sameSettings h₀).1
  have hpos : ∀ s ∈ pool₀.server, 0 < s.weight := fun s hs => (h₀.weight s hs).1
  obtain ⟨st, pool', h, -, hd⟩ := serverPoolRun_room point (hsame.fits hfit)
    (hr.roomy h₀ hfit)
    (hsame.forall_weight hpos) (by rw [hsame.length]; exact h₀.length_lt) now alloc
  exact ⟨st, pool', h, hd⟩

/-! ## Overflow -/

/-- With all servers live the first pass adds up all weights, modulo `2 ^ 32`. -/
lemma scanServers_wrap (auto : Bool) {now : ℤ} {ss : List Server}
    (hlive : ∀ s ∈ ss, s.nextRetry ≤ now) (hnow : 0 ≤ now) :
    ∀ sc : Scan, sc.totalWeight < 2 ^ 32 →
      (scanServers auto now sc ss).1.totalWeight = u32 (sc.totalWeight + weights ss) := by
  induction ss with
  | nil =>
    intro sc hlt
    simpa [scanServers, weights, u32] using (Nat.mod_eq_of_lt hlt).symm
  | cons s ss ih =>
    intro sc hlt
    have hs : s.nextRetry ≤ now := hlive s (by simp)
    have h := ih (fun s hs => hlive s (by simp [hs])) { sc with
      nliveServer := sc.nliveServer + 1, totalWeight := u32 (sc.totalWeight + s.weight) }
      (Nat.mod_lt _ (by norm_num))
    have hscan : scanServer auto now sc s = ({ sc with
        nliveServer := sc.nliveServer + 1, totalWeight := u32 (sc.totalWeight + s.weight) },
        resetIn auto now s) := by
      cases auto <;> simp [scanServer, resetIn, resetRetry, hs, hnow]
    simp only [scanServers, hscan, h]
    simp only [weights, List.map_cons, List.sum_cons, u32]
    omega

/-- **With a larger total weight the first rebuild of modula writes outside the continuum.**

**Proof sketch.** All weights are written; if they fit into 32 bits themselves, then the number of
slots does not. -/
theorem modulaUpdate_overflow {pool : ServerPool} (h₀ : pool.Accepted)
    (hdist : pool.distType = .modula) (hfit : ¬pool.Fits) {now : ℤ} (hnow : 0 ≤ now) :
    serverPoolRun point now true pool = .error .outOfBounds := by
  have htotal : 2 ^ 32 ≤ weights pool.server + 10 := by
    by_contra hlt
    refine hfit ⟨?_, by simp [hdist]⟩
    simp only [hdist, DistType.need, DistType.perServer]
    omega
  have hall : ∀ s ∈ pool.server, s.nextRetry ≤ now :=
    fun s hs => by rw [h₀.nextRetry s hs]; exact hnow
  obtain ⟨hserver, hlive, -⟩ := scanServers_spec pool.autoEjectHosts hnow pool.server
  have hweight := scanServers_wrap pool.autoEjectHosts hall hnow {} (by norm_num)
  have hfilter : pool.server.filter (Server.liveIn pool.autoEjectHosts now) = pool.server := by
    rw [List.filter_eq_self]
    intro s hs
    simp [Server.liveIn, Server.liveAt, hall s hs]
  rw [hfilter] at hlive
  rcases hscan : scanServers pool.autoEjectHosts now {} pool.server with ⟨sc, ss⟩
  rw [hscan] at hserver hlive hweight
  simp only [zero_add] at hserver hlive hweight
  have hlength : (livePoints pool.autoEjectHosts now ((distribution point .modula).points sc) 0
      ss).length = weights pool.server := by
    have hpoints := length_points point .modula sc
    rw [length_livePoints hpoints, hserver, filter_resetIn hnow (DistType.npoints .modula sc),
      hfilter]
    rfl
  have hne : ¬sc.nliveServer = 0 := by
    rw [hlive, List.length_eq_zero_iff]
    exact h₀.server_ne_nil
  have hnone : ∀ arr : List Continuum, arr.length < 2 ^ 32 → arr.length < weights pool.server →
      writeSlots arr 0 (livePoints pool.autoEjectHosts now
        ((distribution point .modula).points sc) 0 ss) = none := by
    intro arr hlt hle
    by_contra hsome
    obtain ⟨arr', h⟩ := Option.ne_none_iff_exists'.mp hsome
    have := (writeSlots_eq_some (Nat.zero_le _) hlt h).1
    omega
  rw [serverPoolRun_eq, hdist]
  unfold updateContinuum
  simp only [if_neg (not_lt.mpr hnow), hscan, if_neg hne]
  unfold fillContinuum
  have hneed : (distribution point .modula).need sc = sc.totalWeight := rfl
  simp only [Bool.not_true, Bool.and_false, Bool.false_eq_true, if_false, hneed,
    h₀.nserverContinuum]
  by_cases hgrow : sc.totalWeight > 0
  · have hslots : u32 (u32 (sc.totalWeight + 10) * 1) < weights pool.server := by
      rw [hweight]
      unfold u32
      omega
    have hw := hnone (growContinuum (u32 (u32 (sc.totalWeight + 10) * 1)) pool.continuum)
      (by rw [length_growContinuum]; exact Nat.mod_lt _ (by norm_num))
      (by rw [length_growContinuum]; exact hslots)
    simp only [hgrow, if_true]
    rw [show (distribution point .modula).addition = 10 from rfl,
      show (distribution point .modula).pointsPerServer = 1 from rfl, hw]
  · have hw := hnone pool.continuum (by rw [h₀.continuum]; norm_num)
      (by rw [h₀.continuum]; simp only [List.length_nil]; omega)
    simp only [hgrow, if_false, hw]

/-- Two servers with the largest weight. -/
def heavyPool : ServerPool :=
  { server := [{ name := [1], weight := 2 ^ 31 - 1 }, { name := [2], weight := 2 ^ 31 - 1 }] }

/-- The pool is one that the configuration can give. -/
lemma heavyPool_accepted : heavyPool.Accepted where
  server_ne_nil := by simp [heavyPool]
  length_lt := by simp [heavyPool]
  weight := by simp [heavyPool]
  nextRetry := by simp [heavyPool]
  continuum := rfl
  nserverContinuum := rfl

/-- The first rebuild of two servers with the largest weight writes outside its 8 slots. -/
theorem not_forall_capacity :
    ¬∀ (point : List UInt8 → ℕ → ℕ → ℕ) (pool₀ pool : ServerPool) (now : ℤ) (alloc : Bool),
      pool₀.Accepted → Rebuilds point pool₀ pool →
      ∃ st pool', serverPoolRun point now alloc pool = .ok (st, pool') ∧
        (st = .ok → pool.liveServers now ≠ [] → pool'.Dispatchable) := by
  intro h
  obtain ⟨st, pool', hr, -⟩ :=
    h (fun _ _ _ => 0) heavyPool heavyPool 0 true heavyPool_accepted .start
  rw [modulaUpdate_overflow heavyPool_accepted rfl (by decide) le_rfl] at hr
  cases hr

/-- Three servers of different weights. -/
def triplePool : ServerPool :=
  { server := [{ name := [1], weight := 1 }, { name := [2], weight := 2 },
    { name := [3], weight := 3 }]
    autoEjectHosts := true, distType := .ketama }

/-- The pool once its second server is ejected until time 10. -/
def triplePoolEjected : ServerPool :=
  { triplePool with server := [⟨[1], 1, 0, 0⟩, ⟨[2], 2, 10, 0⟩, ⟨[3], 3, 0, 0⟩] }

/-- One of three servers is ejected. -/
theorem triplePoolEjected_capacity :
    ∃ st pool', serverPoolRun (fun _ k x => 7 * k + x) 5 true triplePoolEjected = .ok (st, pool') ∧
      (st = .ok → triplePoolEjected.liveServers 5 ≠ [] → pool'.Dispatchable) := by
  have h₀ : triplePool.Accepted := by
    constructor <;> simp [triplePool]
  have hr : Rebuilds (fun _ k x => 7 * k + x) triplePool triplePoolEjected :=
    Rebuilds.start.retry fun i => (if i = 1 then 10 else 0, 0)
  exact hr.capacity h₀ (by decide) 5 true

end GfwProxy
