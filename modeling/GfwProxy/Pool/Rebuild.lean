import Mathlib.Algebra.Order.BigOperators.Group.List
import Mathlib.Algebra.Order.Field.Rat
import Mathlib.Tactic.Positivity
import GfwProxy.Pool.Failure

set_option autoImplicit false

/-!
# What a rebuild leaves behind

The three updates are instances of `updateContinuum`.  This file says once what a rebuild at
time `now` does: the servers whose retry time has passed lose it, the others bound the next
rebuild from above, and the slots that are dispatched on are the points of the live servers.

## Main results

* `GfwProxy.scanServers_snd`, `GfwProxy.scanServers_fst` — the first pass.
* `GfwProxy.writeSlots_eq_some` — a run of writes tiles the continuum.
* `GfwProxy.serverPoolRun_rebuilt` — the whole rebuild, as a `GfwProxy.Rebuilt`.
-/

namespace GfwProxy

/-! ## The first pass -/

/-- The first pass takes the retry time of a server away once it has passed. -/
def resetRetry (now : ℤ) (s : Server) : Server :=
  if s.nextRetry ≤ now then { s with nextRetry := 0 } else s

/-- Resetting the retry time does not change the weight. -/
@[simp] lemma resetRetry_weight (now : ℤ) (s : Server) :
    (resetRetry now s).weight = s.weight := by
  unfold resetRetry; split_ifs <;> rfl

/-- Whether a server is dispatched on after a rebuild at time `now`. -/
def Server.liveAt (now : ℤ) (s : Server) : Bool := decide (s.nextRetry ≤ now)

/-- The retry time of a live server is reset. -/
lemma resetRetry_of_live {now : ℤ} {s : Server} (h : s.liveAt now = true) :
    resetRetry now s = { s with nextRetry := 0 } := by
  simp only [Server.liveAt, decide_eq_true_eq] at h
  simp [resetRetry, h]

/-- The retry time of a dead server is kept. -/
lemma resetRetry_of_dead {now : ℤ} {s : Server} (h : s.liveAt now = false) :
    resetRetry now s = s := by
  simp only [Server.liveAt, decide_eq_false_iff_not] at h
  simp [resetRetry, h]

/-- Resetting a retry time does not change whether the server is live. -/
lemma liveAt_resetRetry {now : ℤ} (hnow : 0 ≤ now) (s : Server) :
    (resetRetry now s).liveAt now = s.liveAt now := by
  cases h : s.liveAt now
  · rw [resetRetry_of_dead h, h]
  · rw [resetRetry_of_live h]; simpa [Server.liveAt] using hnow

/-- One round of the first pass, with `auto_eject_hosts` on. -/
lemma scanServer_true {now : ℤ} (hnow : 0 ≤ now) (sc : Scan) (s : Server) :
    scanServer true now sc s =
      (if s.liveAt now then
        { sc with
          nliveServer := sc.nliveServer + 1, totalWeight := u32 (sc.totalWeight + s.weight) }
      else if sc.nextRebuild = 0 ∨ s.nextRetry < sc.nextRebuild then
        { sc with nextRebuild := s.nextRetry }
      else sc, resetRetry now s) := by
  unfold scanServer
  cases h : s.liveAt now
  · rw [resetRetry_of_dead h]
    simp only [Server.liveAt, decide_eq_false_iff_not] at h
    by_cases hr : sc.nextRebuild = 0 ∨ s.nextRetry < sc.nextRebuild <;> simp [h, hr]
  · rw [resetRetry_of_live h]
    simp only [Server.liveAt, decide_eq_true_eq] at h
    simp [h, hnow]

/-- The first pass resets every server. -/
lemma scanServers_snd {now : ℤ} (hnow : 0 ≤ now) (ss : List Server) :
    ∀ sc : Scan, (scanServers true now sc ss).2 = ss.map (resetRetry now) := by
  induction ss with
  | nil => intro sc; rfl
  | cons s ss ih =>
    intro sc
    simp only [scanServers, List.map_cons, ih, scanServer_true hnow]

/-- The first pass counts the live servers. -/
lemma scanServers_nliveServer {now : ℤ} (hnow : 0 ≤ now) (ss : List Server) :
    ∀ sc : Scan, (scanServers true now sc ss).1.nliveServer =
      sc.nliveServer + ss.countP (Server.liveAt now) := by
  induction ss with
  | nil => intro sc; simp [scanServers]
  | cons s ss ih =>
    intro sc
    simp only [scanServers, ih, scanServer_true hnow, List.countP_cons]
    cases s.liveAt now
    · simp only [Bool.false_eq_true, if_false, add_zero]
      split_ifs <;> rfl
    · simp only [if_true]; omega

/-- The total weight of the servers live at `now`. -/
def liveWeight (now : ℤ) (ss : List Server) : ℕ :=
  ((ss.filter (Server.liveAt now)).map Server.weight).sum

/-- The first pass adds up the weights of the live servers, as long as they fit. -/
lemma scanServers_totalWeight {now : ℤ} (hnow : 0 ≤ now) (ss : List Server) :
    ∀ sc : Scan, sc.totalWeight + liveWeight now ss < 2 ^ 32 →
      (scanServers true now sc ss).1.totalWeight = sc.totalWeight + liveWeight now ss := by
  induction ss with
  | nil => intro sc _; simp [scanServers, liveWeight]
  | cons s ss ih =>
    intro sc hlt
    simp only [scanServers, scanServer_true hnow]
    cases h : s.liveAt now
    · have hw : liveWeight now (s :: ss) = liveWeight now ss := by simp [liveWeight, h]
      rw [hw] at hlt ⊢
      split_ifs <;> simp_all
    · have hw : liveWeight now (s :: ss) = s.weight + liveWeight now ss := by
        simp [liveWeight, h]
      rw [hw] at hlt ⊢
      have hu : u32 (sc.totalWeight + s.weight) = sc.totalWeight + s.weight :=
        Nat.mod_eq_of_lt (by omega)
      simp only [if_true, hu]
      rw [ih _ (by simp only; omega)]
      simp only; omega

/-- The live weight is at most the weight of all servers. -/
lemma liveWeight_le (now : ℤ) (ss : List Server) :
    liveWeight now ss ≤ (ss.map Server.weight).sum := by
  induction ss with
  | nil => simp [liveWeight]
  | cons s ss ih =>
    unfold liveWeight at ih ⊢
    cases h : s.liveAt now <;> simp [h] <;> omega

/-- The next rebuild is the one that was known, or the retry time of an ejected server. -/
lemma scanServers_nextRebuild_eq {now : ℤ} (hnow : 0 ≤ now) (ss : List Server) :
    ∀ sc : Scan, (scanServers true now sc ss).1.nextRebuild = sc.nextRebuild ∨
      ∃ s ∈ ss, s.liveAt now = false ∧
        (scanServers true now sc ss).1.nextRebuild = s.nextRetry := by
  induction ss with
  | nil => intro sc; exact .inl rfl
  | cons s ss ih =>
    intro sc
    simp only [scanServers, scanServer_true hnow]
    cases h : s.liveAt now
    · rcases ih (if sc.nextRebuild = 0 ∨ s.nextRetry < sc.nextRebuild then
        { sc with nextRebuild := s.nextRetry } else sc) with hr | ⟨s', hs', hl, hr⟩
      · by_cases hc : sc.nextRebuild = 0 ∨ s.nextRetry < sc.nextRebuild
        · simp only [hc, if_true] at hr
          exact .inr ⟨s, by simp, h, by simpa [hc] using hr⟩
        · simp only [hc, if_false] at hr
          exact .inl (by simpa [hc] using hr)
      · exact .inr ⟨s', by simp [hs'], hl, by simpa using hr⟩
    · simp only [if_true]
      rcases ih { sc with
          nliveServer := sc.nliveServer + 1, totalWeight := u32 (sc.totalWeight + s.weight) }
        with hr | ⟨s', hs', hl, hr⟩
      · exact .inl hr
      · exact .inr ⟨s', by simp [hs'], hl, hr⟩

/-- The next rebuild never moves past one that is known. -/
lemma scanServers_nextRebuild_le {now : ℤ} (hnow : 0 ≤ now) (ss : List Server) :
    ∀ sc : Scan, 0 < sc.nextRebuild →
      0 < (scanServers true now sc ss).1.nextRebuild ∧
        (scanServers true now sc ss).1.nextRebuild ≤ sc.nextRebuild := by
  induction ss with
  | nil => intro sc h; exact ⟨h, le_rfl⟩
  | cons s ss ih =>
    intro sc hpos
    simp only [scanServers, scanServer_true hnow]
    cases h : s.liveAt now
    · simp only [Server.liveAt, decide_eq_false_iff_not] at h
      by_cases hc : sc.nextRebuild = 0 ∨ s.nextRetry < sc.nextRebuild
      · have hs := ih { sc with nextRebuild := s.nextRetry } (by simp only; omega)
        simp only [hc, if_true, Bool.false_eq_true, if_false] at hs ⊢
        omega
      · have hs := ih sc hpos
        simpa [hc] using hs
    · simp only [if_true]
      exact ih _ hpos

/-- Every ejected server is at or after the next rebuild. -/
lemma scanServers_nextRebuild_le_dead {now : ℤ} (hnow : 0 ≤ now) (ss : List Server) :
    ∀ sc : Scan, 0 ≤ sc.nextRebuild → ∀ s ∈ ss, s.liveAt now = false →
      0 < (scanServers true now sc ss).1.nextRebuild ∧
        (scanServers true now sc ss).1.nextRebuild ≤ s.nextRetry := by
  induction ss with
  | nil => simp
  | cons s₀ ss ih =>
    intro sc hsc s hs hd
    simp only [scanServers, scanServer_true hnow]
    rcases List.mem_cons.mp hs with rfl | hs
    · have hlt : now < s.nextRetry := by simpa [Server.liveAt] using hd
      by_cases hc : sc.nextRebuild = 0 ∨ s.nextRetry < sc.nextRebuild
      · have := scanServers_nextRebuild_le hnow ss { sc with nextRebuild := s.nextRetry }
          (by simp only; omega)
        simpa [hd, hc] using this
      · have := scanServers_nextRebuild_le hnow ss sc (by omega)
        simp only [hd, hc, if_false, Bool.false_eq_true]
        omega
    · cases h : s₀.liveAt now
      · have hlt : now < s₀.nextRetry := by simpa [Server.liveAt] using h
        by_cases hc : sc.nextRebuild = 0 ∨ s₀.nextRetry < sc.nextRebuild
        · have := ih { sc with nextRebuild := s₀.nextRetry } (by simp only; omega) s hs hd
          simpa [hc] using this
        · have := ih sc hsc s hs hd
          simpa [hc] using this
      · simp only [if_true]
        exact ih { sc with
          nliveServer := sc.nliveServer + 1
          totalWeight := u32 (sc.totalWeight + s₀.weight) } hsc s hs hd

/-! ## The second pass -/

/-- A run of writes that stays inside a continuum of fewer than `2 ^ 32` slots tiles it without
gaps, and one that does not stay inside fails. -/
lemma writeSlots_eq_some {pts : List Continuum} :
    ∀ {arr arr' : List Continuum} {i : ℕ}, i ≤ arr.length → arr.length < 2 ^ 32 →
      writeSlots arr i pts = some arr' →
        i + pts.length ≤ arr.length ∧ arr' = arr.take i ++ pts ++ arr.drop (i + pts.length) := by
  induction pts with
  | nil =>
    intro arr arr' i hi _ h
    simp only [writeSlots, Option.some.injEq] at h
    subst h
    simpa using hi
  | cons p pts ih =>
    intro arr arr' i hi hlen h
    simp only [writeSlots] at h
    split_ifs at h with hlt
    have hu : u32 (i + 1) = i + 1 := Nat.mod_eq_of_lt (by omega)
    rw [hu] at h
    obtain ⟨hle, rfl⟩ := ih (by rw [List.length_set]; omega) (by simpa using hlen) h
    simp only [List.length_set] at hle
    refine ⟨by simp only [List.length_cons]; omega, ?_⟩
    have htake : (arr.set i p).take (i + 1) = arr.take i ++ [p] := by
      rw [List.take_succ_eq_append_getElem (by simpa using hlt), List.getElem_set_self,
        List.take_set_of_le (le_refl i)]
    have hdrop : (arr.set i p).drop (i + 1 + pts.length) = arr.drop (i + 1 + pts.length) :=
      List.drop_set_of_lt (by omega)
    rw [htake, hdrop]
    simp only [List.append_assoc, List.cons_append, List.nil_append, List.length_cons]
    congr 4
    omega

/-- The points of the live servers, and nothing else. -/
lemma mem_livePoints {now : ℤ} {points : ℕ → Server → List Continuum} {ss : List Server}
    {c : Continuum} : ∀ {i : ℕ}, c ∈ livePoints true now points i ss ↔
      ∃ k s, ss[k]? = some s ∧ s.liveAt now = true ∧ c ∈ points (i + k) s := by
  induction ss with
  | nil => intro i; simp [livePoints]
  | cons s ss ih =>
    intro i
    have hlive : s.liveAt now = !decide (s.nextRetry > now) := by
      simp [Server.liveAt, decide_not.symm]
    simp only [livePoints, List.mem_append, ih, Bool.true_and]
    constructor
    · rintro (h | ⟨k, s', hk, hl, hc⟩)
      · refine ⟨0, s, rfl, ?_, ?_⟩ <;> split_ifs at h with hd <;> simp_all
      · exact ⟨k + 1, s', by simpa using hk, hl, by rwa [show i + (k + 1) = i + 1 + k by omega]⟩
    · rintro ⟨k, s', hk, hl, hc⟩
      cases k with
      | zero =>
        obtain rfl : s = s' := by simpa using hk
        left
        rw [hlive] at hl
        simp_all
      | succ k =>
        exact .inr ⟨k, s', by simpa using hk, hl,
          by rwa [show i + 1 + k = i + (k + 1) by omega]⟩

/-- What the correctness of a distribution rests on: the points of a server name that server,
and ordering the points only permutes them. -/
structure Distribution.Lawful (d : Distribution) : Prop where
  index : ∀ sc i s, ∀ c ∈ d.points sc i s, c.index = i
  order : ∀ l, (d.order l).Perm l

/-- The second pass, when it succeeds: the points fill the first slots of a continuum of fewer than
`2 ^ 32` slots, so their number does not wrap. -/
lemma fillContinuum_ok {d : Distribution} (hd : d.Lawful) {now : ℤ} {alloc : Bool} {sc : Scan}
    {pool pool' : ServerPool} (hcap : pool.continuum.length < 2 ^ 32)
    (h : fillContinuum d now alloc sc pool = .ok (.ok, pool')) :
    ∃ nserverContinuum continuum,
      pool' = { pool with
        nserverContinuum := nserverContinuum
        ncontinuum := (livePoints pool.autoEjectHosts now (d.points sc) 0 pool.server).length
        continuum := d.order (livePoints pool.autoEjectHosts now (d.points sc) 0 pool.server) ++
          continuum } ∧
      pool'.continuum.length < 2 ^ 32 := by
  unfold fillContinuum at h
  by_cases hfail : (d.need sc > pool.nserverContinuum && !alloc) = true
  · rw [if_pos hfail] at h
    cases h
  rw [if_neg hfail] at h
  set pool₁ : ServerPool := if d.need sc > pool.nserverContinuum then
    { pool with
      continuum := growContinuum (u32 (u32 (d.need sc + d.addition) * d.pointsPerServer))
        pool.continuum
      nserverContinuum := u32 (d.need sc + d.addition) } else pool with hpool₁
  have hcap₁ : pool₁.continuum.length < 2 ^ 32 := by
    rw [hpool₁]
    split_ifs
    · rw [length_growContinuum]; exact Nat.mod_lt _ (by norm_num)
    · exact hcap
  have hsame : pool₁ = { pool with
      nserverContinuum := pool₁.nserverContinuum, continuum := pool₁.continuum } := by
    rw [hpool₁]; split_ifs <;> rfl
  have hauto : pool₁.autoEjectHosts = pool.autoEjectHosts := by rw [hsame]
  have hserver : pool₁.server = pool.server := by rw [hsame]
  simp only [hauto, hserver] at h
  set pts := livePoints pool.autoEjectHosts now (d.points sc) 0 pool.server
  split at h
  · exact absurd h (by simp)
  · rename_i arr harr
    obtain ⟨hle, rfl⟩ := writeSlots_eq_some (Nat.zero_le _) hcap₁ harr
    have hu : u32 pts.length = pts.length := Nat.mod_eq_of_lt (by omega)
    have hlen : (d.order pts).length = pts.length := (hd.order pts).length_eq
    simp only [hu, Except.ok.injEq, Prod.mk.injEq, true_and] at h
    subst h
    refine ⟨pool₁.nserverContinuum, pool₁.continuum.drop pts.length, ?_, ?_⟩
    · rw [hsame]
      simp
    · simp only [List.take_zero, List.nil_append, zero_add, List.take_left, List.drop_left,
        List.length_append, hlen, List.length_drop]
      omega

/-- The second pass fails to allocate and leaves the pool as it is, or succeeds. -/
lemma fillContinuum_cases {d : Distribution} {now : ℤ} {alloc : Bool} {sc : Scan}
    {pool pool' : ServerPool} {st : Rstatus}
    (h : fillContinuum d now alloc sc pool = .ok (st, pool')) :
    st = .enomem ∧ pool' = pool ∧ alloc = false ∨ st = .ok := by
  unfold fillContinuum at h
  by_cases hfail : (d.need sc > pool.nserverContinuum && !alloc) = true
  · rw [if_pos hfail] at h
    obtain ⟨rfl, rfl⟩ := Prod.mk.inj (Except.ok.inj h)
    exact .inl ⟨rfl, rfl, by simp_all⟩
  · rw [if_neg hfail] at h
    simp only at h
    split at h
    · cases h
    · exact .inr (Prod.mk.inj (Except.ok.inj h)).1.symm

/-- What a rebuild at time `now` leaves in the pool, `ss` being the servers before it. -/
structure Rebuilt (d : Distribution) (now : ℤ) (ss : List Server) (pool : ServerPool) :
    Prop where
  autoEjectHosts : pool.autoEjectHosts = true
  cap : pool.continuum.length < 2 ^ 32
  server : pool.server = ss.map (resetRetry now)
  nliveServer : pool.nliveServer = ss.countP (Server.liveAt now)
  nextRebuild : pool.nextRebuild = (scanServers true now {} ss).1.nextRebuild
  /-- with a live server, the slots that are dispatched on are the points of the live servers -/
  slots : pool.nliveServer ≠ 0 → ∃ sc : Scan, sc.nliveServer = ss.countP (Server.liveAt now) ∧
    (liveWeight now ss < 2 ^ 32 → sc.totalWeight = liveWeight now ss) ∧
    (pool.continuum.take pool.ncontinuum).Perm
      (livePoints true now (d.points sc) 0 (ss.map (resetRetry now)))

/-- **The rebuild.**  With `auto_eject_hosts` on, a successful clock reading and no allocation
failure, a rebuild that stays inside the continuum succeeds; it resets the servers, bounds the
next rebuild by the ejected ones, and either finds no live server and keeps the continuum, or
leaves exactly the points of the live servers in the slots that are dispatched on.

**Proof sketch.** The first pass is `scanServers`, the second `fillContinuum_ok`. -/
theorem updateContinuum_rebuilt {d : Distribution} (hd : d.Lawful) {now : ℤ} (hnow : 0 ≤ now)
    {pool pool' : ServerPool} {st : Rstatus} (hauto : pool.autoEjectHosts = true)
    (hcap : pool.continuum.length < 2 ^ 32)
    (h : updateContinuum d now true pool = .ok (st, pool')) :
    st = .ok ∧ pool'.distType = pool.distType ∧ Rebuilt d now pool.server pool' := by
  have hserver := scanServers_snd hnow pool.server {}
  have hnlive := scanServers_nliveServer hnow pool.server {}
  have hweight := scanServers_totalWeight hnow pool.server {}
  have hrebuild : (scanServers true now {} pool.server).1.nextRebuild =
    (scanServers true now {} pool.server).1.nextRebuild := rfl
  simp only [zero_add] at hnlive hweight
  unfold updateContinuum at h
  simp only [hauto, not_lt.mpr hnow, if_false] at h
  rcases hscan : scanServers true now {} pool.server with ⟨sc, ss⟩
  rw [hscan] at h hserver hnlive hweight
  simp only at h hserver hnlive hweight
  subst hserver
  split_ifs at h with hz
  · -- no live server
    simp only [Except.ok.injEq, Prod.mk.injEq] at h
    obtain ⟨rfl, rfl⟩ := h
    exact ⟨rfl, rfl, rfl, hcap, rfl, hnlive, by rw [hscan], fun hne => absurd hz hne⟩
  · obtain rfl : st = .ok := by
      rcases fillContinuum_cases h with ⟨-, -, h'⟩ | rfl
      · cases h'
      · rfl
    obtain ⟨nsc, cont, rfl, hlen⟩ := fillContinuum_ok hd (by exact hcap) h
    refine ⟨rfl, rfl, rfl, hlen, rfl, hnlive, by rw [hscan], fun _ => ⟨sc, hnlive, hweight, ?_⟩⟩
    have htake : ∀ pts : List Continuum, ((d.order pts ++ cont).take pts.length).Perm pts := by
      intro pts
      rw [← (hd.order pts).length_eq, List.take_left]
      exact hd.order pts
    exact htake _

/-! ## Room for the points -/

/-- A run of writes that stays inside the continuum succeeds. -/
lemma writeSlots_isSome {pts : List Continuum} :
    ∀ {arr : List Continuum} {i : ℕ}, i + pts.length ≤ arr.length → arr.length < 2 ^ 32 →
      ∃ arr', writeSlots arr i pts = some arr' := by
  induction pts with
  | nil => intro arr i _ _; exact ⟨arr, rfl⟩
  | cons p pts ih =>
    intro arr i hle hlen
    simp only [List.length_cons] at hle
    have hu : u32 (i + 1) = i + 1 := Nat.mod_eq_of_lt (by omega)
    simp only [writeSlots, if_pos (show i < arr.length by omega), hu]
    exact ih (by rw [List.length_set]; omega) (by rwa [List.length_set])

/-- The continuum has at least the slots it was last sized for, when each server needs one point
for each unit of `need`. -/
def ServerPool.Sized (pool : ServerPool) : Prop :=
  pool.nserverContinuum ≤ pool.continuum.length ∧ pool.continuum.length < 2 ^ 32

/-- A distribution with one slot for each unit of `need`, as modula and random are. -/
structure Distribution.Unit (d : Distribution) : Prop where
  addition : d.addition = 10
  pointsPerServer : d.pointsPerServer = 1
  order : ∀ l, d.order l = l

/-- The second pass of such a distribution stays inside the continuum and leaves it sized. -/
lemma fillContinuum_sized {d : Distribution} (hd : d.Unit) {now : ℤ} {sc : Scan}
    {pool : ServerPool} (hs : pool.Sized) (hlt : d.need sc < 2 ^ 32 - 10)
    (hpts : (livePoints pool.autoEjectHosts now (d.points sc) 0 pool.server).length ≤ d.need sc) :
    ∃ pool', fillContinuum d now true sc pool = .ok (.ok, pool') ∧ pool'.Sized := by
  have hu : u32 (d.need sc + 10) = d.need sc + 10 := Nat.mod_eq_of_lt (by omega)
  obtain ⟨hle, hcap⟩ := hs
  unfold fillContinuum
  simp only [Bool.not_true, Bool.and_false, Bool.false_eq_true, if_false, hd.addition,
    hd.pointsPerServer, hd.order, mul_one, hu]
  generalize hp : livePoints pool.autoEjectHosts now (d.points sc) 0 pool.server = pts at hpts
  by_cases hgrow : d.need sc > pool.nserverContinuum
  · -- the continuum is resized to ten slots more than it needs
    have hlen : (growContinuum (d.need sc + 10) pool.continuum).length = d.need sc + 10 := by simp
    obtain ⟨arr, harr⟩ :
        ∃ arr, writeSlots (growContinuum (d.need sc + 10) pool.continuum) 0 pts = some arr :=
      writeSlots_isSome (by omega) (by omega)
    have harr' := harr
    obtain ⟨_, rfl⟩ := writeSlots_eq_some (Nat.zero_le _) (by omega) harr'
    simp only [hgrow, if_true, hp, harr]
    refine ⟨_, rfl, ?_, ?_⟩ <;>
      simp only [List.length_append, List.length_take, List.length_drop, hlen] <;> omega
  · obtain ⟨arr, harr⟩ : ∃ arr, writeSlots pool.continuum 0 pts = some arr :=
      writeSlots_isSome (by omega) hcap
    have harr' := harr
    obtain ⟨_, rfl⟩ := writeSlots_eq_some (Nat.zero_le _) hcap harr'
    simp only [hgrow, if_false, hp, harr]
    refine ⟨_, rfl, ?_, ?_⟩ <;>
      simp only [List.length_append, List.length_take, List.length_drop] <;> omega

end GfwProxy
