import GfwProxy.Pool.Capacity

set_option autoImplicit false

/-!
# Recovered servers come back

With modula or random distribution every live server owns slots, so a server whose retry time
has passed is dispatched on again once the continuum has been rebuilt after it.  `server_ok` is
the exception: it takes the retry time of an ejected server away and leaves the continuum as it
is.  An ejected server can fail once more and then answer on another of its connections, so
`server_ok` can be called in that state, and the server stays out of the continuum.

## Main definitions

* `GfwProxy.ServerPool.Readmitted` — what a pool satisfies as long as `server_ok` is never
  called on an ejected server that has failed again.
* `GfwProxy.Readmits` — what a call of `server_pool_conn` owes to recovered servers.

## Main results

* `GfwProxy.PoolRun.readmitted` — the pools of such runs are readmitted.
* `GfwProxy.PoolRun.readmits` — on such runs a recovered server is dispatched on, and a pool is
  refused only while all servers are ejected.
* `GfwProxy.not_forall_readmits` — one early `server_ok` leaves a recovered server out.
-/

namespace GfwProxy

variable {point : List UInt8 → ℕ → ℕ → ℕ}

/-! ## Distributions with slots for every live server -/

/-- But for ketama, a server has as many points as it weighs. -/
lemma distribution_unit {dist : DistType} (hd : dist ≠ .ketama) :
    (distribution point dist).Unit := by
  cases dist with
  | ketama => exact absurd rfl hd
  | modula => exact ⟨rfl, rfl, fun _ => rfl⟩
  | random => exact ⟨rfl, rfl, fun _ => rfl⟩

/-- Every live server has a point. -/
lemma exists_point {dist : DistType} (hd : dist ≠ .ketama) (sc : Scan) (i : ℕ) {s : Server}
    (hw : 0 < s.weight) : ⟨i, 0⟩ ∈ (distribution point dist).points sc i s := by
  cases dist with
  | ketama => exact absurd rfl hd
  | modula => exact List.mem_replicate.mpr ⟨by omega, rfl⟩
  | random => exact List.mem_singleton.mpr rfl

variable (point) in
/-- A rebuild of a sized pool never leaves the continuum, and keeps it sized.

**Proof sketch.** The points of the live servers are as many as `need` asks for: the live weight
for modula, the live servers for random. -/
lemma serverPoolRun_sized {pool : ServerPool} {now : ℤ} (hnow : 0 ≤ now)
    (hc : pool.Configured) (hd : pool.distType ≠ .ketama) (hs : pool.Sized) :
    ∃ pool', serverPoolRun point now true pool = .ok (.ok, pool') ∧ pool'.Sized := by
  rw [serverPoolRun_eq]
  have hserver := scanServers_snd hnow pool.server {}
  have hnlive := scanServers_nliveServer hnow pool.server {}
  have hweight := scanServers_totalWeight hnow pool.server {}
  have hsum := hc.totalWeight_lt
  have hle := liveWeight_le now pool.server
  have hcount : pool.server.countP (Server.liveAt now) ≤ liveWeight now pool.server := by
    rw [List.countP_eq_length_filter, liveWeight, ← List.length_map Server.weight]
    refine List.length_le_sum_of_one_le _ fun w hw => ?_
    obtain ⟨s, hs, rfl⟩ := List.mem_map.mp hw
    exact hc.weight_pos s (List.mem_filter.mp hs).1
  simp only [zero_add] at hnlive hweight
  unfold updateContinuum
  simp only [hc.autoEjectHosts, not_lt.mpr hnow, if_false]
  rcases hscan : scanServers true now {} pool.server with ⟨sc, ss⟩
  rw [hscan] at hserver hnlive hweight
  simp only at hserver hnlive hweight ⊢
  subst hserver
  have hweight := hweight (by omega)
  split_ifs with hz
  · exact ⟨_, rfl, hs⟩
  · have hneed : (distribution point pool.distType).need sc < 2 ^ 32 - 10 := by
      cases hdist : pool.distType with
      | ketama => exact absurd hdist hd
      | modula => simp only [distribution]; omega
      | random => simp only [distribution]; omega
    have hcounted : ∀ {points : ℕ → Server → List Continuum} {len : ℕ → ℕ},
        (∀ i s, (points i s).length = len s.weight) → ∀ i : ℕ,
        (livePoints true now points i (pool.server.map (resetRetry now))).length =
          ((pool.server.filter (Server.liveAt now)).map fun s => len s.weight).sum := by
      intro points len hlen i
      rw [length_livePoints hlen, ← resetIn_true, filter_resetIn hnow, liveIn_true]
    refine fillContinuum_sized (distribution_unit hd) hs hneed ?_
    cases hdist : pool.distType with
    | ketama => exact absurd hdist hd
    | modula =>
      have hlen : ∀ i s, ((distribution point .modula).points sc i s).length = id s.weight := by
        intro i s
        simp [distribution]
      rw [hcounted hlen]
      simp only [distribution, hweight, liveWeight, id_eq, le_refl]
    | random =>
      have hlen : ∀ i s, ((distribution point .random).points sc i s).length =
          (fun _ => 1) s.weight := by
        intro i s
        simp [distribution]
      rw [@hcounted _ (fun _ => 1) hlen]
      simp only [distribution, hnlive, List.countP_eq_length_filter, List.map_const',
        List.sum_replicate, smul_eq_mul, mul_one, le_refl]

/-! ## The invariant -/

/-- Server `i` owns a slot that is dispatched on. -/
def ServerPool.Dispatched (pool : ServerPool) (i : ℕ) : Prop :=
  ∃ c ∈ pool.continuum.take pool.ncontinuum, c.index = i

instance (pool : ServerPool) (i : ℕ) : Decidable (pool.Dispatched i) :=
  inferInstanceAs (Decidable (∃ c ∈ pool.continuum.take pool.ncontinuum, c.index = i))

/-- What a pool satisfies as long as `server_ok` is never called on an ejected server that has
failed again: every server without a retry time is dispatched on, and the others are waited
for. -/
structure ServerPool.Readmitted (pool : ServerPool) : Prop extends pool.Configured where
  dist : pool.distType ≠ .ketama
  sized : pool.Sized
  /-- a server without a retry time is live -/
  nliveServer : ∀ s ∈ pool.server, s.nextRetry = 0 → pool.nliveServer ≠ 0
  /-- a live server owns a slot -/
  slot : ∀ i s, pool.server[i]? = some s → s.nextRetry = 0 → pool.Dispatched i
  /-- the pool is rebuilt before the first ejected server recovers -/
  wait : ∀ s ∈ pool.server, s.nextRetry ≠ 0 →
    0 < pool.nextRebuild ∧ pool.nextRebuild ≤ s.nextRetry

/-- A rebuild readmits every server whose retry time has passed. -/
lemma Rebuilt.readmitted {dist : DistType} (hd : dist ≠ .ketama) {now : ℤ} (hnow : 0 ≤ now)
    {ss : List Server} {pool : ServerPool} (h : Rebuilt (distribution point dist) now ss pool)
    (hc : pool.Configured) (hdist : pool.distType = dist) (hs : pool.Sized) :
    pool.Readmitted where
  toConfigured := hc
  dist := hdist ▸ hd
  sized := hs
  nliveServer := by
    intro s hs hz
    rw [h.server] at hs
    obtain ⟨s₀, hs₀, rfl⟩ := List.mem_map.mp hs
    rw [h.nliveServer]
    refine (List.countP_pos_iff.mpr ⟨s₀, hs₀, ?_⟩).ne'
    rw [← liveAt_resetRetry hnow, Server.liveAt, hz]
    exact decide_eq_true hnow
  slot := by
    intro i s hi hz
    have hl : s.liveAt now = true := by simpa [Server.liveAt, hz] using hnow
    have hi' := hi
    rw [h.server, List.getElem?_map, Option.map_eq_some_iff] at hi'
    obtain ⟨s₀, hs₀, rfl⟩ := hi'
    have hn : pool.nliveServer ≠ 0 := by
      rw [h.nliveServer]
      refine (List.countP_pos_iff.mpr ⟨s₀, List.mem_of_getElem? hs₀, ?_⟩).ne'
      rwa [← liveAt_resetRetry hnow]
    obtain ⟨sc, _, _, hperm⟩ := h.slots hn
    have hw := hc.weight_pos _ (List.mem_of_getElem? hi)
    refine ⟨⟨i, 0⟩, hperm.mem_iff.mpr (mem_livePoints.mpr ⟨i, _, ?_, hl, ?_⟩), rfl⟩
    · rw [← h.server]; exact hi
    · rw [zero_add]; exact exists_point hd sc i hw
  wait := by
    intro s hs hz
    rw [h.server] at hs
    obtain ⟨s₀, hs₀, rfl⟩ := List.mem_map.mp hs
    cases hl : s₀.liveAt now
    · rw [resetRetry_of_dead hl, h.nextRebuild]
      exact scanServers_nextRebuild_le_dead hnow ss {} le_rfl s₀ hs₀ hl
    · rw [resetRetry_of_live hl] at hz
      exact absurd rfl hz

variable (point) in
/-- A rebuild succeeds and readmits. -/
lemma serverPoolRun_readmitted {pool : ServerPool} {now : ℤ} (hnow : 0 ≤ now)
    (hc : pool.Configured) (hd : pool.distType ≠ .ketama) (hs : pool.Sized) :
    ∃ pool', serverPoolRun point now true pool = .ok (.ok, pool') ∧ pool'.Readmitted ∧
      pool'.server = pool.server.map (resetRetry now) := by
  obtain ⟨pool', hrun, hs'⟩ := serverPoolRun_sized point hnow hc hd hs
  obtain ⟨_, hdist, hg, hreb⟩ := serverPoolRun_gated hnow hc hrun
  exact ⟨pool', hrun, hreb.readmitted hd hnow hg.toConfigured hdist hs', hreb.server⟩

/-- Changing the counters of one server keeps the invariant, as long as its retry time stays. -/
lemma ServerPool.Readmitted.setServer {pool : ServerPool} (h : pool.Readmitted) (i : ℕ)
    {f : Server → Server} (hw : ∀ s, (f s).weight = s.weight)
    (hr : ∀ s, pool.server[i]? = some s → (f s).nextRetry = s.nextRetry) :
    (pool.setServer i f).Readmitted := by
  have hget : ∀ {k : ℕ} {s : Server}, (pool.setServer i f).server[k]? = some s →
      ∃ s', pool.server[k]? = some s' ∧ s.nextRetry = s'.nextRetry := by
    intro k s hs
    rw [getElem?_setServer] at hs
    obtain ⟨s', hs', rfl⟩ := Option.map_eq_some_iff.mp hs
    refine ⟨s', hs', ?_⟩
    split_ifs with hik
    · exact hr s' (hik ▸ hs')
    · rfl
  have hmem : ∀ {s : Server}, s ∈ (pool.setServer i f).server →
      ∃ s' ∈ pool.server, s.nextRetry = s'.nextRetry := by
    intro s hs
    obtain ⟨k, hk⟩ := List.mem_iff_getElem?.mp hs
    obtain ⟨s', hs', hz⟩ := hget hk
    exact ⟨s', List.mem_of_getElem? hs', hz⟩
  refine ⟨h.toConfigured.setServer i hw, h.dist, h.sized, ?_, ?_, ?_⟩
  · intro s hs hz
    obtain ⟨s', hs', heq⟩ := hmem hs
    exact h.nliveServer s' hs' (heq ▸ hz)
  · intro k s hk hz
    obtain ⟨s', hs', heq⟩ := hget hk
    exact h.slot k s' hs' (heq ▸ hz)
  · intro s hs hz
    obtain ⟨s', hs', heq⟩ := hmem hs
    have hz' : s'.nextRetry ≠ 0 := heq ▸ hz
    rw [heq]
    exact h.wait s' hs' hz'

/-! ## The operations and their runs -/

/-- `server_ok` is not called on an ejected server that has failed again. -/
def OkLive (pool : ServerPool) (i : ℕ) : Prop :=
  ∀ s, pool.server[i]? = some s → s.failureCount ≠ 0 → s.nextRetry = 0

variable (point) in
/-- `server_failure` on a server of the pool succeeds and keeps the invariant. -/
lemma serverFailure_readmitted {pool : ServerPool} (now₁ : ℤ) {now₂ : ℤ} {i : ℕ}
    (hr : pool.Readmitted) (hi : i < pool.server.length) (h₂ : 0 ≤ now₂) :
    ∃ e pool', serverFailure point now₁ now₂ true i pool = .ok (e, pool') ∧
      pool'.Readmitted := by
  obtain ⟨s, hs⟩ : ∃ s, pool.server[i]? = some s := ⟨_, List.getElem?_eq_getElem hi⟩
  unfold serverFailure
  simp only [hs, hr.autoEjectHosts, Bool.not_true, Bool.false_eq_true, if_false]
  set pool₁ := pool.setServer i fun s' => { s' with failureCount := u32 (s.failureCount + 1) }
  have hr₁ : pool₁.Readmitted := hr.setServer i (fun _ => rfl) (fun _ _ => rfl)
  split_ifs
  · exact ⟨_, _, rfl, hr₁⟩
  · exact ⟨_, _, rfl, hr₁⟩
  · -- the server is ejected and the continuum rebuilt
    set pool₂ := pool₁.setServer i fun s' =>
      { s' with failureCount := 0, nextRetry := now₁ + pool₁.serverRetryTimeout }
    have hc₂ : pool₂.Configured := hr₁.toConfigured.setServer i fun _ => rfl
    obtain ⟨pool', hrun, hr', _⟩ :=
      serverPoolRun_readmitted point h₂ hc₂ hr₁.dist hr₁.sized
    exact ⟨some now₁, pool', by rw [hrun]; rfl, hr'⟩

/-- `server_ok` keeps the invariant, unless it takes a retry time away. -/
lemma serverOk_readmitted {pool pool' : ServerPool} {i : ℕ} (hr : pool.Readmitted)
    (hok : OkLive pool i) (h : serverOk i pool = .ok pool') : pool'.Readmitted := by
  unfold serverOk at h
  split at h
  · exact absurd h (by simp)
  · rename_i s hs
    split_ifs at h with hf
    · simp only [Except.ok.injEq] at h
      subst h
      refine hr.setServer i (fun _ => rfl) fun s' hs' => ?_
      obtain rfl : s = s' := by rwa [hs, Option.some.injEq] at hs'
      exact (hok s hs hf).symm
    · simp only [Except.ok.injEq] at h
      exact h ▸ hr

/-- What a call of `server_pool_conn` at time `now` owes to recovered servers, given the pool
before and after `server_pool_update`: each of them is dispatched on, and the call is refused
only while all servers are ejected. -/
structure Readmits (now : ℤ) (pool : ServerPool) (g : Gate) (pool' : ServerPool) : Prop where
  dispatched : ∀ i s, pool.server[i]? = some s ∨ pool'.server[i]? = some s → s.nextRetry < now →
    pool'.Dispatched i
  refused : g = .refused → ∀ s ∈ pool.server, now ≤ s.nextRetry
  not_failed : g ≠ .failed

variable (point) in
/-- `server_pool_update` succeeds on a readmitted pool, keeps the invariant and readmits.

**Proof sketch.** A server with a retry time has it at or after `next_rebuild`, so until then the
recovered servers are those without one; after `next_rebuild` the pool is rebuilt. -/
lemma serverPoolUpdate_readmitted {pool : ServerPool} {now₁ now₂ : ℤ} (hr : pool.Readmitted)
    (h₁ : 0 ≤ now₁) (h₁₂ : now₁ ≤ now₂) :
    ∃ g pool', serverPoolUpdate point now₁ now₂ true pool = .ok (g, pool') ∧
      pool'.Readmitted ∧ Readmits now₁ pool g pool' := by
  have hzero : pool.nextRebuild = 0 ∨ now₁ ≤ pool.nextRebuild →
      ∀ s ∈ pool.server, s.nextRetry < now₁ → s.nextRetry = 0 := by
    intro hle s hs hlt
    by_contra hz
    have := hr.wait s hs hz
    omega
  have hkept : pool.nextRebuild = 0 ∨ now₁ ≤ pool.nextRebuild → ∀ i s,
      pool.server[i]? = some s ∨ pool.server[i]? = some s → s.nextRetry < now₁ →
      pool.Dispatched i := by
    intro hle i s hi hlt
    rw [or_self] at hi
    exact hr.slot i s hi (hzero hle s (List.mem_of_getElem? hi) hlt)
  unfold serverPoolUpdate
  simp only [hr.autoEjectHosts, Bool.not_true, Bool.false_eq_true, if_false, not_lt.mpr h₁]
  split_ifs with hz hle hn
  · exact ⟨_, _, rfl, hr, hkept (.inl hz), by simp, by simp⟩
  · refine ⟨_, _, rfl, hr, hkept (.inr hle), fun _ s hs => ?_, by simp⟩
    by_contra hlt
    exact hr.nliveServer s hs (hzero (.inr hle) s hs (by omega)) hn
  · exact ⟨_, _, rfl, hr, hkept (.inr hle), by simp, by simp⟩
  · obtain ⟨pool', hrun, hr', hserver⟩ := serverPoolRun_readmitted point
      (h₁.trans h₁₂) hr.toConfigured hr.dist hr.sized
    refine ⟨.ok, pool', by rw [hrun]; rfl, hr', fun i s hi hlt => ?_, by simp, by simp⟩
    obtain ⟨s', hs', hz'⟩ : ∃ s', pool'.server[i]? = some s' ∧ s'.nextRetry = 0 := by
      rcases hi with hi | hi
      · refine ⟨resetRetry now₂ s, by rw [hserver, List.getElem?_map, hi]; rfl, ?_⟩
        rw [resetRetry_of_live (by simpa [Server.liveAt] using by omega)]
      · refine ⟨s, hi, ?_⟩
        rw [hserver, List.getElem?_map, Option.map_eq_some_iff] at hi
        obtain ⟨s₀, _, rfl⟩ := hi
        cases hl : s₀.liveAt now₂
        · rw [resetRetry_of_dead hl] at hlt
          simp only [Server.liveAt, decide_eq_false_iff_not] at hl
          omega
        · rw [resetRetry_of_live hl]
    exact hr'.slot i s' hs' hz'

/-- Every pool that is reached without an early `server_ok` is readmitted. -/
theorem PoolRun.readmitted {pool₀ pool : ServerPool} {t : ℤ} (h₀ : pool₀.Fresh)
    (hd : pool₀.distType ≠ .ketama) (hr : PoolRun point OkLive pool₀ pool t) :
    0 ≤ t ∧ pool.Readmitted := by
  induction hr with
  | init ht h =>
    obtain ⟨pool', hrun, hr', _⟩ := serverPoolRun_readmitted point ht h₀.configured hd
      ⟨by simp [h₀.nserverContinuum], by simp [h₀.continuum]⟩
    rw [hrun, Except.ok.injEq, Prod.mk.injEq] at h
    exact ⟨ht, h.2 ▸ hr'⟩
  | @failure pool _ _ now₁ now₂ i _ hr h₁ h₂ h ih =>
    have hi : i < pool.server.length := by
      by_contra hi
      simp [serverFailure, List.getElem?_eq_none (not_lt.mp hi)] at h
    obtain ⟨e, pool', hf, hr'⟩ :=
      serverFailure_readmitted point now₁ ih.2 hi (by omega : 0 ≤ now₂)
    rw [hf, Except.ok.injEq, Prod.mk.injEq] at h
    exact ⟨by omega, h.2 ▸ hr'⟩
  | ok hr hi h ih => exact ⟨ih.1, serverOk_readmitted ih.2 hi h⟩
  | @conn pool _ _ now₁ now₂ _ hr h₁ h₂ h ih =>
    obtain ⟨g, pool', hu, hr', _⟩ := serverPoolUpdate_readmitted point ih.2
      (by omega : 0 ≤ now₁) h₂
    rw [hu, Except.ok.injEq, Prod.mk.injEq] at h
    exact ⟨by omega, h.2 ▸ hr'⟩

/-- **Recovered servers are re-admitted.**  In a run in which `server_ok` is never called on an
ejected server that has failed again, every call of `server_pool_conn` dispatches on the servers
whose retry time has passed, and is refused only while there is none.

**Proof sketch.** `PoolRun.readmitted` gives the invariant in every state of the run, and
`serverPoolUpdate_readmitted` one call from it. -/
theorem PoolRun.readmits {pool₀ pool : ServerPool} {t now₁ now₂ : ℤ} (h₀ : pool₀.Fresh)
    (hd : pool₀.distType ≠ .ketama) (hr : PoolRun point OkLive pool₀ pool t) (h₁ : t ≤ now₁)
    (h₂ : now₁ ≤ now₂) :
    ∃ g pool', serverPoolUpdate point now₁ now₂ true pool = .ok (g, pool') ∧
      Readmits now₁ pool g pool' := by
  obtain ⟨ht, hr'⟩ := hr.readmitted h₀ hd
  obtain ⟨g, pool', hu, _, hre⟩ := serverPoolUpdate_readmitted point hr'
    (ht.trans h₁) h₂
  exact ⟨g, pool', hu, hre⟩

/-- After the first server was ejected, the second one is dispatched on. -/
theorem pairPoolEjected_readmits : ∃ g pool',
    serverPoolUpdate (fun _ _ _ => 0) 1 1 true (pairPoolEjected 30000000 0) = .ok (g, pool') ∧
      Readmits 1 (pairPoolEjected 30000000 0) g pool' :=
  PoolRun.readmits pairPool_fresh (by decide) (pairPoolEjected_run _) (by decide) le_rfl

/-- **An early `server_ok` leaves a recovered server out.**  The first server of two is ejected,
fails once more on another connection and then answers, which takes its retry time away; the
next call of `server_pool_conn` still dispatches on the second server only. -/
theorem not_forall_readmits :
    ¬ ∀ (pool₀ pool : ServerPool) (t now₁ now₂ : ℤ), pool₀.Fresh → pool₀.distType ≠ .ketama →
      PoolRun (fun _ _ _ => 0) (fun _ _ => True) pool₀ pool t → t ≤ now₁ → now₁ ≤ now₂ →
      ∀ g pool', serverPoolUpdate (fun _ _ _ => 0) now₁ now₂ true pool = .ok (g, pool') →
        Readmits now₁ pool g pool' := by
  intro h
  have hfail : PoolRun (fun _ _ _ => 0) (fun _ _ => True) pairPool (pairPoolEjected 30000000 1) 0 :=
    .failure (i := 0) (e := none) (pairPoolEjected_run _) le_rfl le_rfl rfl
  have hok : PoolRun (fun _ _ _ => 0) (fun _ _ => True) pairPool (pairPoolEjected 0 0) 0 :=
    .ok (i := 0) hfail trivial rfl
  have hre := h pairPool (pairPoolEjected 0 0) 0 1 1 pairPool_fresh (by decide) hok (by decide)
    le_rfl .ok (pairPoolEjected 0 0) rfl
  have hslot := hre.dispatched 0 ⟨[], 1, 0, 0⟩ (.inl rfl) (by decide)
  exact absurd hslot (by decide)

end GfwProxy
