import Mathlib.Algebra.BigOperators.Ring.List
import Mathlib.Algebra.Group.Action.Defs
import GfwProxy.Pool.Rebuild

set_option autoImplicit false

/-!
# Ejected servers get no traffic

`server_pool_conn` dispatches on a cached continuum.  `server_failure` and `server_pool_update`
rebuild it, `server_ok` does not, and a pool without live servers keeps a stale one; whether
that is safe rests on `nlive_server` and `next_rebuild`, which gate every request.

## Main definitions

* `GfwProxy.ServerPool.Gated` — the invariant of a pool under ejection.

## Main results

* `GfwProxy.PoolRun.gated` — every pool that is reached is gated.
* `GfwProxy.PoolRun.pick_not_ejected` — a server that is picked is not ejected.
-/

namespace GfwProxy

variable {point : List UInt8 → ℕ → ℕ → ℕ}

/-! ## The three distributions -/

/-- The distribution that `server_pool_run` selects. -/
def distribution (point : List UInt8 → ℕ → ℕ → ℕ) : DistType → Distribution
  | .ketama =>
    { need := Scan.nliveServer, addition := 10, pointsPerServer := 160
      points := ketamaPoints point
      order := List.insertionSort fun a b => a.value ≤ b.value }
  | .modula =>
    { need := Scan.totalWeight, addition := 10, pointsPerServer := 1
      points := fun _ i s => List.replicate s.weight ⟨i, 0⟩, order := id }
  | .random =>
    { need := Scan.nliveServer, addition := 10, pointsPerServer := 1
      points := fun _ i _ => [⟨i, 0⟩], order := id }

/-- `server_pool_run` is `updateContinuum` of the distribution. -/
lemma serverPoolRun_eq (now : ℤ) (alloc : Bool) (pool : ServerPool) :
    serverPoolRun point now alloc pool =
      updateContinuum (distribution point pool.distType) now alloc pool := by
  unfold serverPoolRun
  cases pool.distType <;> rfl

/-- Every distribution is lawful. -/
lemma distribution_lawful (dist : DistType) : (distribution point dist).Lawful := by
  cases dist with
  | ketama =>
    refine ⟨fun sc i s c hc => ?_, fun l => List.perm_insertionSort _ l⟩
    simp only [distribution, ketamaPoints, List.mem_flatMap, List.mem_map] at hc
    obtain ⟨k, _, x, _, rfl⟩ := hc
    rfl
  | modula =>
    refine ⟨fun sc i s c hc => ?_, fun l => List.Perm.refl l⟩
    simp only [distribution] at hc
    rw [List.eq_of_mem_replicate hc]
  | random =>
    refine ⟨fun sc i s c hc => ?_, fun l => List.Perm.refl l⟩
    simp only [distribution, List.mem_singleton] at hc
    rw [hc]

/-- Among the live servers one has at least its share of the live weight. -/
lemma exists_liveWeight_le (now : ℤ) (ss : List Server)
    (hne : ss.countP (Server.liveAt now) ≠ 0) :
    ∃ s ∈ ss, s.liveAt now = true ∧
      liveWeight now ss ≤ s.weight * ss.countP (Server.liveAt now) := by
  by_contra hcon
  push Not at hcon
  set n := ss.countP (Server.liveAt now) with hn
  set live := ss.filter (Server.liveAt now) with hlive
  have hlen : live.length = n := by rw [hlive, ← List.countP_eq_length_filter]
  have hlt : ∀ s ∈ live, s.weight * n < liveWeight now ss := by
    intro s hs
    have := List.mem_filter.mp hs
    exact hcon s this.1 this.2
  have hne' : live ≠ [] := by rintro h; rw [h] at hlen; exact hne hlen.symm
  have hsum : (live.map fun s => s.weight * n).sum < (live.map fun _ => liveWeight now ss).sum :=
    List.sum_lt_sum_of_ne_nil hne' _ _ hlt
  rw [List.sum_map_mul_right, List.map_const', List.sum_replicate, hlen, smul_eq_mul,
    mul_comm] at hsum
  exact absurd hsum (lt_irrefl _)

/-- In exact arithmetic a server with at least its share of the weight gets its 160 points. -/
lemma le_ketamaShare {weight total n : ℕ} (htotal : 0 < total) (h : total ≤ weight * n) :
    160 ≤ ketamaShare weight total n := by
  unfold ketamaShare
  have hq : (1 : ℚ) ≤ weight / total * n := by
    rw [div_mul_eq_mul_div, le_div_iff₀ (by exact_mod_cast htotal)]
    rw [one_mul]
    exact_mod_cast h
  have hf : 40 ≤ ⌊(weight / total : ℚ) * 160 / 4 * n + 1 / 10 ^ 10⌋₊ := by
    refine Nat.le_floor ?_
    have : (weight / total : ℚ) * 160 / 4 * n = 40 * (weight / total * n) := by ring
    rw [this]
    push_cast
    have : (0 : ℚ) ≤ 1 / 10 ^ 10 := by positivity
    linarith
  simp only
  omega

/-- Some live server has a point on the continuum. -/
lemma livePoints_ne_nil (dist : DistType) {now : ℤ} (hnow : 0 ≤ now) {sc : Scan}
    {ss : List Server} (hn : sc.nliveServer = ss.countP (Server.liveAt now))
    (ht : sc.totalWeight = liveWeight now ss) (hpos : ∀ s ∈ ss, 0 < s.weight)
    (hne : ss.countP (Server.liveAt now) ≠ 0) :
    livePoints true now ((distribution point dist).points sc) 0 (ss.map (resetRetry now)) ≠ [] := by
  obtain ⟨s, hs, hl, hw⟩ := exists_liveWeight_le now ss hne
  obtain ⟨k, hk⟩ := List.mem_iff_getElem?.mp hs
  suffices h : ∃ c, c ∈ (distribution point dist).points sc (0 + k) (resetRetry now s) by
    obtain ⟨c, hc⟩ := h
    refine List.ne_nil_of_mem (mem_livePoints.mpr ⟨k, resetRetry now s, ?_, ?_, hc⟩)
    · simp [hk]
    · rwa [liveAt_resetRetry hnow]
  have hspos := hpos s hs
  cases dist with
  | ketama =>
    have hshare : 160 ≤ ketamaShare s.weight sc.totalWeight sc.nliveServer := by
      rw [hn, ht]
      refine le_ketamaShare ?_ hw
      have : s.weight ≤ liveWeight now ss :=
        List.single_le_sum (by simp) _ (List.mem_map_of_mem (List.mem_filter.mpr ⟨hs, hl⟩))
      omega
    refine ⟨⟨0 + k, point (resetRetry now s).name 0 0⟩, ?_⟩
    simp only [distribution, ketamaPoints, List.mem_flatMap, List.mem_map, List.mem_range,
      resetRetry_weight]
    exact ⟨0, by omega, 0, by omega, rfl⟩
  | modula =>
    refine ⟨⟨0 + k, 0⟩, ?_⟩
    simp only [distribution, List.mem_replicate, resetRetry_weight]
    exact ⟨by omega, trivial⟩
  | random => exact ⟨⟨0 + k, 0⟩, by simp [distribution]⟩

/-! ## Dispatching -/

/-- The binary search of ketama stays inside its interval. -/
lemma ketamaSearch_le {cs : List Continuum} {hash : ℕ} :
    ∀ {fuel left right r : ℕ}, ketamaSearch cs hash fuel left right = .ok r → r ≤ right := by
  intro fuel
  induction fuel with
  | zero =>
    intro left right r h
    simp only [ketamaSearch] at h
    split_ifs at h
    simp only [Except.ok.injEq] at h
    omega
  | succ fuel ih =>
    intro left right r h
    simp only [ketamaSearch] at h
    split_ifs at h with hlt
    · split at h
      · exact absurd h (by simp)
      · split_ifs at h
        · exact ih h
        · have := ih h
          omega
    · simp only [Except.ok.injEq] at h
      omega

/-- The index is that of the slot found. -/
lemma slotIndex_eq_ok {cs : List Continuum} {i j : ℕ} (h : slotIndex cs i = .ok j) :
    ∃ c, cs[i]? = some c ∧ c.index = j := by
  unfold slotIndex at h
  split at h
  · exact absurd h (by simp)
  · rename_i c hc
    exact ⟨c, hc, by simpa using h⟩

/-- A dispatch on a non-empty continuum reads one of its first `ncontinuum` slots. -/
lemma serverPoolIdx_eq_ok {pool : ServerPool} {key : List UInt8} {rnd i : ℕ}
    (hne : pool.continuum.take pool.ncontinuum ≠ []) (h : serverPoolIdx pool key rnd = .ok i) :
    pool.server.length = 1 ∧ i = 0 ∨
      ∃ c ∈ pool.continuum.take pool.ncontinuum, c.index = i := by
  have hpos : 0 < pool.ncontinuum := by
    rcases Nat.eq_zero_or_pos pool.ncontinuum with h0 | h0
    · simp [h0] at hne
    · exact h0
  -- whatever the distribution, some slot below `ncontinuum` is read
  have hslot : ∀ j, j < pool.ncontinuum → slotIndex pool.continuum j = .ok i →
      ∃ c ∈ pool.continuum.take pool.ncontinuum, c.index = i := by
    intro j hj hs
    obtain ⟨c, hc, hci⟩ := slotIndex_eq_ok hs
    exact ⟨c, List.mem_iff_getElem?.mpr ⟨j, by rwa [List.getElem?_take_of_lt hj]⟩, hci⟩
  unfold serverPoolIdx at h
  split_ifs at h with h1
  · exact .inl ⟨h1, by simpa using h.symm⟩
  · right
    cases hd : pool.distType with
    | ketama =>
      simp only [hd, ketamaDispatch] at h
      cases hs : ketamaSearch pool.continuum
        (serverPoolHash pool (hashTagged pool.hashTag key)) pool.ncontinuum 0 pool.ncontinuum with
      | error e => rw [hs] at h; exact absurd h (by simp [bind, Except.bind])
      | ok r =>
        rw [hs] at h
        have hr := ketamaSearch_le hs
        refine hslot (if r = pool.ncontinuum then 0 else r) ?_ h
        split_ifs <;> omega
    | modula =>
      simp only [hd, modulaDispatch] at h
      split_ifs at h with h0
      exact hslot _ (Nat.mod_lt _ hpos) h
    | random =>
      simp only [hd, randomDispatch] at h
      split_ifs at h with h0
      exact hslot _ (Nat.mod_lt _ hpos) h

/-! ## The gate -/

/-- The settings of a pool that no operation changes. -/
structure ServerPool.Configured (pool : ServerPool) : Prop where
  autoEjectHosts : pool.autoEjectHosts = true
  server_ne_nil : pool.server ≠ []
  weight_pos : ∀ s ∈ pool.server, 0 < s.weight
  totalWeight_lt : (pool.server.map Server.weight).sum < 2 ^ 32 - 10
  cap : pool.continuum.length < 2 ^ 32

/-- The invariant of a pool under ejection: with a live server every slot that is dispatched on
names a server without a retry time; without one the pool stays shut until the first retry
time, which is `next_rebuild`. -/
structure ServerPool.Gated (pool : ServerPool) : Prop extends pool.Configured where
  /-- the pool has slots to dispatch on, all of servers that are not ejected -/
  live : pool.nliveServer ≠ 0 → pool.continuum.take pool.ncontinuum ≠ [] ∧
    ∀ c ∈ pool.continuum.take pool.ncontinuum,
      ∃ s, pool.server[c.index]? = some s ∧ s.nextRetry = 0
  /-- a pool with a single server is dispatched without a continuum -/
  single : pool.nliveServer ≠ 0 → pool.server.length = 1 → ∀ s ∈ pool.server, s.nextRetry = 0
  /-- a shut pool waits for one of its servers -/
  shut : pool.nliveServer = 0 → 0 < pool.nextRebuild ∧
    ∃ s ∈ pool.server, s.nextRetry ≤ pool.nextRebuild

/-- A pool without live servers at time `now` waits for the first of them. -/
lemma nextRebuild_of_all_dead {now : ℤ} (hnow : 0 ≤ now) {ss : List Server} (hne : ss ≠ [])
    (hdead : ss.countP (Server.liveAt now) = 0) :
    0 < (scanServers true now {} ss).1.nextRebuild ∧
      ∃ s ∈ ss, s.nextRetry ≤ (scanServers true now {} ss).1.nextRebuild := by
  obtain ⟨s, hs⟩ := List.exists_mem_of_ne_nil ss hne
  have hall : ∀ s ∈ ss, s.liveAt now = false := by
    simpa using List.countP_eq_zero.mp hdead
  have hpos := scanServers_nextRebuild_le_dead hnow ss {} le_rfl s hs (hall s hs)
  refine ⟨hpos.1, ?_⟩
  rcases scanServers_nextRebuild_eq hnow ss {} with h | ⟨s', hs', _, h⟩
  · rw [h] at hpos
    exact absurd hpos.1 (lt_irrefl _)
  · exact ⟨s', hs', h.ge⟩

/-- A rebuild establishes the invariant.

**Proof sketch.** The slots are a permutation of the points of the live servers, each of which
the first pass left without a retry time.  Without a live server `nextRebuild_of_all_dead`
applies, the servers being unchanged. -/
lemma Rebuilt.gated {dist : DistType} {now : ℤ} (hnow : 0 ≤ now) {ss : List Server}
    {pool : ServerPool} (h : Rebuilt (distribution point dist) now ss pool) (hne : ss ≠ [])
    (hpos : ∀ s ∈ ss, 0 < s.weight) (hsum : (ss.map Server.weight).sum < 2 ^ 32 - 10) :
    pool.Gated where
  autoEjectHosts := h.autoEjectHosts
  cap := h.cap
  server_ne_nil := by simpa [h.server] using hne
  weight_pos := by simpa [h.server] using hpos
  totalWeight_lt := by
    rw [h.server, List.map_map]
    simpa [Function.comp_def] using hsum
  live := by
    intro hn
    obtain ⟨sc, hsc, hw, hperm⟩ := h.slots hn
    have hw := hw (lt_of_le_of_lt (liveWeight_le now ss) (by omega))
    have hcount : ss.countP (Server.liveAt now) ≠ 0 := by rwa [← h.nliveServer]
    refine ⟨?_, fun c hc => ?_⟩
    · intro hnil
      rw [hnil] at hperm
      exact livePoints_ne_nil dist hnow hsc hw hpos hcount hperm.symm.eq_nil
    · obtain ⟨k, s, hk, hl, hcs⟩ := mem_livePoints.mp (hperm.mem_iff.mp hc)
      have hci := (distribution_lawful dist).index _ _ _ _ hcs
      refine ⟨s, by rw [hci, h.server, zero_add]; exact hk, ?_⟩
      rw [List.getElem?_map, Option.map_eq_some_iff] at hk
      obtain ⟨s₀, _, rfl⟩ := hk
      rw [liveAt_resetRetry hnow] at hl
      rw [resetRetry_of_live hl]
  single := by
    intro hn hone s hs
    rw [h.server] at hs hone
    obtain ⟨s₀, hs₀⟩ := List.length_eq_one_iff.mp (by simpa using hone)
    rw [h.nliveServer, hs₀] at hn
    rw [hs₀] at hs
    simp only [List.map_cons, List.map_nil, List.mem_singleton] at hs
    have hl : s₀.liveAt now = true := by
      by_contra hl
      simp [hl] at hn
    rw [hs, resetRetry_of_live hl]
  shut := by
    intro hn
    rw [h.nliveServer] at hn
    have hdead := nextRebuild_of_all_dead hnow hne hn
    have hall : ∀ s ∈ ss, s.liveAt now = false := by simpa using List.countP_eq_zero.mp hn
    rw [h.nextRebuild]
    refine ⟨hdead.1, ?_⟩
    obtain ⟨s, hs, hle⟩ := hdead.2
    refine ⟨resetRetry now s, ?_, by rwa [resetRetry_of_dead (hall s hs)]⟩
    rw [h.server]
    exact List.mem_map_of_mem hs

/-- A gated pool has, at any time, a server that the next rebuild after `next_rebuild` finds
live. -/
lemma ServerPool.Gated.exists_live {pool : ServerPool} (hg : pool.Gated) {now : ℤ}
    (hnow : 0 ≤ now) (hlt : pool.nextRebuild ≤ now) :
    pool.server.countP (Server.liveAt now) ≠ 0 := by
  suffices h : ∃ s ∈ pool.server, s.liveAt now = true by
    obtain ⟨s, hs, hl⟩ := h
    exact (List.countP_pos_iff.mpr ⟨s, hs, hl⟩).ne'
  by_cases hn : pool.nliveServer = 0
  · obtain ⟨_, s, hs, hle⟩ := hg.shut hn
    exact ⟨s, hs, by simpa [Server.liveAt] using hle.trans hlt⟩
  · obtain ⟨hne, hall⟩ := hg.live hn
    obtain ⟨c, hc⟩ := List.exists_mem_of_ne_nil _ hne
    obtain ⟨s, hs, hz⟩ := hall c hc
    exact ⟨s, List.mem_of_getElem? hs, by simpa [Server.liveAt, hz] using hnow⟩

/-- The server list of a pool after one of its servers got new counters. -/
lemma getElem?_setServer {pool : ServerPool} {i k : ℕ} {f : Server → Server} :
    (pool.setServer i f).server[k]? =
      (fun s => if i = k then f s else s) <$> pool.server[k]? := by
  simp [ServerPool.setServer, List.getElem?_modify]

/-- Changing the counters of one server keeps the settings of the pool. -/
lemma ServerPool.Configured.setServer {pool : ServerPool} (h : pool.Configured) (i : ℕ)
    {f : Server → Server} (hf : ∀ s, (f s).weight = s.weight) :
    (pool.setServer i f).Configured := by
  have hmap : (pool.server.modify i f).map Server.weight = pool.server.map Server.weight := by
    refine List.ext_getElem? fun k => ?_
    rw [List.getElem?_map, List.getElem?_map, List.getElem?_modify]
    cases pool.server[k]? with
    | none => rfl
    | some s =>
      by_cases hik : i = k <;> simp [hik, hf]
  refine ⟨h.autoEjectHosts, ?_, ?_, ?_, h.cap⟩
  · intro hnil
    have := congrArg List.length hnil
    simp only [ServerPool.setServer, List.length_modify, List.length_nil,
      List.length_eq_zero_iff] at this
    exact h.server_ne_nil this
  · intro s hs
    have hmem : s.weight ∈ (pool.server.modify i f).map Server.weight := List.mem_map_of_mem hs
    rw [hmap] at hmem
    obtain ⟨s', hs', hw⟩ := List.mem_map.mp hmem
    exact hw ▸ h.weight_pos s' hs'
  · exact hmap ▸ h.totalWeight_lt

/-- Changing the counters of one server keeps the invariant, as long as a retry time is left
as it is or taken away. -/
lemma ServerPool.Gated.setServer {pool : ServerPool} (h : pool.Gated) (i : ℕ)
    {f : Server → Server} (hw : ∀ s, (f s).weight = s.weight)
    (hr : ∀ s, (f s).nextRetry = s.nextRetry ∨ (f s).nextRetry = 0) :
    (pool.setServer i f).Gated := by
  have hmem : ∀ {s}, s ∈ (pool.setServer i f).server →
      ∃ s' ∈ pool.server, s.nextRetry = s'.nextRetry ∨ s.nextRetry = 0 := by
    intro s hs
    obtain ⟨k, hk⟩ := List.mem_iff_getElem?.mp hs
    rw [getElem?_setServer] at hk
    obtain ⟨s', hs', rfl⟩ := Option.map_eq_some_iff.mp hk
    refine ⟨s', List.mem_of_getElem? hs', ?_⟩
    split_ifs
    · exact hr s'
    · exact .inl rfl
  refine ⟨h.toConfigured.setServer i hw, ?_, ?_, ?_⟩
  · intro hn
    refine ⟨(h.live hn).1, fun c hc => ?_⟩
    obtain ⟨s, hs, hz⟩ := (h.live hn).2 c hc
    refine ⟨if i = c.index then f s else s, by rw [getElem?_setServer, hs]; rfl, ?_⟩
    split_ifs
    · rcases hr s with h' | h'
      · rw [h', hz]
      · exact h'
    · exact hz
  · intro hn hone s hs
    obtain ⟨s', hs', h' | h'⟩ := hmem hs
    · rw [h', h.single hn (by simpa [ServerPool.setServer] using hone) s' hs']
    · exact h'
  · intro hn
    obtain ⟨hpos, s, hs, hle⟩ := h.shut hn
    refine ⟨hpos, ?_⟩
    obtain ⟨k, hk⟩ := List.mem_iff_getElem?.mp hs
    refine ⟨if i = k then f s else s, List.mem_iff_getElem?.mpr ⟨k, ?_⟩, ?_⟩
    · rw [getElem?_setServer, hk]; rfl
    · change (if i = k then f s else s).nextRetry ≤ pool.nextRebuild
      split_ifs
      · rcases hr s with h' | h'
        · rw [h']; exact hle
        · rw [h']; exact hpos.le
      · exact hle

/-- A rebuild of a configured pool gates it. -/
lemma serverPoolRun_gated {pool pool' : ServerPool} {now : ℤ} {st : Rstatus} (hnow : 0 ≤ now)
    (hc : pool.Configured) (h : serverPoolRun point now true pool = .ok (st, pool')) :
    st = .ok ∧ pool'.distType = pool.distType ∧ pool'.Gated ∧
      Rebuilt (distribution point pool.distType) now pool.server pool' := by
  rw [serverPoolRun_eq] at h
  obtain ⟨rfl, hdist, hreb⟩ :=
    updateContinuum_rebuilt (distribution_lawful _) hnow hc.autoEjectHosts hc.cap h
  exact ⟨rfl, hdist, hreb.gated hnow hc.server_ne_nil hc.weight_pos hc.totalWeight_lt,
    hreb⟩

/-! ## The operations and their runs -/

/-- `server_failure` keeps the invariant: it either leaves the retry times alone or rebuilds. -/
lemma serverFailure_gated {pool pool' : ServerPool} {now₁ now₂ : ℤ} {i : ℕ} {e : Option ℤ}
    (hg : pool.Gated) (h₂ : 0 ≤ now₂)
    (h : serverFailure point now₁ now₂ true i pool = .ok (e, pool')) : pool'.Gated := by
  unfold serverFailure at h
  split at h
  · exact absurd h (by simp)
  · rename_i s hs
    simp only [hg.autoEjectHosts, Bool.not_true, Bool.false_eq_true, if_false] at h
    set pool₁ := pool.setServer i fun s' => { s' with failureCount := u32 (s.failureCount + 1) }
    have hg₁ : pool₁.Gated := hg.setServer i (fun _ => rfl) (fun _ => .inl rfl)
    split_ifs at h
    · simp only [Except.ok.injEq, Prod.mk.injEq] at h
      exact h.2 ▸ hg₁
    · simp only [Except.ok.injEq, Prod.mk.injEq] at h
      exact h.2 ▸ hg₁
    · set pool₂ := pool₁.setServer i fun s' =>
        { s' with failureCount := 0, nextRetry := now₁ + pool₁.serverRetryTimeout }
      have hc₂ : pool₂.Configured := hg₁.toConfigured.setServer i fun _ => rfl
      cases hrun : serverPoolRun point now₂ true pool₂ with
      | error e => rw [hrun] at h; exact absurd h (by simp [bind, Except.bind])
      | ok r =>
        obtain ⟨st, pool₃⟩ := r
        rw [hrun] at h
        simp only [bind, Except.bind, Except.ok.injEq, Prod.mk.injEq] at h
        exact h.2 ▸ (serverPoolRun_gated h₂ hc₂ hrun).2.2.1

/-- `server_ok` keeps the invariant. -/
lemma serverOk_gated {pool pool' : ServerPool} {i : ℕ} (hg : pool.Gated)
    (h : serverOk i pool = .ok pool') : pool'.Gated := by
  unfold serverOk at h
  split at h
  · exact absurd h (by simp)
  · split_ifs at h
    · simp only [Except.ok.injEq] at h
      exact h ▸ hg.setServer i (fun _ => rfl) (fun _ => .inr rfl)
    · simp only [Except.ok.injEq] at h
      exact h ▸ hg

/-- `server_pool_update` keeps the invariant, and a pool that it lets through has a live server.

**Proof sketch.** A pool without a live server has a positive `next_rebuild`, so it is either
refused or rebuilt; the rebuild comes after `next_rebuild` and finds a live server. -/
lemma serverPoolUpdate_gated {pool pool' : ServerPool} {now₁ now₂ : ℤ} {g : Gate}
    (hg : pool.Gated) (h₁ : 0 ≤ now₁) (h₁₂ : now₁ ≤ now₂)
    (h : serverPoolUpdate point now₁ now₂ true pool = .ok (g, pool')) :
    pool'.Gated ∧ (g = .ok → pool'.nliveServer ≠ 0) := by
  unfold serverPoolUpdate at h
  simp only [hg.autoEjectHosts, Bool.not_true, Bool.false_eq_true, if_false,
    not_lt.mpr h₁] at h
  split_ifs at h with hz hle hn
  · -- all servers were live at the last rebuild
    simp only [Except.ok.injEq, Prod.mk.injEq] at h
    obtain ⟨rfl, rfl⟩ := h
    refine ⟨hg, fun _ hn => ?_⟩
    have := (hg.shut hn).1
    omega
  · simp only [Except.ok.injEq, Prod.mk.injEq] at h
    obtain ⟨rfl, rfl⟩ := h
    exact ⟨hg, fun habs => absurd habs (by simp)⟩
  · simp only [Except.ok.injEq, Prod.mk.injEq] at h
    obtain ⟨rfl, rfl⟩ := h
    exact ⟨hg, fun _ => hn⟩
  · cases hrun : serverPoolRun point now₂ true pool with
    | error e => rw [hrun] at h; exact absurd h (by simp [bind, Except.bind])
    | ok r =>
      obtain ⟨st, pool₁⟩ := r
      rw [hrun] at h
      simp only [bind, Except.bind, Except.ok.injEq, Prod.mk.injEq] at h
      obtain ⟨rfl, rfl⟩ := h
      obtain ⟨_, _, hg', hreb⟩ := serverPoolRun_gated (h₁.trans h₁₂) hg.toConfigured hrun
      refine ⟨hg', fun _ => ?_⟩
      rw [hreb.nliveServer]
      exact hg.exists_live (h₁.trans h₁₂) (by omega)

/-- A fresh pool is configured. -/
lemma ServerPool.Fresh.configured {pool : ServerPool} (h : pool.Fresh) : pool.Configured where
  autoEjectHosts := h.autoEjectHosts
  server_ne_nil := h.server_ne_nil
  weight_pos := h.weight_pos
  totalWeight_lt := h.totalWeight_lt
  cap := by simp [h.continuum]

/-- Every pool that is reached is gated, and the clock has not failed. -/
theorem PoolRun.gated {okd : ServerPool → ℕ → Prop} {pool₀ pool : ServerPool} {t : ℤ}
    (h₀ : pool₀.Fresh) (hr : PoolRun point okd pool₀ pool t) : 0 ≤ t ∧ pool.Gated := by
  induction hr with
  | init ht h => exact ⟨ht, (serverPoolRun_gated ht h₀.configured h).2.2.1⟩
  | failure hr h₁ h₂ h ih => exact ⟨by omega, serverFailure_gated ih.2 (by omega) h⟩
  | ok hr hi h ih => exact ⟨ih.1, serverOk_gated ih.2 h⟩
  | conn hr h₁ h₂ h ih => exact ⟨by omega, (serverPoolUpdate_gated ih.2 (by omega) h₂ h).1⟩

/-- **Ejected servers receive no traffic.**  Whenever `server_pool_conn` gets past
`server_pool_update` and picks a server, the retry time of that server is not after any clock
reading of the call.

**Proof sketch.** A pool that is let through has a live server (`serverPoolUpdate_gated`), so by
the invariant every slot it is dispatched on names a server without a retry time. -/
theorem PoolRun.pick_not_ejected {pool₀ pool pool' : ServerPool} {t now₁ now₂ : ℤ}
    {key : List UInt8} {rnd i : ℕ} (h₀ : pool₀.Fresh)
    (hr : PoolRun point (fun _ _ => True) pool₀ pool t) (h₁ : t ≤ now₁) (h₂ : now₁ ≤ now₂)
    (hu : serverPoolUpdate point now₁ now₂ true pool = .ok (.ok, pool'))
    (hi : serverPoolIdx pool' key rnd = .ok i) :
    ∃ s, pool'.server[i]? = some s ∧ s.nextRetry ≤ now₁ := by
  obtain ⟨ht, hg⟩ := hr.gated h₀
  obtain ⟨hg', hn⟩ := serverPoolUpdate_gated hg (ht.trans h₁) h₂ hu
  have hn := hn rfl
  obtain ⟨hne, hall⟩ := hg'.live hn
  rcases serverPoolIdx_eq_ok hne hi with ⟨hone, rfl⟩ | ⟨c, hc, rfl⟩
  · obtain ⟨s, hs⟩ := List.length_eq_one_iff.mp hone
    refine ⟨s, by rw [hs]; rfl, ?_⟩
    rw [hg'.single hn hone s (by rw [hs]; simp)]
    omega
  · obtain ⟨s, hs, hz⟩ := hall c hc
    exact ⟨s, hs, by omega⟩

/-! ## A pool of two servers -/

/-- A modula pool of two servers of weight 1. -/
def pairPool : ServerPool :=
  { server := [{ name := [], weight := 1 }, { name := [], weight := 1 }], autoEjectHosts := true }

/-- The pool of two servers is fresh. -/
lemma pairPool_fresh : pairPool.Fresh where
  autoEjectHosts := rfl
  server_ne_nil := by simp [pairPool]
  weight_pos := by simp [pairPool]
  totalWeight_lt := by simp [pairPool]
  nextRetry := by simp [pairPool]
  failureCount := by simp [pairPool]
  continuum := rfl
  nserverContinuum := rfl

/-- `pairPool` after its first server was ejected at time 0, with the given counters since. -/
def pairPoolEjected (nextRetry : ℤ) (failureCount : ℕ) : ServerPool :=
  { pairPool with
    server := [⟨[], 1, nextRetry, failureCount⟩, ⟨[], 1, 0, 0⟩]
    ncontinuum := 1
    nserverContinuum := 12
    continuum := [⟨1, 0⟩, ⟨1, 0⟩] ++ List.replicate 10 ⟨0, 0⟩
    nliveServer := 1
    nextRebuild := 30000000 }

/-- Two failures eject the first server. -/
lemma pairPoolEjected_run (okd : ServerPool → ℕ → Prop) :
    PoolRun (fun _ _ _ => 0) okd pairPool (pairPoolEjected 30000000 0) 0 := by
  have hinit {pool : ServerPool} (h : serverPoolRun (fun _ _ _ => 0) 0 true pairPool =
      .ok (.ok, pool)) : PoolRun (fun _ _ _ => 0) okd pairPool pool 0 := .init le_rfl h
  have honce := PoolRun.failure (i := 0) (hinit rfl) le_rfl le_rfl rfl
  exact .failure (i := 0) (e := some 0) honce le_rfl le_rfl rfl

/-- While the first server is ejected, the second one is picked. -/
theorem pairPoolEjected_pick :
    ∃ s, (pairPoolEjected 30000000 0).server[1]? = some s ∧ s.nextRetry ≤ 1 := by
  have hu : serverPoolUpdate (fun _ _ _ => 0) 1 1 true (pairPoolEjected 30000000 0) =
      .ok (.ok, pairPoolEjected 30000000 0) := rfl
  have hi : serverPoolIdx (pairPoolEjected 30000000 0) [] 0 = .ok 1 := rfl
  exact PoolRun.pick_not_ejected pairPool_fresh (pairPoolEjected_run _) (by decide) le_rfl hu hi

end GfwProxy
