import GfwProxy.Hashkit.Dispatch
import GfwProxy.Pool.Capacity

set_option autoImplicit false

/-!
# Consistent hashing

In a pool of servers of equal weight, ejecting a server moves the keys of that server only.

## Main definitions

* `GfwProxy.poolPoints` — the values of all points of some servers.

## Main results

* `GfwProxy.Rebuilds.ketama_minimal` — a key that is not dispatched to the ejected server is
  dispatched to the same server as before.

## Design

Every live server has 160 points, whichever others are live.  So the points of the smaller set of
live servers are some of those of the larger one, and stay in the same order; the rest is a fact
about successors on a ring.
-/

namespace GfwProxy

variable (point : List UInt8 → ℕ → ℕ → ℕ)

/-- The 160 points of server `i`. -/
def fullPoints (i : ℕ) (s : Server) : List Continuum :=
  (List.range 40).flatMap fun k => (List.range 4).map fun x => ⟨i, point s.name k x⟩

/-- The values of all points of some servers. -/
def poolPoints (ss : List Server) : List ℕ :=
  ss.flatMap fun s => (List.range 40).flatMap fun k => (List.range 4).map fun x => point s.name k x

variable {point}

/-- In exact arithmetic, servers of equal weight have 160 points each. -/
lemma ketamaShare_equal {weight n : ℕ} (hw : 0 < weight) (hn : 0 < n) :
    ketamaShare weight (weight * n) n = 160 := by
  have hw' : (weight : ℚ) ≠ 0 := by exact_mod_cast hw.ne'
  have hn' : (n : ℚ) ≠ 0 := by exact_mod_cast hn.ne'
  have he : (weight / (weight * n : ℕ) * 160 / 4 * n + 1 / 10 ^ 10 : ℚ) = 40 + 1 / 10 ^ 10 := by
    push_cast
    field_simp
    norm_num
  have hf : ⌊(40 + 1 / 10 ^ 10 : ℚ)⌋₊ = 40 := by
    rw [Nat.floor_eq_iff (by positivity)]
    norm_num
  unfold ketamaShare
  simp only [he, hf]

/-- With equal weights every live server has all its points. -/
lemma ketamaPoints_equal {sc : Scan} {weight : ℕ} (hw : 0 < weight) (hn : 0 < sc.nliveServer)
    (ht : sc.totalWeight = weight * sc.nliveServer) (i : ℕ) {s : Server} (hs : s.weight = weight) :
    ketamaPoints point sc i s = fullPoints point i s := by
  unfold ketamaPoints fullPoints
  rw [hs, ht, ketamaShare_equal hw hn]

/-! ## The points of the live servers -/

/-- `ketama_update` skips the servers that are not live. -/
lemma dead_eq_not_liveIn (auto : Bool) (now : ℤ) (s : Server) :
    (auto && decide (s.nextRetry > now)) = !s.liveIn auto now := by
  cases auto <;> simp [Server.liveIn, Server.liveAt, ← decide_not]

/-- The points of the live servers depend on the names of the servers only. -/
lemma livePoints_congr {auto : Bool} {now : ℤ} {points points' : ℕ → Server → List Continuum}
    {ss : List Server} (h : ∀ s ∈ ss, s.liveIn auto now = true → ∀ i,
      points i (resetIn auto now s) = points' i s) (hnow : 0 ≤ now) :
    ∀ i, livePoints auto now points i (ss.map (resetIn auto now)) =
      livePoints auto now points' i ss := by
  induction ss with
  | nil => intro i; rfl
  | cons s ss ih =>
    intro i
    simp only [List.map_cons, livePoints, dead_eq_not_liveIn, liveIn_resetIn hnow,
      ih fun s hs => h s (by simp [hs])]
    cases hl : s.liveIn auto now with
    | false => rfl
    | true => simp [h s (by simp) hl]

/-- The points of a server carry its index. -/
lemma index_of_mem_fullPoints {i : ℕ} {s : Server} {c : Continuum}
    (hc : c ∈ fullPoints point i s) : c.index = i := by
  simp only [fullPoints, List.mem_flatMap, List.mem_map] at hc
  obtain ⟨k, _, y, _, rfl⟩ := hc
  rfl

/-- With one server less, its points are left out. -/
lemma livePoints_filter {auto : Bool} {now now' : ℤ} {x : ℕ} {ss : List Server} :
    ∀ {ss' : List Server} {i : ℕ}, ss'.map Server.name = ss.map Server.name →
      (∀ (k : ℕ) (s s' : Server), ss[k]? = some s → ss'[k]? = some s' →
        s'.liveIn auto now' = (s.liveIn auto now && decide (i + k ≠ x))) →
      livePoints auto now' (fullPoints point) i ss' =
        (livePoints auto now (fullPoints point) i ss).filter (fun c => c.index ≠ x) := by
  induction ss with
  | nil =>
    intro ss' i hname _
    obtain rfl : ss' = [] := by simpa using hname
    rfl
  | cons s ss ih =>
    intro ss' i hname hlive
    cases ss' with
    | nil => cases hname
    | cons s' ss' =>
      obtain ⟨hs, hss⟩ := List.cons.inj hname
      have hrest : livePoints auto now' (fullPoints point) (i + 1) ss' =
          (livePoints auto now (fullPoints point) (i + 1) ss).filter (fun c => c.index ≠ x) := by
        refine ih hss fun k s s' hk hk' => ?_
        have := hlive (k + 1) s s' (by simpa using hk) (by simpa using hk')
        rwa [show i + (k + 1) = i + 1 + k by omega] at this
      have hhead : s'.liveIn auto now' = (s.liveIn auto now && decide (i ≠ x)) :=
        hlive 0 s s' rfl rfl
      have hpoints : fullPoints point i s' = fullPoints point i s := by
        simp only [fullPoints, hs]
      simp only [livePoints, List.filter_append, hrest, dead_eq_not_liveIn, hhead, hpoints]
      congr 1
      have hfilter : (fullPoints point i s).filter (fun c => c.index ≠ x) =
          if i ≠ x then fullPoints point i s else [] := by
        split_ifs with hx
        · rw [List.filter_eq_self]
          intro c hc
          simpa [index_of_mem_fullPoints hc] using hx
        · rw [List.filter_eq_nil_iff]
          intro c hc
          simpa [index_of_mem_fullPoints hc] using hx
      cases hl : s.liveIn auto now with
      | false => simp
      | true =>
        simp only [Bool.true_and, Bool.not_true, Bool.false_eq_true, if_false, hfilter]
        by_cases hx : i = x <;> simp [hx]

/-- The values of the points of the live servers are some of those of all servers. -/
lemma livePoints_value_sublist (auto : Bool) (now : ℤ) (ss : List Server) :
    ∀ i, ((livePoints auto now (fullPoints point) i ss).map Continuum.value).Sublist
      (poolPoints point ss) := by
  induction ss with
  | nil => intro i; exact List.Sublist.refl _
  | cons s ss ih =>
    intro i
    have hvalue : (fullPoints point i s).map Continuum.value =
        (List.range 40).flatMap fun k => (List.range 4).map fun x => point s.name k x := by
      simp [fullPoints, List.map_flatMap, Function.comp_def]
    simp only [livePoints, List.map_append, poolPoints, List.flatMap_cons]
    refine List.Sublist.append ?_ (ih (i + 1))
    split_ifs
    · exact List.nil_sublist _
    · exact hvalue ▸ List.Sublist.refl _

namespace ServerPool.SameSettings

variable {pool pool' : ServerPool}

/-- The weights are settings. -/
lemma weights (h : pool.SameSettings pool') : GfwProxy.weights pool'.server =
    GfwProxy.weights pool.server := by
  rw [GfwProxy.weights, h.weight, GfwProxy.weights]

/-- The points of a pool are decided by its settings. -/
lemma poolPoints (h : pool.SameSettings pool') :
    poolPoints point pool'.server = poolPoints point pool.server := by
  have hmap : ∀ ss : List Server, GfwProxy.poolPoints point ss =
      (ss.map Server.name).flatMap fun name => (List.range 40).flatMap fun k =>
        (List.range 4).map fun x => point name k x := by
    intro ss
    rw [List.flatMap_map]
    rfl
  rw [hmap, hmap, h.name]

end ServerPool.SameSettings

/-! ## Rebuilding for a set of live servers -/

/-- After a rebuild of ketama in a pool of servers of equal weight, the slots that are dispatched on
are the points of the live servers, in the order of their values. -/
lemma ketamaUpdate_slots {weight : ℕ} {pool pool' : ServerPool} {now : ℤ} {alloc : Bool}
    (hw : 0 < weight) (hequal : ∀ s ∈ pool.server, s.weight = weight)
    (htotal : weights pool.server < 2 ^ 32) (hcap : pool.continuum.length < 2 ^ 32)
    (hne : pool.liveServers now ≠ [])
    (h : ketamaUpdate point now alloc pool = .ok (.ok, pool')) :
    pool'.ncontinuum ≤ pool'.continuum.length ∧ 0 < pool'.ncontinuum ∧
      pool'.continuum.take pool'.ncontinuum = List.insertionSort (fun a b => a.value ≤ b.value)
        (livePoints pool.autoEjectHosts now (fullPoints point) 0 pool.server) := by
  have hnow : 0 ≤ now := by
    by_contra hnow
    simp [ketamaUpdate, updateContinuum, not_le.mp hnow] at h
  obtain ⟨-, -, hslots⟩ := updateContinuum_ok (distribution_lawful .ketama) hcap h
  obtain ⟨sc, rest, hn, ht, hnc, hcont⟩ := hslots rfl hne
  have hpos : 0 < sc.nliveServer := by
    rw [hn]
    exact List.length_pos_iff.mpr hne
  have hsum : weights (pool.liveServers now) = weight * sc.nliveServer := by
    have hmap : (pool.liveServers now).map Server.weight =
        List.replicate (pool.liveServers now).length weight := by
      refine List.eq_replicate_iff.mpr ⟨by simp, fun v hv => ?_⟩
      obtain ⟨s, hs, rfl⟩ := List.mem_map.mp hv
      exact hequal s (List.mem_filter.mp hs).1
    rw [weights, hmap, List.sum_replicate, smul_eq_mul, ← hn, mul_comm]
  have ht' : sc.totalWeight = weight * sc.nliveServer := by
    rw [← hsum]
    exact ht (lt_of_le_of_lt (weights_filter_le _ _) htotal)
  have hpts := @livePoints_congr pool.autoEjectHosts now (ketamaPoints point sc) _ pool.server
    (fun s hs _ i => (ketamaPoints_equal hw hpos ht' i (by simp [hequal s hs])).trans
      (show fullPoints point i (resetIn pool.autoEjectHosts now s) = fullPoints point i s by
        simp [fullPoints])) hnow 0
  change pool'.ncontinuum = (livePoints pool.autoEjectHosts now (ketamaPoints point sc) 0
    (pool.server.map (resetIn pool.autoEjectHosts now))).length at hnc
  change pool'.continuum = List.insertionSort (fun a b => a.value ≤ b.value)
    (livePoints pool.autoEjectHosts now (ketamaPoints point sc) 0
      (pool.server.map (resetIn pool.autoEjectHosts now))) ++ rest at hcont
  rw [hpts] at hnc hcont
  have hlen : ∀ i s, (fullPoints point i s).length = 160 := by
    intro i s
    simp [fullPoints]
  have hcount : (livePoints pool.autoEjectHosts now (fullPoints point) 0 pool.server).length =
      (pool.liveServers now).length * 160 := by
    rw [@length_livePoints _ _ _ (fun _ => 160) hlen, List.map_const', List.sum_replicate,
      smul_eq_mul]
    rfl
  have hsort := List.length_insertionSort (fun a b : Continuum => a.value ≤ b.value)
    (livePoints pool.autoEjectHosts now (fullPoints point) 0 pool.server)
  refine ⟨?_, by omega, ?_⟩
  · rw [hcont, List.length_append]
    omega
  · rw [hcont, hnc, ← hsort, List.take_left]

/-- **Consistent hashing.**  In a pool of servers of equal weight, with distinct point values, let
the continuum be built for a set of live servers, and then for the same set without server `x`.
Every hash that the first continuum does not dispatch to `x` is dispatched to the same server by
the second one.

**Proof sketch.** Both continua are the points of the live servers in the order of their values,
and those of the second one are the points of the first one that are not of `x`
(`livePoints_filter`, `Ring.eq_filter`).  So the successor of the hash is the same, if it is kept
(`Ring.succ_filter`). -/
theorem Rebuilds.ketama_minimal {pool₀ pool₁ pool₂ pool₁' pool₂' : ServerPool} {weight x : ℕ}
    {now₁ now₂ : ℤ} {alloc₁ alloc₂ : Bool} (h₀ : pool₀.Accepted)
    (hequal : ∀ s ∈ pool₀.server, s.weight = weight) (htotal : weights pool₀.server < 2 ^ 32)
    (hdistinct : (poolPoints point pool₀.server).Nodup)
    (hr₁ : Rebuilds point pool₀ pool₁) (hr₂ : Rebuilds point pool₀ pool₂)
    (hlive : ∀ (k : ℕ) (s₁ s₂ : Server), pool₁.server[k]? = some s₁ → pool₂.server[k]? = some s₂ →
      s₂.liveIn pool₀.autoEjectHosts now₂ = (s₁.liveIn pool₀.autoEjectHosts now₁ && decide (k ≠ x)))
    (hne : pool₂.liveServers now₂ ≠ [])
    (h₁ : ketamaUpdate point now₁ alloc₁ pool₁ = .ok (.ok, pool₁'))
    (h₂ : ketamaUpdate point now₂ alloc₂ pool₂ = .ok (.ok, pool₂')) (hash : ℕ) :
    ∃ i, ketamaDispatch pool₁'.continuum pool₁'.ncontinuum hash = .ok i ∧
      (i ≠ x → ketamaDispatch pool₂'.continuum pool₂'.ncontinuum hash = .ok i) := by
  obtain ⟨hsame₁, hcap₁⟩ := hr₁.sameSettings h₀
  obtain ⟨hsame₂, hcap₂⟩ := hr₂.sameSettings h₀
  have hauto₁ := hsame₁.autoEjectHosts
  have hauto₂ := hsame₂.autoEjectHosts
  have hname : pool₂.server.map Server.name = pool₁.server.map Server.name :=
    hsame₂.name.trans hsame₁.name.symm
  have hw : 0 < weight := by
    obtain ⟨s, hs⟩ := List.exists_mem_of_ne_nil _ h₀.server_ne_nil
    have := (h₀.weight s hs).1
    have := hequal s hs
    omega
  -- the larger set of live servers is not empty either
  have hne₁ : pool₁.liveServers now₁ ≠ [] := by
    obtain ⟨s₂, hs₂⟩ := List.exists_mem_of_ne_nil _ hne
    obtain ⟨hmem, hl⟩ := List.mem_filter.mp hs₂
    obtain ⟨k, hk⟩ := List.mem_iff_getElem?.mp hmem
    have hlt : k < pool₁.server.length := by
      have := (List.getElem?_eq_some_iff.mp hk).1
      rwa [hsame₁.length, ← hsame₂.length]
    have hget := List.getElem?_eq_getElem hlt
    have hiff := hlive k _ _ hget hk
    rw [hauto₂] at hl
    rw [hl, ← hauto₁] at hiff
    refine List.ne_nil_of_mem (List.mem_filter.mpr ⟨List.getElem_mem hlt, ?_⟩)
    simpa using (Bool.and_eq_true_iff.mp hiff.symm).1
  obtain ⟨hle₁, hpos₁, hslots₁⟩ :=
    ketamaUpdate_slots hw (hsame₁.forall_weight (P := fun w => w = weight) hequal)
      (by rwa [hsame₁.weights]) hcap₁ hne₁ h₁
  obtain ⟨hle₂, hpos₂, hslots₂⟩ :=
    ketamaUpdate_slots hw (hsame₂.forall_weight (P := fun w => w = weight) hequal)
      (by rwa [hsame₂.weights]) hcap₂ hne h₂
  rw [hauto₁] at hslots₁
  rw [hauto₂] at hslots₂
  set pts₁ := livePoints pool₀.autoEjectHosts now₁ (fullPoints point) 0 pool₁.server
  set pts₂ := livePoints pool₀.autoEjectHosts now₂ (fullPoints point) 0 pool₂.server
  have hfilter : pts₂ = pts₁.filter (fun c => c.index ≠ x) :=
    livePoints_filter hname fun k s₁ s₂ hk₁ hk₂ => by simpa using hlive k s₁ s₂ hk₁ hk₂
  have hsorted : ∀ pts : List Continuum,
      (pts.insertionSort fun a b => a.value ≤ b.value).Pairwise fun a b => a.value ≤ b.value :=
    fun pts => List.pairwise_insertionSort _ pts
  have hperm : ∀ pts : List Continuum, (pts.insertionSort fun a b => a.value ≤ b.value).Perm pts :=
    fun pts => List.perm_insertionSort _ pts
  have hnodup : ((pts₁.insertionSort fun a b => a.value ≤ b.value).map Continuum.value).Nodup := by
    rw [((hperm pts₁).map Continuum.value).nodup_iff]
    have hsub := @livePoints_value_sublist point pool₀.autoEjectHosts now₁ pool₁.server 0
    rw [hsame₁.poolPoints] at hsub
    exact hdistinct.sublist hsub
  have hring : (pts₂.insertionSort fun a b => a.value ≤ b.value) =
      (pts₁.insertionSort fun a b => a.value ≤ b.value).filter (fun c => c.index ≠ x) := by
    refine Ring.eq_filter (hsorted pts₁) (hsorted pts₂) hnodup ?_
    refine (hperm pts₂).trans ?_
    rw [hfilter]
    exact ((hperm pts₁).filter _).symm
  obtain ⟨c, hc, hd⟩ := ketamaDispatch_eq hash (show Sorted _ _ by
    unfold Sorted; rw [hslots₁]; exact hsorted pts₁) hle₁ hpos₁
  refine ⟨c.index, hd, fun hx => ?_⟩
  obtain ⟨c', hc', hd'⟩ := ketamaDispatch_eq hash (show Sorted _ _ by
    unfold Sorted; rw [hslots₂]; exact hsorted pts₂) hle₂ hpos₂
  rw [hslots₁] at hc
  rw [hslots₂, hring, Ring.succ_filter hc (by simpa using hx)] at hc'
  rw [hd', Option.some.inj hc']

/-! ## Two servers -/

/-- Distinct point values for the servers `[1]` and `[2]`. -/
def pairPoint (name : List UInt8) (k x : ℕ) : ℕ := 4 * k + x + 1000 * name.head!.toNat

/-- Two servers of equal weight. -/
def pairRing : ServerPool :=
  { server := [{ name := [1], weight := 3 }, { name := [2], weight := 3 }]
    autoEjectHosts := true, distType := .ketama }

/-- The pool once its first server is ejected until time 10. -/
def pairRingEjected : ServerPool :=
  { pairRing with server := [⟨[1], 3, 10, 0⟩, ⟨[2], 3, 0, 0⟩] }

/-- The ring of two servers is one that the configuration can give. -/
lemma pairRing_accepted : pairRing.Accepted := by
  constructor <;> simp [pairRing]

/-- A rebuild of a pool that fits succeeds. -/
lemma ketamaUpdate_succeeds {pool₀ pool : ServerPool} (h₀ : pool₀.Accepted) (hfit : pool₀.Fits)
    (hdist : pool₀.distType = .ketama) (hr : Rebuilds point pool₀ pool) {now : ℤ} (hnow : 0 ≤ now) :
    ∃ pool', ketamaUpdate point now true pool = .ok (.ok, pool') := by
  have hpos : ∀ s ∈ pool₀.server, 0 < s.weight := fun s hs => (h₀.weight s hs).1
  have hsame := (hr.sameSettings h₀).1
  obtain ⟨st, pool', h, -⟩ := serverPoolRun_room point (hsame.fits hfit)
    (hr.roomy h₀ hfit) (hsame.forall_weight hpos)
    (by rw [hsame.length]; exact h₀.length_lt) now true
  rw [serverPoolRun_eq, hsame.distType, hdist] at h
  obtain rfl := updateContinuum_status hnow h
  exact ⟨pool', h⟩

/-- The points of the pair come in increasing order, so there is no need to compare every two of
them. -/
lemma pairPoints_nodup : (poolPoints pairPoint pairRing.server).Nodup := by
  have hchain : (poolPoints pairPoint pairRing.server).IsChain (· < ·) := by decide +kernel
  exact (List.isChain_iff_pairwise.mp hchain).imp ne_of_lt

/-- The hash 2050 goes to the second server when the first one, which it
is not dispatched to, is ejected. -/
theorem pairRing_minimal :
    ∃ pool₁' pool₂' i, ketamaUpdate pairPoint 5 true pairRing = .ok (.ok, pool₁') ∧
      ketamaUpdate pairPoint 5 true pairRingEjected = .ok (.ok, pool₂') ∧
      ketamaDispatch pool₁'.continuum pool₁'.ncontinuum 2050 = .ok i ∧
      (i ≠ 0 → ketamaDispatch pool₂'.continuum pool₂'.ncontinuum 2050 = .ok i) := by
  have hr₂ : Rebuilds pairPoint pairRing pairRingEjected :=
    Rebuilds.start.retry fun i => (if i = 0 then 10 else 0, 0)
  obtain ⟨pool₁', h₁⟩ := ketamaUpdate_succeeds pairRing_accepted (by decide) rfl
    (show Rebuilds pairPoint pairRing pairRing from .start) (show (0 : ℤ) ≤ 5 by norm_num)
  obtain ⟨pool₂', h₂⟩ := ketamaUpdate_succeeds pairRing_accepted (by decide) rfl hr₂
    (show (0 : ℤ) ≤ 5 by norm_num)
  have hlive : ∀ (k : ℕ) (s₁ s₂ : Server), pairRing.server[k]? = some s₁ →
      pairRingEjected.server[k]? = some s₂ →
      s₂.liveIn true 5 = (s₁.liveIn true 5 && decide (k ≠ 0)) := by
    intro k s₁ s₂ hk₁ hk₂
    match k with
    | 0 =>
      obtain rfl := Option.some.inj hk₂
      simp [Server.liveIn, Server.liveAt]
    | 1 =>
      obtain rfl := Option.some.inj hk₁
      obtain rfl := Option.some.inj hk₂
      decide
    | k + 2 => cases hk₁
  obtain ⟨i, hi, hd⟩ := @Rebuilds.ketama_minimal _ _ _ _ _ _ 3 0 _ _ _ _ pairRing_accepted
    (by simp [pairRing]) (by decide) pairPoints_nodup .start hr₂ hlive (by decide) h₁ h₂ 2050
  exact ⟨pool₁', pool₂', i, h₁, h₂, hi, hd⟩

end GfwProxy
