import Mathlib.Data.List.Nodup
import Mathlib.Data.List.Infix
import Mathlib.Logic.Relation
import Mathlib.Tactic.Ring

set_option autoImplicit false

/-!
# Collecting the statistics

The main thread counts in the array `current` of metrics, hands it over to the aggregator thread
with `stats_swap`, and the aggregator adds it to the array `sum` with `stats_aggregate`
(`gf_stats.c`).  The two flags `aggregate` and `updated` are all that the threads agree on.

## Main definitions

* `GfwProxy.StatsType`, `GfwProxy.Metric` — the metrics of the pools and of their servers.
* `GfwProxy.Stats` — the three arrays and the two flags.
* `GfwProxy.StatsCall` — the calls of `_stats_pool_incr` and of its nine siblings.
* `GfwProxy.StatsSys`, `GfwProxy.StatsStep` — both threads, one statement at a time.

## Main results

* `GfwProxy.StatsRun.conserved` — no increment is lost or counted twice, and a timestamp is the last
  one of the last window that set it.
* `GfwProxy.StatsCall.step` — the functions that count are steps of the main thread.
* `GfwProxy.StatsSys.swap_steps`, `GfwProxy.StatsSys.aggregate_steps` — the steps make the calls.

## Design

A metric is an integer without bound, where the source has an `int64_t`: nothing depends on the
value of a counter, and a signed overflow is undefined there.  An array of metrics is a function of
the metric.  A window is what happens between two swaps; the
ghost fields record what was counted in total and which timestamps were set in which window.  The
steps of `stats_swap` are taken one statement at a time, those of `stats_aggregate` one metric at a
time.
-/

namespace GfwProxy

/-! ## Metrics -/

/-- `stats_type_t`. -/
inductive StatsType
  | counter
  | gauge
  | timestamp
  deriving DecidableEq, Repr

/-- `stats_pool_field_t`. -/
inductive StatsPoolField
  | clientEof
  | clientErr
  | clientConnections
  | serverEjects
  | forwardError
  | fragments
  deriving DecidableEq, Repr

/-- `stats_server_field_t`. -/
inductive StatsServerField
  | serverEof
  | serverErr
  | serverTimedout
  | serverConnections
  | serverEjectedAt
  | requests
  | requestBytes
  | responses
  | responseBytes
  | inQueue
  | inQueueBytes
  | outQueue
  | outQueueBytes
  deriving DecidableEq, Repr

/-- `STATS_POOL_CODEC`. -/
def statsPoolCodec : List (StatsPoolField × StatsType) :=
  [(.clientEof, .counter), (.clientErr, .counter), (.clientConnections, .gauge),
    (.serverEjects, .counter), (.forwardError, .counter), (.fragments, .counter)]

/-- `STATS_SERVER_CODEC`. -/
def statsServerCodec : List (StatsServerField × StatsType) :=
  [(.serverEof, .counter), (.serverErr, .counter), (.serverTimedout, .counter),
    (.serverConnections, .gauge), (.serverEjectedAt, .timestamp), (.requests, .counter),
    (.requestBytes, .counter), (.responses, .counter), (.responseBytes, .counter),
    (.inQueue, .gauge), (.inQueueBytes, .gauge), (.outQueue, .gauge), (.outQueueBytes, .gauge)]

/-- A metric: a field of pool `p`, or of server `i` of pool `p`. -/
inductive Metric
  | pool (p : ℕ) (field : StatsPoolField)
  | server (p i : ℕ) (field : StatsServerField)
  deriving DecidableEq, Repr

/-- The pool of a metric. -/
def Metric.poolOf : Metric → ℕ
  | .pool p _ => p
  | .server p _ _ => p

/-- The type of a metric. -/
def Metric.type : Metric → StatsType
  | .pool _ field => (statsPoolCodec.lookup field).getD .counter
  | .server _ _ field => (statsServerCodec.lookup field).getD .counter

/-- The metrics of pool `p` with `n` servers, in the order of `stats_aggregate`. -/
def poolMetrics (p n : ℕ) : List Metric :=
  statsPoolCodec.map (fun f => .pool p f.1) ++
    (List.range n).flatMap fun i => statsServerCodec.map fun f => .server p i f.1

/-- All metrics, given the number of servers of each pool. -/
def metrics (nserver : List ℕ) : List Metric :=
  (List.range nserver.length).flatMap fun p => poolMetrics p (nserver.getD p 0)

/-- The metrics of a pool are distinct. -/
lemma poolMetrics_nodup (p n : ℕ) : (poolMetrics p n).Nodup := by
  refine List.nodup_append.mpr ⟨by simp [statsPoolCodec], ?_, ?_⟩
  · refine List.nodup_flatMap.mpr ⟨fun i _ => by simp [statsServerCodec], ?_⟩
    refine List.Pairwise.imp ?_ (List.nodup_range (n := n))
    intro i j hij m hi hj
    obtain ⟨f, _, rfl⟩ := List.mem_map.mp hi
    obtain ⟨f', _, he⟩ := List.mem_map.mp hj
    exact hij (by injection he with _ he; exact he.symm)
  · intro m hm m' hm' he
    subst he
    obtain ⟨f, _, rfl⟩ := List.mem_map.mp hm
    simp at hm'

/-- The metrics are distinct. -/
lemma metrics_nodup (nserver : List ℕ) : (metrics nserver).Nodup := by
  have hpool : ∀ p n, ∀ m ∈ poolMetrics p n, m.poolOf = p := by
    intro p n m hm
    rcases List.mem_append.mp hm with hm | hm
    · obtain ⟨f, _, rfl⟩ := List.mem_map.mp hm
      rfl
    · obtain ⟨i, _, hm⟩ := List.mem_flatMap.mp hm
      obtain ⟨f, _, rfl⟩ := List.mem_map.mp hm
      rfl
  refine List.nodup_flatMap.mpr ⟨fun p _ => poolMetrics_nodup p _, ?_⟩
  refine List.Pairwise.imp ?_ (List.nodup_range (n := nserver.length))
  intro p q hpq m hp hq
  exact hpq ((hpool p _ m hp).symm.trans (hpool q _ m hq))

/-! ## The arrays -/

/-- The three arrays of metrics and the two flags of `struct stats`. -/
structure Stats where
  /-- stats_pool[] (a) -/
  current : Metric → ℤ := fun _ => 0
  /-- stats_pool[] (b) -/
  shadow : Metric → ℤ := fun _ => 0
  /-- stats_pool[] (c = a + b) -/
  sum : Metric → ℤ := fun _ => 0
  /-- shadow (b) aggregate? -/
  aggregate : Bool := false
  /-- current (a) updated? -/
  updated : Bool := false

/-- Change one metric of an array. -/
def setMetric (m : Metric) (v : ℤ) (a : Metric → ℤ) : Metric → ℤ := Function.update a m v

/-- Add to a metric of `current`. -/
def Stats.incrBy (m : Metric) (v : ℤ) (st : Stats) : Stats :=
  { st with updated := true, current := setMetric m (st.current m + v) st.current }

/-- Set a timestamp of `current`. -/
def Stats.setTs (m : Metric) (v : ℤ) (st : Stats) : Stats :=
  { st with updated := true, current := setMetric m v st.current }

/-- `_stats_pool_incr`. -/
def Stats.poolIncr (p : ℕ) (field : StatsPoolField) (st : Stats) : Stats :=
  st.incrBy (.pool p field) 1

/-- `_stats_pool_decr`. -/
def Stats.poolDecr (p : ℕ) (field : StatsPoolField) (st : Stats) : Stats :=
  st.incrBy (.pool p field) (-1)

/-- `_stats_pool_incr_by`. -/
def Stats.poolIncrBy (p : ℕ) (field : StatsPoolField) (val : ℤ) (st : Stats) : Stats :=
  st.incrBy (.pool p field) val

/-- `_stats_pool_decr_by`. -/
def Stats.poolDecrBy (p : ℕ) (field : StatsPoolField) (val : ℤ) (st : Stats) : Stats :=
  st.incrBy (.pool p field) (-val)

/-- `_stats_pool_set_ts`. -/
def Stats.poolSetTs (p : ℕ) (field : StatsPoolField) (val : ℤ) (st : Stats) : Stats :=
  st.setTs (.pool p field) val

/-- `_stats_server_incr`. -/
def Stats.serverIncr (p i : ℕ) (field : StatsServerField) (st : Stats) : Stats :=
  st.incrBy (.server p i field) 1

/-- `_stats_server_decr`. -/
def Stats.serverDecr (p i : ℕ) (field : StatsServerField) (st : Stats) : Stats :=
  st.incrBy (.server p i field) (-1)

/-- `_stats_server_incr_by`. -/
def Stats.serverIncrBy (p i : ℕ) (field : StatsServerField) (val : ℤ) (st : Stats) : Stats :=
  st.incrBy (.server p i field) val

/-- `_stats_server_decr_by`. -/
def Stats.serverDecrBy (p i : ℕ) (field : StatsServerField) (val : ℤ) (st : Stats) : Stats :=
  st.incrBy (.server p i field) (-val)

/-- `_stats_server_set_ts`. -/
def Stats.serverSetTs (p i : ℕ) (field : StatsServerField) (val : ℤ) (st : Stats) : Stats :=
  st.setTs (.server p i field) val

/-- `array_swap` in `stats_swap`. -/
def Stats.swapArrays (st : Stats) : Stats :=
  { st with current := st.shadow, shadow := st.current }

/-- `stats_pool_reset` in `stats_swap`. -/
def Stats.resetCurrent (st : Stats) : Stats := { st with current := fun _ => 0 }

/-- `stats_swap`. -/
def Stats.swap (st : Stats) : Stats :=
  if st.aggregate then st
  else if !st.updated then st
  else { st.swapArrays.resetCurrent with updated := false, aggregate := true }

/-- `stats_aggregate_metric` on one metric. -/
def Stats.aggregateMetric (m : Metric) (st : Stats) : Stats :=
  match m.type with
  | .counter => { st with sum := setMetric m (st.sum m + st.shadow m) st.sum }
  | .gauge => { st with sum := setMetric m (st.sum m + st.shadow m) st.sum }
  | .timestamp =>
    if st.shadow m ≠ 0 then { st with sum := setMetric m (st.shadow m) st.sum } else st

/-- `stats_aggregate`. -/
def Stats.aggregateAll (ms : List Metric) (st : Stats) : Stats :=
  if !st.aggregate then st
  else { ms.foldl (fun st m => st.aggregateMetric m) st with aggregate := false }

/-! ## The two threads -/

/-- The next statement of `stats_swap`, once it has found that there is something to swap. -/
inductive SwapPc
  | idle
  | swapping
  | resetting
  | clearing
  | publishing
  deriving DecidableEq, Repr

/-- Both threads: where the main thread is in `stats_swap`, and which metrics `stats_aggregate`
still has to add, if it runs.  Ghosts: the total of all increments of each metric; the timestamps
set since the last swap, the last one first; and those of each window before, the last window
first. -/
structure StatsSys where
  st : Stats := {}
  main : SwapPc := .idle
  aggregator : Option (List Metric) := none
  total : Metric → ℤ := fun _ => 0
  window : List (Metric × ℤ) := []
  closed : List (List (Metric × ℤ)) := []

/-- A step of one of the threads, given all metrics. -/
inductive StatsStep (ms : List Metric) (s : StatsSys) : StatsSys → Prop
  -- the main thread
  | incrBy (m : Metric) (v : ℤ) (hs : s.main = .idle) (hm : m ∈ ms) (ht : m.type ≠ .timestamp) :
      StatsStep ms s { s with st := s.st.incrBy m v, total := setMetric m (s.total m + v) s.total }
  | setTs (m : Metric) (v : ℤ) (hs : s.main = .idle) (hm : m ∈ ms) (ht : m.type = .timestamp)
      (hv : v ≠ 0) : StatsStep ms s { s with st := s.st.setTs m v, window := (m, v) :: s.window }
  | swapTest (hs : s.main = .idle) :
      StatsStep ms s { s with
        main := if s.st.aggregate || !s.st.updated then .idle else .swapping }
  | swapArrays (hs : s.main = .swapping) :
      StatsStep ms s { s with
        st := s.st.swapArrays, main := .resetting, window := [], closed := s.window :: s.closed }
  | swapReset (hs : s.main = .resetting) :
      StatsStep ms s { s with st := s.st.resetCurrent, main := .clearing }
  | swapClear (hs : s.main = .clearing) :
      StatsStep ms s { s with st.updated := false, main := .publishing }
  | swapPublish (hs : s.main = .publishing) :
      StatsStep ms s { s with st.aggregate := true, main := .idle }
  -- the aggregator thread
  | aggregateTest (hs : s.aggregator = none) :
      StatsStep ms s { s with aggregator := if s.st.aggregate then some ms else none }
  | aggregateMetric (m : Metric) (rest : List Metric) (hs : s.aggregator = some (m :: rest)) :
      StatsStep ms s { s with st := s.st.aggregateMetric m, aggregator := some rest }
  | aggregateDone (hs : s.aggregator = some []) :
      StatsStep ms s { s with st.aggregate := false, aggregator := none }

/-- A call of one of the functions that count. -/
inductive StatsCall
  | poolIncr (p : ℕ) (field : StatsPoolField)
  | poolDecr (p : ℕ) (field : StatsPoolField)
  | poolIncrBy (p : ℕ) (field : StatsPoolField) (val : ℤ)
  | poolDecrBy (p : ℕ) (field : StatsPoolField) (val : ℤ)
  | poolSetTs (p : ℕ) (field : StatsPoolField) (val : ℤ)
  | serverIncr (p i : ℕ) (field : StatsServerField)
  | serverDecr (p i : ℕ) (field : StatsServerField)
  | serverIncrBy (p i : ℕ) (field : StatsServerField) (val : ℤ)
  | serverDecrBy (p i : ℕ) (field : StatsServerField) (val : ℤ)
  | serverSetTs (p i : ℕ) (field : StatsServerField) (val : ℤ)
  deriving DecidableEq, Repr

/-- What a call does. -/
def StatsCall.run : StatsCall → Stats → Stats
  | .poolIncr p field => Stats.poolIncr p field
  | .poolDecr p field => Stats.poolDecr p field
  | .poolIncrBy p field val => Stats.poolIncrBy p field val
  | .poolDecrBy p field val => Stats.poolDecrBy p field val
  | .poolSetTs p field val => Stats.poolSetTs p field val
  | .serverIncr p i field => Stats.serverIncr p i field
  | .serverDecr p i field => Stats.serverDecr p i field
  | .serverIncrBy p i field val => Stats.serverIncrBy p i field val
  | .serverDecrBy p i field val => Stats.serverDecrBy p i field val
  | .serverSetTs p i field val => Stats.serverSetTs p i field val

/-- The metric of a call. -/
def StatsCall.metric : StatsCall → Metric
  | .poolIncr p field | .poolDecr p field | .poolIncrBy p field _ | .poolDecrBy p field _
  | .poolSetTs p field _ => .pool p field
  | .serverIncr p i field | .serverDecr p i field | .serverIncrBy p i field _
  | .serverDecrBy p i field _ | .serverSetTs p i field _ => .server p i field

/-- The types that a call asserts its metric to have. -/
def StatsCall.types : StatsCall → List StatsType
  | .poolIncr .. | .poolIncrBy .. | .serverIncr .. | .serverIncrBy .. => [.counter, .gauge]
  | .poolDecr .. | .poolDecrBy .. | .serverDecr .. | .serverDecrBy .. => [.gauge]
  | .poolSetTs .. | .serverSetTs .. => [.timestamp]

/-- The timestamp that a call sets, if it sets one. -/
def StatsCall.timestamp? : StatsCall → Option ℤ
  | .poolSetTs _ _ val | .serverSetTs _ _ _ val => some val
  | _ => none

/-- **A call whose assertion holds is a step of the main thread.** -/
theorem StatsCall.step {ms : List Metric} {s : StatsSys} (call : StatsCall) (hs : s.main = .idle)
    (hm : call.metric ∈ ms) (ht : call.metric.type ∈ call.types) (hv : call.timestamp? ≠ some 0) :
    ∃ s', StatsStep ms s s' ∧ s'.st = call.run s.st := by
  have hne : call.timestamp? = none → call.metric.type ≠ .timestamp := by
    intro hnone he
    rw [he] at ht
    cases call <;> simp_all [types, timestamp?]
  cases call with
  | poolIncr p field => exact ⟨_, .incrBy _ 1 hs hm (hne rfl), rfl⟩
  | poolDecr p field => exact ⟨_, .incrBy _ (-1) hs hm (hne rfl), rfl⟩
  | poolIncrBy p field val => exact ⟨_, .incrBy _ val hs hm (hne rfl), rfl⟩
  | poolDecrBy p field val => exact ⟨_, .incrBy _ (-val) hs hm (hne rfl), rfl⟩
  | poolSetTs p field val =>
    exact ⟨_, .setTs _ val hs hm (by simpa [types] using ht) (by simpa [timestamp?] using hv), rfl⟩
  | serverIncr p i field => exact ⟨_, .incrBy _ 1 hs hm (hne rfl), rfl⟩
  | serverDecr p i field => exact ⟨_, .incrBy _ (-1) hs hm (hne rfl), rfl⟩
  | serverIncrBy p i field val => exact ⟨_, .incrBy _ val hs hm (hne rfl), rfl⟩
  | serverDecrBy p i field val => exact ⟨_, .incrBy _ (-val) hs hm (hne rfl), rfl⟩
  | serverSetTs p i field val =>
    exact ⟨_, .setTs _ val hs hm (by simpa [types] using ht) (by simpa [timestamp?] using hv), rfl⟩

/-- The states of both threads that are reached by any interleaving, given the number of servers of
each pool. -/
def StatsRun (nserver : List ℕ) : StatsSys → Prop :=
  Relation.ReflTransGen (StatsStep (metrics nserver)) {}

/-! ## What the array `sum` should hold -/

/-- Whether the value of metric `m` in `shadow` is still to be added to `sum`. -/
def StatsSys.pending (s : StatsSys) (m : Metric) : Bool :=
  match s.main with
  | .idle | .swapping => s.st.aggregate && (match s.aggregator with
    | none => true
    | some rest => m ∈ rest)
  | _ => true

/-- The last timestamp of metric `m` in a window. -/
def lastSet (m : Metric) (window : List (Metric × ℤ)) : Option ℤ :=
  (window.find? fun e => e.1 = m).map Prod.snd

/-- The last timestamp of metric `m` in the last one of some windows that set it. -/
def latest (m : Metric) (windows : List (List (Metric × ℤ))) : ℤ :=
  (windows.findSome? (lastSet m)).getD 0

/-- The windows of which metric `m` has been aggregated, the last one first. -/
def StatsSys.aggregated (s : StatsSys) (m : Metric) : List (List (Metric × ℤ)) :=
  if s.pending m then s.closed.tail else s.closed

/-! ## The invariant -/

/-- What holds of both threads at any time. -/
structure StatsSys.Inv (ms : List Metric) (s : StatsSys) : Prop where
  /-- in `stats_swap` the main thread has seen the flag down, and only it raises the flag -/
  flag : s.main ≠ .idle → s.st.aggregate = false
  /-- the aggregator runs while the flag is up -/
  runs : s.st.aggregate = false → s.aggregator = none
  order : ∀ rest, s.aggregator = some rest → rest.Nodup ∧ ∀ m ∈ rest, m ∈ ms
  /-- the window of the arrays that have just been swapped is closed -/
  reset : s.main = .resetting → s.window = []
  /-- a counted value is in exactly one place -/
  count : ∀ m ∈ ms, m.type ≠ .timestamp →
    s.st.sum m + (if s.pending m then s.st.shadow m else 0) +
      (if s.main = .resetting then 0 else s.st.current m) = s.total m
  /-- a timestamp is what its window has set -/
  current : s.main ≠ .resetting → ∀ m ∈ ms, m.type = .timestamp →
    s.st.current m = (lastSet m s.window).getD 0
  shadow : ∀ m ∈ ms, m.type = .timestamp → s.pending m = true →
    ∃ w ws, s.closed = w :: ws ∧ s.st.shadow m = (lastSet m w).getD 0
  sum : ∀ m ∈ ms, m.type = .timestamp → s.st.sum m = latest m (s.aggregated m)
  nonzero : ∀ w ∈ s.window :: s.closed, ∀ e ∈ w, e.2 ≠ 0

variable {ms : List Metric} {s s' : StatsSys}

/-- The metric that was set. -/
@[simp] lemma setMetric_same (m : Metric) (v : ℤ) (a : Metric → ℤ) : setMetric m v a m = v := by
  simp [setMetric]

/-- The other metrics are kept. -/
lemma setMetric_other {m m' : Metric} (h : m' ≠ m) (v : ℤ) (a : Metric → ℤ) :
    setMetric m v a m' = a m' := by
  simp [setMetric, h]

/-- At the start nothing is counted. -/
lemma StatsSys.inv_init (ms : List Metric) : StatsSys.Inv ms {} := by
  constructor <;> simp [StatsSys.pending, StatsSys.aggregated, lastSet, latest]

/-- The last timestamp of a window that has set it again. -/
lemma lastSet_cons (m : Metric) (e : Metric × ℤ) (w : List (Metric × ℤ)) :
    lastSet m (e :: w) = if e.1 = m then some e.2 else lastSet m w := by
  unfold lastSet
  split_ifs with h <;> simp [h]

/-- Taking up a window: its last timestamp, if it has set one. -/
lemma latest_cons {m : Metric} {w : List (Metric × ℤ)} (hw : ∀ e ∈ w, e.2 ≠ 0)
    (ws : List (List (Metric × ℤ))) :
    latest m (w :: ws) = if (lastSet m w).getD 0 ≠ 0 then (lastSet m w).getD 0
    else latest m ws := by
  unfold latest
  cases h : lastSet m w with
  | none => simp [h]
  | some v =>
    obtain ⟨e, he, rfl⟩ := Option.map_eq_some_iff.mp h
    have hne := hw e (List.mem_of_find?_eq_some he)
    simp [h, hne]

/-- `stats_aggregate_metric` writes one metric of `sum`. -/
lemma Stats.aggregateMetric_eq (m : Metric) (st : Stats) :
    st.aggregateMetric m = { st with sum := (st.aggregateMetric m).sum } := by
  unfold Stats.aggregateMetric
  cases m.type with
  | counter => rfl
  | gauge => rfl
  | timestamp =>
    dsimp only
    split <;> rfl

/-- Aggregating one metric keeps the others. -/
lemma Stats.aggregateMetric_other {m m' : Metric} (h : m' ≠ m) (st : Stats) :
    (st.aggregateMetric m).sum m' = st.sum m' := by
  unfold Stats.aggregateMetric
  cases m.type with
  | counter => exact setMetric_other h _ _
  | gauge => exact setMetric_other h _ _
  | timestamp =>
    dsimp only
    split
    · exact setMetric_other h _ _
    · rfl

/-- Counters and gauges are added up. -/
lemma Stats.aggregateMetric_count {m : Metric} (h : m.type ≠ .timestamp) (st : Stats) :
    (st.aggregateMetric m).sum m = st.sum m + st.shadow m := by
  unfold Stats.aggregateMetric
  cases ht : m.type with
  | counter => exact setMetric_same m _ _
  | gauge => exact setMetric_same m _ _
  | timestamp => exact absurd ht h

/-- Of time stamps the last one that was set is kept. -/
lemma Stats.aggregateMetric_timestamp {m : Metric} (h : m.type = .timestamp) (st : Stats) :
    (st.aggregateMetric m).sum m = if st.shadow m ≠ 0 then st.shadow m else st.sum m := by
  unfold Stats.aggregateMetric
  rw [h]
  dsimp only
  split
  · exact setMetric_same m _ _
  · rfl

section Steps

variable (hi : s.Inv ms)

include hi

/-- An update of a counter or gauge adds to the current array and to the total. -/
lemma StatsSys.Inv.incrBy {m : Metric} (v : ℤ) (hs : s.main = .idle)
    (ht : m.type ≠ .timestamp) :
    StatsSys.Inv ms { s with
      st := s.st.incrBy m v, total := setMetric m (s.total m + v) s.total } := by
  refine { hi with count := ?count, current := ?current }
  case count =>
    intro m' hm' ht'
    have h := hi.count m' hm' ht'
    change s.st.sum m' + (if s.pending m' then s.st.shadow m' else 0) +
      (if s.main = .resetting then 0 else setMetric m (s.st.current m + v) s.st.current m') =
      setMetric m (s.total m + v) s.total m'
    simp only [hs, reduceCtorEq, if_false] at h ⊢
    rcases eq_or_ne m' m with rfl | hne
    · rw [setMetric_same, setMetric_same, ← h]
      ring
    · rw [setMetric_other hne, setMetric_other hne, h]
  case current =>
    intro _ m' hm' ht'
    have hne : m' ≠ m := by
      rintro rfl
      exact ht ht'
    exact (setMetric_other hne _ _).trans (hi.current (by simp [hs]) m' hm' ht')

/-- An update of a time stamp is one of the current window. -/
lemma StatsSys.Inv.setTs {m : Metric} {v : ℤ} (hs : s.main = .idle) (ht : m.type = .timestamp)
    (hv : v ≠ 0) :
    StatsSys.Inv ms { s with st := s.st.setTs m v, window := (m, v) :: s.window } := by
  refine { hi with
    reset := fun h => by simp [hs] at h, count := ?count, current := ?current, nonzero := ?nonzero }
  case count =>
    intro m' hm' ht'
    have hne : m' ≠ m := by
      rintro rfl
      exact ht' ht
    have h := hi.count m' hm' ht'
    change s.st.sum m' + (if s.pending m' then s.st.shadow m' else 0) +
      (if s.main = .resetting then 0 else setMetric m v s.st.current m') = s.total m'
    rwa [setMetric_other hne]
  case current =>
    intro _ m' hm' ht'
    change setMetric m v s.st.current m' = (lastSet m' ((m, v) :: s.window)).getD 0
    rw [lastSet_cons]
    rcases eq_or_ne m' m with rfl | hne
    · simp
    · rw [setMetric_other hne, if_neg hne.symm]
      exact hi.current (by simp [hs]) m' hm' ht'
  case nonzero =>
    intro w hw e he
    rcases List.mem_cons.mp hw with rfl | hw
    · rcases List.mem_cons.mp he with rfl | he
      · exact hv
      · exact hi.nonzero _ (by simp) e he
    · exact hi.nonzero w (by simp [hw]) e he

/-- A step that changes only what the threads agree on, not who owns `shadow`. -/
lemma StatsSys.Inv.control (hs : s.main ≠ .resetting) {pc : SwapPc} {ag : Option (List Metric)}
    {b u : Bool} (hpc : pc ≠ .resetting) (hflag : pc ≠ .idle → b = false)
    (hruns : b = false → ag = none)
    (horder : ∀ rest, ag = some rest → rest.Nodup ∧ ∀ m ∈ rest, m ∈ ms)
    (hp : ∀ m ∈ ms, StatsSys.pending { s with
      st.aggregate := b, st.updated := u, main := pc, aggregator := ag } m = s.pending m) :
    StatsSys.Inv ms { s with
      st.aggregate := b, st.updated := u, main := pc, aggregator := ag } where
  flag := hflag
  runs := hruns
  order := horder
  reset := fun h => absurd h hpc
  count := by
    intro m hm ht
    have h := hi.count m hm ht
    rw [if_neg hs] at h
    rw [hp m hm, if_neg hpc]
    exact h
  current := fun _ => hi.current hs
  shadow := fun m hm ht h => hi.shadow m hm ht ((hp m hm).symm.trans h)
  sum := by
    intro m hm ht
    rw [StatsSys.aggregated, hp m hm]
    exact hi.sum m hm ht
  nonzero := hi.nonzero

/-- Once it has seen the flag down, the main thread owns `shadow`. -/
lemma StatsSys.Inv.not_pending (hs : s.main = .swapping) (m : Metric) : s.pending m = false := by
  have hflag := hi.flag (by simp [hs])
  simp [StatsSys.pending, hs, hflag]

/-- While the aggregator runs, the main thread is outside the part of `stats_swap` that swaps. -/
lemma StatsSys.Inv.main_idle {rest : List Metric} (hs : s.aggregator = some rest) :
    s.st.aggregate = true ∧ s.main = .idle := by
  have hagg : s.st.aggregate = true := by
    by_contra h
    have := hi.runs (by simpa using h)
    simp [this] at hs
  refine ⟨hagg, ?_⟩
  by_contra h
  have := hi.flag h
  simp [this] at hagg

/-- The swap closes the window. -/
lemma StatsSys.Inv.swapArrays (hs : s.main = .swapping) :
    StatsSys.Inv ms { s with
      st := s.st.swapArrays, main := .resetting, window := [], closed :=
  s.window :: s.closed } := by
  have hflag := hi.flag (by simp [hs])
  refine { hi with
    flag := fun _ => hflag, reset := fun _ => rfl, count := ?count, current := ?current,
    shadow := ?shadow, sum := ?sum, nonzero := ?nonzero }
  case count =>
    intro m hm ht
    have h := hi.count m hm ht
    simp only [hi.not_pending hs, hs, reduceCtorEq, if_false] at h
    simpa [StatsSys.pending, Stats.swapArrays] using h
  case current => exact fun h => absurd rfl h
  case shadow =>
    intro m hm ht _
    exact ⟨s.window, s.closed, rfl, hi.current (by simp [hs]) m hm ht⟩
  case sum =>
    intro m hm ht
    have h := hi.sum m hm ht
    simpa [StatsSys.aggregated, StatsSys.pending, hs, hflag, Stats.swapArrays] using h
  case nonzero =>
    intro w hw e he
    rcases List.mem_cons.mp hw with rfl | hw
    · simp at he
    · exact hi.nonzero w hw e he

/-- The new current array starts from zero. -/
lemma StatsSys.Inv.resetCurrent (hs : s.main = .resetting) :
    StatsSys.Inv ms { s with st := s.st.resetCurrent, main := .clearing } := by
  have hflag := hi.flag (by simp [hs])
  refine { hi with
    flag := fun _ => hflag, reset := fun h => by simp at h, count := ?count, current := ?current,
    shadow := ?shadow, sum := ?sum }
  case count =>
    intro m hm ht
    have h := hi.count m hm ht
    simpa [StatsSys.pending, Stats.resetCurrent, hs] using h
  case current =>
    intro _ m _ _
    simp [Stats.resetCurrent, hi.reset hs, lastSet]
  case shadow =>
    intro m hm ht _
    exact hi.shadow m hm ht (by simp [StatsSys.pending, hs])
  case sum =>
    intro m hm ht
    have h := hi.sum m hm ht
    simpa [StatsSys.aggregated, StatsSys.pending, Stats.resetCurrent, hs] using h

/-- `stats_aggregate_metric` takes the value of `m` out of `shadow`. -/
lemma StatsSys.Inv.aggregateMetric {m : Metric} {rest : List Metric}
    (hs : s.aggregator = some (m :: rest)) :
    StatsSys.Inv ms { s with st := s.st.aggregateMetric m, aggregator := some rest } := by
  obtain ⟨hagg, hmain⟩ := hi.main_idle hs
  obtain ⟨hnodup, hmem⟩ := hi.order _ hs
  obtain ⟨hnot, hnodup⟩ := List.nodup_cons.mp hnodup
  rw [Stats.aggregateMetric_eq]
  -- the owner of `shadow` changes for `m` only
  have hpm : s.pending m = true := by simp [StatsSys.pending, hmain, hagg, hs]
  have hp : ∀ m', StatsSys.pending { s with
      st.sum := (s.st.aggregateMetric m).sum, aggregator := some rest } m' =
      if m' = m then false else s.pending m' := by
    intro m'
    rcases eq_or_ne m' m with rfl | hne
    · simp [StatsSys.pending, hmain, hagg, hnot]
    · simp [StatsSys.pending, hmain, hagg, hs, hne]
  refine { hi with
    runs := ?runs, order := ?order, count := ?count, shadow := ?shadow, sum := ?sum }
  case runs => exact fun h => absurd (hagg.symm.trans h) (by simp)
  case order =>
    rintro _ ⟨⟩
    exact ⟨hnodup, fun m' hm' => hmem m' (List.mem_cons_of_mem m hm')⟩
  case count =>
    intro m' hm' ht'
    have h := hi.count m' hm' ht'
    rw [hp]
    rcases eq_or_ne m' m with rfl | hne
    · rw [if_pos hpm] at h
      change (s.st.aggregateMetric m').sum m' + (if (if m' = m' then false else s.pending m') = true
        then s.st.shadow m' else 0) + _ = s.total m'
      rw [Stats.aggregateMetric_count ht', if_pos rfl, if_neg (by simp), add_zero]
      exact h
    · change (s.st.aggregateMetric m).sum m' + (if (if m' = m then false else s.pending m') = true
        then s.st.shadow m' else 0) + _ = s.total m'
      rw [Stats.aggregateMetric_other hne, if_neg hne]
      exact h
  case shadow =>
    intro m' hm' ht' h
    rw [hp] at h
    rcases eq_or_ne m' m with rfl | hne
    · simp at h
    · exact hi.shadow m' hm' ht' (by simpa [hne] using h)
  case sum =>
    intro m' hm' ht'
    have h := hi.sum m' hm' ht'
    rw [StatsSys.aggregated, hp]
    rcases eq_or_ne m' m with rfl | hne
    · obtain ⟨w, ws, hclosed, hshadow⟩ := hi.shadow m' hm' ht' hpm
      rw [StatsSys.aggregated, if_pos hpm, hclosed] at h
      have hw : ∀ e ∈ w, e.2 ≠ 0 := hi.nonzero w (by simp [hclosed])
      change (s.st.aggregateMetric m').sum m' = latest m' (if (if m' = m' then false
        else s.pending m') = true then s.closed.tail else s.closed)
      rw [Stats.aggregateMetric_timestamp ht', if_pos rfl, if_neg Bool.false_ne_true, hclosed,
        latest_cons hw, hshadow, h]
      rfl
    · change (s.st.aggregateMetric m).sum m' = latest m' (if (if m' = m then false
        else s.pending m') = true then s.closed.tail else s.closed)
      rw [Stats.aggregateMetric_other hne, if_neg hne]
      exact h

end Steps

/-- **Each step keeps the invariant.**

**Proof sketch.** One case for each step.  The swap moves the current counts to the shadow, so the
sum of the three is kept, and the reset of the other array loses nothing as it was aggregated
before. -/
theorem StatsStep.inv (hms : ms.Nodup) (hi : s.Inv ms) (h : StatsStep ms s s') : s'.Inv ms := by
  cases h with
  | incrBy m v hs hm ht => exact hi.incrBy v hs ht
  | setTs m v hs hm ht hv => exact hi.setTs hs ht hv
  | swapTest hs =>
    refine hi.control (by simp [hs]) ?_ ?_ hi.runs hi.order ?_
    · split <;> simp
    · cases hagg : s.st.aggregate <;> simp
    · intro m _
      cases h : s.st.aggregate || !s.st.updated <;> simp [StatsSys.pending, hs]
  | swapArrays hs => exact hi.swapArrays hs
  | swapReset hs => exact hi.resetCurrent hs
  | swapClear hs =>
    have hflag := hi.flag (by simp [hs])
    refine hi.control (by simp [hs]) (by simp) (fun _ => hflag) hi.runs hi.order ?_
    intro m _
    simp [StatsSys.pending, hs]
  | swapPublish hs =>
    have hnone := hi.runs (hi.flag (by simp [hs]))
    refine hi.control (by simp [hs]) (by simp) (by simp) (by simp) hi.order ?_
    intro m _
    simp [StatsSys.pending, hs, hnone]
  | aggregateTest hs =>
    cases hagg : s.st.aggregate with
    | false =>
      simp only [Bool.false_eq_true, if_false]
      rwa [← hs]
    | true =>
      have hmain : s.main = .idle := by
        by_contra h
        simp [hi.flag h] at hagg
      simp only [if_true]
      refine hi.control (by simp [hmain]) (by simp [hmain]) (fun h => absurd hmain h)
        (fun h => absurd (hagg.symm.trans h) (by simp)) ?_ ?_
      · rintro _ ⟨⟩
        exact ⟨hms, fun _ => id⟩
      · intro m hm
        simp [StatsSys.pending, hmain, hagg, hs, hm]
  | aggregateMetric m rest hs => exact hi.aggregateMetric hs
  | aggregateDone hs =>
    obtain ⟨hagg, hmain⟩ := hi.main_idle hs
    refine hi.control (by simp [hmain]) (by simp [hmain]) (fun _ => rfl) (fun _ => rfl) (by simp) ?_
    intro m _
    simp [StatsSys.pending, hmain, hs]

/-- **Every reachable state keeps the invariant.** -/
theorem StatsRun.inv {nserver : List ℕ} (h : StatsRun nserver s) : s.Inv (metrics nserver) := by
  induction h with
  | refl => exact StatsSys.inv_init _
  | tail _ hstep ih => exact hstep.inv (metrics_nodup nserver) ih

/-! ## Calls as a whole -/

/-- The steps of an uninterrupted call of `stats_swap` are `Stats.swap`. -/
theorem StatsSys.swap_steps (ms : List Metric) (hs : s.main = .idle) :
    Relation.ReflTransGen (StatsStep ms) s
      (if s.st.aggregate || !s.st.updated then { s with st := s.st.swap }
      else { s with st := s.st.swap, window := [], closed := s.window :: s.closed }) := by
  have htest : StatsStep ms s _ := .swapTest hs
  cases h : s.st.aggregate || !s.st.updated with
  | true =>
    have hswap : s.st.swap = s.st := by
      rcases Bool.or_eq_true_iff.mp h with h | h <;> simp [Stats.swap, h]
    rw [if_pos rfl, hswap]
  | false =>
    obtain ⟨hagg, hupd⟩ := Bool.or_eq_false_iff.mp h
    have hswap : s.st.swap =
        { s.st.swapArrays.resetCurrent with updated := false, aggregate := true } := by
      simp [Stats.swap, hagg, hupd]
    rw [h, if_neg Bool.false_ne_true] at htest
    rw [if_neg Bool.false_ne_true, hswap]
    refine .head htest (.head (.swapArrays rfl)
      (.head (.swapReset rfl) (.head (.swapClear rfl) ?_)))
    rw [hs]
    exact .single (.swapPublish rfl)

/-- The steps of the loops of `stats_aggregate`. -/
lemma StatsSys.aggregate_loop (ms rest : List Metric) (hs : s.aggregator = some rest) :
    Relation.ReflTransGen (StatsStep ms) s { s with
      st := rest.foldl (fun st m => st.aggregateMetric m) s.st, aggregator := some [] } := by
  induction rest generalizing s with
  | nil =>
    rw [List.foldl_nil, ← hs]
  | cons m rest ih => exact .head (.aggregateMetric m rest hs) (ih rfl)

/-- The steps of an uninterrupted call of `stats_aggregate` are `Stats.aggregateAll`. -/
theorem StatsSys.aggregate_steps (ms : List Metric) (hs : s.aggregator = none) :
    Relation.ReflTransGen (StatsStep ms) s { s with st := s.st.aggregateAll ms } := by
  have htest : StatsStep ms s _ := .aggregateTest hs
  cases h : s.st.aggregate with
  | false => simpa [Stats.aggregateAll, h] using Relation.ReflTransGen.refl
  | true =>
    rw [h] at htest
    have hloop := StatsSys.aggregate_loop (s := { s with aggregator := some ms }) ms ms rfl
    have hdone := (Relation.ReflTransGen.head htest hloop).tail (.aggregateDone rfl)
    simpa [Stats.aggregateAll, h, hs] using hdone

/-! ## Main results -/

/-- **No statistic is lost or counted twice.**  Of a counter or gauge, `sum`, the part of `shadow`
that is still to be added and `current` (unless it has just been handed over) make the total of all
increments; and a timestamp in `sum` is the last one set in the last aggregated window that set it.

**Proof sketch.** The invariant `StatsSys.Inv` along the run. -/
theorem StatsRun.conserved {nserver : List ℕ} (h : StatsRun nserver s) {m : Metric}
    (hm : m ∈ metrics nserver) :
    (m.type ≠ .timestamp →
      s.st.sum m + (if s.pending m then s.st.shadow m else 0) +
        (if s.main = .resetting then 0 else s.st.current m) = s.total m) ∧
    (m.type = .timestamp → s.st.sum m = latest m (s.aggregated m)) ∧
    (s.main = .idle → s.st.aggregate = false → s.pending m = false) := by
  have hi := h.inv
  refine ⟨hi.count m hm, hi.sum m hm, ?_⟩
  intro hmain hagg
  simp [StatsSys.pending, hmain, hagg]

/-- A pool of one server whose client has left: counted, swapped, and counted again. -/
def leftAgain : StatsSys :=
  { st := (({} : Stats).incrBy (.pool 0 .clientEof) 1).swap.incrBy (.pool 0 .clientEof) 1
    total := setMetric (.pool 0 .clientEof) (1 + 1)
      (setMetric (.pool 0 .clientEof) (0 + 1) fun _ => 0)
    closed := [[]] }

/-- The steps are a run. -/
lemma leftAgain_run : StatsRun [1] leftAgain := by
  have hm : Metric.pool 0 .clientEof ∈ metrics [1] := by decide
  have hfirst : StatsRun [1] _ := .single (.incrBy (.pool 0 .clientEof) 1 rfl hm (by decide))
  have hswap := hfirst.trans (StatsSys.swap_steps (metrics [1]) rfl)
  have hsecond := hswap.tail (.incrBy (.pool 0 .clientEof) 1 rfl hm (by decide))
  exact hsecond

/-- Two clients have left, one before the swap and one after it. -/
theorem leftAgain_conserved :
    StatsRun [1] leftAgain ∧ Metric.pool 0 .clientEof ∈ metrics [1] ∧
      leftAgain.total (.pool 0 .clientEof) = 2 ∧
      leftAgain.st.sum (.pool 0 .clientEof) +
        (if leftAgain.pending (.pool 0 .clientEof) then leftAgain.st.shadow (.pool 0 .clientEof)
          else 0) + leftAgain.st.current (.pool 0 .clientEof) = 2 := by
  have hm : Metric.pool 0 .clientEof ∈ metrics [1] := by decide
  have htotal : leftAgain.total (.pool 0 .clientEof) = 2 := by decide
  refine ⟨leftAgain_run, hm, htotal, ?_⟩
  have h := (leftAgain_run.conserved hm).1 (by decide)
  rw [htotal] at h
  exact h

end GfwProxy
