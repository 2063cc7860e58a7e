import Mathlib.Data.List.TakeWhile
import GfwProxy.Conf.Validate

set_option autoImplicit false

/-!
# The validator and the parser agree

On a document that `conf_validate_structure` accepts, `conf_parse` (`gf_conf.c`) calls
`conf_handler` as the configuration says, unless it has to stop, as long as the strings that it
reads are copied whole: `string_copy` copies with `strndup`, which stops at a null byte, but sets
the length of the source and writes the terminator behind it.

## Main definitions

* `GfwProxy.Agrees` — what parsing a validated document is to do.
* `GfwProxy.Whole`, `GfwProxy.Clean` — the strings that are copied whole, and the documents in
  which those are that the parser reads before it stops.

## Main results

* `GfwProxy.confParse_agrees_iff` — parsing a validated document does what it is to do exactly if
  the strings that it reads are copied whole.

## Design

The parser is followed scalar by scalar.  Each lemma about a part of the document is an equivalence
that holds whatever follows, so that both directions of the result are one induction.
-/

namespace GfwProxy

/-- The scalars of a stream. -/
def scalars (es : List YamlEvent) : List (List UInt8) :=
  es.filterMap fun e => match e with
    | .scalar value => some value
    | _ => none

/-- The reasons to stop: the scalar in front of the remaining events is empty, the last call of
`conf_handler` was rejected, or an allocation failed. -/
inductive Stopped (env : ConfEnv) (es₀ : List YamlEvent) :
    Rstatus → Conf → List YamlEvent → Prop
  | empty {cf : Conf} {pre es : List YamlEvent} (h : es₀ = pre ++ .scalar [] :: es) :
      Stopped env es₀ .error cf es
  | rejected {status : Rstatus} {cf : Conf} {es : List YamlEvent} {hist : List Call} {c : Call}
      (h : cf.calls = hist ++ [c]) (hv : env.verdict hist c = status) : Stopped env es₀ status cf es
  | strdup {cf : Conf} {es : List YamlEvent} {t : ℕ} (h : env.strdup t = false) :
      Stopped env es₀ .enomem cf es
  | poolAlloc {cf : Conf} {es : List YamlEvent} {n : ℕ} (h : env.poolAlloc n = false) :
      Stopped env es₀ .enomem cf es

/-- What parsing the stream `es₀` of a configuration with the calls `total` is to do: no assertion
is violated; `arg` holds at most three strings; the strings that are pushed are the scalars, and the
calls of `conf_handler` those of the configuration, in order; if the parser finishes, all calls were
made, and `depth`, `seq` and `arg` are as at the start; otherwise there is a reason to stop. -/
def Agrees (env : ConfEnv) (total : List Call) (es₀ : List YamlEvent)
    (r : Except ConfFault (Rstatus × Conf × List YamlEvent)) : Prop :=
  ∃ status cf es, r = .ok (status, cf, es) ∧ cf.peak ≤ 3 ∧ cf.stored <+: scalars es₀ ∧
    cf.calls <+: total ∧
    (status = .ok → cf.calls = total ∧ cf.depth = 0 ∧ cf.seq = false ∧ cf.arg = []) ∧
    (status ≠ .ok → Stopped env es₀ status cf es)

/-- The string is copied whole. -/
def Whole (v : List UInt8) : Prop := v.length < 2 ^ 32 - 1 ∧ 0 ∉ v

/-- A scalar as it is read: the key of a directive, or the scalar that completes a call. -/
inductive Item
  | key (value : List UInt8)
  | call (c : Call)
  deriving DecidableEq, Repr

/-- The scalars of the directives of a pool. -/
def entriesItems (pool : ℕ) (entries : List (List UInt8 × ConfValue)) : List Item :=
  entries.flatMap fun e => .key e.1 :: (valueCalls pool e.1 e.2).map .call

/-- The scalars of a configuration. -/
def poolsItems : ℕ → List ConfPool → List Item
  | _, [] => []
  | pool, p :: ps =>
    .call ⟨pool, none, p.name⟩ :: (entriesItems pool p.entries ++ poolsItems (pool + 1) ps)

/-- The scalar is empty, or it is copied whole and then `next` holds, unless there is no memory for
the copy.  (The length is cut to 32 bits before it is compared with 0.) -/
def Copied (env : ConfEnv) (t : ℕ) (v : List UInt8) (next : Prop) : Prop :=
  v = [] ∨ (u32 v.length ≠ 0 ∧ (env.strdup t = true → Whole v ∧ next))

/-- Equivalent statements about what follows a copy. -/
lemma copied_congr {env : ConfEnv} {t : ℕ} {v : List UInt8} {a b : Prop} (h : a ↔ b) :
    Copied env t v a ↔ Copied env t v b := by
  unfold Copied
  rw [h]

/-- The array of pools has room for the pool of the call, if it names one. -/
def ConfEnv.poolFits (env : ConfEnv) (c : Call) : Bool :=
  c.key.isSome || c.pool < confDefaultPool || env.poolAlloc c.pool

/-- The scalars that the parser reads are copied whole: all of them, or those up to the one at which
the parser stops because it is empty, because there is no memory, or because its call is
rejected. -/
def Clean (env : ConfEnv) : List Item → List Call → ℕ → Prop
  | [], _, _ => True
  | .key v :: is, hist, t => Copied env t v (Clean env is hist (t + 1))
  | .call c :: is, hist, t =>
    Copied env t c.value (env.poolFits c = true → env.verdict hist c = .ok →
      Clean env is (hist ++ [c]) (t + 1))

/-! ## Copying a string -/

/-- A text without a null byte is its part before the first null byte. -/
lemma takeWhile_eq_self {v : List UInt8} (h : 0 ∉ v) : v.takeWhile (· ≠ 0) = v := by
  rw [List.takeWhile_eq_self_iff]
  intro x hx
  have hne : x ≠ 0 := by
    rintro rfl
    exact h hx
  simpa using hne

/-- A text without a null byte is copied as a whole. -/
lemma stringCopy_whole {v : List UInt8} (h : Whole v) : stringCopy v (u32 v.length) = .ok v := by
  have hlen : u32 v.length = v.length := Nat.mod_eq_of_lt (lt_of_lt_of_le h.1 (by decide))
  have hnext : u32 (v.length + 1) = v.length + 1 := Nat.mod_eq_of_lt (by have := h.1; omega)
  unfold stringCopy
  rw [hlen, hnext, List.take_of_length_le (Nat.le_succ _), takeWhile_eq_self h.2]
  simp

/-- A string that is not copied whole is cut, or the terminator is written outside its block. -/
lemma whole_of_stringCopy {v : List UInt8} (h : stringCopy v (u32 v.length) = .ok v) : Whole v := by
  unfold stringCopy at h
  generalize hdata : (v.take (u32 (u32 v.length + 1))).takeWhile (· ≠ 0) = data at h
  by_cases hle : u32 v.length ≤ data.length
  case neg =>
    simp only [if_neg hle] at h
    cases h
  simp only [if_pos hle, Except.ok.injEq] at h
  have hpre : data <+: v.take (u32 (u32 v.length + 1)) := hdata ▸ List.takeWhile_prefix _
  constructor
  · -- the length is not cut, and the number of bytes to copy does not wrap to 0
    have htake := congrArg List.length h
    rw [List.length_take, Nat.min_eq_left hle] at htake
    have hcopy := hpre.length_le
    rw [List.length_take] at hcopy
    unfold u32 at htake hle hcopy
    omega
  · intro hzero
    rw [← h] at hzero
    have hmem := List.mem_of_mem_take hzero
    rw [← hdata] at hmem
    simpa using List.mem_takeWhile_imp hmem

/-- What `conf_push_scalar` leaves of the fields that it does not set for good. -/
def Conf.pushed (cf : Conf) (v : List UInt8) : Conf :=
  { cf with
    arg := cf.arg ++ [v], tick := cf.tick + 1, stored := cf.stored ++ [v]
    peak := max cf.peak (cf.arg.length + 1) }

variable {env : ConfEnv} {total : List Call} {es₀ es es' : List YamlEvent} {cf cf' : Conf}
  {data : Option ℕ} {v : List UInt8}

/-- An empty scalar is refused. -/
lemma confPushScalar_empty (h : u32 v.length = 0) :
    confPushScalar env v cf = .ok (.error, cf) := by
  unfold confPushScalar
  rw [if_pos h]
  rfl

/-- A scalar for which there is no memory has taken an element of the array. -/
lemma confPushScalar_enomem (h : u32 v.length ≠ 0) (harg : cf.arg.length < 3)
    (ht : env.strdup cf.tick = false) :
    ∃ cf', confPushScalar env v cf = .ok (.enomem, cf') ∧
      cf' = { cf with peak := max cf.peak (cf.arg.length + 1), tick := cf.tick + 1 } := by
  have hpush : pushArg env [] cf = (true, { cf with
      arg := cf.arg ++ [[]], peak := max cf.peak (cf.arg.length + 1) }) := by
    unfold pushArg confDefaultArgs
    rw [if_neg (by omega)]
  unfold confPushScalar
  rw [if_neg h, hpush, ht]
  exact ⟨_, rfl, rfl⟩

/-- A scalar for which there is memory is copied. -/
lemma confPushScalar_copy (h : u32 v.length ≠ 0) (harg : cf.arg.length < 3)
    (ht : env.strdup cf.tick = true) :
    confPushScalar env v cf = (stringCopy v (u32 v.length)).map fun s => (.ok, cf.pushed s) := by
  have hpush : ∀ s, pushArg env s cf = (true, { cf with
      arg := cf.arg ++ [s], peak := max cf.peak (cf.arg.length + 1) }) := by
    intro s
    unfold pushArg confDefaultArgs
    rw [if_neg (by omega)]
  unfold confPushScalar
  simp only [if_neg h, hpush, ht]
  cases stringCopy v (u32 v.length) with
  | error e => rfl
  | ok s => rfl

/-! ## What is pushed stays pushed -/

/-- Taking a scalar off the array stores nothing. -/
lemma confPopScalar_stored (h : confPopScalar cf = .ok cf') : cf'.stored = cf.stored := by
  unfold confPopScalar at h
  split at h
  · cases h
  · cases h
    rfl

/-- The handlers of the commands store nothing in the array. -/
lemma confHandler_stored {status : Rstatus} (h : confHandler env data cf = .ok (status, cf')) :
    cf'.stored = cf.stored := by
  unfold confHandler at h
  cases hc : handlerCall data cf.arg with
  | error e =>
    rw [hc] at h
    cases h
  | ok c =>
    rw [hc] at h
    cases h
    rfl

/-- A sequence succeeds if both parts do. -/
lemma ok_of_bind {α β : Type} {x : Except ConfFault α} {f : α → Except ConfFault β} {b : β}
    (h : (x >>= f) = .ok b) : ∃ a, x = .ok a ∧ f a = .ok b := by
  cases x with
  | error e => cases h
  | ok a => exact ⟨a, rfl, h⟩

/-- A leaf of the document stores nothing more than its scalar. -/
lemma confParseLeaf_stored {next : ConfNext} (h : confParseLeaf env data cf = .ok (next, cf')) :
    cf'.stored = cf.stored := by
  obtain ⟨⟨status, cf₁⟩, h₁, h⟩ := ok_of_bind h
  obtain ⟨cf₂, h₂, h⟩ := ok_of_bind h
  cases h
  obtain ⟨cf₃, h₃, h₂⟩ := ok_of_bind h₂
  have hpop : cf'.stored = cf₃.stored := by
    split at h₂
    · cases h₂
      rfl
    · exact confPopScalar_stored h₂
  exact hpop.trans ((confPopScalar_stored h₃).trans (confHandler_stored h₁))

/-- The start of a pool stores nothing. -/
lemma confParsePool_stored {next : ConfNext} (h : confParsePool env cf = .ok (next, cf')) :
    cf'.stored = cf.stored := by
  unfold confParsePool at h
  split at h
  · cases h
    rfl
  · obtain ⟨⟨status, cf₁⟩, h₁, h⟩ := ok_of_bind h
    cases h
    have hstored := confHandler_stored h₁
    exact hstored

/-- What follows the copy of a scalar stores nothing. -/
lemma confParsePushed_stored {next : ConfNext} (h : confParsePushed env data cf = .ok (next, cf')) :
    cf'.stored = cf.stored := by
  unfold confParsePushed at h
  split_ifs at h
  · exact confParseLeaf_stored h
  · exact confParsePool_stored h
  · exact confParseLeaf_stored h
  · cases h
    rfl

/-- A scalar is stored behind the others. -/
lemma confPushScalar_stored {status : Rstatus} (h : confPushScalar env v cf = .ok (status, cf')) :
    cf.stored <+: cf'.stored := by
  have hpush : ∀ s, (pushArg env s cf).2.stored = cf.stored := by
    intro s
    unfold pushArg
    split <;> rfl
  unfold confPushScalar at h
  dsimp only at h
  split_ifs at h
  · cases h
    exact List.prefix_rfl
  · cases h
    exact List.prefix_rfl
  · cases h
    exact (hpush []).symm ▸ List.prefix_rfl
  · obtain ⟨s, -, h⟩ := ok_of_bind h
    cases h
    exact List.prefix_append _ _

/-- An event stores at most one scalar, behind the others. -/
lemma confParseEvent_stored {e : YamlEvent} {next : ConfNext}
    (h : confParseEvent env data cf e = .ok (next, cf')) : cf.stored <+: cf'.stored := by
  cases e with
  | mappingEnd =>
    unfold confParseEvent at h
    dsimp only at h
    split_ifs at h
    · obtain ⟨cf₁, h₁, h⟩ := ok_of_bind h
      cases h
      have hstored := confPopScalar_stored h₁
      exact hstored ▸ List.prefix_rfl
    · cases h
      exact List.prefix_rfl
    · cases h
      exact List.prefix_rfl
  | mappingStart =>
    cases h
    exact List.prefix_rfl
  | sequenceStart =>
    cases h
    exact List.prefix_rfl
  | sequenceEnd =>
    obtain ⟨cf₁, h₁, h⟩ := ok_of_bind h
    cases h
    exact (confPopScalar_stored h₁).symm ▸ List.prefix_rfl
  | scalar v =>
    obtain ⟨⟨status, cf₁⟩, h₁, h⟩ := ok_of_bind h
    have hpre := confPushScalar_stored h₁
    dsimp only at h
    split_ifs at h
    · cases h
      exact hpre
    · rwa [confParsePushed_stored h]
  | _ => cases h

/-- What `conf_parse_core` does with the result of its body. -/
def confResume (env : ConfEnv) (es : List YamlEvent) :
    ConfNext × Conf → Except ConfFault (Rstatus × Conf × List YamlEvent)
  | (.ret status, cf) => .ok (status, cf, es)
  | (.again data, cf) => confParseCore env data cf es

/-- The parser handles one event, and goes on with the others. -/
lemma confParseCore_cons (hsound : cf.sound = true) (e : YamlEvent) :
    confParseCore env data cf (e :: es) = confParseEvent env data cf e >>= confResume env es := by
  rw [confParseCore, hsound]
  cases confParseEvent env data cf e with
  | error fault => rfl
  | ok r =>
    obtain ⟨next, cf'⟩ := r
    cases next <;> rfl

/-- The parser stores scalars only behind those that are there. -/
lemma confParseCore_stored {status : Rstatus} {es' : List YamlEvent}
    (h : confParseCore env data cf es = .ok (status, cf', es')) : cf.stored <+: cf'.stored := by
  induction es generalizing data cf with
  | nil => cases h
  | cons e es ih =>
    cases hsound : cf.sound with
    | false =>
      rw [confParseCore, hsound] at h
      cases h
    | true =>
      rw [confParseCore_cons hsound] at h
      obtain ⟨⟨next, cf₁⟩, h₁, h⟩ := ok_of_bind h
      have hpre := confParseEvent_stored h₁
      cases next with
      | ret status =>
        cases h
        exact hpre
      | again data => exact hpre.trans (ih h)

/-! ## Following the parser -/

/-- `conf_parse` behind `conf_parse_core`. -/
def confFinish :
    Rstatus × Conf × List YamlEvent → Except ConfFault (Rstatus × Conf × List YamlEvent)
  | (status, cf, es) => do
    if status ≠ .ok then return (status, cf, es)
    else
      let es ← confEndParse cf es
      return (.ok, { cf with parsed := true }, es)

/-- A failure of the parser is its result. -/
lemma confFinish_of_ne {status : Rstatus} (h : status ≠ .ok) :
    confFinish (status, cf, es) = .ok (status, cf, es) :=
  if_pos h

/-- Going on with `es` does what parsing is to do. -/
def GoesOn (env : ConfEnv) (total : List Call) (es₀ : List YamlEvent) (data : Option ℕ) (cf : Conf)
    (es : List YamlEvent) : Prop :=
  Agrees env total es₀ (confParseCore env data cf es >>= confFinish)

/-- The parser in front of the events `es`: what holds of its state wherever it is in the
document. -/
structure At (env : ConfEnv) (total : List Call) (es₀ : List YamlEvent) (cf : Conf)
    (es : List YamlEvent) : Prop where
  sound : cf.sound = true
  parsed : cf.parsed = false
  peak : cf.peak ≤ 3
  stored : ∃ pre, es₀ = pre ++ es ∧ cf.stored = scalars pre
  calls : cf.calls <+: total
  accepted : ∀ hist c, cf.calls = hist ++ [c] → env.verdict hist c = .ok

/-- The scalars of two streams, one after the other. -/
lemma scalars_append (es es' : List YamlEvent) : scalars (es ++ es') = scalars es ++ scalars es' :=
  List.filterMap_append

/-- What was pushed are the first scalars of the stream. -/
lemma At.stored_prefix (h : At env total es₀ cf es) : cf.stored <+: scalars es₀ := by
  obtain ⟨pre, rfl, hstored⟩ := h.stored
  rw [hstored, scalars_append]
  exact List.prefix_append _ _

/-- A run that goes on from a pushed scalar keeps what was pushed. -/
lemma pushed_stored {status : Rstatus}
    (h : ((confParsePushed env data cf >>= confResume env es) >>= confFinish) = .ok
      (status, cf', es')) :
    cf.stored <+: cf'.stored := by
  obtain ⟨⟨status₂, cf₂, es₂⟩, h₂, h⟩ := ok_of_bind h
  obtain ⟨⟨next, cf₁⟩, h₁, h₂⟩ := ok_of_bind h₂
  have hstored₁ := confParsePushed_stored h₁
  have hstored₂ : cf₁.stored <+: cf₂.stored := by
    cases next with
    | ret status =>
      cases h₂
      exact List.prefix_rfl
    | again data => exact confParseCore_stored h₂
  have hstored₃ : cf'.stored = cf₂.stored := by
    unfold confFinish at h
    dsimp only at h
    split_ifs at h
    · cases h
      rfl
    · obtain ⟨es₃, -, h⟩ := ok_of_bind h
      cases h
      rfl
  rw [hstored₃, ← hstored₁]
  exact hstored₂

/-- The parser goes on with a scalar. -/
lemma goesOn_scalar_eq (hsound : cf.sound = true) :
    GoesOn env total es₀ data cf (.scalar v :: es) ↔
      Agrees env total es₀ (((confParseScalar env v data cf) >>= confResume env es) >>=
        confFinish) := by
  unfold GoesOn
  rw [confParseCore_cons hsound]
  rfl

/-- **One scalar**: it is empty, or it is copied whole unless there is no memory for the copy.

**Proof sketch.** The scalar is pushed, and what is done with it depends on the depth, on the
sequence flag and on the number of strings that are pushed by then. -/
theorem goesOn_scalar (h : At env total es₀ cf (.scalar v :: es)) (harg : cf.arg.length < 3) :
    GoesOn env total es₀ data cf (.scalar v :: es) ↔ Copied env cf.tick v
      (Agrees env total es₀ ((confParsePushed env data (cf.pushed v) >>= confResume env es) >>=
        confFinish)) := by
  unfold Copied
  obtain ⟨pre, hes₀, hstored⟩ := h.stored
  rw [goesOn_scalar_eq h.sound]
  unfold confParseScalar
  by_cases hu : u32 v.length = 0
  · rw [confPushScalar_empty hu]
    simp only [hu, ne_eq, not_true_eq_false, false_and, or_false]
    constructor
    · rintro ⟨status, cf', es', hr, -, -, -, -, hstop⟩
      cases hr
      -- of the reasons to stop only the empty scalar is left
      cases hstop nofun with
      | empty h' =>
        have hcons := (List.append_inj' (hes₀.symm.trans h') rfl).2
        cases hcons
        rfl
      | rejected h' hv =>
        rw [h.accepted _ _ h'] at hv
        cases hv
    · rintro rfl
      refine ⟨.error, cf, es, rfl, h.peak, h.stored_prefix, h.calls, nofun, fun _ => ?_⟩
      exact .empty hes₀
  have hv : v ≠ [] := by
    rintro rfl
    exact hu rfl
  simp only [hv, hu, ne_eq, not_false_eq_true, true_and, false_or]
  cases ht : env.strdup cf.tick with
  | false =>
    obtain ⟨cf', hpush, hcf'⟩ := confPushScalar_enomem hu harg ht
    rw [hpush]
    refine iff_of_true ⟨.enomem, cf', es, rfl, ?_, ?_, ?_, nofun, fun _ => .strdup ht⟩ nofun
    · rw [hcf']
      exact max_le h.peak harg
    · rw [hcf']
      exact h.stored_prefix
    · rw [hcf']
      exact h.calls
  | true =>
    rw [confPushScalar_copy hu harg ht]
    cases hcopy : stringCopy v (u32 v.length) with
    | error e =>
      refine iff_of_false ?_ fun hwhole => ?_
      · rintro ⟨status, cf', es', hr, -⟩
        cases hr
      · rw [stringCopy_whole (hwhole rfl).1] at hcopy
        cases hcopy
    | ok s =>
      by_cases hs : s = v
      · rw [hs] at hcopy ⊢
        have hwhole := whole_of_stringCopy hcopy
        simp only [hwhole, forall_const, true_and]
        rfl
      · refine iff_of_false ?_ fun hwhole => ?_
        · rintro ⟨status, cf', es', hr, -, hpre, -⟩
          have hmono : cf.stored ++ [s] <+: scalars es₀ := (pushed_stored hr).trans hpre
          rw [hes₀, scalars_append, hstored, List.prefix_append_right_inj] at hmono
          exact hs (List.cons_prefix_cons.mp hmono).1
        · rw [stringCopy_whole (hwhole rfl).1] at hcopy
          cases hcopy
          exact hs rfl

/-- The position behind a scalar that was copied. -/
lemma At.pushed (h : At env total es₀ cf (.scalar v :: es)) (harg : cf.arg.length < 3) :
    (cf.pushed v).peak ≤ 3 ∧ ∃ pre, es₀ = pre ++ es ∧ (cf.pushed v).stored = scalars pre := by
  obtain ⟨pre, hes₀, hstored⟩ := h.stored
  refine ⟨max_le h.peak harg, pre ++ [.scalar v], by simpa using hes₀, ?_⟩
  rw [scalars_append, ← hstored]
  rfl

/-- A call of `conf_handler`, behind which the parser goes on with `cf'`. -/
lemma agrees_call {c : Call} {data' : Option ℕ} (h : At env total es₀ cf (.scalar v :: es))
    (harg : cf.arg.length < 3) (htotal : cf.calls ++ [c] <+: total)
    (hcf' : cf'.calls = cf.calls ++ [c] ∧ cf'.peak = (cf.pushed v).peak ∧
      cf'.stored = (cf.pushed v).stored ∧ cf'.sound = cf.sound ∧ cf'.parsed = cf.parsed) :
    (Agrees env total es₀ ((confResume env es (if env.verdict cf.calls c ≠ .ok then
        .ret (env.verdict cf.calls c) else .again data', cf')) >>= confFinish) ↔
      (env.verdict cf.calls c = .ok → GoesOn env total es₀ data' cf' es)) ∧
    (env.verdict cf.calls c = .ok → At env total es₀ cf' es) := by
  obtain ⟨hcalls, hpeak, hstored, hsound, hparsed⟩ := hcf'
  obtain ⟨hpeak₃, pre, hes₀, hpre⟩ := h.pushed harg
  constructor
  · by_cases hv : env.verdict cf.calls c = .ok
    · rw [if_neg (not_not.mpr hv)]
      simp only [hv, forall_const]
      rfl
    · rw [if_pos hv]
      refine iff_of_true ?_ fun hok => absurd hok hv
      refine ⟨env.verdict cf.calls c, cf', es, ?_, ?_, ?_, ?_, fun hok => absurd hok hv,
        fun _ => ?_⟩
      · exact confFinish_of_ne hv
      · rw [hpeak]
        exact hpeak₃
      · rw [hstored, hpre, hes₀, scalars_append]
        exact List.prefix_append _ _
      · rwa [hcalls]
      · exact .rejected hcalls rfl
  · intro hv
    refine ⟨hsound.trans h.sound, hparsed.trans h.parsed, hpeak ▸ hpeak₃,
      ⟨pre, hes₀, hstored.trans hpre⟩, hcalls ▸ htotal, ?_⟩
    intro hist c' hc'
    rw [hcalls] at hc'
    obtain ⟨rfl, hcons⟩ := List.append_inj' hc' rfl
    cases hcons
    exact hv

/-! ## The parts of a document -/

/-- The parser among the directives of pool `pool`, with the strings `arg`. -/
structure Inside (pool : ℕ) (arg : List (List UInt8)) (seq : Bool) (cf : Conf) : Prop where
  depth : cf.depth = 2
  arg : cf.arg = arg
  seq : cf.seq = seq
  npool : cf.npool = pool + 1

/-- The parser between two pools, in front of pool `pool`. -/
structure Outside (pool : ℕ) (cf : Conf) : Prop where
  depth : cf.depth = 1
  arg : cf.arg = []
  seq : cf.seq = false
  npool : cf.npool = pool

/-- From every state with `P` that has made the calls `calls`, going on with `es` does what parsing
is to do exactly if the scalars `is` of `es` are copied whole. -/
def Follows (env : ConfEnv) (total : List Call) (es₀ : List YamlEvent) (data : Option ℕ)
    (P : Conf → Prop) (calls : List Call) (es : List YamlEvent) (is : List Item) : Prop :=
  ∀ cf, At env total es₀ cf es → P cf → cf.calls = calls →
    (GoesOn env total es₀ data cf es ↔ Clean env is cf.calls cf.tick)

variable {calls : List Call} {pool : ℕ} {p k : List UInt8} {seq : Bool} {is : List Item}
  {P Q : Conf → Prop}

/-- The value of a directive. -/
lemma follows_leaf (htotal : calls ++ [⟨pool, some k, v⟩] <+: total)
    (hrest : Follows env total es₀ (some pool) (Inside pool (if seq then [p, k] else [p]) seq)
      (calls ++ [⟨pool, some k, v⟩]) es is) :
    Follows env total es₀ (some pool) (Inside pool [p, k] seq) calls (.scalar v :: es)
      (.call ⟨pool, some k, v⟩ :: is) := by
  intro cf h hin hcalls
  subst hcalls
  have harg : cf.arg.length < 3 := by
    rw [hin.arg]
    exact Nat.lt_succ_self 2
  let c : Call := ⟨pool, some k, v⟩
  let cf' : Conf := { cf.pushed v with
    calls := cf.calls ++ [c], arg := if seq then [p, k] else [p] }
  have hleaf : confParsePushed env (some pool) (cf.pushed v) =
      .ok (if env.verdict cf.calls c ≠ .ok then
      .ret (env.verdict cf.calls c) else .again (some pool), cf') := by
    rcases cf with ⟨_, _, _, seq', _⟩
    obtain ⟨rfl, rfl, rfl, rfl⟩ := hin
    cases seq' <;> rfl
  obtain ⟨hiff, hat⟩ :=
    @agrees_call _ _ _ _ cf cf' v c (some pool) h harg htotal ⟨rfl, rfl, rfl, rfl, rfl⟩
  rw [goesOn_scalar h harg, hleaf, Clean]
  have hnext := fun hv => hrest cf' (hat hv) ⟨hin.depth, rfl, hin.seq, hin.npool⟩ rfl
  refine copied_congr (hiff.trans ⟨fun hg _ hv => (hnext hv).mp (hg hv), fun hg hv => ?_⟩)
  exact (hnext hv).mpr (hg rfl hv)

/-- The key of a directive. -/
lemma follows_key
    (hrest : Follows env total es₀ (some pool) (Inside pool [p, k] false) calls es is) :
    Follows env total es₀ (some pool) (Inside pool [p] false) calls (.scalar k :: es)
      (.key k :: is) := by
  intro cf h hin hcalls
  have harg : cf.arg.length < 3 := by
    rw [hin.arg]
    exact show 1 < 3 by decide
  obtain ⟨hpeak, hstored⟩ := h.pushed harg
  have hat : At env total es₀ (cf.pushed k) es :=
    ⟨h.sound, h.parsed, hpeak, hstored, h.calls, h.accepted⟩
  have hkey : confParsePushed env (some pool) (cf.pushed k) =
      .ok (.again (some pool), cf.pushed k) := by
    cases cf
    obtain ⟨rfl, rfl, rfl, rfl⟩ := hin
    rfl
  rw [goesOn_scalar h harg, hkey, Clean]
  refine copied_congr ?_
  refine hrest _ hat ⟨hin.depth, ?_, hin.seq, hin.npool⟩ hcalls
  exact congrArg (· ++ [k]) hin.arg

/-- `conf_parse_core` at the name of a pool. -/
lemma confParsePool_eq (cf : Conf) (harg : cf.arg = [p]) :
    confParsePool env cf = if env.poolFits ⟨cf.npool, none, p⟩ then
      .ok (if env.verdict cf.calls ⟨cf.npool, none, p⟩ ≠ .ok then
          .ret (env.verdict cf.calls ⟨cf.npool, none, p⟩) else .again (some cf.npool),
        { cf with npool := cf.npool + 1, calls := cf.calls ++ [⟨cf.npool, none, p⟩] })
      else .ok (.ret .enomem, cf) := by
  rcases cf with ⟨arg, npool, _, _, _⟩
  obtain rfl : arg = [p] := harg
  unfold confParsePool
  by_cases hfull : npool ≥ confDefaultPool ∧ !env.poolAlloc npool
  · have hfits : env.poolFits ⟨npool, none, p⟩ = false := by
      simpa [ConfEnv.poolFits] using hfull
    rw [if_pos hfull, hfits]
    rfl
  · have hfits : env.poolFits ⟨npool, none, p⟩ = true := by
      simpa [ConfEnv.poolFits, or_iff_not_imp_left] using hfull
    rw [if_neg hfull, if_pos hfits]
    rfl

/-- The parser behind the name `p` of pool `pool`. -/
structure Named (pool : ℕ) (p : List UInt8) (cf : Conf) : Prop where
  depth : cf.depth = 1
  arg : cf.arg = [p]
  seq : cf.seq = false
  npool : cf.npool = pool + 1

/-- The name of a pool. -/
lemma follows_name (htotal : calls ++ [⟨pool, none, p⟩] <+: total)
    (hrest : Follows env total es₀ (some pool) (Named pool p) (calls ++ [⟨pool, none, p⟩]) es is) :
    Follows env total es₀ data (Outside pool) calls (.scalar p :: es)
      (.call ⟨pool, none, p⟩ :: is) := by
  intro cf h hout hcalls
  subst hcalls
  have harg : cf.arg.length < 3 := by
    rw [hout.arg]
    exact show 0 < 3 by decide
  let c : Call := ⟨pool, none, p⟩
  let cf' : Conf := { cf.pushed p with calls := cf.calls ++ [c], npool := pool + 1 }
  obtain ⟨hiff, hat⟩ :=
    @agrees_call _ _ _ _ cf cf' p c (some pool) h harg htotal ⟨rfl, rfl, rfl, rfl, rfl⟩
  have hnext := fun hv =>
    hrest cf' (hat hv) ⟨hout.depth, congrArg (· ++ [p]) hout.arg, hout.seq, rfl⟩ rfl
  rw [goesOn_scalar h harg, Clean]
  refine copied_congr ?_
  have hpool : confParsePushed env data (cf.pushed p) = if env.poolFits c then
      .ok (if env.verdict cf.calls c ≠ .ok then .ret (env.verdict cf.calls c)
        else .again (some pool), cf')
      else .ok (.ret .enomem, cf.pushed p) := by
    rcases cf with ⟨_, _, _, _, _⟩
    obtain ⟨rfl, rfl, rfl, rfl⟩ := hout
    exact confParsePool_eq _ rfl
  rw [hpool]
  cases hfits : env.poolFits c with
  | false =>
    -- there is no memory for the pool
    refine iff_of_true ?_ nofun
    obtain ⟨hpeak, pre, hes₀, hpre⟩ := h.pushed harg
    have halloc : env.poolAlloc pool = false := (Bool.or_eq_false_iff.mp hfits).2
    refine ⟨.enomem, cf.pushed p, es, rfl, hpeak, ?_, h.calls, nofun, fun _ => .poolAlloc halloc⟩
    rw [hpre, hes₀, scalars_append]
    exact List.prefix_append _ _
  | true =>
    rw [if_pos rfl]
    exact hiff.trans ⟨fun hg _ hv => (hnext hv).mp (hg hv), fun hg hv => (hnext hv).mpr (hg rfl hv)⟩

/-- The start or the end of a mapping or a sequence. -/
lemma follows_event {e : YamlEvent} (he : scalars [e] = [])
    (hstep : ∀ cf, P cf → ∃ arg depth seq,
      confParseEvent env data cf e = .ok (.again data, { cf with arg, depth, seq }) ∧
        Q { cf with arg, depth, seq })
    (hrest : Follows env total es₀ data Q calls es is) :
    Follows env total es₀ data P calls (e :: es) is := by
  intro cf h hP hcalls
  obtain ⟨arg, depth, seq, hevent, hQ⟩ := hstep cf hP
  obtain ⟨pre, hes₀, hstored⟩ := h.stored
  have hat : At env total es₀ { cf with arg, depth, seq } es := by
    refine { h with stored := ⟨pre ++ [e], by simpa using hes₀, ?_⟩ }
    rw [scalars_append, he, List.append_nil]
    exact hstored
  have hgoes : GoesOn env total es₀ data cf (e :: es) ↔
      GoesOn env total es₀ data { cf with arg, depth, seq } es := by
    unfold GoesOn
    rw [confParseCore_cons h.sound, hevent]
    rfl
  exact hgoes.trans (hrest _ hat hQ hcalls)

/-! ## The document -/

/-- The elements of a sequence. -/
lemma follows_elems (values : List (List UInt8)) :
    ∀ {calls : List Call}, calls ++ (values.map fun v => ⟨pool, some k, v⟩) <+: total →
    Follows env total es₀ (some pool) (Inside pool [p, k] true)
      (calls ++ values.map fun v => ⟨pool, some k, v⟩) es is →
    Follows env total es₀ (some pool) (Inside pool [p, k] true) calls
      (elemsEvents (values.map .scalar) ++ es)
      ((values.map fun v => .call ⟨pool, some k, v⟩) ++ is) := by
  induction values with
  | nil =>
    intro calls _ hrest
    rwa [List.map_nil, List.append_nil] at hrest
  | cons v values ih =>
    intro calls htotal hrest
    rw [List.map_cons, List.append_cons] at htotal hrest
    exact follows_leaf ((List.prefix_append _ _).trans htotal) (ih htotal hrest)

/-- The value of a directive, a scalar or a sequence. -/
lemma follows_value (value : ConfValue) (htotal : calls ++ valueCalls pool k value <+: total)
    (hrest : Follows env total es₀ (some pool) (Inside pool [p] false)
      (calls ++ valueCalls pool k value) es is) :
    Follows env total es₀ (some pool) (Inside pool [p, k] false) calls (value.node.events ++ es)
      ((valueCalls pool k value).map .call ++ is) := by
  cases value with
  | scalar v => exact follows_leaf htotal hrest
  | sequence values =>
    have hend : Follows env total es₀ (some pool) (Inside pool [p, k] true)
        (calls ++ valueCalls pool k (.sequence values)) (.sequenceEnd :: es) is := by
      refine follows_event rfl (fun cf hin => ⟨[p], 2, false, ?_, rfl, rfl, rfl, hin.npool⟩) hrest
      cases cf
      obtain ⟨rfl, rfl, rfl, rfl⟩ := hin
      rfl
    have helems := follows_elems values htotal hend
    have hstart : Follows env total es₀ (some pool) (Inside pool [p, k] false) calls
        (.sequenceStart :: (elemsEvents (values.map .scalar) ++ .sequenceEnd :: es))
        ((values.map fun v => .call ⟨pool, some k, v⟩) ++ is) := by
      refine follows_event rfl (fun cf hin => ⟨[p, k], 2, true, ?_, rfl, rfl, rfl, hin.npool⟩)
        helems
      cases cf
      obtain ⟨rfl, rfl, rfl, rfl⟩ := hin
      rfl
    simpa [ConfValue.node, Node.events, valueCalls, Function.comp_def] using hstart

/-- The directives of a pool. -/
lemma follows_entries (entries : List (List UInt8 × ConfValue)) :
    ∀ {calls : List Call}, calls ++ entriesCalls pool entries <+: total →
    Follows env total es₀ (some pool) (Inside pool [p] false)
      (calls ++ entriesCalls pool entries) es is →
    Follows env total es₀ (some pool) (Inside pool [p] false) calls
      (pairsEvents (entryPairs entries) ++ es) (entriesItems pool entries ++ is) := by
  induction entries with
  | nil =>
    intro calls _ hrest
    rwa [entriesCalls, List.flatMap_nil, List.append_nil] at hrest
  | cons e entries ih =>
    intro calls htotal hrest
    have hcalls : entriesCalls pool (e :: entries) =
        valueCalls pool e.1 e.2 ++ entriesCalls pool entries := List.flatMap_cons
    rw [hcalls, ← List.append_assoc] at htotal hrest
    have hvalue := follows_value e.2 ((List.prefix_append _ _).trans htotal) (ih htotal hrest)
    have hkey := follows_key hvalue
    simpa [entryPairs, pairsEvents, entriesItems, Node.events] using hkey

/-- The pools of a configuration. -/
lemma follows_pools (pools : List ConfPool) :
    ∀ {calls : List Call} {pool : ℕ} {data : Option ℕ}, calls ++ poolsCalls pool pools <+: total →
    (∀ data, Follows env total es₀ data (Outside (pool + pools.length))
      (calls ++ poolsCalls pool pools)
      es is) →
    Follows env total es₀ data (Outside pool) calls (pairsEvents (poolPairs pools) ++ es)
      (poolsItems pool pools ++ is) := by
  induction pools with
  | nil =>
    intro calls pool data _ hrest
    have hrest := hrest data
    rwa [poolsCalls, List.append_nil] at hrest
  | cons p pools ih =>
    intro calls pool data htotal hrest
    have hassoc : calls ++ poolsCalls pool (p :: pools) =
        calls ++ [⟨pool, none, p.name⟩] ++ entriesCalls pool p.entries ++
        poolsCalls (pool + 1) pools := by
      simp [poolsCalls]
    have hlen : pool + (p :: pools).length = pool + 1 + pools.length := by
      rw [List.length_cons]
      omega
    rw [hassoc] at htotal
    simp only [hassoc, hlen] at hrest
    have hpools := @ih _ (pool + 1) (some pool) htotal hrest
    have hend : Follows env total es₀ (some pool) (Inside pool [p.name] false)
        (calls ++ [⟨pool, none, p.name⟩] ++ entriesCalls pool p.entries)
        (.mappingEnd :: (pairsEvents (poolPairs pools) ++ es))
          (poolsItems (pool + 1) pools ++ is) := by
      refine follows_event rfl (fun cf hin => ⟨[], 1, false, ?_, rfl, rfl, rfl, hin.npool⟩) hpools
      have hdepth : cf.depth - 1 = 1 := by
        rw [hin.depth]
        rfl
      simp only [confParseEvent, hdepth, if_true, confPopScalar, hin.arg]
      rcases cf with ⟨_, _, _, _, _⟩
      obtain ⟨rfl, rfl, rfl, rfl⟩ := hin
      rfl
    have hentries := follows_entries p.entries ((List.prefix_append _ _).trans htotal) hend
    have hstart : Follows env total es₀ (some pool) (Named pool p.name)
        (calls ++ [⟨pool, none, p.name⟩])
        (.mappingStart :: (pairsEvents (entryPairs p.entries) ++
          .mappingEnd :: (pairsEvents (poolPairs pools) ++ es)))
        (entriesItems pool p.entries ++ (poolsItems (pool + 1) pools ++ is)) := by
      refine follows_event rfl (fun cf hin => ⟨[p.name], 2, false, ?_, rfl, rfl, rfl, hin.npool⟩)
        hentries
      cases cf
      obtain ⟨rfl, rfl, rfl, rfl⟩ := hin
      rfl
    have hcall : calls ++ [⟨pool, none, p.name⟩] <+: total :=
      (List.prefix_append _ _).trans ((List.prefix_append _ _).trans htotal)
    have hname := @follows_name _ _ _ _ data _ _ _ _ hcall hstart
    simpa [poolPairs, pairsEvents, poolsItems, Node.events] using hname

/-- The end of the document: all calls were made. -/
lemma follows_end (pool : ℕ) : Follows env total es₀ data (Outside pool) total
    [.mappingEnd, .documentEnd, .streamEnd] [] := by
  intro cf h hout hcalls
  have hgoes : confParseCore env data cf [.mappingEnd, .documentEnd, .streamEnd] >>= confFinish =
      .ok (.ok, { cf with depth := 0, parsed := true }, []) := by
    have hdepth : cf.depth - 1 = 0 := by
      rw [hout.depth]
      rfl
    have hevent : confParseEvent env data cf .mappingEnd =
        .ok (.ret .ok, { cf with depth := 0 }) := by
      simp only [confParseEvent, hdepth]
      rfl
    have hend : confFinish (.ok, { cf with depth := 0 }, [.documentEnd, .streamEnd]) =
        .ok (.ok, { cf with depth := 0, parsed := true }, []) := by
      have hsound := h.sound
      have hparsed := h.parsed
      rcases cf with ⟨_, _, _, _, _⟩
      obtain rfl : _ = true := hsound
      obtain rfl : _ = false := hparsed
      rfl
    rw [confParseCore_cons h.sound, hevent]
    exact hend
  refine iff_of_true ?_ trivial
  refine ⟨.ok, _, [], hgoes, h.peak, h.stored_prefix, h.calls, fun _ => ?_,
    fun hne => absurd rfl hne⟩
  exact ⟨hcalls, rfl, hout.seq, hout.arg⟩

/-- The parser agrees with a document exactly if the values of its pools are clean. -/
lemma agrees_document_iff (env : ConfEnv) (pools : List ConfPool) :
    Agrees env (poolsCalls 0 pools) (stream (document pools))
        (confParse env {} (stream (document pools))) ↔ Clean env (poolsItems 0 pools) [] 0 := by
  have hevents : stream (document pools) = [.streamStart, .documentStart, .mappingStart] ++
      (pairsEvents (poolPairs pools) ++ [.mappingEnd, .documentEnd, .streamEnd]) := by
    simp [stream, document, Node.events]
  have hbegin : confParse env {} (stream (document pools)) = confParseCore env none { depth := 1 }
      (pairsEvents (poolPairs pools) ++ [.mappingEnd, .documentEnd, .streamEnd]) >>=
      confFinish := by
    rw [hevents]
    rfl
  have hat : At env (poolsCalls 0 pools) (stream (document pools)) { depth := 1 }
      (pairsEvents (poolPairs pools) ++ [.mappingEnd, .documentEnd, .streamEnd]) :=
    ⟨rfl, rfl, Nat.zero_le 3, ⟨_, hevents, rfl⟩, List.nil_prefix, fun hist c h => by simp at h⟩
  have hpools := @follows_pools env (poolsCalls 0 pools) (stream (document pools)) _
    [] pools [] 0 none List.prefix_rfl (fun _ => follows_end _)
  rw [List.append_nil] at hpools
  rw [hbegin]
  exact hpools _ hat ⟨rfl, rfl, rfl, rfl⟩ rfl

/-- **Validator and parser**: on every document that the validator accepts, `conf_parse` does what
parsing is to do exactly if the scalars that it reads are copied whole.

**Proof sketch.** An accepted document is the document of a configuration.  On that the parser is
followed from the end: a name, a key and a value are one step each, and a part of the document goes
on as what follows it does, whose scalars are the remaining items. -/
theorem confParse_agrees_iff (env : ConfEnv) (n : Node)
    (h : confValidateStructure (stream n) = .ok .ok) :
    ∃ pools, n = document pools ∧ OneSequence pools ∧
      (Agrees env (poolsCalls 0 pools) (stream n) (confParse env {} (stream n)) ↔
        Clean env (poolsItems 0 pools) [] 0) := by
  obtain ⟨pools, rfl, hone⟩ := confValidateStructure_document h
  exact ⟨pools, rfl, hone, agrees_document_iff env pools⟩

/-- The configuration of one pool with one server. -/
def oneServerConf : List ConfPool :=
  [{ name := "alpha".toUTF8.toList
     entries := [("listen".toUTF8.toList, .scalar "127.0.0.1:22121".toUTF8.toList),
       ("servers".toUTF8.toList, .sequence ["127.0.0.1:6379:1".toUTF8.toList])] }]

/-- A document with one pool and one server. -/
theorem confParse_agrees_oneServer :
    ∃ pools, document oneServerConf = document pools ∧ OneSequence pools ∧
      (Agrees {} (poolsCalls 0 pools) (stream (document oneServerConf))
        (confParse {} {} (stream (document oneServerConf))) ↔ Clean {} (poolsItems 0 pools) [] 0) :=
  confParse_agrees_iff {} (document oneServerConf) (by decide +kernel)

/-- The configuration of one pool whose password is `"a\0b"`. -/
def nullByteConf : List ConfPool :=
  [{ name := "alpha".toUTF8.toList
     entries := [("redis_auth".toUTF8.toList, .scalar [97, 0, 98]),
       ("servers".toUTF8.toList, .sequence ["127.0.0.1:6379:1".toUTF8.toList])] }]

/-- The copy of the password is one byte long, and its terminator is written at offset 3. -/
theorem not_forall_confParse_agrees :
    ¬ ∀ (env : ConfEnv) (n : Node), confValidateStructure (stream n) = .ok .ok →
      ∃ pools, n = document pools ∧ OneSequence pools ∧
        Agrees env (poolsCalls 0 pools) (stream n) (confParse env {} (stream n)) := by
  intro h
  have hvalid : confValidateStructure (stream (document nullByteConf)) = .ok .ok := by
    decide +kernel
  have hfault : confParse {} {} (stream (document nullByteConf)) = .error .outOfBounds := by
    decide +kernel
  obtain ⟨pools, -, -, status, cf, es, hrun, -⟩ := h {} (document nullByteConf) hvalid
  rw [hfault] at hrun
  cases hrun

end GfwProxy
