import GfwProxy.Conf.Document

set_option autoImplicit false

/-!
# What the validator accepts

`conf_validate_structure` (`gf_conf.c`) follows the depth of the tree and counts the scalars at each
depth; the count at the depth of the directives is reset lazily, by the scalar behind a complete
pair.  It accepts configurations only.

## Main definitions

* `GfwProxy.Accepts` — the loop of the validator ends without an error.

## Main results

* `GfwProxy.confValidateStructure_document` — a document that the validator accepts is that of a
  configuration whose pools have one sequence each.
-/

namespace GfwProxy

/-- The loop of the validator ends without an error. -/
def Accepts (v : Validation) (es : List YamlEvent) : Prop := confValidateLoop v es = .ok .ok

/-- The validator between two pools; `b` scalars were counted at the depth of the directives. -/
def betweenPools (b : ℕ) : Validation := { depth := 1, count := [0, 0, b] }

/-- The validator behind the name of a pool. -/
def poolNamed (b : ℕ) : Validation := { depth := 1, count := [0, 1, b] }

/-- The validator among the directives of a pool, with `b` scalars counted. -/
def inPool (b : ℕ) (seq : Bool) : Validation := { depth := 2, count := [0, 1, b], seq := seq }

variable {es rest : List YamlEvent} {b : ℕ} {seq : Bool} {v : List UInt8}

/-! ## Single events -/

section Steps

/-- Between two pools, the name of a pool may follow. -/
lemma accepts_name : Accepts (betweenPools b) (.scalar v :: es) ↔ Accepts (poolNamed b) es := by
  rfl

/-- Between two pools, a sequence may not follow. -/
lemma not_accepts_name_sequence : ¬Accepts (betweenPools b) (.sequenceStart :: es) := by
  intro h
  cases h

/-- Between two pools, a mapping may not follow. -/
lemma not_accepts_name_mapping : ¬Accepts (betweenPools b) (.mappingStart :: es) := by
  intro h
  cases h

/-- Behind the name of a pool, its mapping has to follow. -/
lemma accepts_mapping :
    Accepts (poolNamed b) (.mappingStart :: es) ↔ Accepts (inPool b false) es := by
  rfl

/-- Behind the name of a pool, a scalar may not follow. -/
lemma not_accepts_pool_scalar : ¬Accepts (poolNamed b) (.scalar v :: es) := by
  intro h
  cases h

/-- Behind the name of a pool, a sequence may not follow. -/
lemma not_accepts_pool_sequence : ¬Accepts (poolNamed b) (.sequenceStart :: es) := by
  intro h
  cases h

/-- In a pool, a key may come first, or behind a value. -/
lemma accepts_key (hb : b = 0 ∨ b = 2) :
    Accepts (inPool b seq) (.scalar v :: es) ↔ Accepts (inPool 1 seq) es := by
  rcases hb with rfl | rfl
  · rfl
  · rfl

/-- In a pool, a mapping may not follow. -/
lemma not_accepts_mapping : ¬Accepts (inPool b seq) (.mappingStart :: es) := by
  intro h
  cases h

/-- In a pool, a sequence may not stand for a key. -/
lemma not_accepts_key_sequence (hb : b = 0 ∨ b = 2) :
    ¬Accepts (inPool b seq) (.sequenceStart :: es) := by
  intro h
  rcases hb with rfl | rfl <;> cases seq <;> cases h

/-- Behind a key, its value may follow. -/
lemma accepts_value : Accepts (inPool 1 seq) (.scalar v :: es) ↔ Accepts (inPool 2 seq) es := by
  rfl

/-- A pool may not have a second sequence. -/
lemma not_accepts_second_sequence : ¬Accepts (inPool b true) (.sequenceStart :: es) := by
  intro h
  cases h

/-- Behind a key, a sequence may follow, if there was none. -/
lemma accepts_sequence :
    Accepts (inPool 1 false) (.sequenceStart :: es) ↔ Accepts (inPool 1 true) es := by
  rfl

/-- A pool may end behind its sequence. -/
lemma accepts_poolEnd :
    Accepts (inPool b true) (.mappingEnd :: es) ↔ Accepts (betweenPools b) es := by
  rfl

/-- A pool may not end before its sequence. -/
lemma not_accepts_poolEnd : ¬Accepts (inPool b false) (.mappingEnd :: es) := by
  intro h
  cases h

end Steps

/-! ## Sequences, pools and configurations -/

/-- A sequence holds scalars only. -/
lemma accepts_elems (hb : b = 1 ∨ b = 2) (ns : List Node)
    (h : Accepts (inPool b true) (elemsEvents ns ++ .sequenceEnd :: rest)) :
    ∃ vs : List (List UInt8), ns = vs.map .scalar ∧ Accepts (inPool 0 true) rest := by
  induction ns generalizing b with
  | nil => exact ⟨[], rfl, h⟩
  | cons n ns ih =>
    cases n with
    | scalar v =>
      have hnext : ∃ b', (b' = 1 ∨ b' = 2) ∧
          Accepts (inPool b' true) (elemsEvents ns ++ .sequenceEnd :: rest) := by
        rcases hb with rfl | rfl
        · exact ⟨2, .inr rfl, accepts_value.mp h⟩
        · exact ⟨1, .inl rfl, (accepts_key (.inr rfl)).mp h⟩
      obtain ⟨b', hb', h'⟩ := hnext
      obtain ⟨vs, rfl, hrest⟩ := ih hb' h'
      exact ⟨v :: vs, rfl, hrest⟩
    | sequence elems => exact absurd h not_accepts_second_sequence
    | mapping pairs => exact absurd h not_accepts_mapping

/-- The value of a directive is a scalar, or the only sequence of the pool, of scalars. -/
lemma accepts_node (n : Node) (h : Accepts (inPool 1 seq) (n.events ++ rest)) :
    ∃ value : ConfValue, n = value.node ∧ (seq && value.isSequence) = false ∧
      ∃ b, (b = 0 ∨ b = 2) ∧ Accepts (inPool b (seq || value.isSequence)) rest := by
  cases n with
  | scalar v =>
    refine ⟨.scalar v, rfl, Bool.and_false seq, 2, .inr rfl, ?_⟩
    rw [ConfValue.isSequence, Bool.or_false]
    exact accepts_value.mp h
  | sequence elems =>
    cases seq with
    | true => exact absurd h not_accepts_second_sequence
    | false =>
      have hevents : (Node.sequence elems).events ++ rest =
          .sequenceStart :: (elemsEvents elems ++ .sequenceEnd :: rest) := by
        simp [Node.events]
      rw [hevents] at h
      obtain ⟨vs, rfl, hrest⟩ := accepts_elems (.inl rfl) elems (accepts_sequence.mp h)
      exact ⟨.sequence vs, rfl, rfl, 0, .inl rfl, hrest⟩
  | mapping pairs => exact absurd h not_accepts_mapping

/-- A pool maps scalars to values, one of which is a sequence. -/
lemma accepts_entries (hb : b = 0 ∨ b = 2) (pairs : List (Node × Node))
    (h : Accepts (inPool b seq) (pairsEvents pairs ++ .mappingEnd :: rest)) :
    ∃ entries, pairs = entryPairs entries ∧
      entries.countP (fun e => e.2.isSequence) + seq.toNat = 1 ∧
      ∃ b, (b = 0 ∨ b = 2) ∧ Accepts (betweenPools b) rest := by
  induction pairs generalizing b seq with
  | nil =>
    cases seq with
    | true => exact ⟨[], rfl, rfl, b, hb, accepts_poolEnd.mp h⟩
    | false => exact absurd h not_accepts_poolEnd
  | cons pair pairs ih =>
    obtain ⟨key, value⟩ := pair
    have hevents : pairsEvents ((key, value) :: pairs) ++ .mappingEnd :: rest =
        key.events ++ (value.events ++ (pairsEvents pairs ++ .mappingEnd :: rest)) := by
      simp [pairsEvents]
    rw [hevents] at h
    cases key with
    | scalar k =>
      obtain ⟨val, rfl, hseq, b', hb', h'⟩ := accepts_node value ((accepts_key hb).mp h)
      obtain ⟨entries, rfl, hcount, hrest⟩ := ih hb' h'
      refine ⟨(k, val) :: entries, rfl, ?_, hrest⟩
      have hor : (if val.isSequence then 1 else 0) + seq.toNat = (seq || val.isSequence).toNat := by
        revert hseq
        cases seq <;> cases val.isSequence <;> decide
      have hcons : ((k, val) :: entries).countP (fun e => e.2.isSequence) =
          entries.countP (fun e => e.2.isSequence) + if val.isSequence then 1 else 0 :=
        List.countP_cons
      omega
    | sequence elems => exact absurd h (not_accepts_key_sequence hb)
    | mapping ps => exact absurd h not_accepts_mapping

/-- A configuration maps names to pools. -/
lemma accepts_pools (hb : b = 0 ∨ b = 2) (pairs : List (Node × Node))
    (h : Accepts (betweenPools b) (pairsEvents pairs ++ rest)) :
    ∃ pools, pairs = poolPairs pools ∧ OneSequence pools := by
  induction pairs generalizing b with
  | nil => exact ⟨[], rfl, nofun⟩
  | cons pair pairs ih =>
    obtain ⟨key, value⟩ := pair
    have hevents : pairsEvents ((key, value) :: pairs) ++ rest =
        key.events ++ (value.events ++ (pairsEvents pairs ++ rest)) := by
      simp [pairsEvents]
    rw [hevents] at h
    cases key with
    | sequence elems => exact absurd h not_accepts_name_sequence
    | mapping ps => exact absurd h not_accepts_name_mapping
    | scalar name =>
      have h := accepts_name.mp h
      cases value with
      | scalar v => exact absurd h not_accepts_pool_scalar
      | sequence elems => exact absurd h not_accepts_pool_sequence
      | mapping ps =>
        have hpool : (Node.mapping ps).events ++ (pairsEvents pairs ++ rest) =
            .mappingStart :: (pairsEvents ps ++ .mappingEnd :: (pairsEvents pairs ++ rest)) := by
          simp [Node.events]
        rw [hpool] at h
        obtain ⟨entries, rfl, hcount, b', hb', h'⟩ := accepts_entries hb ps (accepts_mapping.mp h)
        obtain ⟨pools, rfl, hpools⟩ := ih hb' h'
        refine ⟨⟨name, entries⟩ :: pools, rfl, ?_⟩
        intro p hp
        rcases List.mem_cons.mp hp with rfl | hp
        · exact hcount
        · exact hpools p hp

/-- **A document that the validator accepts is that of a configuration** whose pools have exactly
one sequence each.

**Proof sketch.** The validator rejects at the first event of a node of the wrong kind, so the
nodes are looked into one level at a time: the count at depth 2 is 0 or 2 before a key and 1 behind
it, whichever pool came before. -/
theorem confValidateStructure_document {n : Node} (h : confValidateStructure (stream n) = .ok .ok) :
    ∃ pools, n = document pools ∧ OneSequence pools := by
  cases n with
  | scalar v => cases h
  | sequence elems => cases h
  | mapping pairs =>
    have hevents : stream (.mapping pairs) = .streamStart :: .documentStart :: .mappingStart ::
        (pairsEvents pairs ++ [.mappingEnd, .documentEnd, .streamEnd]) := by
      simp [stream, Node.events]
    rw [hevents] at h
    have hpools : Accepts (betweenPools 0)
        (pairsEvents pairs ++ [.mappingEnd, .documentEnd, .streamEnd]) := h
    obtain ⟨pools, rfl, hone⟩ := accepts_pools (.inl rfl) pairs hpools
    exact ⟨pools, rfl, hone⟩

end GfwProxy
