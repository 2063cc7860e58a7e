import GfwProxy.Hashkit.Update
import GfwProxy.Util.String

set_option autoImplicit false

/-!
# Hash tags

`server_pool_idx` of `gf_server.c` hashes only the part of a key between the two bytes of the hash
tag, if the pool has one.  Here it computes with the pointer to the key and its length, as in the
source; `serverPoolIdx` is the same function on the bytes of the key.

## Main definitions

* `GfwProxy.KeyAt` — a key somewhere in memory.
* `GfwProxy.hashedPart`, `GfwProxy.serverPoolIdxAt` — which bytes of it are hashed, and the index.
* `GfwProxy.TagContent` — what stands between the two bytes of a hash tag.

## Main results

* `GfwProxy.serverPoolIdxAt_eq` — the index depends only on the bytes of the key.
* `GfwProxy.serverPoolIdxAt_coLocates` — keys with the same tag content have the same index.
-/

namespace GfwProxy

/-- A key in memory: a pointer and a `uint32_t` length, and the bytes that they delimit are
there. -/
structure KeyAt where
  mem : List UInt8
  key : ℕ
  keylen : ℕ
  keylen_lt : keylen < 2 ^ 32
  inside : key + keylen ≤ mem.length

/-- The bytes of a key. -/
def KeyAt.bytes (k : KeyAt) : List UInt8 := slice k.mem k.key k.keylen

/-- The pointer and the length that `server_pool_idx` hands to the hash function. -/
def hashedPart (hashTag : Option (UInt8 × UInt8)) (mem : List UInt8) (key keylen : ℕ) :
    Except Fault (ℕ × ℕ) :=
  match hashTag with
  | none => return (key, keylen)
  | some tag => do
    match ← gfStrchr mem key (key + keylen) tag.1 with
    | none => return (key, keylen)
    | some tagStart =>
      match ← gfStrchr mem (tagStart + 1) (key + keylen) tag.2 with
      | none => return (key, keylen)
      | some tagEnd =>
        if tagEnd - tagStart > 1 then return (tagStart + 1, u32 (tagEnd - (tagStart + 1)))
        else return (key, keylen)

/-- `server_pool_idx` on a key in memory, with the value that `random()` returns if it is called. -/
def serverPoolIdxAt (pool : ServerPool) (k : KeyAt) (rnd : ℕ) : Except Fault ℕ :=
  -- skip hashing and dispatching for pools with only one server
  if pool.server.length = 1 then .ok 0
  else do
    let (key, keylen) ← hashedPart pool.hashTag k.mem k.key k.keylen
    let hash := serverPoolHash pool (slice k.mem key keylen)
    match pool.distType with
    | .ketama => ketamaDispatch pool.continuum pool.ncontinuum hash
    | .modula => modulaDispatch pool.continuum pool.ncontinuum hash
    | .random => randomDispatch pool.continuum pool.ncontinuum rnd

/-! ## Only the bytes matter -/

/-- The bytes between place `s` and place `s + 1 + len` of a key. -/
lemma slice_between (k : KeyAt) {s len : ℕ} (h : s + 1 + len ≤ k.keylen) :
    slice k.mem (k.key + s + 1) len = (k.bytes.drop (s + 1)).take len := by
  have hs : slice k.bytes (s + 1) len = slice k.mem (k.key + (s + 1)) len := slice_slice h
  exact hs.symm

/-- **The pointer and the length delimit the tagged part of the key**, which lies inside the key.

**Proof sketch.** The first scan finds the first opening byte of the key, if there is one, and the
second scan the first closing byte of what is behind it. -/
theorem hashedPart_eq_ok (hashTag : Option (UInt8 × UInt8)) (k : KeyAt) :
    ∃ p n, hashedPart hashTag k.mem k.key k.keylen = .ok (p, n) ∧
      slice k.mem p n = hashTagged hashTag k.bytes ∧ k.key ≤ p ∧ p + n ≤ k.key + k.keylen := by
  have hin := k.inside
  have hwhole : ∃ p n, (.ok (k.key, k.keylen) : Except Fault (ℕ × ℕ)) = .ok (p, n) ∧
      slice k.mem p n = k.bytes ∧ k.key ≤ p ∧ p + n ≤ k.key + k.keylen :=
    ⟨k.key, k.keylen, rfl, rfl, le_rfl, le_rfl⟩
  rcases hashTag with _ | ⟨a, b⟩
  · exact hwhole
  have hfirst : gfStrchr k.mem k.key (k.key + k.keylen) a =
      .ok ((k.bytes.idxOf? a).map (k.key + ·)) := by
    rw [gfStrchr_eq_ok a (by omega) hin, KeyAt.bytes, Nat.add_sub_cancel_left]
  simp only [hashedPart, hfirst, hashTagged]
  rcases ha : k.bytes.idxOf? a with _ | s
  · exact hwhole
  have hlen : k.bytes.length = k.keylen := length_slice hin
  obtain ⟨hs, -⟩ := List.idxOf?_eq_some_iff.mp ha
  have hrest : slice k.mem (k.key + s + 1) (k.keylen - (s + 1)) = k.bytes.drop (s + 1) := by
    rw [slice_between k (by omega)]
    exact List.take_of_length_le (by simp [hlen])
  have hsecond : gfStrchr k.mem (k.key + s + 1) (k.key + k.keylen) b =
      .ok (((k.bytes.drop (s + 1)).idxOf? b).map (k.key + s + 1 + ·)) := by
    rw [gfStrchr_eq_ok b (by omega) hin, ← hrest]
    congr 4
    omega
  simp only [Option.map_some, bind, Except.bind, hsecond]
  rcases hb : (k.bytes.drop (s + 1)).idxOf? b with _ | len
  · exact hwhole
  obtain ⟨hl, -⟩ := List.idxOf?_eq_some_iff.mp hb
  rw [List.length_drop, hlen] at hl
  have hsub : k.key + s + 1 + len - (k.key + s) = len + 1 := by omega
  simp only [Option.map_some, hsub]
  by_cases hpos : len + 1 > 1
  · have hk := k.keylen_lt
    have hu : u32 (k.key + s + 1 + len - (k.key + s + 1)) = len := by
      rw [Nat.add_sub_cancel_left]
      exact Nat.mod_eq_of_lt (by omega)
    simp only [hpos, if_true, hu]
    exact ⟨_, _, rfl, slice_between k (by omega), by omega, by omega⟩
  · simp only [hpos, if_false]
    exact hwhole

/-- **The index depends only on the bytes of the key.** -/
theorem serverPoolIdxAt_eq (pool : ServerPool) (k : KeyAt) (rnd : ℕ) :
    serverPoolIdxAt pool k rnd = serverPoolIdx pool k.bytes rnd := by
  obtain ⟨p, n, hpart, hslice, -, -⟩ := hashedPart_eq_ok pool.hashTag k
  unfold serverPoolIdxAt serverPoolIdx
  rw [hpart]
  exact hslice ▸ rfl

/-! ## The content of a hash tag -/

/-- The first `a` of the key is followed by an `b`, and `content` is what stands between it and the
first one of these; it is not empty. -/
def TagContent (a b : UInt8) (key content : List UInt8) : Prop :=
  content ≠ [] ∧ b ∉ content ∧ ∃ front back, key = front ++ a :: content ++ b :: back ∧ a ∉ front

section Content

variable {a b : UInt8} {key content : List UInt8}

/-- The first place of a byte splits a list. -/
lemma idxOf?_split {x : UInt8} {xs : List UInt8} {i : ℕ} (h : xs.idxOf? x = some i) :
    xs = xs.take i ++ x :: xs.drop (i + 1) ∧ x ∉ xs.take i := by
  obtain ⟨hi, hx, hbefore⟩ := List.idxOf?_eq_some_iff.mp h
  constructor
  · conv_lhs => rw [← List.take_append_drop i xs, List.drop_eq_getElem_cons hi, hx]
  · intro hm
    obtain ⟨j, hj, he⟩ := List.mem_iff_getElem.mp hm
    rw [List.getElem_take] at he
    exact hbefore j (by simp at hj; omega) he

/-- The first place of a byte behind bytes that are different from it. -/
lemma idxOf?_append_cons {x : UInt8} {xs ys : List UInt8} (h : x ∉ xs) :
    (xs ++ x :: ys).idxOf? x = some xs.length := by
  induction xs with
  | nil => simp [List.idxOf?_cons]
  | cons y xs ih =>
    obtain ⟨hy, hxs⟩ := not_or.mp (List.mem_cons.not.mp h)
    rw [List.cons_append, List.idxOf?_cons, if_neg (by simpa using Ne.symm hy), ih hxs]
    rfl

/-- The content of the tag is what is hashed. -/
lemma TagContent.hashTagged (h : TagContent a b key content) :
    GfwProxy.hashTagged (some (a, b)) key = content := by
  obtain ⟨hne, hb, front, back, rfl, ha⟩ := h
  have hfirst : (front ++ a :: content ++ b :: back).idxOf? a = some front.length := by
    rw [List.append_assoc]
    exact idxOf?_append_cons ha
  have hdrop : (front ++ a :: content ++ b :: back).drop (front.length + 1) =
      content ++ b :: back := by
    simp [List.drop_append]
  have hlen : 0 < content.length := List.length_pos_iff.mpr hne
  simp only [GfwProxy.hashTagged, hfirst, hdrop, idxOf?_append_cons hb]
  rw [if_pos (by omega), List.take_left']
  rfl

/-- The content of a tag is not cut again: it has no closing byte. -/
lemma TagContent.hashTagged_content (h : TagContent a b key content) :
    GfwProxy.hashTagged (some (a, b)) content = content := by
  obtain ⟨-, hb, -⟩ := h
  rcases ha : content.idxOf? a with _ | s
  · simp only [GfwProxy.hashTagged, ha]
  · have hnone : (content.drop (s + 1)).idxOf? b = none :=
      List.idxOf?_eq_none_iff.mpr fun hm => hb (List.mem_of_mem_drop hm)
    simp only [GfwProxy.hashTagged, ha, hnone]

/-- A key without a tag content is hashed as a whole. -/
lemma hashTagged_of_not_tagContent (h : ¬ ∃ content, TagContent a b key content) :
    hashTagged (some (a, b)) key = key := by
  rcases hs : key.idxOf? a with _ | s
  · simp only [hashTagged, hs]
  rcases hl : (key.drop (s + 1)).idxOf? b with _ | len
  · simp only [hashTagged, hs, hl]
  simp only [hashTagged, hs, hl]
  refine if_neg fun hpos => h ⟨(key.drop (s + 1)).take len, ?_⟩
  obtain ⟨hkey, ha⟩ := idxOf?_split hs
  obtain ⟨hrest, hb⟩ := idxOf?_split hl
  obtain ⟨hlt, -⟩ := List.idxOf?_eq_some_iff.mp hl
  refine ⟨List.ne_nil_of_length_pos (by simp at hlt ⊢; omega), hb, key.take s,
    (key.drop (s + 1)).drop (len + 1), ?_, ha⟩
  calc key = key.take s ++ a :: key.drop (s + 1) := hkey
    _ = key.take s ++ a :: ((key.drop (s + 1)).take len ++
        b :: (key.drop (s + 1)).drop (len + 1)) := by rw [← hrest]
    _ = _ := by simp

end Content

/-- A pool without its hash tag. -/
def ServerPool.untagged (pool : ServerPool) : ServerPool := { pool with hashTag := none }

/-- Neither `ketama_dispatch` nor `modula_dispatch` looks at the random number. -/
lemma serverPoolIdx_rnd (pool : ServerPool) (h : pool.distType = .ketama ∨ pool.distType = .modula)
    (key : List UInt8) (rnd rnd' : ℕ) :
    serverPoolIdx pool key rnd = serverPoolIdx pool key rnd' := by
  rcases h with h | h <;> simp only [serverPoolIdx, h]

/-- The index is that of the hashed part, without a tag. -/
lemma serverPoolIdx_hashTagged (pool : ServerPool) (key : List UInt8) (rnd : ℕ) :
    serverPoolIdx pool key rnd =
      serverPoolIdx pool.untagged (hashTagged pool.hashTag key) rnd := rfl

/-- **Keys with the same tag content have the same index**, and it is that of the content alone; a
key without one has the index that it has without a hash tag, and what is hashed lies inside the
key.

**Proof sketch.** The index depends only on the hashed part of the key.  That is the content of the
tag, and the whole of it if the content itself is the key: the content has no closing byte, so it
has no tag content. -/
theorem serverPoolIdxAt_coLocates {pool : ServerPool} {a b : UInt8}
    (hdist : pool.distType = .ketama ∨ pool.distType = .modula)
    (htag : pool.hashTag = some (a, b)) :
    (∀ (k k' : KeyAt) (rnd rnd' : ℕ), TagContent a b k.bytes k'.bytes →
      serverPoolIdxAt pool k rnd = serverPoolIdxAt pool k' rnd') ∧
    (∀ (k : KeyAt) (rnd rnd' : ℕ), (¬ ∃ content, TagContent a b k.bytes content) →
      serverPoolIdxAt pool k rnd = serverPoolIdxAt pool.untagged k rnd') ∧
    (∀ (k k' : KeyAt) (content : List UInt8) (rnd rnd' : ℕ), TagContent a b k.bytes content →
      TagContent a b k'.bytes content → serverPoolIdxAt pool k rnd = serverPoolIdxAt pool k' rnd') ∧
    ∀ k : KeyAt, ∃ p n, hashedPart pool.hashTag k.mem k.key k.keylen = .ok (p, n) ∧
      k.key ≤ p ∧ p + n ≤ k.key + k.keylen := by
  simp only [serverPoolIdxAt_eq, serverPoolIdx_hashTagged pool, htag]
  refine ⟨fun k k' rnd rnd' h => ?_, fun k rnd rnd' h => ?_, fun k k' content rnd rnd' h h' => ?_,
    fun k => ?_⟩
  · rw [h.hashTagged, h.hashTagged_content]
    exact serverPoolIdx_rnd pool.untagged hdist _ _ _
  · rw [hashTagged_of_not_tagContent h]
    exact serverPoolIdx_rnd pool.untagged hdist _ _ _
  · rw [h.hashTagged, h'.hashTagged]
    exact serverPoolIdx_rnd pool.untagged hdist _ _ _
  · obtain ⟨p, n, hpart, -, hp, hn⟩ := hashedPart_eq_ok (some (a, b)) k
    exact ⟨p, n, hpart, hp, hn⟩

/-- A pool of three servers with hash tag `{}`, and a hash function that adds the bytes. -/
def bracedPool : ServerPool :=
  { server := [⟨[1], 1, 0, 0⟩, ⟨[2], 1, 0, 0⟩, ⟨[3], 1, 0, 0⟩], ncontinuum := 3
    continuum := [⟨0, 0⟩, ⟨1, 0⟩, ⟨2, 0⟩], keyHash := fun key => (key.map UInt8.toNat).sum
    hashTag := some (123, 125) }

/-- Memory that holds a key with tag content `m`: the bytes `k{m}`. -/
def bracedKey : KeyAt :=
  { mem := [107, 123, 109, 125], key := 0, keylen := 4, keylen_lt := by decide,
    inside := by decide }

/-- The content of the tag of that key, as a key. -/
def bareKey : KeyAt :=
  { mem := [109], key := 0, keylen := 1, keylen_lt := by decide, inside := by decide }

/-- A key with a tag goes where the tag alone goes. -/
theorem bracedKey_coLocates : serverPoolIdxAt bracedPool bracedKey 0 = .ok 1 ∧
    serverPoolIdxAt bracedPool bracedKey 0 = serverPoolIdxAt bracedPool bareKey 0 :=
  ⟨by decide +kernel, (serverPoolIdxAt_coLocates (.inr rfl) rfl).1 bracedKey bareKey 0 0
    ⟨by decide, by decide, [107], [], by decide, by decide⟩⟩

end GfwProxy
