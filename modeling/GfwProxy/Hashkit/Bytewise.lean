import GfwProxy.Hashkit.Crc
import GfwProxy.Lib.LittleEndian
import GfwProxy.Lib.Mixing

set_option autoImplicit false

/-!
# The hashes that mix in a few bytes at a time

`gf_fnv.c`, `gf_one_at_a_time.c` and `gf_murmur.c`.

## Main definitions

* `GfwProxy.hashFnv1_64`, `GfwProxy.hashFnv1a_64`, `GfwProxy.hashFnv1_32`, `GfwProxy.hashFnv1a_32`.
* `GfwProxy.hashOneAtATime`, `GfwProxy.hashMurmur`.

## Main results

* `GfwProxy.hashFnv_64_eq` — what the two functions of 64 bits compute in 32 bits.
* `GfwProxy.hash_byte_ne` — keys that differ in one byte have different hashes.

## Design

A word that `hash_murmur` reads through a pointer is little-endian.
-/

namespace GfwProxy

open LittleEndian (word)
open Mixing (Reversible)

/-! ## The code -/

/-- `FNV_64_INIT`. -/
def fnv64Init : UInt64 := 0xcbf29ce484222325

/-- `FNV_64_PRIME`. -/
def fnv64Prime : UInt64 := 0x100000001b3

/-- `FNV_32_INIT`. -/
def fnv32Init : UInt32 := 2166136261

/-- `FNV_32_PRIME`. -/
def fnv32Prime : UInt32 := 16777619

/-- The body of the loop of FNV-1, in 32 bits. -/
def fnv1Step (prime hash : UInt32) (c : UInt8) : UInt32 := hash * prime ^^^ charU32 c

/-- The body of the loop of FNV-1a, in 32 bits. -/
def fnv1aStep (prime hash : UInt32) (c : UInt8) : UInt32 := (hash ^^^ charU32 c) * prime

/-- `hash_fnv1_64`. -/
def hashFnv1_64 (key : List UInt8) : UInt32 :=
  (key.foldl (fun hash c => hash * fnv64Prime ^^^ charU64 c) fnv64Init).toUInt32

/-- `hash_fnv1a_64`. -/
def hashFnv1a_64 (key : List UInt8) : UInt32 :=
  key.foldl (fnv1aStep fnv64Prime.toUInt32) fnv64Init.toUInt32

/-- `hash_fnv1_32`. -/
def hashFnv1_32 (key : List UInt8) : UInt32 := key.foldl (fnv1Step fnv32Prime) fnv32Init

/-- `hash_fnv1a_32`. -/
def hashFnv1a_32 (key : List UInt8) : UInt32 := key.foldl (fnv1aStep fnv32Prime) fnv32Init

/-- The body of the loop of `hash_one_at_a_time`. -/
def oneAtATimeStep (value : UInt32) (c : UInt8) : UInt32 :=
  let value := value + charU32 c
  let value := value + value <<< 10
  value ^^^ value >>> 6

/-- `hash_one_at_a_time`. -/
def hashOneAtATime (key : List UInt8) : UInt32 :=
  let value := key.foldl oneAtATimeStep 0
  let value := value + value <<< 3
  let value := value ^^^ value >>> 11
  value + value <<< 15

/-- The mixing constant `m`. -/
def murmurM : UInt32 := 0x5bd1e995

/-- What the loop of `hash_murmur` makes of a word. -/
def murmurWord (k : UInt32) : UInt32 :=
  let k := k * murmurM
  let k := k ^^^ k >>> 24
  k * murmurM

/-- The loop of `hash_murmur`: 4 bytes at a time. -/
def murmurLoop : UInt32 → List UInt8 → UInt32 × List UInt8
  | h, b0 :: b1 :: b2 :: b3 :: data =>
    murmurLoop (h * murmurM ^^^ murmurWord (word [b0, b1, b2, b3])) data
  | h, data => (h, data)

/-- The switch of `hash_murmur`; the cases fall through. -/
def murmurTail (h : UInt32) : List UInt8 → UInt32
  | [d0, d1, d2] => (h ^^^ d2.toUInt32 <<< 16 ^^^ d1.toUInt32 <<< 8 ^^^ d0.toUInt32) * murmurM
  | [d0, d1] => (h ^^^ d1.toUInt32 <<< 8 ^^^ d0.toUInt32) * murmurM
  | [d0] => (h ^^^ d0.toUInt32) * murmurM
  | _ => h

/-- The final mixes of `hash_murmur`. -/
def murmurFinal (h : UInt32) : UInt32 :=
  let h := h ^^^ h >>> 13
  let h := h * murmurM
  h ^^^ h >>> 15

/-- `hash_murmur`. -/
def hashMurmur (key : List UInt8) : UInt32 :=
  let length := UInt32.ofNat key.length
  let seed := 0xdeadbeef * length
  let (h, data) := murmurLoop (seed ^^^ length) key
  murmurFinal (murmurTail h data)

/-! ## Operations on 32 bits -/

section Operations

variable {k : ℕ}

/-- A right shift of a word as one of its bits. -/
lemma toBitVec_shiftRight (x : UInt32) (hk : k < 32) :
    (x >>> UInt32.ofNat k).toBitVec = x.toBitVec >>> k := by
  rw [UInt32.toBitVec_shiftRight]
  refine BitVec.eq_of_toNat_eq ?_
  simp [Nat.mod_eq_of_lt (show k < 4294967296 by omega), Nat.mod_eq_of_lt hk]

/-- A left shift of a word as one of its bits. -/
lemma toBitVec_shiftLeft (x : UInt32) (hk : k < 32) :
    (x <<< UInt32.ofNat k).toBitVec = x.toBitVec <<< k := by
  rw [UInt32.toBitVec_shiftLeft]
  refine BitVec.eq_of_toNat_eq ?_
  simp [Nat.mod_eq_of_lt (show k < 4294967296 by omega), Nat.mod_eq_of_lt hk]

/-- A product with an odd number can be undone. -/
lemma mulU32_injective {m : UInt32} (hm : m.toNat % 2 = 1) :
    Function.Injective fun x : UInt32 => x * m := by
  intro x y hxy
  exact UInt32.toBitVec_inj.mp (Mixing.mul_injective hm (congrArg UInt32.toBitVec hxy))

/-- An exclusive or with a right shift can be undone. -/
lemma xorShiftU32_injective (hk : 0 < k) (hlt : k < 32) :
    Function.Injective fun x : UInt32 => x ^^^ x >>> UInt32.ofNat k := by
  intro x y hxy
  have h := congrArg UInt32.toBitVec hxy
  simp only [UInt32.toBitVec_xor, toBitVec_shiftRight _ hlt] at h
  exact UInt32.toBitVec_inj.mp (Mixing.xorShift_injective hk h)

/-- A sum with a left shift can be undone. -/
lemma addShiftU32_injective (hk : 0 < k) (hlt : k < 32) :
    Function.Injective fun x : UInt32 => x + x <<< UInt32.ofNat k := by
  intro x y hxy
  have h := congrArg UInt32.toBitVec hxy
  simp only [UInt32.toBitVec_add, toBitVec_shiftLeft _ hlt] at h
  exact UInt32.toBitVec_inj.mp (Mixing.addShift_injective hk h)

/-- A `char` can be read off its `uint32_t`. -/
lemma charU32_injective : Function.Injective charU32 := by
  intro c c' h
  have h8 := congrArg (fun x : UInt32 => x.toBitVec.setWidth 8) h
  simp only [toBitVec_charU32, setWidth_signExtend (show 8 ≤ 32 by omega)] at h8
  exact UInt8.toBitVec_inj.mp h8

end Operations

/-! ## Steps -/

section Steps

/-- The step of FNV-1 can be undone. -/
lemma fnv1Step_reversible {prime : UInt32} (hp : prime.toNat % 2 = 1) :
    Reversible (fnv1Step prime) where
  state := fun _ _ _ h => mulU32_injective hp ((UInt32.xor_left_inj _).mp h)
  letter := fun _ _ _ h => charU32_injective ((UInt32.xor_right_inj _).mp h)

/-- The step of FNV-1a can be undone. -/
lemma fnv1aStep_reversible {prime : UInt32} (hp : prime.toNat % 2 = 1) :
    Reversible (fnv1aStep prime) where
  state := fun _ _ _ h => (UInt32.xor_left_inj _).mp (mulU32_injective hp h)
  letter := fun _ _ _ h => charU32_injective ((UInt32.xor_right_inj _).mp (mulU32_injective hp h))

/-- What `hash_one_at_a_time` does to the sum. -/
lemma oneAtATimeMix_injective :
    Function.Injective fun value : UInt32 => value + value <<< 10 ^^^
      (value + value <<< 10) >>> 6 :=
  (xorShiftU32_injective (k := 6) (by omega) (by omega)).comp
    (addShiftU32_injective (k := 10) (by omega) (by omega))

/-- The step of the one-at-a-time hash can be undone. -/
lemma oneAtATimeStep_reversible : Reversible oneAtATimeStep where
  state := fun _ _ _ h => (UInt32.add_left_inj _).mp (oneAtATimeMix_injective h)
  letter := fun _ _ _ h => charU32_injective
    ((UInt32.add_right_inj _).mp (oneAtATimeMix_injective h))

/-- The factor of murmur is odd. -/
lemma murmurM_odd : murmurM.toNat % 2 = 1 := rfl

/-- The mixing of a word can be undone. -/
lemma murmurWord_injective : Function.Injective murmurWord :=
  (mulU32_injective murmurM_odd).comp
    ((xorShiftU32_injective (k := 24) (by omega) (by omega)).comp (mulU32_injective murmurM_odd))

/-- The last mixing can be undone. -/
lemma murmurFinal_injective : Function.Injective murmurFinal :=
  (xorShiftU32_injective (k := 15) (by omega) (by omega)).comp
    ((mulU32_injective murmurM_odd).comp (xorShiftU32_injective (k := 13) (by omega) (by omega)))

end Steps

/-! ## FNV in 64 bits -/

/-- A conversion to 32 bits can be made at the end or at once. -/
lemma toUInt32_charU64 (c : UInt8) : (charU64 c).toUInt32 = charU32 c := by
  refine UInt32.toBitVec_inj.mp ?_
  rw [UInt64.toBitVec_toUInt32, toBitVec_charU64, toBitVec_charU32]
  refine BitVec.eq_of_getLsbD_eq fun i hi => ?_
  rw [BitVec.getLsbD_setWidth, BitVec.getLsbD_signExtend, BitVec.getLsbD_signExtend]
  simp [hi, show i < 64 by omega]

/-- The lower half of the 64-bit FNV-1 is the 32-bit one with another prime. -/
lemma foldl_fnv1_toUInt32 (key : List UInt8) (hash : UInt64) :
    (key.foldl (fun hash c => hash * fnv64Prime ^^^ charU64 c) hash).toUInt32 =
      key.foldl (fnv1Step 435) hash.toUInt32 := by
  induction key generalizing hash with
  | nil => rfl
  | cons c key ih =>
    rw [List.foldl_cons, ih, UInt64.toUInt32_xor, UInt64.toUInt32_mul, toUInt32_charU64]
    rfl

/-- The lower half of the 64-bit FNV-1a is the 32-bit one with another prime. -/
lemma foldl_fnv1a_toUInt32 (key : List UInt8) (hash : UInt64) :
    (key.foldl (fun hash c => (hash ^^^ charU64 c) * fnv64Prime) hash).toUInt32 =
      key.foldl (fnv1aStep 435) hash.toUInt32 := by
  induction key generalizing hash with
  | nil => rfl
  | cons c key ih =>
    rw [List.foldl_cons, ih, UInt64.toUInt32_mul, UInt64.toUInt32_xor, toUInt32_charU64]
    rfl

/-- **FNV in 64 bits, computed in 32**: the two functions return the lower half of what FNV-1 and
FNV-1a leave in a register of 64 bits, though one of them has a register of 32 bits only; so both
are FNV in 32 bits with the prime 435.

**Proof sketch.** The lower half of a product does not depend on the upper halves. -/
theorem hashFnv_64_eq (key : List UInt8) :
    hashFnv1_64 key = key.foldl (fnv1Step 435) 0x84222325 ∧
      hashFnv1a_64 key = key.foldl (fnv1aStep 435) 0x84222325 ∧
      hashFnv1a_64 key = (key.foldl (fun hash c => (hash ^^^ charU64 c) * fnv64Prime)
        fnv64Init).toUInt32 := by
  have hprime : fnv64Prime.toUInt32 = 435 := by decide
  have hinit : fnv64Init.toUInt32 = 0x84222325 := by decide
  have hloop : hashFnv1a_64 key = key.foldl (fnv1aStep 435) 0x84222325 := by
    rw [hashFnv1a_64, hprime, hinit]
  refine ⟨?_, hloop, ?_⟩
  · rw [hashFnv1_64, foldl_fnv1_toUInt32, hinit]
  · rw [hloop, foldl_fnv1a_toUInt32, hinit]

/-! ## Murmur -/

/-- The two lists differ in one place. -/
inductive OneByte : List UInt8 → List UInt8 → Prop
  | here {a b : UInt8} (h : a ≠ b) (bs : List UInt8) : OneByte (a :: bs) (b :: bs)
  | there (a : UInt8) {bs cs : List UInt8} (h : OneByte bs cs) : OneByte (a :: bs) (a :: cs)

/-- Two keys that differ in the byte between two texts. -/
lemma oneByte_append {a b : UInt8} (h : a ≠ b) (before after : List UInt8) :
    OneByte (before ++ a :: after) (before ++ b :: after) := by
  induction before with
  | nil => exact .here h after
  | cons c before ih => exact .there c ih

/-- Keys that differ in one byte have the same length. -/
lemma OneByte.length {bs cs : List UInt8} (h : OneByte bs cs) : bs.length = cs.length := by
  induction h with
  | here _ bs => rfl
  | there a _ ih => rw [List.length_cons, List.length_cons, ih]

/-- Keys that differ in one byte are different. -/
lemma OneByte.ne {bs cs : List UInt8} (h : OneByte bs cs) : bs ≠ cs := by
  induction h with
  | here h bs => exact fun he => h (List.cons.inj he).1
  | there a _ ih => exact fun he => ih (List.cons.inj he).2

/-- A place is among the first four bytes, or behind them. -/
lemma OneByte.split {b0 b1 b2 b3 : UInt8} {data cs : List UInt8}
    (h : OneByte (b0 :: b1 :: b2 :: b3 :: data) cs) : ∃ c0 c1 c2 c3 data',
      cs = c0 :: c1 :: c2 :: c3 :: data' ∧
        (data' = data ∧ [b0, b1, b2, b3] ≠ [c0, c1, c2, c3] ∨
          [b0, b1, b2, b3] = [c0, c1, c2, c3] ∧ OneByte data data') := by
  rcases h with ⟨h, _⟩ | ⟨_, ⟨h, _⟩ | ⟨_, ⟨h, _⟩ | ⟨_, ⟨h, _⟩ | ⟨_, h⟩⟩⟩⟩
  · exact ⟨_, _, _, _, _, rfl, .inl ⟨rfl, by simp [h]⟩⟩
  · exact ⟨_, _, _, _, _, rfl, .inl ⟨rfl, by simp [h]⟩⟩
  · exact ⟨_, _, _, _, _, rfl, .inl ⟨rfl, by simp [h]⟩⟩
  · exact ⟨_, _, _, _, _, rfl, .inl ⟨rfl, by simp [h]⟩⟩
  · exact ⟨_, _, _, _, _, rfl, .inr ⟨rfl, h⟩⟩

/-- Less than a word. -/
lemma length_lt_four {data : List UInt8}
    (h : ∀ b0 b1 b2 b3 data', data = b0 :: b1 :: b2 :: b3 :: data' → False) : data.length < 4 := by
  rcases data with - | ⟨d0, - | ⟨d1, - | ⟨d2, - | ⟨d3, data⟩⟩⟩⟩
  · simp
  · simp
  · simp
  · simp
  · exact absurd rfl (h d0 d1 d2 d3 data)

/-- The loop leaves less than a word to the switch. -/
lemma murmurLoop_of_lt (h : UInt32) {data : List UInt8} (hlt : data.length < 4) :
    murmurLoop h data = (h, data) := by
  rcases data with - | ⟨d0, - | ⟨d1, - | ⟨d2, - | ⟨d3, data⟩⟩⟩⟩
  · rfl
  · rfl
  · rfl
  · rfl
  · simp only [List.length_cons] at hlt
    omega

/-- What `hash_murmur` does before the final mixes. -/
def murmurRun (h : UInt32) (data : List UInt8) : UInt32 :=
  murmurTail (murmurLoop h data).1 (murmurLoop h data).2

/-- Fewer than four bytes are the tail. -/
lemma murmurRun_of_lt (h : UInt32) {data : List UInt8} (hlt : data.length < 4) :
    murmurRun h data = murmurTail h data := by
  rw [murmurRun, murmurLoop_of_lt h hlt]

/-- The tail can be undone. -/
lemma murmurTail_injective (data : List UInt8) : Function.Injective fun h => murmurTail h data := by
  intro h h' he
  unfold murmurTail at he
  rcases data with - | ⟨d0, - | ⟨d1, - | ⟨d2, - | ⟨d3, data⟩⟩⟩⟩
  · exact he
  · simpa using mulU32_injective murmurM_odd he
  · simpa using mulU32_injective murmurM_odd he
  · simpa using mulU32_injective murmurM_odd he
  · exact he

/-- The blocks and the tail can be undone. -/
lemma murmurRun_injective (data : List UInt8) : Function.Injective fun h => murmurRun h data := by
  intro h h' he
  induction h, data using murmurLoop.induct generalizing h' with
  | case1 h b0 b1 b2 b3 data ih =>
    have hstate := @ih (h' * murmurM ^^^ murmurWord (word [b0, b1, b2, b3])) he
    exact mulU32_injective murmurM_odd ((UInt32.xor_left_inj _).mp hstate)
  | case2 h data hshort =>
    have hlt := length_lt_four hshort
    simp only [murmurRun_of_lt _ hlt] at he
    exact murmurTail_injective data he

/-- A byte can be read off its place in a word. -/
lemma shiftByte_injective {k : ℕ} (hk : k ≤ 24) :
    Function.Injective fun d : UInt8 => d.toUInt32 <<< UInt32.ofNat k := by
  intro d d' h
  have hnat := congrArg UInt32.toNat h
  have hlt : ∀ d : UInt8, d.toNat * 2 ^ k < 2 ^ 32 := by
    intro d
    have hpow : 2 ^ k ≤ 2 ^ 24 := Nat.pow_le_pow_right (by norm_num) hk
    have := Nat.mul_lt_mul_of_lt_of_le d.toNat_lt hpow (by norm_num)
    omega
  simp only [UInt32.toNat_shiftLeft, UInt32.toNat_ofNat',
    Nat.mod_eq_of_lt (show k < 2 ^ 32 by omega), Nat.mod_eq_of_lt (show k < 32 by omega),
      Nat.shiftLeft_eq, UInt8.toNat_toUInt32] at hnat
  rw [Nat.mod_eq_of_lt (hlt d), Nat.mod_eq_of_lt (hlt d')] at hnat
  exact UInt8.toNat_inj.mp (Nat.eq_of_mul_eq_mul_right (Nat.two_pow_pos k) hnat)

/-- One of the last bytes. -/
lemma murmurTail_ne (h : UInt32) {data data' : List UInt8} (hone : OneByte data data')
    (hshort : data.length < 4) : murmurTail h data ≠ murmurTail h data' := by
  have h0 : Function.Injective fun d : UInt8 => d.toUInt32 := by
    intro d d' hd
    exact UInt8.toNat_inj.mp (by simpa using congrArg UInt32.toNat hd)
  have h8 := shiftByte_injective (k := 8) (by omega)
  have h16 := shiftByte_injective (k := 16) (by omega)
  intro he
  rcases hone with ⟨hne, bs⟩ | ⟨d0, ⟨hne, bs⟩ | ⟨d1, ⟨hne, bs⟩ | ⟨d2, hone⟩⟩⟩
  · -- the byte is the first of one, two or three
    rcases bs with - | ⟨d1, - | ⟨d2, - | ⟨d3, bs⟩⟩⟩
    · exact hne (h0 ((UInt32.xor_right_inj _).mp (mulU32_injective murmurM_odd he)))
    · exact hne (h0 ((UInt32.xor_right_inj _).mp (mulU32_injective murmurM_odd he)))
    · exact hne (h0 ((UInt32.xor_right_inj _).mp (mulU32_injective murmurM_odd he)))
    · simp only [List.length_cons] at hshort
      omega
  · -- it is the second
    rcases bs with - | ⟨d2, - | ⟨d3, bs⟩⟩
    · have hx := (UInt32.xor_left_inj _).mp (mulU32_injective murmurM_odd he)
      exact hne (h8 ((UInt32.xor_right_inj _).mp hx))
    · have hx := (UInt32.xor_left_inj _).mp (mulU32_injective murmurM_odd he)
      exact hne (h8 ((UInt32.xor_right_inj _).mp hx))
    · simp only [List.length_cons] at hshort
      omega
  · -- it is the third
    rcases bs with - | ⟨d3, bs⟩
    · have hx := (UInt32.xor_left_inj _).mp (mulU32_injective murmurM_odd he)
      exact hne (h16 ((UInt32.xor_right_inj _).mp ((UInt32.xor_left_inj _).mp hx)))
    · simp only [List.length_cons] at hshort
      omega
  · rcases hone with ⟨_, bs⟩ | ⟨_, hone⟩
    all_goals
      simp only [List.length_cons] at hshort
      omega

/-- A byte in any block, or behind the last one. -/
lemma murmurRun_ne (h : UInt32) {data data' : List UInt8} (hone : OneByte data data') :
    murmurRun h data ≠ murmurRun h data' := by
  induction h, data using murmurLoop.induct generalizing data' with
  | case1 h b0 b1 b2 b3 data ih =>
    obtain ⟨c0, c1, c2, c3, cs, rfl, ⟨rfl, hne⟩ | ⟨heq, hrest⟩⟩ := hone.split
    · -- the states behind the block are different, and stay so
      intro he
      have hstate := murmurRun_injective cs he
      have hword := murmurWord_injective ((UInt32.xor_right_inj _).mp hstate)
      exact hne (LittleEndian.word_injective rfl (by simp) hword)
    · obtain ⟨rfl, rfl, rfl, rfl⟩ : b0 = c0 ∧ b1 = c1 ∧ b2 = c2 ∧ b3 = c3 := by simpa using heq
      exact ih hrest
  | case2 h data hshort =>
    have hlt := length_lt_four hshort
    rw [murmurRun_of_lt h hlt, murmurRun_of_lt h (hone.length ▸ hlt)]
    exact murmurTail_ne h hone hlt

/-! ## One byte -/

/-- **One byte makes a difference**: two keys that differ in exactly one byte have different hashes,
in each of these six functions.

**Proof sketch.** Every operation on the state can be undone: the constants are odd, and a shift
only adds what is on one side of a bit.  So the states are different behind the byte, and remain
so. -/
theorem hash_byte_ne (before after : List UInt8) {a b : UInt8} (hab : a ≠ b) :
    hashFnv1_64 (before ++ a :: after) ≠ hashFnv1_64 (before ++ b :: after) ∧
      hashFnv1a_64 (before ++ a :: after) ≠ hashFnv1a_64 (before ++ b :: after) ∧
      hashFnv1_32 (before ++ a :: after) ≠ hashFnv1_32 (before ++ b :: after) ∧
      hashFnv1a_32 (before ++ a :: after) ≠ hashFnv1a_32 (before ++ b :: after) ∧
      hashOneAtATime (before ++ a :: after) ≠ hashOneAtATime (before ++ b :: after) ∧
      hashMurmur (before ++ a :: after) ≠ hashMurmur (before ++ b :: after) := by
  have hprime : fnv64Prime.toUInt32 = 435 := by decide
  have hinit : fnv64Init.toUInt32 = 0x84222325 := by decide
  refine ⟨?_, ?_, ?_, ?_, ?_, ?_⟩
  · rw [hashFnv1_64, hashFnv1_64, foldl_fnv1_toUInt32, foldl_fnv1_toUInt32]
    exact (fnv1Step_reversible (by decide)).foldl_ne _ before after hab
  · exact (fnv1aStep_reversible (by decide)).foldl_ne _ before after hab
  · exact (fnv1Step_reversible (by decide)).foldl_ne _ before after hab
  · exact (fnv1aStep_reversible (by decide)).foldl_ne _ before after hab
  · intro he
    have h15 := addShiftU32_injective (k := 15) (by omega) (by omega) he
    have h11 := xorShiftU32_injective (k := 11) (by omega) (by omega) h15
    have h3 := addShiftU32_injective (k := 3) (by omega) (by omega) h11
    exact oneAtATimeStep_reversible.foldl_ne 0 before after hab h3
  · intro he
    have hlen : (before ++ a :: after).length = (before ++ b :: after).length := by simp
    have hrun := murmurFinal_injective he
    rw [hlen] at hrun
    exact murmurRun_ne _ (oneByte_append hab before after) hrun

/-- Two keys that differ in their second byte. -/
theorem hash_byte_ne_ab :
    hashFnv1_64 ([107] ++ 97 :: [58]) ≠ hashFnv1_64 ([107] ++ 98 :: [58]) ∧
      hashFnv1a_64 ([107] ++ 97 :: [58]) ≠ hashFnv1a_64 ([107] ++ 98 :: [58]) ∧
      hashFnv1_32 ([107] ++ 97 :: [58]) ≠ hashFnv1_32 ([107] ++ 98 :: [58]) ∧
      hashFnv1a_32 ([107] ++ 97 :: [58]) ≠ hashFnv1a_32 ([107] ++ 98 :: [58]) ∧
      hashOneAtATime ([107] ++ 97 :: [58]) ≠ hashOneAtATime ([107] ++ 98 :: [58]) ∧
      hashMurmur ([107] ++ 97 :: [58]) ≠ hashMurmur ([107] ++ 98 :: [58]) :=
  hash_byte_ne [107] [58] (by decide)

end GfwProxy
