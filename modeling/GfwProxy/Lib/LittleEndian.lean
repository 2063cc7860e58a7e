import Mathlib.Data.Nat.Digits.Lemmas

set_option autoImplicit false

/-!
# Little-endian words

The value of a list of bytes whose first one is the least significant, and what a 32-bit machine
does with it: shifts move the bytes up, masks leave the first ones.

## Main definitions

* `LittleEndian.value`, `LittleEndian.word` — the value of some bytes, as a number and in 32 bits.
* `LittleEndian.bytes` — the first bytes of a number.

## Main results

* `LittleEndian.word_append` — a word is the sum of its parts, shifted.
* `LittleEndian.word_and` — a mask of full bytes keeps the first bytes.
-/

namespace LittleEndian

variable {bs cs : List UInt8} {b : UInt8} {k m n : ℕ}

/-- The value of some bytes, the least significant one first. -/
def value (bs : List UInt8) : ℕ := Nat.ofDigits 256 (bs.map UInt8.toNat)

/-- The same in 32 bits. -/
def word (bs : List UInt8) : UInt32 := UInt32.ofNat (value bs)

/-- No bytes. -/
@[simp] lemma value_nil : value [] = 0 := rfl

/-- The lowest byte and the others. -/
@[simp] lemma value_cons (b : UInt8) (bs : List UInt8) :
    value (b :: bs) = b.toNat + 256 * value bs := by
  simp [value, Nat.ofDigits_cons]

/-- The lower bytes and the higher ones. -/
lemma value_append (bs cs : List UInt8) :
    value (bs ++ cs) = value bs + 256 ^ bs.length * value cs := by
  simp [value, Nat.ofDigits_append]

/-- Every byte is a digit. -/
lemma toNat_lt_of_mem_map {d : ℕ} (h : d ∈ bs.map UInt8.toNat) : d < 256 := by
  obtain ⟨b, -, rfl⟩ := List.mem_map.mp h
  exact b.toNat_lt

/-- The number of the values of some bytes. -/
lemma value_lt (bs : List UInt8) : value bs < 256 ^ bs.length := by
  have hdigits : ∀ d ∈ bs.map UInt8.toNat, d < 256 := fun d hd => toNat_lt_of_mem_map hd
  have h := Nat.ofDigits_lt_base_pow_length (by norm_num : 1 < 256) hdigits
  rwa [List.length_map] at h

/-- As many bytes with the same value are the same bytes. -/
lemma value_injective (hlen : bs.length = cs.length) (h : value bs = value cs) : bs = cs := by
  have hdigits := Nat.ofDigits_inj_of_len_eq (by norm_num : 1 < 256) (by simpa using hlen)
    (fun d hd => toNat_lt_of_mem_map hd) (fun d hd => toNat_lt_of_mem_map hd) h
  exact List.map_injective_iff.mpr (fun b c hbc => UInt8.toNat_inj.mp hbc) hdigits

/-- The first bytes are the remainder. -/
lemma value_take (k : ℕ) (bs : List UInt8) : value (bs.take k) = value bs % 256 ^ k := by
  rw [value, value, List.map_take]
  exact (Nat.ofDigits_mod_pow_eq_ofDigits_take k (by norm_num) _ fun d hd =>
    toNat_lt_of_mem_map hd).symm

/-- The word of no bytes. -/
@[simp] lemma word_nil : word [] = 0 := rfl

/-- The same in 32 bits. -/
lemma word_injective (hlen : bs.length = cs.length) (hle : bs.length ≤ 4) (h : word bs = word cs) :
    bs = cs := by
  have hpow : 256 ^ bs.length ≤ 2 ^ 32 := by
    calc 256 ^ bs.length ≤ 256 ^ 4 := Nat.pow_le_pow_right (by norm_num) hle
      _ = 2 ^ 32 := by norm_num
  have hnat := congrArg UInt32.toNat h
  rw [word, word, UInt32.toNat_ofNat', UInt32.toNat_ofNat',
    Nat.mod_eq_of_lt ((value_lt bs).trans_le hpow),
      Nat.mod_eq_of_lt ((value_lt cs).trans_le (hlen ▸ hpow))] at hnat
  exact value_injective hlen hnat

/-- A shift multiplies. -/
lemma ofNat_shiftLeft (n : ℕ) (hk : k < 32) :
    UInt32.ofNat n <<< UInt32.ofNat k = UInt32.ofNat (n * 2 ^ k) := by
  rw [← UInt32.toNat_inj, UInt32.toNat_shiftLeft, UInt32.toNat_ofNat', UInt32.toNat_ofNat',
    UInt32.toNat_ofNat', Nat.mod_eq_of_lt (by omega : k < 2 ^ 32), Nat.mod_eq_of_lt hk,
    Nat.shiftLeft_eq, Nat.mod_mul_mod]

/-- **A word is the sum of its parts**, of which the second one is shifted behind the first one. -/
theorem word_append (h : bs.length < 4) :
    word (bs ++ cs) = word bs + word cs <<< UInt32.ofNat (8 * bs.length) := by
  have hpow : 256 ^ bs.length = 2 ^ (8 * bs.length) := by
    rw [pow_mul]
    norm_num
  rw [word, word, word, value_append, ofNat_shiftLeft _ (by omega), UInt32.ofNat_add, hpow,
    Nat.mul_comm]

/-- **A mask of full bytes keeps the first bytes.** -/
theorem word_and (hk : k ≤ 4) : word bs &&& UInt32.ofNat (2 ^ (8 * k) - 1) = word (bs.take k) := by
  have hpow : 256 ^ k = 2 ^ (8 * k) := by
    rw [pow_mul]
    norm_num
  have hle : 2 ^ (8 * k) ≤ 2 ^ 32 := Nat.pow_le_pow_right (by norm_num) (by omega)
  have hpos : 0 < 2 ^ (8 * k) := Nat.two_pow_pos _
  have hdvd : 2 ^ (8 * k) ∣ 2 ^ 32 := pow_dvd_pow 2 (by omega)
  have hlt : value bs % 2 ^ (8 * k) < 2 ^ 32 := (Nat.mod_lt _ hpos).trans_le hle
  rw [word, word, value_take, hpow, ← UInt32.toNat_inj, UInt32.toNat_and, UInt32.toNat_ofNat',
    UInt32.toNat_ofNat', UInt32.toNat_ofNat',
    Nat.mod_eq_of_lt (by omega : 2 ^ (8 * k) - 1 < 2 ^ 32), Nat.and_two_pow_sub_one_eq_mod,
      Nat.mod_mod_of_dvd _ hdvd, Nat.mod_eq_of_lt hlt]

/-! ## The bytes of a number -/

/-- The `k` least significant bytes of `v`. -/
def bytes (k v : ℕ) : List UInt8 := (List.range k).map fun i => UInt8.ofNat (v / 256 ^ i)

/-- The number of the bytes of a number. -/
@[simp] lemma length_bytes (k v : ℕ) : (bytes k v).length = k := by simp [bytes]

/-- The upper bytes of a number are those of its quotient. -/
lemma bytes_add (j k v : ℕ) : bytes (j + k) v = bytes j v ++ bytes k (v / 256 ^ j) := by
  simp [bytes, List.range_add, pow_add, Nat.div_div_eq_div_mul]

/-- Only the remainder counts. -/
lemma bytes_mod (k v : ℕ) : bytes k (v % 256 ^ k) = bytes k v := by
  refine List.map_congr_left fun i hi => ?_
  obtain ⟨j, rfl⟩ := Nat.exists_eq_add_of_lt (List.mem_range.mp hi)
  have hpow : 256 ^ (i + j + 1) = 256 ^ i * (256 * 256 ^ j) := by ring
  rw [← UInt8.toNat_inj, UInt8.toNat_ofNat', UInt8.toNat_ofNat', hpow, Nat.mod_mul_right_div_self,
    Nat.mod_mod_of_dvd _ (dvd_mul_right 256 _)]

end LittleEndian
