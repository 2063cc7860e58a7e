import Mathlib.Tactic.NormNum
import GfwProxy.Lib.Crc

set_option autoImplicit false

/-!
# The three hashes from cyclic redundancy checks

`gf_crc16.c` and `gf_crc32.c`.

## Main definitions

* `GfwProxy.crc16tab`, `GfwProxy.crc32tab` — the tables.
* `GfwProxy.hashCrc16`, `GfwProxy.hashCrc32`, `GfwProxy.hashCrc32a` — the hash functions.

## Main results

* `GfwProxy.hashCrc16_remainder` — the lower half is the remainder of the key, and what the upper
  half is.
* `GfwProxy.hashCrc32a_remainder` — the check of the standard, and 15 of its bits.
* `GfwProxy.hashCrc16_burst`, `GfwProxy.hashCrc32a_burst` — keys that differ in a few neighbouring
  bytes have different hashes.

## Design

A key is a list of bytes.  The source reads it through a pointer to `char`, which is signed, except
in `hash_crc32a`.
-/

namespace GfwProxy

open Crc

/-! ## The code -/

set_option maxRecDepth 4000 in
/-- `crc16tab`. -/
def crc16tab : Vector UInt16 256 :=
  #v[0x0000, 0x1021, 0x2042, 0x3063, 0x4084, 0x50a5, 0x60c6, 0x70e7,
    0x8108, 0x9129, 0xa14a, 0xb16b, 0xc18c, 0xd1ad, 0xe1ce, 0xf1ef,
    0x1231, 0x0210, 0x3273, 0x2252, 0x52b5, 0x4294, 0x72f7, 0x62d6,
    0x9339, 0x8318, 0xb37b, 0xa35a, 0xd3bd, 0xc39c, 0xf3ff, 0xe3de,
    0x2462, 0x3443, 0x0420, 0x1401, 0x64e6, 0x74c7, 0x44a4, 0x5485,
    0xa56a, 0xb54b, 0x8528, 0x9509, 0xe5ee, 0xf5cf, 0xc5ac, 0xd58d,
    0x3653, 0x2672, 0x1611, 0x0630, 0x76d7, 0x66f6, 0x5695, 0x46b4,
    0xb75b, 0xa77a, 0x9719, 0x8738, 0xf7df, 0xe7fe, 0xd79d, 0xc7bc,
    0x48c4, 0x58e5, 0x6886, 0x78a7, 0x0840, 0x1861, 0x2802, 0x3823,
    0xc9cc, 0xd9ed, 0xe98e, 0xf9af, 0x8948, 0x9969, 0xa90a, 0xb92b,
    0x5af5, 0x4ad4, 0x7ab7, 0x6a96, 0x1a71, 0x0a50, 0x3a33, 0x2a12,
    0xdbfd, 0xcbdc, 0xfbbf, 0xeb9e, 0x9b79, 0x8b58, 0xbb3b, 0xab1a,
    0x6ca6, 0x7c87, 0x4ce4, 0x5cc5, 0x2c22, 0x3c03, 0x0c60, 0x1c41,
    0xedae, 0xfd8f, 0xcdec, 0xddcd, 0xad2a, 0xbd0b, 0x8d68, 0x9d49,
    0x7e97, 0x6eb6, 0x5ed5, 0x4ef4, 0x3e13, 0x2e32, 0x1e51, 0x0e70,
    0xff9f, 0xefbe, 0xdfdd, 0xcffc, 0xbf1b, 0xaf3a, 0x9f59, 0x8f78,
    0x9188, 0x81a9, 0xb1ca, 0xa1eb, 0xd10c, 0xc12d, 0xf14e, 0xe16f,
    0x1080, 0x00a1, 0x30c2, 0x20e3, 0x5004, 0x4025, 0x7046, 0x6067,
    0x83b9, 0x9398, 0xa3fb, 0xb3da, 0xc33d, 0xd31c, 0xe37f, 0xf35e,
    0x02b1, 0x1290, 0x22f3, 0x32d2, 0x4235, 0x5214, 0x6277, 0x7256,
    0xb5ea, 0xa5cb, 0x95a8, 0x8589, 0xf56e, 0xe54f, 0xd52c, 0xc50d,
    0x34e2, 0x24c3, 0x14a0, 0x0481, 0x7466, 0x6447, 0x5424, 0x4405,
    0xa7db, 0xb7fa, 0x8799, 0x97b8, 0xe75f, 0xf77e, 0xc71d, 0xd73c,
    0x26d3, 0x36f2, 0x0691, 0x16b0, 0x6657, 0x7676, 0x4615, 0x5634,
    0xd94c, 0xc96d, 0xf90e, 0xe92f, 0x99c8, 0x89e9, 0xb98a, 0xa9ab,
    0x5844, 0x4865, 0x7806, 0x6827, 0x18c0, 0x08e1, 0x3882, 0x28a3,
    0xcb7d, 0xdb5c, 0xeb3f, 0xfb1e, 0x8bf9, 0x9bd8, 0xabbb, 0xbb9a,
    0x4a75, 0x5a54, 0x6a37, 0x7a16, 0x0af1, 0x1ad0, 0x2ab3, 0x3a92,
    0xfd2e, 0xed0f, 0xdd6c, 0xcd4d, 0xbdaa, 0xad8b, 0x9de8, 0x8dc9,
    0x7c26, 0x6c07, 0x5c64, 0x4c45, 0x3ca2, 0x2c83, 0x1ce0, 0x0cc1,
    0xef1f, 0xff3e, 0xcf5d, 0xdf7c, 0xaf9b, 0xbfba, 0x8fd9, 0x9ff8,
    0x6e17, 0x7e36, 0x4e55, 0x5e74, 0x2e93, 0x3eb2, 0x0ed1, 0x1ef0]

set_option maxRecDepth 4000 in
/-- `crc32tab`. -/
def crc32tab : Vector UInt32 256 :=
  #v[0x00000000, 0x77073096, 0xee0e612c, 0x990951ba, 0x076dc419, 0x706af48f, 0xe963a535, 0x9e6495a3,
    0x0edb8832, 0x79dcb8a4, 0xe0d5e91e, 0x97d2d988, 0x09b64c2b, 0x7eb17cbd, 0xe7b82d07, 0x90bf1d91,
    0x1db71064, 0x6ab020f2, 0xf3b97148, 0x84be41de, 0x1adad47d, 0x6ddde4eb, 0xf4d4b551, 0x83d385c7,
    0x136c9856, 0x646ba8c0, 0xfd62f97a, 0x8a65c9ec, 0x14015c4f, 0x63066cd9, 0xfa0f3d63, 0x8d080df5,
    0x3b6e20c8, 0x4c69105e, 0xd56041e4, 0xa2677172, 0x3c03e4d1, 0x4b04d447, 0xd20d85fd, 0xa50ab56b,
    0x35b5a8fa, 0x42b2986c, 0xdbbbc9d6, 0xacbcf940, 0x32d86ce3, 0x45df5c75, 0xdcd60dcf, 0xabd13d59,
    0x26d930ac, 0x51de003a, 0xc8d75180, 0xbfd06116, 0x21b4f4b5, 0x56b3c423, 0xcfba9599, 0xb8bda50f,
    0x2802b89e, 0x5f058808, 0xc60cd9b2, 0xb10be924, 0x2f6f7c87, 0x58684c11, 0xc1611dab, 0xb6662d3d,
    0x76dc4190, 0x01db7106, 0x98d220bc, 0xefd5102a, 0x71b18589, 0x06b6b51f, 0x9fbfe4a5, 0xe8b8d433,
    0x7807c9a2, 0x0f00f934, 0x9609a88e, 0xe10e9818, 0x7f6a0dbb, 0x086d3d2d, 0x91646c97, 0xe6635c01,
    0x6b6b51f4, 0x1c6c6162, 0x856530d8, 0xf262004e, 0x6c0695ed, 0x1b01a57b, 0x8208f4c1, 0xf50fc457,
    0x65b0d9c6, 0x12b7e950, 0x8bbeb8ea, 0xfcb9887c, 0x62dd1ddf, 0x15da2d49, 0x8cd37cf3, 0xfbd44c65,
    0x4db26158, 0x3ab551ce, 0xa3bc0074, 0xd4bb30e2, 0x4adfa541, 0x3dd895d7, 0xa4d1c46d, 0xd3d6f4fb,
    0x4369e96a, 0x346ed9fc, 0xad678846, 0xda60b8d0, 0x44042d73, 0x33031de5, 0xaa0a4c5f, 0xdd0d7cc9,
    0x5005713c, 0x270241aa, 0xbe0b1010, 0xc90c2086, 0x5768b525, 0x206f85b3, 0xb966d409, 0xce61e49f,
    0x5edef90e, 0x29d9c998, 0xb0d09822, 0xc7d7a8b4, 0x59b33d17, 0x2eb40d81, 0xb7bd5c3b, 0xc0ba6cad,
    0xedb88320, 0x9abfb3b6, 0x03b6e20c, 0x74b1d29a, 0xead54739, 0x9dd277af, 0x04db2615, 0x73dc1683,
    0xe3630b12, 0x94643b84, 0x0d6d6a3e, 0x7a6a5aa8, 0xe40ecf0b, 0x9309ff9d, 0x0a00ae27, 0x7d079eb1,
    0xf00f9344, 0x8708a3d2, 0x1e01f268, 0x6906c2fe, 0xf762575d, 0x806567cb, 0x196c3671, 0x6e6b06e7,
    0xfed41b76, 0x89d32be0, 0x10da7a5a, 0x67dd4acc, 0xf9b9df6f, 0x8ebeeff9, 0x17b7be43, 0x60b08ed5,
    0xd6d6a3e8, 0xa1d1937e, 0x38d8c2c4, 0x4fdff252, 0xd1bb67f1, 0xa6bc5767, 0x3fb506dd, 0x48b2364b,
    0xd80d2bda, 0xaf0a1b4c, 0x36034af6, 0x41047a60, 0xdf60efc3, 0xa867df55, 0x316e8eef, 0x4669be79,
    0xcb61b38c, 0xbc66831a, 0x256fd2a0, 0x5268e236, 0xcc0c7795, 0xbb0b4703, 0x220216b9, 0x5505262f,
    0xc5ba3bbe, 0xb2bd0b28, 0x2bb45a92, 0x5cb36a04, 0xc2d7ffa7, 0xb5d0cf31, 0x2cd99e8b, 0x5bdeae1d,
    0x9b64c2b0, 0xec63f226, 0x756aa39c, 0x026d930a, 0x9c0906a9, 0xeb0e363f, 0x72076785, 0x05005713,
    0x95bf4a82, 0xe2b87a14, 0x7bb12bae, 0x0cb61b38, 0x92d28e9b, 0xe5d5be0d, 0x7cdcefb7, 0x0bdbdf21,
    0x86d3d2d4, 0xf1d4e242, 0x68ddb3f8, 0x1fda836e, 0x81be16cd, 0xf6b9265b, 0x6fb077e1, 0x18b74777,
    0x88085ae6, 0xff0f6a70, 0x66063bca, 0x11010b5c, 0x8f659eff, 0xf862ae69, 0x616bffd3, 0x166ccf45,
    0xa00ae278, 0xd70dd2ee, 0x4e048354, 0x3903b3c2, 0xa7672661, 0xd06016f7, 0x4969474d, 0x3e6e77db,
    0xaed16a4a, 0xd9d65adc, 0x40df0b66, 0x37d83bf0, 0xa9bcae53, 0xdebb9ec5, 0x47b2cf7f, 0x30b5ffe9,
    0xbdbdf21c, 0xcabac28a, 0x53b39330, 0x24b4a3a6, 0xbad03605, 0xcdd70693, 0x54de5729, 0x23d967bf,
    0xb3667a2e, 0xc4614ab8, 0x5d681b02, 0x2a6f2b94, 0xb40bbe37, 0xc30c8ea1, 0x5a05df1b, 0x2d02ef8d]

/-- A `char`, converted to `uint32_t`. -/
def charU32 (c : UInt8) : UInt32 := c.toInt8.toInt32.toUInt32

/-- A `char`, converted to `uint64_t`. -/
def charU64 (c : UInt8) : UInt64 := c.toInt8.toInt64.toUInt64

/-- The index `x & 0xff`. -/
def lowByte (x : UInt32) : Fin 256 :=
  ⟨(x &&& 0xff).toNat, by
    rw [UInt32.toNat_and]
    exact Nat.lt_succ_of_le Nat.and_le_right⟩

/-- The index `x & 0xff` of a `uint64_t`. -/
def lowByte64 (x : UInt64) : Fin 256 :=
  ⟨(x &&& 0xff).toNat, by
    rw [UInt64.toNat_and]
    exact Nat.lt_succ_of_le Nat.and_le_right⟩

/-- The loop of `hash_crc16`; `crc` has 32 bits. -/
def crc16Loop (crc : UInt32) (key : List UInt8) : UInt32 :=
  key.foldl (fun crc c => crc <<< 8 ^^^ (crc16tab.get (lowByte (crc >>> 8 ^^^ charU32 c))).toUInt32)
    crc

/-- `hash_crc16`. -/
def hashCrc16 (key : List UInt8) : UInt32 := crc16Loop 0 key

/-- The loop of `hash_crc32`. -/
def crc32Loop (crc : UInt32) (key : List UInt8) : UInt32 :=
  key.foldl (fun crc c => crc >>> 8 ^^^ crc32tab.get (lowByte64 (crc.toUInt64 ^^^ charU64 c))) crc

/-- `hash_crc32`. -/
def hashCrc32 (key : List UInt8) : UInt32 := ~~~(crc32Loop 0xffffffff key) >>> 16 &&& 0x7fff

/-- The loop of `hash_crc32a`. -/
def crc32aLoop (crc : UInt32) (key : List UInt8) : UInt32 :=
  key.foldl (fun crc c => crc32tab.get (lowByte (crc ^^^ c.toUInt32)) ^^^ crc >>> 8) crc

/-- `hash_crc32a`. -/
def hashCrc32a (key : List UInt8) : UInt32 := crc32aLoop (~~~0) key ^^^ ~~~0

/-! ## The tables -/

/-- The bits of a key, each byte from its most significant bit on. -/
def highBits (key : List UInt8) : List Bool := key.flatMap fun c => highFirst c.toBitVec

/-- The bits of a key, each byte from its least significant bit on. -/
def lowBits (key : List UInt8) : List Bool := key.flatMap fun c => lowFirst c.toBitVec

/-- An entry of `crc16tab` is what the register makes of the index. -/
lemma crc16tab_eq (i : Fin 256) :
    (crc16tab.get i).toBitVec = feed 0x1021#16 0#16 (highFirst (BitVec.ofFin i)) := by
  revert i
  decide +kernel

/-- An entry of `crc32tab` is what the reflected register makes of the index. -/
lemma crc32tab_eq (i : Fin 256) :
    (crc32tab.get i).toBitVec = feedR 0xedb88320#32 0#32 (lowFirst (BitVec.ofFin i)) := by
  revert i
  decide +kernel

/-! ## A character at a time -/

/-- The bits of a `char` in a `uint32_t`. -/
lemma toBitVec_charU32 (c : UInt8) : (charU32 c).toBitVec = c.toBitVec.signExtend 32 := rfl

/-- The bits of a `char` in a `uint64_t`. -/
lemma toBitVec_charU64 (c : UInt8) : (charU64 c).toBitVec = c.toBitVec.signExtend 64 := rfl

/-- The sign is above the bits that select the entry. -/
lemma setWidth_signExtend {w : ℕ} (hw : 8 ≤ w) (b : BitVec 8) :
    (b.signExtend w).setWidth 8 = b := by
  refine BitVec.eq_of_getLsbD_eq fun i hi => ?_
  rw [BitVec.getLsbD_setWidth, BitVec.getLsbD_signExtend]
  simp [hi, show i < w by omega]

/-- The index into the table is the low byte. -/
lemma ofFin_lowByte (x : UInt32) : BitVec.ofFin (w := 8) (lowByte x) = x.toBitVec.setWidth 8 := by
  refine BitVec.eq_of_toNat_eq ?_
  have hval : (lowByte x : ℕ) = x.toNat &&& 0xff := UInt32.toNat_and x 0xff
  rw [BitVec.toNat_setWidth, BitVec.toNat_ofFin, hval, UInt32.toNat_toBitVec]
  exact Nat.and_two_pow_sub_one_eq_mod x.toNat 8

/-- The index into the table is the low byte, in the wider register too. -/
lemma ofFin_lowByte64 (x : UInt64) :
    BitVec.ofFin (w := 8) (lowByte64 x) = x.toBitVec.setWidth 8 := by
  refine BitVec.eq_of_toNat_eq ?_
  have hval : (lowByte64 x : ℕ) = x.toNat &&& 0xff := UInt64.toNat_and x 0xff
  rw [BitVec.toNat_setWidth, BitVec.toNat_ofFin, hval, UInt64.toNat_toBitVec]
  exact Nat.and_two_pow_sub_one_eq_mod x.toNat 8

/-- The bits of the register without its low byte. -/
lemma toBitVec_shiftRight8 (x : UInt32) : (x >>> 8).toBitVec = x.toBitVec >>> 8 := by
  rw [UInt32.toBitVec_shiftRight]
  rfl

/-- The bits of the register, one byte further up. -/
lemma toBitVec_shiftLeft8 (x : UInt32) : (x <<< 8).toBitVec = x.toBitVec <<< 8 := by
  rw [UInt32.toBitVec_shiftLeft]
  rfl

/-- One round of `hash_crc16`, as to the lower half of `crc`. -/
lemma crc16Loop_low (crc : UInt32) (c : UInt8) : (crc16Loop crc [c]).toBitVec.setWidth 16 =
    feed 0x1021#16 (crc.toBitVec.setWidth 16) (highFirst c.toBitVec) := by
  have htop : top (crc.toBitVec.setWidth 16) = (crc.toBitVec >>> 8).setWidth 8 := by
    refine BitVec.eq_of_getLsbD_eq fun i hi => ?_
    simp [top, hi, show 8 + i < 16 by omega]
  rw [crc16Loop, List.foldl_cons, List.foldl_nil, feed_byte (by omega), htop, UInt32.toBitVec_xor,
    BitVec.setWidth_xor, UInt16.toBitVec_toUInt32, crc16tab_eq, ofFin_lowByte, UInt32.toBitVec_xor,
    BitVec.setWidth_xor, toBitVec_charU32, setWidth_signExtend (by omega), toBitVec_shiftRight8,
    toBitVec_shiftLeft8]
  congr 1
  · refine BitVec.eq_of_getLsbD_eq fun i hi => ?_
    simp [hi]
  · simp

/-- One round of `hash_crc16`, as to the upper half of `crc`. -/
lemma crc16Loop_high (crc : UInt32) (c : UInt8) {i : ℕ} (hi : 16 ≤ i) (hlt : i < 32) :
    (crc16Loop crc [c]).toBitVec.getLsbD i = crc.toBitVec.getLsbD (i - 8) := by
  rw [crc16Loop, List.foldl_cons, List.foldl_nil, UInt32.toBitVec_xor, BitVec.getLsbD_xor,
    UInt16.toBitVec_toUInt32, toBitVec_shiftLeft8, BitVec.getLsbD_shiftLeft,
    BitVec.getLsbD_setWidth, BitVec.getLsbD_of_ge _ i hi]
  simp [hlt, show ¬i < 8 by omega]

/-- One round of `hash_crc32a`. -/
lemma crc32aLoop_step (crc : UInt32) (c : UInt8) : (crc32aLoop crc [c]).toBitVec =
    feedR 0xedb88320#32 crc.toBitVec (lowFirst c.toBitVec) := by
  rw [crc32aLoop, List.foldl_cons, List.foldl_nil, feedR_byte (by omega), UInt32.toBitVec_xor,
    crc32tab_eq, ofFin_lowByte, UInt32.toBitVec_xor, BitVec.setWidth_xor, UInt8.toBitVec_toUInt32,
    toBitVec_shiftRight8, BitVec.xor_comm]
  simp

/-- The sign of a character makes no difference. -/
lemma crc32Loop_eq (crc : UInt32) (key : List UInt8) : crc32Loop crc key = crc32aLoop crc key := by
  induction key generalizing crc with
  | nil => rfl
  | cons c key ih =>
    have hidx : lowByte64 (crc.toUInt64 ^^^ charU64 c) = lowByte (crc ^^^ c.toUInt32) := by
      have h : BitVec.ofFin (w := 8) (lowByte64 (crc.toUInt64 ^^^ charU64 c)) =
          BitVec.ofFin (w := 8) (lowByte (crc ^^^ c.toUInt32)) := by
        rw [ofFin_lowByte64, ofFin_lowByte, UInt64.toBitVec_xor, UInt32.toBitVec_xor,
          BitVec.setWidth_xor, BitVec.setWidth_xor, toBitVec_charU64,
            setWidth_signExtend (by omega)]
        simp
      exact congrArg BitVec.toFin h
    rw [crc32Loop, List.foldl_cons, hidx, UInt32.xor_comm]
    exact ih _

/-! ## The loops are registers -/

/-- The bits of two keys, the highest bit of each byte first. -/
lemma highBits_append (key key' : List UInt8) :
    highBits (key ++ key') = highBits key ++ highBits key' :=
  List.flatMap_append

/-- The bits of two keys, the lowest bit of each byte first. -/
lemma lowBits_append (key key' : List UInt8) :
    lowBits (key ++ key') = lowBits key ++ lowBits key' :=
  List.flatMap_append

section Bits

variable {f : BitVec 8 → List Bool} (hlength : ∀ b, (f b).length = 8)

include hlength

/-- A key in an order of the bits: eight bits for a byte. -/
lemma length_flatMap_bits (key : List UInt8) :
    (key.flatMap fun c => f c.toBitVec).length = 8 * key.length := by
  induction key with
  | nil => rfl
  | cons c key ih =>
    rw [List.flatMap_cons, List.length_append, hlength, ih, List.length_cons]
    omega

/-- If an order of the bits keeps bytes apart, it keeps keys of one length apart. -/
lemma flatMap_bits_injective (hf : Function.Injective f) {key key' : List UInt8}
    (hlen : key.length = key'.length)
    (h : (key.flatMap fun c => f c.toBitVec) = key'.flatMap fun c => f c.toBitVec) :
    key = key' := by
  induction key generalizing key' with
  | nil => exact (List.eq_nil_of_length_eq_zero hlen.symm).symm
  | cons c key ih =>
    obtain ⟨c', key', rfl⟩ := List.exists_cons_of_length_eq_add_one hlen.symm
    obtain ⟨hc, hkey⟩ := List.append_inj h (by rw [hlength, hlength])
    rw [ih (by simpa using hlen) hkey, UInt8.toBitVec_inj.mp (hf hc)]

end Bits

/-- A byte has eight bits. -/
lemma length_highBits (key : List UInt8) : (highBits key).length = 8 * key.length :=
  length_flatMap_bits (by simp [highFirst]) key

/-- A byte has eight bits, in the other order too. -/
lemma length_lowBits (key : List UInt8) : (lowBits key).length = 8 * key.length :=
  length_flatMap_bits (by simp [lowFirst]) key

/-- A key can be read off its bits. -/
lemma highBits_injective {key key' : List UInt8} (hlen : key.length = key'.length)
    (h : highBits key = highBits key') : key = key' :=
  flatMap_bits_injective (by simp [highFirst]) (fun _ _ => highFirst_injective) hlen h

/-- A key can be read off its bits in the other order. -/
lemma lowBits_injective {key key' : List UInt8} (hlen : key.length = key'.length)
    (h : lowBits key = lowBits key') : key = key' :=
  flatMap_bits_injective (by simp [lowFirst]) (fun _ _ => lowFirst_injective) hlen h

/-- The lower half of `crc` is a register. -/
lemma crc16Loop_eq (crc : UInt32) (key : List UInt8) :
    (crc16Loop crc key).toBitVec.setWidth 16 = feed 0x1021#16 (crc.toBitVec.setWidth 16)
      (highBits key) := by
  induction key generalizing crc with
  | nil => rfl
  | cons c key ih =>
    have h := ih (crc16Loop crc [c])
    rw [crc16Loop_low, ← feed_append] at h
    exact h

/-- `crc` is a reflected register. -/
lemma crc32aLoop_eq (crc : UInt32) (key : List UInt8) :
    (crc32aLoop crc key).toBitVec = feedR 0xedb88320#32 crc.toBitVec (lowBits key) := by
  induction key generalizing crc with
  | nil => rfl
  | cons c key ih =>
    have h := ih (crc32aLoop crc [c])
    rw [crc32aLoop_step, ← feedR_append] at h
    exact h

/-! ## The hashes -/

/-- The cyclic redundancy check of 16 bits, by `X ^ 16 + X ^ 12 + X ^ 5 + 1`, which begins with
0. -/
def crc16 (key : List UInt8) : BitVec 16 := feed 0x1021#16 0#16 (highBits key)

open Polynomial in
/-- The polynomial of `crc16tab`. -/
lemma generator_crc16 : generator 0x1021#16 = (X ^ 16 + X ^ 12 + X ^ 5 + 1 : (ZMod 2)[X]) := by
  have hpoly : poly 0x1021#16 = (X ^ 12 + X ^ 5 + 1 : (ZMod 2)[X]) := by
    simp only [poly, Finset.sum_range_succ, Finset.sum_range_zero]
    simp
    ring
  rw [generator, hpoly]
  ring

open Polynomial in
/-- The polynomial of `crc32tab`. -/
lemma generator_crc32 : generator (0xedb88320#32).reverse =
    (X ^ 32 + X ^ 26 + X ^ 23 + X ^ 22 + X ^ 16 + X ^ 12 + X ^ 11 + X ^ 10 + X ^ 8 + X ^ 7 +
      X ^ 5 + X ^ 4 + X ^ 2 + X + 1 : (ZMod 2)[X]) := by
  have hrev : (0xedb88320#32).reverse = 0x04c11db7#32 := by decide +kernel
  have hpoly : poly 0x04c11db7#32 =
      (X ^ 26 + X ^ 23 + X ^ 22 + X ^ 16 + X ^ 12 + X ^ 11 + X ^ 10 + X ^ 8 +
        X ^ 7 + X ^ 5 + X ^ 4 + X ^ 2 + X + 1 : (ZMod 2)[X]) := by
    simp only [poly, Finset.sum_range_succ, Finset.sum_range_zero]
    simp
    ring
  rw [hrev, generator, hpoly]
  ring

/-- The lower half of the register is the remainder. -/
lemma hashCrc16_low (key : List UInt8) : (hashCrc16 key).toBitVec.setWidth 16 = crc16 key := by
  rw [hashCrc16, crc16Loop_eq]
  rfl

/-- The hash goes on behind the first part of a key. -/
lemma hashCrc16_append (key key' : List UInt8) :
    hashCrc16 (key ++ key') = crc16Loop (hashCrc16 key) key' := List.foldl_append

open Polynomial in
/-- **`hash_crc16` is the remainder of the key**, in its lower half.  `crc` has 32 bits and is not
cut: the upper half holds the upper bytes of what was there one and two characters before.

**Proof sketch.** The table holds the remainders of the bytes, and the register is linear.  What is
shifted above bit 15 is never touched again. -/
theorem hashCrc16_remainder (key : List UInt8) :
    poly ((hashCrc16 key).toBitVec.setWidth 16) =
      (X ^ 16 * message (highBits key)) %ₘ (X ^ 16 + X ^ 12 + X ^ 5 + 1 : (ZMod 2)[X]) ∧
    ∀ c c', (hashCrc16 (key ++ [c, c'])).toBitVec =
      (top (crc16 key) ++ top (crc16 (key ++ [c])) : BitVec 16) ++ crc16 (key ++ [c, c']) := by
  refine ⟨?_, fun c c' => BitVec.eq_of_getLsbD_eq fun i hi => ?_⟩
  · have hzero : poly 0#16 = 0 := by
      ext i
      simp [coeff_poly]
    rw [hashCrc16_low, crc16, poly_feed, hzero, mul_zero, zero_add, generator_crc16]
  · have hsplit : key ++ [c, c'] = key ++ [c] ++ [c'] := by simp
    rw [BitVec.getLsbD_append, BitVec.getLsbD_append]
    by_cases hlow : i < 16
    · rw [if_pos hlow, ← hashCrc16_low, BitVec.getLsbD_setWidth]
      simp [hlow]
    rw [if_neg hlow, hsplit, hashCrc16_append, crc16Loop_high _ _ (by omega) hi]
    by_cases hmid : i - 16 < 8
    · rw [if_pos hmid, ← hashCrc16_low, top, BitVec.getLsbD_setWidth, BitVec.getLsbD_ushiftRight,
        BitVec.getLsbD_setWidth, show 16 - 8 + (i - 16) = i - 8 by omega]
      simp [hmid, show i - 8 < 16 by omega]
    · rw [if_neg hmid, hashCrc16_append,
        crc16Loop_high _ _ (by omega) (by omega), ← hashCrc16_low, top, BitVec.getLsbD_setWidth,
        BitVec.getLsbD_ushiftRight, BitVec.getLsbD_setWidth,
          show 16 - 8 + (i - 16 - 8) = i - 8 - 8 by omega]
      simp [show i - 16 - 8 < 8 by omega, show i - 8 - 8 < 16 by omega]

open Polynomial in
/-- **`hash_crc32a` is the CRC-32 of the standard**: the register begins with ones, is reflected,
and is inverted at the end.  `hash_crc32`, which reads signed characters, returns 15 bits of it. -/
theorem hashCrc32a_remainder (key : List UInt8) :
    poly (~~~hashCrc32a key).toBitVec.reverse =
      (X ^ (8 * key.length) * ∑ i ∈ Finset.range 32, X ^ i + X ^ 32 * message (lowBits key)) %ₘ
        (X ^ 32 + X ^ 26 + X ^ 23 + X ^ 22 + X ^ 16 + X ^ 12 + X ^ 11 + X ^ 10 + X ^ 8 +
          X ^ 7 + X ^ 5 + X ^ 4 + X ^ 2 + X + 1 : (ZMod 2)[X]) ∧
    hashCrc32 key = hashCrc32a key >>> 16 &&& 0x7fff := by
  have hnot : ~~~hashCrc32a key = crc32aLoop (~~~0) key := by
    refine UInt32.toBitVec_inj.mp ?_
    rw [hashCrc32a]
    simp
  constructor
  · have hones : poly (BitVec.allOnes 32) = ∑ i ∈ Finset.range 32, (X ^ i : (ZMod 2)[X]) := by
      refine Finset.sum_congr rfl fun i hi => ?_
      rw [BitVec.getLsbD_allOnes, decide_eq_true (Finset.mem_range.mp hi), if_pos rfl]
    have hrev : (~~~0 : UInt32).toBitVec.reverse = BitVec.allOnes 32 := by decide +kernel
    rw [hnot, crc32aLoop_eq, feedR_eq, BitVec.reverse_reverse_eq, poly_feed, length_lowBits,
      hrev, hones, generator_crc32]
  · rw [hashCrc32, crc32Loop_eq, show (0xffffffff : UInt32) = ~~~0 by decide, ← hnot,
      UInt32.not_not]

/-- **Neighbouring bytes, `hash_crc16`**: keys that differ only in up to two neighbouring bytes have
different hashes. -/
theorem hashCrc16_burst (before part part' after : List UInt8) (hlen : part.length = part'.length)
    (hle : part.length ≤ 2) (hne : part ≠ part') :
    hashCrc16 (before ++ part ++ after) ≠ hashCrc16 (before ++ part' ++ after) := by
  intro he
  have hcrc : crc16 (before ++ part ++ after) = crc16 (before ++ part' ++ after) := by
    rw [← hashCrc16_low, ← hashCrc16_low, he]
  rw [crc16, crc16, highBits_append, highBits_append, highBits_append, highBits_append] at hcrc
  refine feed_burst (by omega) (by decide) 0#16 ?_ ?_ ?_ hcrc
  · rw [length_highBits, length_highBits, hlen]
  · rw [length_highBits]
    omega
  · exact fun hbits => hne (highBits_injective hlen hbits)

/-- Two bytes are exchanged. -/
theorem hashCrc16_burst_ab :
    hashCrc16 ([107] ++ [97, 98] ++ [58]) ≠ hashCrc16 ([107] ++ [98, 97] ++ [58]) :=
  hashCrc16_burst [107] [97, 98] [98, 97] [58] rfl (by decide) (by decide)

/-- **Neighbouring bytes, `hash_crc32a`**: keys that differ only in up to four neighbouring bytes
have different hashes. -/
theorem hashCrc32a_burst (before part part' after : List UInt8) (hlen : part.length = part'.length)
    (hle : part.length ≤ 4) (hne : part ≠ part') :
    hashCrc32a (before ++ part ++ after) ≠ hashCrc32a (before ++ part' ++ after) := by
  intro he
  have hloop : crc32aLoop (~~~0) (before ++ part ++ after) =
      crc32aLoop (~~~0) (before ++ part' ++ after) :=
    (UInt32.xor_left_inj _).mp he
  have hreg := congrArg (fun crc => crc.toBitVec.reverse) hloop
  simp only [crc32aLoop_eq, feedR_eq, BitVec.reverse_reverse_eq] at hreg
  rw [lowBits_append, lowBits_append, lowBits_append, lowBits_append] at hreg
  refine feed_burst (by omega) (by decide +kernel) _ ?_ ?_ ?_ hreg
  · rw [length_lowBits, length_lowBits, hlen]
  · rw [length_lowBits]
    omega
  · exact fun hbits => hne (lowBits_injective hlen hbits)

/-- Four bytes are turned round. -/
theorem hashCrc32a_burst_abcd :
    hashCrc32a ([107] ++ [97, 98, 99, 100] ++ []) ≠ hashCrc32a ([107] ++ [100, 99, 98, 97] ++ []) :=
  hashCrc32a_burst [107] [97, 98, 99, 100] [100, 99, 98, 97] [] rfl (by decide) (by decide)

example : hashCrc32a [49, 50, 51, 52, 53, 54, 55, 56, 57] = 0xcbf43926 := by decide +kernel

end GfwProxy
