import GfwProxy.Hashkit.Update
import GfwProxy.Lib.Blocks
import GfwProxy.Lib.Decimal
import GfwProxy.Lib.LittleEndian

set_option autoImplicit false

/-!
# MD5

`gf_md5.c`, and the points of the continuum that are made with it.

## Main definitions

* `GfwProxy.Md5Regs`, `GfwProxy.Md5Ctx` — the four words, and the context.
* `GfwProxy.md5Steps`, `GfwProxy.md5Body` — the lines `STEP` of the source, and `body`.
* `GfwProxy.md5Init`, `GfwProxy.md5Update`, `GfwProxy.md5Final`, `GfwProxy.md5Signature`.
* `GfwProxy.hashMd5`, `GfwProxy.ketamaHash`, `GfwProxy.ketamaPoint`.
* `GfwProxy.rfcBlock`, `GfwProxy.rfcPad`, `GfwProxy.rfcDigest` — the digest as RFC 1321 describes
  it.

## Main results

* `GfwProxy.md5Block_eq_rfcBlock` — the lines of the source are the four rounds.
* `GfwProxy.Md5Ctx.Streams.update`, `GfwProxy.Md5Ctx.Streams.final` — what `MD5_Update` and
  `MD5_Final` do to a context that has read some bytes.
* `GfwProxy.md5_chunks` — however a message is cut, its digest is that of RFC 1321.
* `GfwProxy.ketamaHash_words` — the hash values are the words of the digest.

## Design

The buffer is a list.  A copy that goes beyond its end makes it longer, which `Md5Ctx.Streams`
excludes.  What the buffer holds before it is written is a parameter: the source leaves it
uninitialised.  A number of bytes is not bounded here; the two counters of the context wrap around
as in the source.
-/

namespace GfwProxy

open LittleEndian (word bytes)

/-! ## The code -/

/-- The words `a`, `b`, `c`, `d`. -/
structure Md5Regs where
  a : UInt32
  b : UInt32
  c : UInt32
  d : UInt32
  deriving DecidableEq, Repr

/-- `F`, `G`, `H` and `I`. -/
inductive Md5Fn
  | f
  | g
  | h
  | i
  deriving DecidableEq, Repr

/-- The four macros. -/
def Md5Fn.eval : Md5Fn → UInt32 → UInt32 → UInt32 → UInt32
  | .f, x, y, z => z ^^^ (x &&& (y ^^^ z))
  | .g, x, y, z => y ^^^ (z &&& (x ^^^ y))
  | .h, x, y, z => x ^^^ y ^^^ z
  | .i, x, y, z => y ^^^ (x ||| ~~~z)

/-- The word that a line assigns; the other three follow it in the order `a`, `b`, `c`, `d`. -/
inductive Md5Reg
  | a
  | b
  | c
  | d
  deriving DecidableEq, Repr

/-- A line `STEP(f, r, ., ., ., GET(n), t, s)`. -/
structure Md5Step where
  f : Md5Fn
  r : Md5Reg
  n : ℕ
  t : UInt32
  s : UInt32
  deriving DecidableEq, Repr

/-- The lines of the four rounds. -/
def md5Steps : List Md5Step :=
  [⟨.f, .a, 0, 0xd76aa478, 7⟩, ⟨.f, .d, 1, 0xe8c7b756, 12⟩,
   ⟨.f, .c, 2, 0x242070db, 17⟩, ⟨.f, .b, 3, 0xc1bdceee, 22⟩,
   ⟨.f, .a, 4, 0xf57c0faf, 7⟩, ⟨.f, .d, 5, 0x4787c62a, 12⟩,
   ⟨.f, .c, 6, 0xa8304613, 17⟩, ⟨.f, .b, 7, 0xfd469501, 22⟩,
   ⟨.f, .a, 8, 0x698098d8, 7⟩, ⟨.f, .d, 9, 0x8b44f7af, 12⟩,
   ⟨.f, .c, 10, 0xffff5bb1, 17⟩, ⟨.f, .b, 11, 0x895cd7be, 22⟩,
   ⟨.f, .a, 12, 0x6b901122, 7⟩, ⟨.f, .d, 13, 0xfd987193, 12⟩,
   ⟨.f, .c, 14, 0xa679438e, 17⟩, ⟨.f, .b, 15, 0x49b40821, 22⟩,
   ⟨.g, .a, 1, 0xf61e2562, 5⟩, ⟨.g, .d, 6, 0xc040b340, 9⟩,
   ⟨.g, .c, 11, 0x265e5a51, 14⟩, ⟨.g, .b, 0, 0xe9b6c7aa, 20⟩,
   ⟨.g, .a, 5, 0xd62f105d, 5⟩, ⟨.g, .d, 10, 0x02441453, 9⟩,
   ⟨.g, .c, 15, 0xd8a1e681, 14⟩, ⟨.g, .b, 4, 0xe7d3fbc8, 20⟩,
   ⟨.g, .a, 9, 0x21e1cde6, 5⟩, ⟨.g, .d, 14, 0xc33707d6, 9⟩,
   ⟨.g, .c, 3, 0xf4d50d87, 14⟩, ⟨.g, .b, 8, 0x455a14ed, 20⟩,
   ⟨.g, .a, 13, 0xa9e3e905, 5⟩, ⟨.g, .d, 2, 0xfcefa3f8, 9⟩,
   ⟨.g, .c, 7, 0x676f02d9, 14⟩, ⟨.g, .b, 12, 0x8d2a4c8a, 20⟩,
   ⟨.h, .a, 5, 0xfffa3942, 4⟩, ⟨.h, .d, 8, 0x8771f681, 11⟩,
   ⟨.h, .c, 11, 0x6d9d6122, 16⟩, ⟨.h, .b, 14, 0xfde5380c, 23⟩,
   ⟨.h, .a, 1, 0xa4beea44, 4⟩, ⟨.h, .d, 4, 0x4bdecfa9, 11⟩,
   ⟨.h, .c, 7, 0xf6bb4b60, 16⟩, ⟨.h, .b, 10, 0xbebfbc70, 23⟩,
   ⟨.h, .a, 13, 0x289b7ec6, 4⟩, ⟨.h, .d, 0, 0xeaa127fa, 11⟩,
   ⟨.h, .c, 3, 0xd4ef3085, 16⟩, ⟨.h, .b, 6, 0x04881d05, 23⟩,
   ⟨.h, .a, 9, 0xd9d4d039, 4⟩, ⟨.h, .d, 12, 0xe6db99e5, 11⟩,
   ⟨.h, .c, 15, 0x1fa27cf8, 16⟩, ⟨.h, .b, 2, 0xc4ac5665, 23⟩,
   ⟨.i, .a, 0, 0xf4292244, 6⟩, ⟨.i, .d, 7, 0x432aff97, 10⟩,
   ⟨.i, .c, 14, 0xab9423a7, 15⟩, ⟨.i, .b, 5, 0xfc93a039, 21⟩,
   ⟨.i, .a, 12, 0x655b59c3, 6⟩, ⟨.i, .d, 3, 0x8f0ccc92, 10⟩,
   ⟨.i, .c, 10, 0xffeff47d, 15⟩, ⟨.i, .b, 1, 0x85845dd1, 21⟩,
   ⟨.i, .a, 8, 0x6fa87e4f, 6⟩, ⟨.i, .d, 15, 0xfe2ce6e0, 10⟩,
   ⟨.i, .c, 6, 0xa3014314, 15⟩, ⟨.i, .b, 13, 0x4e0811a1, 21⟩,
   ⟨.i, .a, 4, 0xf7537e82, 6⟩, ⟨.i, .d, 11, 0xbd3af235, 10⟩,
   ⟨.i, .c, 2, 0x2ad7d2bb, 15⟩, ⟨.i, .b, 9, 0xeb86d391, 21⟩]

/-- What `STEP` assigns to `a`. -/
def md5Word (fn : Md5Fn) (a b c d x t s : UInt32) : UInt32 :=
  let a := a + (fn.eval b c d + x + t)
  let a := a <<< s ||| (a &&& 0xffffffff) >>> (32 - s)
  a + b

/-- `STEP`, with the words of the block. -/
def md5Step (x : ℕ → UInt32) (r : Md5Regs) (q : Md5Step) : Md5Regs :=
  match q.r with
  | .a => { r with a := md5Word q.f r.a r.b r.c r.d (x q.n) q.t q.s }
  | .d => { r with d := md5Word q.f r.d r.a r.b r.c (x q.n) q.t q.s }
  | .c => { r with c := md5Word q.f r.c r.d r.a r.b (x q.n) q.t q.s }
  | .b => { r with b := md5Word q.f r.b r.c r.d r.a (x q.n) q.t q.s }

/-- `SET(n)` and `GET(n)`. -/
def md5Get (ptr : List UInt8) (n : ℕ) : UInt32 := word ((ptr.drop (n * 4)).take 4)

/-- One round of the loop of `body`. -/
def md5Block (saved : Md5Regs) (ptr : List UInt8) : Md5Regs :=
  let r := md5Steps.foldl (md5Step (md5Get ptr)) saved
  ⟨r.a + saved.a, r.b + saved.b, r.c + saved.c, r.d + saved.d⟩

/-- `MD5_CTX`. -/
structure Md5Ctx where
  lo : UInt32
  hi : UInt32
  regs : Md5Regs
  buffer : List UInt8
  deriving DecidableEq, Repr

/-- `body`, for a `size` that is a multiple of 64 and not zero, with the pointer it returns. -/
def md5Body (ctx : Md5Ctx) (data : List UInt8) (size : ℕ) : Md5Ctx × List UInt8 :=
  ({ ctx with regs := Blocks.run md5Block 64 (size / 64) ctx.regs data }, data.drop size)

/-- What `memset` writes. -/
def zeros (n : ℕ) : List UInt8 := List.replicate n 0

/-- `memcpy` to offset `i` of the buffer. -/
def memcpyAt (buffer : List UInt8) (i : ℕ) (data : List UInt8) : List UInt8 :=
  buffer.take i ++ data ++ buffer.drop (i + data.length)

/-- `MD5_Init`; the buffer is not touched. -/
def md5Init (buffer : List UInt8) : Md5Ctx where
  regs := ⟨0x67452301, 0xefcdab89, 0x98badcfe, 0x10325476⟩
  lo := 0
  hi := 0
  buffer := buffer

/-- The lines of `MD5_Update` behind the partial block. -/
def md5UpdateRest (ctx : Md5Ctx) (data : List UInt8) : Md5Ctx :=
  let size := data.length
  let (ctx, data) := if 64 ≤ size then md5Body ctx data (size / 64 * 64) else (ctx, data)
  { ctx with buffer := memcpyAt ctx.buffer 0 data }

/-- `MD5_Update`. -/
def md5Update (ctx : Md5Ctx) (data : List UInt8) : Md5Ctx :=
  let size := data.length
  let savedLo := ctx.lo
  let ctx := { ctx with lo := UInt32.ofNat (savedLo.toNat + size &&& 0x1fffffff) }
  let ctx := if ctx.lo < savedLo then { ctx with hi := ctx.hi + 1 } else ctx
  let ctx := { ctx with hi := ctx.hi + UInt32.ofNat (size >>> 29) }
  let used := savedLo.toNat &&& 0x3f
  if used ≠ 0 then
    let free := 64 - used
    if size < free then { ctx with buffer := memcpyAt ctx.buffer used data }
    else
      let ctx := { ctx with buffer := memcpyAt ctx.buffer used (data.take free) }
      md5UpdateRest (md5Body ctx ctx.buffer 64).1 (data.drop free)
  else md5UpdateRest ctx data

/-- The four bytes of a word, as they are stored one by one. -/
def md5Bytes (x : UInt32) : List UInt8 :=
  [x.toUInt8, (x >>> 8).toUInt8, (x >>> 16).toUInt8, (x >>> 24).toUInt8]

/-- The 16 bytes of the result. -/
def Md5Regs.bytes (r : Md5Regs) : List UInt8 :=
  md5Bytes r.a ++ md5Bytes r.b ++ md5Bytes r.c ++ md5Bytes r.d

/-- The lines of `MD5_Final` behind the test `free < 8`. -/
def md5FinalRest (ctx : Md5Ctx) (used free : ℕ) : List UInt8 × Md5Ctx :=
  let ctx := { ctx with buffer := memcpyAt ctx.buffer used (zeros (free - 8)) }
  let ctx := { ctx with lo := ctx.lo <<< 3 }
  let ctx := { ctx with buffer := memcpyAt ctx.buffer 56 (md5Bytes ctx.lo ++ md5Bytes ctx.hi) }
  let ctx := (md5Body ctx ctx.buffer 64).1
  (ctx.regs.bytes, ⟨0, 0, ⟨0, 0, 0, 0⟩, zeros 64⟩)

/-- `MD5_Final`: the result, and the context behind it. -/
def md5Final (ctx : Md5Ctx) : List UInt8 × Md5Ctx :=
  let used := ctx.lo.toNat &&& 0x3f
  let ctx := { ctx with buffer := memcpyAt ctx.buffer used [0x80] }
  let used := used + 1
  let free := 64 - used
  if free < 8 then
    let ctx := { ctx with buffer := memcpyAt ctx.buffer used (zeros free) }
    md5FinalRest (md5Body ctx ctx.buffer 64).1 0 64
  else md5FinalRest ctx used free

/-- `md5_signature`. -/
def md5Signature (buffer key : List UInt8) : List UInt8 :=
  (md5Final (md5Update (md5Init buffer) key)).1

/-- `hash_md5`. -/
def hashMd5 (buffer key : List UInt8) : Except Fault UInt32 :=
  match md5Signature buffer key with
  | r0 :: r1 :: r2 :: r3 :: _ =>
    return (r3.toUInt32 &&& 0xff) <<< 24 ||| (r2.toUInt32 &&& 0xff) <<< 16 |||
      (r1.toUInt32 &&& 0xff) <<< 8 ||| (r0.toUInt32 &&& 0xff)
  | _ => throw .outOfBounds

/-- `ketama_hash`. -/
def ketamaHash (buffer key : List UInt8) (alignment : ℕ) : Except Fault UInt32 :=
  match (md5Signature buffer key).drop (alignment * 4) with
  | r0 :: r1 :: r2 :: r3 :: _ =>
    return (r3.toUInt32 &&& 0xff) <<< 24 ||| (r2.toUInt32 &&& 0xff) <<< 16 |||
      (r1.toUInt32 &&& 0xff) <<< 8 ||| (r0.toUInt32 &&& 0xff)
  | _ => throw .outOfBounds

/-! ## The digest of RFC 1321 -/

/-- The four auxiliary functions. -/
def Md5Fn.rfc : Md5Fn → UInt32 → UInt32 → UInt32 → UInt32
  | .f, x, y, z => x &&& y ||| ~~~x &&& z
  | .g, x, y, z => x &&& z ||| y &&& ~~~z
  | .h, x, y, z => x ^^^ y ^^^ z
  | .i, x, y, z => y ^^^ (x ||| ~~~z)

/-- The function of operation `i`. -/
def rfcFn (i : ℕ) : Md5Fn := if i < 16 then .f else if i < 32 then .g else if i < 48 then .h else .i

/-- The word of the block that operation `i` reads. -/
def rfcWord (i : ℕ) : ℕ :=
  if i < 16 then i
  else if i < 32 then (5 * i + 1) % 16
  else if i < 48 then (3 * i + 5) % 16
  else 7 * i % 16

/-- The rotation of operation `i`: four amounts for each round. -/
def rfcShift (i : ℕ) : UInt32 :=
  ([7, 12, 17, 22, 5, 9, 14, 20, 4, 11, 16, 23, 6, 10, 15, 21] : List UInt32).getD
    (i / 16 * 4 + i % 4) 0

/-- The constant of operation `i`, which comes from the sine of `i + 1`: those of the source. -/
def rfcSine (i : ℕ) : UInt32 := (md5Steps.map Md5Step.t).getD i 0

/-- Rotation to the left. -/
def rotateLeft (x s : UInt32) : UInt32 := x <<< s ||| x >>> (32 - s)

/-- Operation `i`: the new word goes to the second place, and the words move on by one. -/
def rfcOp (x : ℕ → UInt32) (r : Md5Regs) (i : ℕ) : Md5Regs :=
  ⟨r.d, r.b + rotateLeft (r.a + (rfcFn i).rfc r.b r.c r.d + x (rfcWord i) + rfcSine i) (rfcShift i),
    r.b, r.c⟩

/-- The 64 operations on a block of 16 words. -/
def rfcBlock (r : Md5Regs) (block : List UInt8) : Md5Regs :=
  let r' := (List.range 64).foldl (rfcOp fun n => word ((block.drop (4 * n)).take 4)) r
  ⟨r.a + r'.a, r.b + r'.b, r.c + r'.c, r.d + r'.d⟩

/-- The padding: a bit, zeros up to 56 bytes modulo 64, and the number of bits in 64 bits. -/
def rfcPad (m : List UInt8) : List UInt8 :=
  m ++ 0x80 :: (zeros ((119 - m.length % 64) % 64) ++ bytes 8 (8 * m.length))

/-- The words at the start. -/
def rfcInit : Md5Regs := ⟨0x67452301, 0xefcdab89, 0x98badcfe, 0x10325476⟩

/-- The digest of a message. -/
def rfcDigest (m : List UInt8) : List UInt8 :=
  let r := Blocks.absorb rfcBlock 64 rfcInit (rfcPad m)
  bytes 4 r.a.toNat ++ bytes 4 r.b.toNat ++ bytes 4 r.c.toNat ++ bytes 4 r.d.toNat

/-! ## The rounds -/

/-- A choice between the bits of two words, with one operation less. -/
lemma xor_and_xor (x y z : UInt32) : z ^^^ (x &&& (y ^^^ z)) = x &&& y ||| ~~~x &&& z := by
  rw [← UInt32.toBitVec_inj]
  refine BitVec.eq_of_getLsbD_eq fun i hi => ?_
  simp only [UInt32.toBitVec_xor, UInt32.toBitVec_and, UInt32.toBitVec_or, UInt32.toBitVec_not,
    BitVec.getLsbD_xor, BitVec.getLsbD_and, BitVec.getLsbD_or, BitVec.getLsbD_not, hi, decide_true,
    Bool.true_and]
  cases x.toBitVec.getLsbD i <;> cases y.toBitVec.getLsbD i <;> cases z.toBitVec.getLsbD i <;> rfl

/-- The optimized macros compute the auxiliary functions. -/
lemma Md5Fn.eval_eq_rfc (fn : Md5Fn) (x y z : UInt32) : fn.eval x y z = fn.rfc x y z := by
  cases fn with
  | f => exact xor_and_xor x y z
  | g =>
    rw [eval, rfc, xor_and_xor, UInt32.and_comm z x, UInt32.and_comm (~~~z) y]
  | h => rfl
  | i => rfl

/-- The registers as operation `i` sees them: the one that it assigns comes first. -/
def Md5Regs.seen (r : Md5Regs) : Md5Reg → Md5Regs
  | .a => r
  | .d => ⟨r.d, r.a, r.b, r.c⟩
  | .c => ⟨r.c, r.d, r.a, r.b⟩
  | .b => ⟨r.b, r.c, r.d, r.a⟩

/-- The register that operation `i` assigns. -/
def rfcReg (i : ℕ) : Md5Reg := ([.a, .d, .c, .b] : List Md5Reg).getD (i % 4) .a

/-- **The table.**  The lines of the source have the functions, registers, words and rotations of
the operations, in their order. -/
theorem md5Steps_eq :
    md5Steps = (List.range 64).map
      fun i => ⟨rfcFn i, rfcReg i, rfcWord i, rfcSine i, rfcShift i⟩ := by
  decide +kernel

/-- One line is one operation. -/
lemma md5Step_seen (x : ℕ → UInt32) (r : Md5Regs) (i : ℕ) :
    (md5Step x r ⟨rfcFn i, rfcReg i, rfcWord i, rfcSine i, rfcShift i⟩).seen (rfcReg (i + 1)) =
      rfcOp x (r.seen (rfcReg i)) i := by
  have hword : ∀ a b c d : UInt32,
      md5Word (rfcFn i) a b c d (x (rfcWord i)) (rfcSine i) (rfcShift i) =
      b + rotateLeft (a + (rfcFn i).rfc b c d + x (rfcWord i) + rfcSine i) (rfcShift i) := by
    intro a b c d
    have hones : ∀ y : UInt32, y &&& 0xffffffff = y := by
      intro y
      rw [← UInt32.toBitVec_inj]
      exact BitVec.and_allOnes
    rw [md5Word, Md5Fn.eval_eq_rfc, hones, rotateLeft,
      UInt32.add_comm, ← UInt32.add_assoc, ← UInt32.add_assoc]
  have hmod : i % 4 = 0 ∨ i % 4 = 1 ∨ i % 4 = 2 ∨ i % 4 = 3 := by omega
  rcases hmod with h | h | h | h
  all_goals
    simp [md5Step, rfcReg, Nat.add_mod, h, Md5Regs.seen, rfcOp, hword]

/-- **The four rounds.** -/
theorem md5Block_eq_rfcBlock : md5Block = rfcBlock := by
  funext r block
  have hrun : ∀ n, ((List.range n).foldl (fun r i => md5Step (md5Get block) r
      ⟨rfcFn i, rfcReg i, rfcWord i, rfcSine i, rfcShift i⟩) r).seen (rfcReg n) =
        (List.range n).foldl (rfcOp (md5Get block)) r := by
    intro n
    induction n with
    | zero => rfl
    | succ n ih =>
      rw [List.range_succ, List.foldl_append, List.foldl_append, List.foldl_cons, List.foldl_nil,
        List.foldl_cons, List.foldl_nil, md5Step_seen, ih]
  have hget : (fun n => word ((block.drop (4 * n)).take 4)) = md5Get block := by
    funext n
    rw [md5Get, Nat.mul_comm]
  have h64 := hrun 64
  rw [show rfcReg 64 = .a from rfl, Md5Regs.seen] at h64
  rw [md5Block, md5Steps_eq, List.foldl_map, h64, rfcBlock, hget]
  simp only [UInt32.add_comm]

/-! ## The stream -/

/-- **The context has read the bytes `m`.** -/
structure Md5Ctx.Streams (ctx : Md5Ctx) (m : List UInt8) : Prop where
  lo : ctx.lo.toNat = m.length % 2 ^ 29
  hi : ctx.hi.toNat = m.length / 2 ^ 29 % 2 ^ 32
  regs : ctx.regs = Blocks.absorb md5Block 64 rfcInit m
  length : ctx.buffer.length = 64
  buffer : ctx.buffer.take (m.length % 64) = Blocks.rest 64 m

variable {ctx : Md5Ctx} {m : List UInt8}

/-- A new context has seen nothing. -/
lemma Md5Ctx.streams_init {buffer : List UInt8} (hb : buffer.length = 64) :
    (md5Init buffer).Streams [] :=
  ⟨rfl, rfl, rfl, hb, rfl⟩

/-- The number of zeros. -/
@[simp] lemma length_zeros (n : ℕ) : (zeros n).length = n := List.length_replicate

/-- A copy inside the buffer. -/
lemma length_memcpyAt {buffer data : List UInt8} {i : ℕ} (h : i + data.length ≤ buffer.length) :
    (memcpyAt buffer i data).length = buffer.length := by
  simp only [memcpyAt, List.length_append, List.length_take, List.length_drop]
  omega

/-- The bytes up to the end of the copy. -/
lemma take_memcpyAt {buffer : List UInt8} {i : ℕ} (data : List UInt8) (h : i ≤ buffer.length) :
    (memcpyAt buffer i data).take (i + data.length) = buffer.take i ++ data := by
  have hlen : (buffer.take i ++ data).length = i + data.length := by
    rw [List.length_append, List.length_take, Nat.min_eq_left h]
  rw [memcpyAt, ← hlen, List.take_left']
  rfl

/-- A copy up to the end of the buffer. -/
lemma memcpyAt_full {buffer data : List UInt8} {i : ℕ} (h : i + data.length = buffer.length) :
    memcpyAt buffer i data = buffer.take i ++ data := by
  rw [memcpyAt, h, List.drop_length, List.append_nil]

/-- The bytes in the buffer are what a whole number of blocks leaves. -/
lemma and_0x3f (n : ℕ) : n &&& 0x3f = n % 64 := Nat.and_two_pow_sub_one_eq_mod n 6

/-- The low part of the counter has 29 bits. -/
lemma and_0x1fffffff (n : ℕ) : n &&& 0x1fffffff = n % 2 ^ 29 := Nat.and_two_pow_sub_one_eq_mod n 29

/-- `body` over one block that fills the buffer. -/
lemma md5Body_block {data : List UInt8} (h : data.length = 64) :
    (md5Body ctx data 64).1 = { ctx with regs := Blocks.absorb md5Block 64 ctx.regs data } := by
  rw [md5Body, Blocks.absorb, h]

/-- The counters behind `data`. -/
lemma Md5Ctx.Streams.counters (hs : ctx.Streams m) (data : List UInt8) :
    (UInt32.ofNat (ctx.lo.toNat + data.length &&& 0x1fffffff)).toNat = (m ++ data).length % 2 ^ 29 ∧
      ((if UInt32.ofNat (ctx.lo.toNat + data.length &&& 0x1fffffff) < ctx.lo then ctx.hi + 1
        else ctx.hi) +
        UInt32.ofNat (data.length >>> 29)).toNat = (m ++ data).length / 2 ^ 29 % 2 ^ 32 := by
  have hlo : (UInt32.ofNat (ctx.lo.toNat + data.length &&& 0x1fffffff)).toNat =
      (m ++ data).length % 2 ^ 29 := by
    rw [and_0x1fffffff, UInt32.toNat_ofNat', hs.lo, List.length_append]
    omega
  refine ⟨hlo, ?_⟩
  have hcarry : UInt32.ofNat (ctx.lo.toNat + data.length &&& 0x1fffffff) < ctx.lo ↔
      2 ^ 29 ≤ m.length % 2 ^ 29 + data.length % 2 ^ 29 := by
    rw [UInt32.lt_iff_toNat_lt, hlo, hs.lo, List.length_append]
    omega
  by_cases hc : 2 ^ 29 ≤ m.length % 2 ^ 29 + data.length % 2 ^ 29
  · rw [if_pos (hcarry.mpr hc), UInt32.toNat_add, UInt32.toNat_add, UInt32.toNat_ofNat', hs.hi,
      Nat.shiftRight_eq_div_pow, List.length_append]
    have hone : (1 : UInt32).toNat = 1 := rfl
    rw [hone]
    omega
  · rw [if_neg (fun h => hc (hcarry.mp h)), UInt32.toNat_add, UInt32.toNat_ofNat', hs.hi,
      Nat.shiftRight_eq_div_pow, List.length_append]
    omega

/-- The lines of `MD5_Update` behind the partial block read all of `data`. -/
lemma md5UpdateRest_spec (ctx : Md5Ctx) (hb : ctx.buffer.length = 64) (data : List UInt8) :
    (md5UpdateRest ctx data).lo = ctx.lo ∧ (md5UpdateRest ctx data).hi = ctx.hi ∧
      (md5UpdateRest ctx data).regs = Blocks.absorb md5Block 64 ctx.regs data ∧
      (md5UpdateRest ctx data).buffer.length = 64 ∧
      (md5UpdateRest ctx data).buffer.take (data.length % 64) = Blocks.rest 64 data := by
  have hrest : (Blocks.rest 64 data).length = data.length % 64 := Blocks.length_rest data
  have hcopy : (memcpyAt ctx.buffer 0 (Blocks.rest 64 data)).length = 64 := by
    rw [length_memcpyAt (by omega), hb]
  have htake : (memcpyAt ctx.buffer 0 (Blocks.rest 64 data)).take (data.length % 64) =
      Blocks.rest 64 data := by
    have h := take_memcpyAt (Blocks.rest 64 data) (Nat.zero_le ctx.buffer.length)
    rwa [Nat.zero_add, hrest, List.take_zero, List.nil_append] at h
  by_cases hsize : 64 ≤ data.length
  · have hdrop : data.drop (data.length / 64 * 64) = Blocks.rest 64 data := by
      rw [Blocks.rest, Nat.mul_comm]
    have hdiv : data.length / 64 * 64 / 64 = data.length / 64 := Nat.mul_div_cancel _ (by norm_num)
    simp only [md5UpdateRest, if_pos hsize, md5Body, hdrop, hdiv]
    exact ⟨trivial, trivial, rfl, hcopy, htake⟩
  · have hlt : data.length < 64 := by omega
    rw [Blocks.rest_of_lt hlt] at hcopy htake ⊢
    simp only [md5UpdateRest, if_neg hsize, Blocks.absorb_of_lt hlt]
    exact ⟨trivial, trivial, trivial, hcopy, htake⟩

/-- Behind a message of complete blocks, the lines read all of `data`, if the counters have been
set. -/
lemma Md5Ctx.streams_updateRest {data : List UInt8}
    (hlo : ctx.lo.toNat = (m ++ data).length % 2 ^ 29)
    (hhi : ctx.hi.toNat = (m ++ data).length / 2 ^ 29 % 2 ^ 32)
    (hregs : ctx.regs = Blocks.absorb md5Block 64 rfcInit m) (hb : ctx.buffer.length = 64)
    (hrest : Blocks.rest 64 m = []) : (md5UpdateRest ctx data).Streams (m ++ data) := by
  obtain ⟨h₁, h₂, h₃, h₄, h₅⟩ := md5UpdateRest_spec ctx hb data
  have hm : m.length % 64 = 0 := by rw [← Blocks.length_rest, hrest, List.length_nil]
  have hmod : (m ++ data).length % 64 = data.length % 64 := by
    rw [List.length_append]
    omega
  refine ⟨h₁ ▸ hlo, h₂ ▸ hhi, ?_, h₄, ?_⟩
  · rw [h₃, Blocks.absorb_append (by norm_num), hrest, List.nil_append, hregs]
  · rw [hmod, h₅, Blocks.rest_append (by norm_num), hrest, List.nil_append]

/-- **`MD5_Update` reads on.**

**Proof sketch.** The buffer holds the rest of the message behind the last block.  If the data do
not fill it they are copied behind it; otherwise one block is read from the buffer, the full blocks
of the data are read in place, and what is left is copied to its start. -/
theorem Md5Ctx.Streams.update (hs : ctx.Streams m) (data : List UInt8) :
    (md5Update ctx data).Streams (m ++ data) := by
  obtain ⟨hlo, hhi⟩ := hs.counters data
  have hused : ctx.lo.toNat &&& 0x3f = m.length % 64 := by
    rw [and_0x3f, hs.lo]
    omega
  have hlen := hs.length
  have hrest : (Blocks.rest 64 m).length = m.length % 64 := Blocks.length_rest m
  have hcounters : ∀ c : UInt32,
      (if UInt32.ofNat (ctx.lo.toNat + data.length &&& 0x1fffffff) < ctx.lo then
      ({ ctx with lo := c, hi := ctx.hi + 1 } : Md5Ctx) else { ctx with lo := c }) =
        { ctx with lo := c, hi := if UInt32.ofNat (ctx.lo.toNat +
            data.length &&& 0x1fffffff) < ctx.lo then
          ctx.hi + 1 else ctx.hi } := by
    intro c
    split_ifs <;> rfl
  simp only [md5Update, hused, hcounters]
  by_cases hz : m.length % 64 = 0
  · -- the buffer is empty
    rw [if_neg (by simpa using hz)]
    exact Md5Ctx.streams_updateRest hlo hhi hs.regs hlen (List.eq_nil_of_length_eq_zero (by omega))
  rw [if_pos (by simpa using hz)]
  by_cases hlt : data.length < 64 - m.length % 64
  · -- the data fit into the buffer
    have hfit : (Blocks.rest 64 m ++ data).length < 64 := by
      rw [List.length_append]
      omega
    have hmod : (m ++ data).length % 64 = m.length % 64 + data.length := by
      rw [List.length_append]
      omega
    rw [if_pos hlt]
    refine ⟨hlo, hhi, ?_, ?_, ?_⟩
    · rw [Blocks.absorb_append (by norm_num) rfcInit m, Blocks.absorb_of_lt hfit, ← hs.regs]
    · rw [length_memcpyAt (by omega), hlen]
    · rw [hmod, take_memcpyAt _ (by omega), hs.buffer, Blocks.rest_append (by norm_num),
        Blocks.rest_of_lt hfit]
  -- the buffer is filled up first, and the rest comes behind complete blocks
  rw [if_neg hlt]
  have hfill : (Blocks.rest 64 m ++ data.take (64 - m.length % 64)).length = 64 := by
    rw [List.length_append, List.length_take]
    omega
  have hcopy : memcpyAt ctx.buffer (m.length % 64) (data.take (64 - m.length % 64)) =
      Blocks.rest 64 m ++ data.take (64 - m.length % 64) := by
    rw [memcpyAt_full (by rw [List.length_take]; omega), hs.buffer]
  have hsplit : m ++ data =
      (m ++ data.take (64 - m.length % 64)) ++ data.drop (64 - m.length % 64) := by
    rw [List.append_assoc, List.take_append_drop]
  rw [hcopy, md5Body_block hfill, hsplit]
  refine Md5Ctx.streams_updateRest (by rw [← hsplit]; exact hlo)
    (by rw [← hsplit]; exact hhi) ?_ hfill ?_
  · rw [Blocks.absorb_append (by norm_num) rfcInit m, ← hs.regs]
  · rw [Blocks.rest_append (by norm_num), Blocks.rest_block (by norm_num) hfill]

/-! ## The digest -/

/-- The bytes of a word. -/
lemma md5Bytes_eq (x : UInt32) : md5Bytes x = bytes 4 x.toNat := by
  have hbyte : ∀ k : ℕ, k < 32 →
      (x >>> UInt32.ofNat k).toUInt8 = UInt8.ofNat (x.toNat / 2 ^ k) := by
    intro k hk
    rw [← UInt8.toNat_inj, UInt32.toNat_toUInt8, UInt32.toNat_shiftRight, UInt32.toNat_ofNat',
      UInt8.toNat_ofNat', Nat.mod_eq_of_lt (by omega : k < 2 ^ 32), Nat.mod_eq_of_lt hk,
      Nat.shiftRight_eq_div_pow]
  have h₀ : x.toUInt8 = UInt8.ofNat (x.toNat / 256 ^ 0) := by
    rw [pow_zero, Nat.div_one, ← UInt8.toNat_inj, UInt32.toNat_toUInt8, UInt8.toNat_ofNat']
  have h₁ := hbyte 8 (by norm_num)
  have h₂ := hbyte 16 (by norm_num)
  have h₃ := hbyte 24 (by norm_num)
  rw [md5Bytes, h₀, show (8 : UInt32) = UInt32.ofNat 8 from rfl,
    show (16 : UInt32) = UInt32.ofNat 16 from rfl,
      show (24 : UInt32) = UInt32.ofNat 24 from rfl, h₁, h₂, h₃]
  simp [bytes, List.range_succ]

/-- The counters hold the number of bits. -/
lemma Md5Ctx.Streams.bits (hs : ctx.Streams m) :
    md5Bytes (ctx.lo <<< 3) ++ md5Bytes ctx.hi = bytes 8 (8 * m.length) := by
  have hlo : (ctx.lo <<< 3).toNat = 8 * m.length % 256 ^ 4 := by
    rw [UInt32.toNat_shiftLeft, hs.lo, Nat.shiftLeft_eq]
    have h3 : (3 : UInt32).toNat % 32 = 3 := rfl
    rw [h3]
    omega
  have hhi : ctx.hi.toNat = 8 * m.length / 256 ^ 4 % 256 ^ 4 := by
    rw [hs.hi]
    omega
  rw [md5Bytes_eq, md5Bytes_eq, hlo, hhi, LittleEndian.bytes_mod, LittleEndian.bytes_mod,
    show 8 = 4 + 4 from rfl, LittleEndian.bytes_add]

/-- The last block: the buffer holds the end of the message with its padding up to `used`. -/
lemma md5FinalRest_spec {used : ℕ} (tail : List UInt8) (hb : ctx.buffer.length = 64)
    (hused : used ≤ 56) (htail : ctx.buffer.take used = tail) :
    (md5FinalRest ctx used (64 - used)).1 = (Blocks.absorb md5Block 64 ctx.regs
      (tail ++ (zeros (56 - used) ++ (md5Bytes (ctx.lo <<< 3) ++ md5Bytes ctx.hi)))).bytes := by
  have hzeros : 64 - used - 8 = 56 - used := by omega
  have hlen : (memcpyAt ctx.buffer used (zeros (56 - used))).length = 64 := by
    rw [length_memcpyAt (by rw [length_zeros]; omega), hb]
  have htake : (memcpyAt ctx.buffer used (zeros (56 - used))).take 56 =
      tail ++ zeros (56 - used) := by
    have h := take_memcpyAt (zeros (56 - used)) (show used ≤ ctx.buffer.length by omega)
    rwa [length_zeros, show used + (56 - used) = 56 by omega, htail] at h
  have hbits : (md5Bytes (ctx.lo <<< 3) ++ md5Bytes ctx.hi).length = 8 := rfl
  have hblock : memcpyAt (memcpyAt ctx.buffer used (zeros (56 - used))) 56
      (md5Bytes (ctx.lo <<< 3) ++ md5Bytes ctx.hi) =
        tail ++ (zeros (56 - used) ++ (md5Bytes (ctx.lo <<< 3) ++ md5Bytes ctx.hi)) := by
    rw [memcpyAt_full (by rw [hbits, hlen]), htake, List.append_assoc]
  have hfull :
      (tail ++ (zeros (56 - used) ++ (md5Bytes (ctx.lo <<< 3) ++ md5Bytes ctx.hi))).length =
      64 := by
    rw [← hblock, length_memcpyAt (by omega), hlen]
  simp only [md5FinalRest, hzeros, hblock, md5Body_block hfull]

/-- **`MD5_Final` gives the digest.**

**Proof sketch.** The padding takes one block if eight bytes are free behind the byte 0x80, and two
blocks otherwise. -/
theorem Md5Ctx.Streams.final (hs : ctx.Streams m) : (md5Final ctx).1 = rfcDigest m := by
  have hused : ctx.lo.toNat &&& 0x3f = m.length % 64 := by
    rw [and_0x3f, hs.lo]
    omega
  have hrest : (Blocks.rest 64 m).length = m.length % 64 := Blocks.length_rest m
  have hlen := hs.length
  have hlen₁ : (memcpyAt ctx.buffer (m.length % 64) [0x80]).length = 64 := by
    rw [length_memcpyAt (by simp; omega), hlen]
  have htake₁ : (memcpyAt ctx.buffer (m.length % 64) [0x80]).take (m.length % 64 + 1) =
      Blocks.rest 64 m ++ [0x80] := by
    have h := take_memcpyAt [0x80] (show m.length % 64 ≤ ctx.buffer.length by omega)
    rwa [hs.buffer] at h
  have hdigest : rfcDigest m = (Blocks.absorb md5Block 64 ctx.regs (Blocks.rest 64 m ++
      (0x80 : UInt8) :: (zeros ((119 - m.length % 64) % 64) ++
        (md5Bytes (ctx.lo <<< 3) ++ md5Bytes ctx.hi)))).bytes := by
    rw [rfcDigest, rfcPad, ← md5Block_eq_rfcBlock, Blocks.absorb_append (by norm_num),
      hs.regs, hs.bits, Md5Regs.bytes, md5Bytes_eq, md5Bytes_eq, md5Bytes_eq, md5Bytes_eq]
  simp only [md5Final, hused]
  by_cases hfree : 64 - (m.length % 64 + 1) < 8
  · -- the number of bits goes into a block of its own
    have hzeros : (119 - m.length % 64) % 64 = (64 - (m.length % 64 + 1)) + 56 := by omega
    have hblock : memcpyAt (memcpyAt ctx.buffer (m.length % 64) [0x80]) (m.length % 64 + 1)
        (zeros (64 - (m.length % 64 + 1))) =
          Blocks.rest 64 m ++ (0x80 : UInt8) :: zeros (64 - (m.length % 64 + 1)) := by
      rw [memcpyAt_full (by rw [length_zeros, hlen₁]; omega), htake₁, List.append_assoc,
        List.singleton_append]
    have hfull : (Blocks.rest 64 m ++ (0x80 : UInt8) :: zeros (64 - (m.length % 64 + 1))).length =
        64 := by
      rw [List.length_append, List.length_cons, length_zeros]
      omega
    rw [if_pos hfree, hblock, md5Body_block hfull,
      md5FinalRest_spec [] (by exact hfull) (by norm_num) (by simp), hdigest, hzeros]
    have hsplit : Blocks.rest 64 m ++ (0x80 : UInt8) :: (zeros (64 - (m.length % 64 + 1) + 56) ++
        (md5Bytes (ctx.lo <<< 3) ++ md5Bytes ctx.hi)) =
          (Blocks.rest 64 m ++ (0x80 : UInt8) :: zeros (64 - (m.length % 64 + 1))) ++
            (zeros 56 ++ (md5Bytes (ctx.lo <<< 3) ++ md5Bytes ctx.hi)) := by
      simp [zeros, List.replicate_add]
    rw [hsplit, Blocks.absorb_append (by norm_num) ctx.regs (Blocks.rest 64 m ++ _),
      Blocks.rest_block (by norm_num) hfull]
  · have hzeros : (119 - m.length % 64) % 64 = 56 - (m.length % 64 + 1) := by omega
    rw [if_neg hfree, md5FinalRest_spec (Blocks.rest 64 m ++ [0x80]) hlen₁ (by omega) htake₁,
      hdigest, hzeros, List.append_assoc, List.singleton_append]

/-- The digest of a message that comes in pieces. -/
lemma md5_stream (buffer : List UInt8) (hb : buffer.length = 64) (chunks : List (List UInt8)) :
    (md5Final (chunks.foldl md5Update (md5Init buffer))).1 = rfcDigest chunks.flatten := by
  have hrun : ∀ (ctx : Md5Ctx) (m : List UInt8), ctx.Streams m →
      (chunks.foldl md5Update ctx).Streams (m ++ chunks.flatten) := by
    induction chunks with
    | nil => simp
    | cons data chunks ih =>
      intro ctx m hs
      have h := ih (md5Update ctx data) (m ++ data) (hs.update data)
      rwa [List.append_assoc, ← List.flatten_cons] at h
  simpa using (hrun _ [] (Md5Ctx.streams_init hb)).final

/-- The digest of a message in one piece. -/
lemma md5Signature_eq (buffer : List UInt8) (hb : buffer.length = 64) (key : List UInt8) :
    md5Signature buffer key = rfcDigest key := by
  simpa [md5Signature] using md5_stream buffer hb [key]

/-- **However a message is cut**: whatever the buffer holds at the start, the digest of the pieces
is that of RFC 1321 for the whole message, and the one that `md5_signature` computes for it. -/
theorem md5_chunks (buffer : List UInt8) (hb : buffer.length = 64) (chunks : List (List UInt8)) :
    (md5Final (chunks.foldl md5Update (md5Init buffer))).1 = rfcDigest chunks.flatten ∧
      (md5Final (chunks.foldl md5Update (md5Init buffer))).1 =
      md5Signature buffer chunks.flatten := by
  have hdigest := md5_stream buffer hb chunks
  exact ⟨hdigest, hdigest.trans (md5Signature_eq buffer hb chunks.flatten).symm⟩

/-- A message in three pieces, one of them empty. -/
theorem md5_chunks_abc : (md5Final ([[97], [], [98, 99]].foldl md5Update (md5Init (zeros 64)))).1 =
      rfcDigest [97, 98, 99] ∧
    (md5Final ([[97], [], [98, 99]].foldl md5Update (md5Init (zeros 64)))).1 =
      md5Signature (zeros 64) [97, 98, 99] :=
  md5_chunks (zeros 64) (length_zeros 64) [[97], [], [98, 99]]

example : (md5Final ([[97], [], [98, 99]].foldl md5Update (md5Init (zeros 64)))).1 =
    [0x90, 0x01, 0x50, 0x98, 0x3c, 0xd2, 0x4f, 0xb0, 0xd6, 0x96, 0x3f, 0x7d, 0x28, 0xe1,
      0x7f, 0x72] := by
  decide +kernel

/-! ## The points of a server -/

/-- The text that `snprintf` leaves in `host` for the server with this name and pointer index `k`;
it is cut. -/
def ketamaHost (name : List UInt8) (k : ℕ) : List UInt8 :=
  (name.takeWhile (· ≠ 0) ++ 45 :: Decimal.ofNat k).take 272

/-- Point `x` for pointer index `k` of the server with this name. -/
def ketamaPoint (buffer name : List UInt8) (k x : ℕ) : Except Fault UInt32 :=
  ketamaHash buffer (ketamaHost name k) x

/-- A byte goes into the free bits behind a number. -/
lemma shiftLeft_or_shiftLeft (a : ℕ) {b : ℕ} (hb : b < 2 ^ 8) (n : ℕ) :
    a <<< (n + 8) ||| b <<< n = (a <<< 8 + b) <<< n := by
  rw [Nat.add_comm n 8, Nat.shiftLeft_add, ← Nat.shiftLeft_or_distrib,
    Nat.shiftLeft_add_eq_or_of_lt hb]

/-- The bytes of a word, put together by the source. -/
lemma word_eq_or (r0 r1 r2 r3 : UInt8) :
    (r3.toUInt32 &&& 0xff) <<< 24 ||| (r2.toUInt32 &&& 0xff) <<< 16 |||
      (r1.toUInt32 &&& 0xff) <<< 8 |||
      (r0.toUInt32 &&& 0xff) = word [r0, r1, r2, r3] := by
  have hmask : ∀ r : UInt8, (r.toUInt32 &&& 0xff).toNat = r.toNat := by
    intro r
    rw [UInt32.toNat_and, UInt8.toNat_toUInt32, show (0xff : UInt32).toNat = 2 ^ 8 - 1 from rfl,
      Nat.and_two_pow_sub_one_eq_mod, Nat.mod_eq_of_lt r.toNat_lt]
  have hshift : ∀ (r : UInt8) (k : ℕ), k ≤ 24 →
      ((r.toUInt32 &&& 0xff) <<< UInt32.ofNat k).toNat = r.toNat <<< k := by
    intro r k hk
    have hlt : r.toNat * 2 ^ k < 2 ^ 32 := by
      have hpow : 2 ^ k ≤ 2 ^ 24 := Nat.pow_le_pow_right (by norm_num) hk
      have := Nat.mul_lt_mul_of_lt_of_le r.toNat_lt hpow (by norm_num)
      omega
    rw [UInt32.toNat_shiftLeft, hmask, UInt32.toNat_ofNat',
      Nat.mod_eq_of_lt (by omega : k < 2 ^ 32), Nat.mod_eq_of_lt (by omega : k < 32),
        Nat.shiftLeft_eq, Nat.mod_eq_of_lt hlt]
  have h24 := hshift r3 24 le_rfl
  have h16 := hshift r2 16 (by norm_num)
  have h8 := hshift r1 8 (by norm_num)
  rw [show UInt32.ofNat 24 = 24 from rfl] at h24
  rw [show UInt32.ofNat 16 = 16 from rfl] at h16
  rw [show UInt32.ofNat 8 = 8 from rfl] at h8
  have hb : ∀ r : UInt8, r.toNat < 2 ^ 8 := UInt8.toNat_lt
  rw [← UInt32.toNat_inj, UInt32.toNat_or, UInt32.toNat_or, UInt32.toNat_or, h24, h16, h8,
    hmask, word, UInt32.toNat_ofNat']
  -- the shifted bytes do not overlap
  rw [shiftLeft_or_shiftLeft _ (hb r2) 16, shiftLeft_or_shiftLeft _ (hb r1) 8,
    ← Nat.shiftLeft_add_eq_or_of_lt (hb r0)]
  simp only [Nat.shiftLeft_eq, LittleEndian.value_cons, LittleEndian.value_nil]
  have h0 := hb r0
  have h1 := hb r1
  have h2 := hb r2
  have h3 := hb r3
  omega

/-- The digest has 16 bytes. -/
lemma length_rfcDigest (m : List UInt8) : (rfcDigest m).length = 16 := by simp [rfcDigest]

/-- A word of the digest. -/
def rfcWordOf (m : List UInt8) (x : ℕ) : UInt32 := word (((rfcDigest m).drop (4 * x)).take 4)

/-- What `ketama_hash` returns for an alignment below four. -/
lemma ketamaHash_eq {buffer : List UInt8} (hb : buffer.length = 64) (key : List UInt8) {x : ℕ}
    (hx : x < 4) :
    ketamaHash buffer key x = .ok (rfcWordOf key x) := by
  have hlen : 4 ≤ ((rfcDigest key).drop (4 * x)).length := by
    rw [List.length_drop, length_rfcDigest]
    omega
  rw [ketamaHash, md5Signature_eq buffer hb, Nat.mul_comm x 4, rfcWordOf]
  rcases hd : (rfcDigest key).drop (4 * x) with - | ⟨r0, - | ⟨r1, - | ⟨r2, - | ⟨r3, rest⟩⟩⟩⟩
  · simp [hd] at hlen
  · simp [hd] at hlen
  · simp [hd] at hlen
  · simp [hd] at hlen
  · simp only [word_eq_or]
    rfl

/-- **The hash values are the words of the digest**, in their order, whatever was on the stack
before; there are four of them, and the first one is `hash_md5`.  So the points of a server depend
on its name and their number alone. -/
theorem ketamaHash_words (buffer : List UInt8) (hb : buffer.length = 64) (key : List UInt8) :
    hashMd5 buffer key = .ok (rfcWordOf key 0) ∧
      (∀ x < 4, ketamaHash buffer key x = .ok (rfcWordOf key x)) ∧
      (∀ x ≥ 4, ketamaHash buffer key x = .error .outOfBounds) ∧
      ∀ k, ∀ x < 4, ketamaPoint buffer key k x = .ok (rfcWordOf (ketamaHost key k) x) := by
  have hmd5 : hashMd5 buffer key = ketamaHash buffer key 0 := by simp [hashMd5, ketamaHash]
  refine ⟨hmd5.trans (ketamaHash_eq hb key (by norm_num)), fun x hx => ketamaHash_eq hb key hx,
    fun x hx => ?_, fun k x hx => ketamaHash_eq hb _ hx⟩
  have hnil : (rfcDigest key).drop (x * 4) = [] :=
    List.drop_of_length_le (by rw [length_rfcDigest]; omega)
  rw [ketamaHash, md5Signature_eq buffer hb, hnil]
  rfl

/-- The words of a digest, and of the host of a point. -/
theorem ketamaHash_words_abc : hashMd5 (zeros 64) [97, 98, 99] = .ok 0x98500190 ∧
    ketamaPoint (zeros 64) [97, 98, 99] 7 3 = .ok (rfcWordOf (ketamaHost [97, 98, 99] 7) 3) :=
  ⟨(ketamaHash_words (zeros 64) (length_zeros 64) [97, 98, 99]).1.trans
    (congrArg Except.ok (by decide +kernel)),
      (ketamaHash_words (zeros 64) (length_zeros 64) [97, 98, 99]).2.2.2 7 3 (by norm_num)⟩

end GfwProxy
