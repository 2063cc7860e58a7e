import GfwProxy.Lib.Exec
import GfwProxy.Lib.Numeral
import GfwProxy.Util.String

set_option autoImplicit false

/-!
# Formatting in a signal handler

`_safe_vsnprintf` of `gf_string.c` and what it calls: a formatter that writes the digits of a number
from the end of a scratch buffer on, and copies them to the destination.

## Main definitions

* `GfwProxy.safeUtoa`, `GfwProxy.safeItoa` — `_safe_utoa` and `_safe_itoa`.
* `GfwProxy.safeVsnprintf`, `GfwProxy.safeSnprintf` — `_safe_vsnprintf` and `_safe_snprintf`.

## Design

A pointer that is moved down is given by the place behind it, since it may be the one before the
buffer.  An access outside a buffer, outside the format or to an argument that is not there is a
fault, and so is a read of the table of digits at another index than 0 to 15.  A signed overflow
wraps around.  An argument is passed as 64 bits, of which a shorter one uses the lower half.  The
number of bytes that is returned is the one before its cast to an `int`.
-/

namespace GfwProxy

/-! ## The digits -/

/-- Reduction to an `int64_t`. -/
def int64 (n : ℤ) : ℤ := n.bmod (2 ^ 64)

/-- `hex[i]`, for the sixteen digits. -/
def hexAt (i : ℤ) : Except Fault UInt8 :=
  if 0 ≤ i ∧ i < 16 then
    byteAt [48, 49, 50, 51, 52, 53, 54, 55, 56, 57, 97, 98, 99, 100, 101, 102] i.toNat
  else .error .outOfBounds

/-- Writing a byte into a buffer. -/
def store (buf : List UInt8) (p : ℕ) (c : UInt8) : Except Fault (List UInt8) :=
  if p < buf.length then .ok (buf.set p c) else .error .outOfBounds

/-- `*buf-- = c`, with the place behind `buf`. -/
def putDown (buff : List UInt8) (c : UInt8) : ℕ → Except Fault (List UInt8 × ℕ)
  | 0 => throw .outOfBounds
  | p + 1 => do return (← store buff p c, p)

/-- The loop over the digits: `do { *buf-- = hex[val % base]; } while ((val /= base) != 0)`. -/
def digitLoop (base : ℤ) : ℕ → ℤ → List UInt8 → Except Fault (List UInt8 × ℕ)
  | 0, _, _ => throw .outOfBounds
  | p + 1, val, buff => do
    let buff ← store buff p (← hexAt (val.tmod base))
    if val.tdiv base ≠ 0 then digitLoop base p (val.tdiv base) buff else return (buff, p)

/-- `_safe_utoa`: the buffer, and the place that is returned. -/
def safeUtoa (base : ℤ) (val : ℤ) (buff : List UInt8) (p : ℕ) : Except Fault (List UInt8 × ℕ) := do
  let (buff, p) ← putDown buff 0 p
  digitLoop base p val buff

/-- `for (ix = 0; ix < 16; ++ix) buf[-ix] = '0'`, with `n` rounds left and the place behind `buf -
ix`. -/
def fillZeros : ℕ → ℕ → List UInt8 → Except Fault (List UInt8)
  | 0, _, buff => return buff
  | n + 1, p, buff => do
    let (buff, p) ← putDown buff 48 p
    fillZeros n p buff

/-- The switch that complements a digit. -/
def complementDigit (c : UInt8) : UInt8 :=
  if c = 48 then 102 else if c = 49 then 101 else if c = 50 then 100 else if c = 51 then 99
  else if c = 52 then 98 else if c = 53 then 97 else if c = 54 then 57 else if c = 55 then 56
  else if c = 56 then 55 else if c = 57 then 54 else if c = 97 then 53 else if c = 98 then 52
  else if c = 99 then 51 else if c = 100 then 50 else if c = 101 then 49 else if c = 102 then 48
  else c

/-- The loop that complements the digits, with `n` rounds left and the place behind `buf`. -/
def complementLoop : ℕ → ℕ → List UInt8 → Except Fault (List UInt8 × ℕ)
  | 0, p, buff => return (buff, p)
  | _ + 1, 0, _ => throw .outOfBounds
  | n + 1, p + 1, buff => do
    let c ← byteAt buff p
    complementLoop n p (← store buff p (complementDigit c))

/-- `_safe_itoa`: the buffer, and the place that is returned. -/
def safeItoa (base : ℤ) (val : ℤ) (buff : List UInt8) (p : ℕ) : Except Fault (List UInt8 × ℕ) := do
  let isNeg := val < 0
  let (buff, orig) ← putDown buff 0 p
  let val := if isNeg then int64 (-val) else val
  let val := if isNeg ∧ base = 16 then int64 (val - 1) else val
  let buff ← if isNeg ∧ base = 16 then fillZeros 16 orig buff else pure buff
  let (buff, p) ← digitLoop base orig val buff
  let (buff, p) ← if isNeg ∧ base = 10 then putDown buff 45 p else pure (buff, p)
  if isNeg ∧ base = 16 then complementLoop 16 orig buff else return (buff, p)

/-! ## The formats -/

/-- `_safe_check_longlong`, with 64-bit `long`: where the format goes on, and `have_longlong`. -/
def safeCheckLonglong : List UInt8 → Except Fault (List UInt8 × Bool)
  | [] => throw .outOfBounds
  | c :: fmt =>
    if c = 108 then
      match fmt with
      | [] => throw .outOfBounds
      | c' :: fmt' => if c' ≠ 108 then return (c' :: fmt', true) else return (fmt', true)
    else return (c :: fmt, false)

/-- An argument: a number, of which a short one uses the lower half, or a string without its
terminator, or a null pointer. -/
inductive Arg
  | number (slot : BitVec 64)
  | string (val : Option (List UInt8))
  deriving DecidableEq

/-- `va_arg` for a number, and for a string. -/
def vaNumber : List Arg → Except Fault (BitVec 64 × List Arg)
  | .number slot :: ap => return (slot, ap)
  | _ => throw .outOfBounds

def vaString : List Arg → Except Fault (Option (List UInt8) × List Arg)
  | .string val :: ap => return (val, ap)
  | _ => throw .outOfBounds

/-- `ival`, the signed value of an argument. -/
def signedValue (long : Bool) (slot : BitVec 64) : ℤ :=
  if long then slot.toInt else (slot.setWidth 32).toInt

/-- `uval`, the unsigned value of an argument. -/
def unsignedValue (long : Bool) (slot : BitVec 64) : ℕ :=
  if long then slot.toNat else (slot.setWidth 32).toNat

/-- The text of a number in the scratch buffer, which holds anything before: the bytes from
`val_as_str` on. -/
def numberText (buff : List UInt8) (conv : UInt8) (long : Bool) (slot : BitVec 64) :
    Except Fault (List UInt8) := do
  let long := long || conv = 112
  let base := if conv = 120 ∨ conv = 112 then 16 else 10
  if conv = 117 then
    let (buff, p) ← safeUtoa base (unsignedValue long slot) buff 22
    return buff.drop p
  else
    let ival := signedValue long slot
    let (buff, p) ← safeItoa base ival buff 22
    -- strip off "ffffffff" if we have 'x' format without 'll'
    return buff.drop (if conv = 120 ∧ !long ∧ ival < 0 then p + 8 else p)

/-- `while (*val && to < end) *to++ = *val++`, from the pointer `val` on. -/
def copyOut (last : ℕ) : List UInt8 → List UInt8 → ℕ → Except Fault (List UInt8 × ℕ)
  | [], _, _ => throw .outOfBounds
  | c :: val, dst, pos => do
    if c ≠ 0 ∧ pos < last then copyOut last val (← store dst pos c) (pos + 1) else return (dst, pos)

/-- The switch over the conversion: what is left of the arguments, the destination, and `to`. -/
def convert (buff : List UInt8) (last : ℕ) (conv : UInt8) (long : Bool) (ap : List Arg)
    (dst : List UInt8) (pos : ℕ) : Except Fault (List Arg × List UInt8 × ℕ) := do
  if conv = 100 ∨ conv = 105 ∨ conv = 117 ∨ conv = 120 ∨ conv = 112 then
    let (slot, ap) ← vaNumber ap
    let (dst, pos) ← copyOut last (← numberText buff conv long slot) dst pos
    return (ap, dst, pos)
  else if conv = 115 then
    let (val, ap) ← vaString ap
    let (dst, pos) ← copyOut last (val.getD [40, 110, 117, 108, 108, 41] ++ [0]) dst pos
    return (ap, dst, pos)
  else return (ap, dst, pos)

/-- The loop over the format, of at most `rounds` rounds. -/
def formatLoop (buff : List UInt8) (last : ℕ) :
    ℕ → List UInt8 → List Arg → List UInt8 → ℕ → Except Fault (List UInt8 × ℕ)
  | 0, _, _, _, _ => throw .fuel
  | _ + 1, [], _, _, _ => throw .outOfBounds
  | rounds + 1, c :: format, ap, dst, pos => do
    if c = 0 then return (dst, pos)
    else if c ≠ 37 then
      -- end of buffer
      if pos = last then return (dst, pos)
      else formatLoop buff last rounds format ap (← store dst pos c) (pos + 1)
    else
      match ← safeCheckLonglong format with
      | ([], _) => throw .outOfBounds
      | (conv :: format, long) =>
        let (ap, dst, pos) ← convert buff last conv long ap dst pos
        formatLoop buff last rounds format ap dst pos

/-- `_safe_vsnprintf` into the destination `dst`, of which it may use `size` bytes; the scratch
buffer holds `buff` whenever a number is formatted. -/
def safeVsnprintf (buff dst : List UInt8) (size : ℕ) (format : List UInt8) (ap : List Arg) :
    Except Fault (ℕ × List UInt8) := do
  let last := size - 1
  let (dst, pos) ← formatLoop buff last format.length format ap dst 0
  return (pos, ← store dst pos 0)

/-- `_safe_snprintf`. -/
def safeSnprintf (buff dst : List UInt8) (n : ℕ) (fmt : List UInt8) (args : List Arg) :
    Except Fault (ℕ × List UInt8) :=
  safeVsnprintf buff dst n fmt args

end GfwProxy
