import Mathlib.Data.Int.DivMod
import GfwProxy.Util.Format

set_option autoImplicit false

/-!
# What is printed

The text that `_safe_vsnprintf` writes, against the standard text of the numbers and strings in it.

## Main definitions

* `GfwProxy.Piece` — a part of a format with its argument, and the text that it stands for.
* `GfwProxy.filled` — a destination with room for `last` bytes behind a text.
* `GfwProxy.Prints` — a call prints a text, truncated to the destination.

## Main results

* `GfwProxy.safeUtoa_eq`, `GfwProxy.safeItoa_neg_ten`, `GfwProxy.safeItoa_neg_sixteen` — the digits
  of a number in the scratch buffer.
* `GfwProxy.numberText_eq` — the text of a number.
* `GfwProxy.safeSnprintf_pieces` — every format whose numbers can be negated is printed.
* `GfwProxy.safeSnprintf_iff` — a number is printed exactly unless it is the least `int64_t` in
  decimal.

## Design

The scratch buffer is split at the place that is written next: what is before it is untouched, and
what is behind it is the text so far.
-/

namespace GfwProxy

/-! ## The scratch buffer -/

section Scratch

variable {front s buff : List UInt8} {p v b n : ℕ} {c : UInt8} {x : Except Fault (List UInt8 × ℕ)}

/-- A byte behind a prefix is overwritten. -/
lemma store_append (front s : List UInt8) (x c : UInt8) :
    store (front ++ x :: s) front.length c = .ok (front ++ c :: s) := by
  simp [store]

/-- One byte is written in front of the text. -/
lemma putDown_append (front s : List UInt8) (x c : UInt8) :
    putDown (front ++ x :: s) c (front.length + 1) = .ok (front ++ c :: s, front.length) := by
  rw [putDown, store_append]
  rfl

/-- A list with room for one more byte. -/
lemma exists_concat (h : front.length = p + 1) :
    ∃ front' x, front = front' ++ [x] ∧ front'.length = p := by
  rcases front.eq_nil_or_concat with rfl | ⟨front', x, rfl⟩
  · simp at h
  · exact ⟨front', x, List.concat_eq_append, by simpa using h⟩

/-- The table of digits holds the digits. -/
lemma hexAt_digit : ∀ d : ℕ, d < 16 → hexAt d = .ok (Numeral.digit d) := by
  decide

/-- **The digits are written in front of the text**, and what is before them stays.

**Proof sketch.** By induction on the room: one round writes the last digit, and the others are
those of the quotient. -/
theorem digitLoop_eq (hb : 1 < b) (hb' : b ≤ 16) : ∀ {p v : ℕ} {front s : List UInt8},
    front.length = p → (Numeral.text b v).length ≤ p →
      digitLoop b p v (front ++ s) =
        .ok (front.take (p - (Numeral.text b v).length) ++ Numeral.text b v ++ s,
          p - (Numeral.text b v).length) := by
  intro p
  induction p with
  | zero =>
    intro v front s _ hlen
    exact absurd (List.length_eq_zero_iff.mp (by omega)) (Numeral.text_ne_nil b v)
  | succ p ih =>
    intro v front s hp hlen
    obtain ⟨front, x, rfl, hfront⟩ := exists_concat hp
    have hmod : ((v : ℤ)).tmod b = ((v % b : ℕ) : ℤ) := rfl
    have hdiv : ((v : ℤ)).tdiv b = ((v / b : ℕ) : ℤ) := rfl
    have hhex : hexAt ((v % b : ℕ) : ℤ) = .ok (Numeral.digit (v % b)) :=
      hexAt_digit _ ((Nat.mod_lt v (by omega)).trans_le hb')
    have hstore : store (front ++ [x] ++ s) p (Numeral.digit (v % b)) =
        .ok (front ++ Numeral.digit (v % b) :: s) := by
      rw [← hfront, List.append_assoc]
      exact store_append front s x _
    rw [digitLoop, hmod, hdiv, hhex]
    simp only [bind, Except.bind, hstore]
    rcases Nat.lt_or_ge v b with hv | hv
    · have hzero : ¬((v / b : ℕ) : ℤ) ≠ 0 := by
        rw [Nat.div_eq_of_lt hv]
        simp
      rw [if_neg hzero, Numeral.text_of_lt hv, Nat.mod_eq_of_lt hv]
      simp [hfront, pure, Except.pure]
    · have hne : ((v / b : ℕ) : ℤ) ≠ 0 := by
        have := Nat.div_pos hv (by omega)
        omega
      have htext := Numeral.text_of_le hb hv
      rw [htext, List.length_append, List.length_singleton] at hlen
      rw [if_pos hne, ih hfront (by omega), htext, List.length_append, List.length_singleton,
        Nat.add_sub_add_right, List.take_append_of_le_length (by omega)]
      simp

/-- The terminator is written behind the digits. -/
lemma putDown_scratch (hbuff : buff.length = 22) (c : UInt8) :
    putDown buff c 22 = .ok (buff.take 21 ++ [c], 21) := by
  obtain ⟨front, x, rfl, hfront⟩ := exists_concat hbuff
  have h := putDown_append front [] x c
  rw [hfront] at h
  rw [h, List.take_left' hfront]

/-- **The digits of a number in the scratch buffer.** -/
theorem safeUtoa_eq (hb : 1 < b) (hb' : b ≤ 16) (hbuff : buff.length = 22)
    (hlen : (Numeral.text b v).length ≤ 21) :
    ∃ front, safeUtoa b v buff 22 = .ok (front ++ (Numeral.text b v ++ [0]), front.length) := by
  have hroom : (buff.take 21).length = 21 := by simp [hbuff]
  refine ⟨(buff.take 21).take (21 - (Numeral.text b v).length), ?_⟩
  rw [safeUtoa, putDown_scratch hbuff]
  simp only [bind, Except.bind]
  rw [digitLoop_eq hb hb' hroom hlen, List.append_assoc, List.length_take, hroom,
    Nat.min_eq_left (by omega)]

/-- The same for a number that is not negative. -/
lemma safeItoa_natCast (hb : 1 < b) (hb' : b ≤ 16) (hbuff : buff.length = 22)
    (hlen : (Numeral.text b v).length ≤ 21) :
    ∃ front, safeItoa b v buff 22 = .ok (front ++ (Numeral.text b v ++ [0]), front.length) := by
  obtain ⟨front, h⟩ := safeUtoa_eq hb hb' hbuff hlen
  refine ⟨front, ?_⟩
  rw [← h, safeItoa, safeUtoa, putDown_scratch hbuff]
  have hneg : ¬(v : ℤ) < 0 := by omega
  simp only [bind, Except.bind, hneg, false_and, if_false, pure, Except.pure]
  cases digitLoop b 21 v (buff.take 21 ++ [0]) <;> rfl

/-- What fits into 64 bits is not changed by the cast. -/
lemma int64_of_mem {z : ℤ} (hlo : -2 ^ 63 ≤ z) (hhi : z < 2 ^ 63) : int64 z = z := by
  rw [int64, Int.bmod_def]
  split_ifs <;> omega

/-- **A negative number in decimal**, if it can be negated. -/
theorem safeItoa_neg_ten {val : ℤ} (hlo : -2 ^ 63 < val) (hneg : val < 0)
    (hbuff : buff.length = 22) :
    ∃ front, safeItoa 10 val buff 22 = .ok (front ++ (Decimal.ofInt val ++ [0]), front.length) := by
  obtain ⟨v, hv⟩ : ∃ v : ℕ, -val = v := ⟨val.natAbs, by omega⟩
  have hlen : (Numeral.text 10 v).length ≤ 19 :=
    (Numeral.length_text_le_iff (by omega) (by omega)).mpr (by omega)
  have hroom : (buff.take 21).length = 21 := by simp [hbuff]
  have hdigits := @digitLoop_eq 10 (by omega) (by omega) 21 v (buff.take 21) [0] hroom (by omega)
  have htext : Decimal.ofInt val = 45 :: Numeral.text 10 v := by
    rw [Decimal.ofInt, if_pos hneg, Numeral.text_ten]
    congr 2
    omega
  -- there is room for the sign
  obtain ⟨front, x, hfront, hlength⟩ := @exists_concat
    ((buff.take 21).take (21 - (Numeral.text 10 v).length)) (20 - (Numeral.text 10 v).length)
    (by rw [List.length_take, hroom]; omega)
  have hp : 21 - (Numeral.text 10 v).length = front.length + 1 := by omega
  rw [hfront, hp, List.append_assoc, List.append_assoc, List.singleton_append] at hdigits
  refine ⟨front, ?_⟩
  rw [safeItoa, putDown_scratch hbuff]
  have hbase : ¬(10 : ℤ) = 16 := by decide
  rw [Nat.cast_ofNat] at hdigits
  simp only [bind, Except.bind, hneg, true_and, hv, pure, Except.pure, hbase, if_true, if_false]
  rw [int64_of_mem (by omega) (by omega), hdigits]
  simp only
  rw [putDown_append, htext]
  rfl

/-- The fill with zeros. -/
lemma fillZeros_eq : ∀ {n : ℕ} {mid s : List UInt8}, mid.length = n →
    fillZeros n (front.length + n) (front ++ mid ++ s) =
    .ok (front ++ List.replicate n 48 ++ s) := by
  intro n
  induction n with
  | zero =>
    intro mid s hmid
    rw [List.length_eq_zero_iff.mp hmid]
    rfl
  | succ n ih =>
    intro mid s hmid
    obtain ⟨mid, x, rfl, hlength⟩ := exists_concat hmid
    have hput := putDown_append (front ++ mid) s x 48
    rw [List.length_append, hlength] at hput
    rw [fillZeros, ← List.append_assoc, List.append_assoc,
      List.singleton_append, ← Nat.add_assoc, hput]
    simp only [bind, Except.bind]
    rw [ih hlength, List.replicate_succ']
    simp

/-- The loop that complements the digits. -/
lemma complementLoop_eq : ∀ {n : ℕ} {mid s : List UInt8}, mid.length = n →
    complementLoop n (front.length + n) (front ++ mid ++ s) =
      .ok (front ++ mid.map complementDigit ++ s, front.length) := by
  intro n
  induction n with
  | zero =>
    intro mid s hmid
    rw [List.length_eq_zero_iff.mp hmid]
    rfl
  | succ n ih =>
    intro mid s hmid
    obtain ⟨mid, x, rfl, hlength⟩ := exists_concat hmid
    have hread : byteAt (front ++ mid ++ x :: s) (front.length + n) = .ok x := by
      rw [byteAt, List.getElem?_append_right (by simp [hlength]), List.length_append, hlength,
        Nat.sub_self]
      rfl
    have hstore := store_append (front ++ mid) s x (complementDigit x)
    rw [List.length_append, hlength] at hstore
    rw [← Nat.add_assoc, complementLoop, ← List.append_assoc, List.append_assoc,
      List.singleton_append, hread]
    simp only [bind, Except.bind, hstore]
    rw [ih hlength, List.map_append]
    simp

/-- The complement of a digit is another digit. -/
lemma complementDigit_digit :
    ∀ d < 16, complementDigit (Numeral.digit d) = Numeral.digit (16 - 1 - d) := by
  decide

/-- **A negative number in hexadecimal**: the digits of its two's complement.

**Proof sketch.** The digits of `-val - 1` are written over the fill and complemented, all sixteen
of them. -/
theorem safeItoa_neg_sixteen {val : ℤ} {m : ℕ} (hlo : -2 ^ 63 ≤ val) (hneg : val < 0)
    (hm : (m : ℤ) = 2 ^ 64 + val) (hbuff : buff.length = 22) :
    ∃ front, safeItoa 16 val buff 22 =
      .ok (front ++ (Numeral.padded 16 16 m ++ [0]), front.length) := by
  obtain ⟨v, hv⟩ : ∃ v : ℕ, -val - 1 = v := ⟨(-val - 1).toNat, by omega⟩
  have hval : int64 (int64 (-val) - 1) = v := by
    by_cases hmin : val = -2 ^ 63
    · -- the negation and the predecessor both wrap around
      have hmax : v = 2 ^ 63 - 1 := by omega
      rw [hmin, hmax]
      decide
    · have hpos : int64 (-val) = -val := int64_of_mem (by omega) (by omega)
      rw [hpos, hv, int64_of_mem (by omega) (by omega)]
  have hlt : v < 16 ^ 16 := by
    norm_num
    omega
  have hlen : (Numeral.text 16 v).length ≤ 16 :=
    (Numeral.length_text_le_iff (by omega) (by omega)).mpr hlt
  have hcomplement : 16 ^ 16 - 1 - v = m := by
    norm_num
    omega
  -- the sixteen places of the digits
  obtain ⟨front, mid, hsplit, hfront, hmid⟩ : ∃ front mid : List UInt8,
      buff.take 21 = front ++ mid ∧ front.length = 5 ∧ mid.length = 16 :=
    ⟨(buff.take 21).take 5, (buff.take 21).drop 5,
      (List.take_append_drop 5 _).symm, by simp [hbuff], by simp [hbuff]⟩
  have hfill : fillZeros 16 21 (front ++ mid ++ [0]) =
      .ok (front ++ List.replicate 16 48 ++ [0]) := by
    have h := @fillZeros_eq front 16 mid [0] hmid
    rwa [hfront] at h
  have hdigits := @digitLoop_eq 16 (by omega) (by omega) 21 v (front ++ List.replicate 16 48) [0]
    (by simp [hfront]) (by omega)
  have hpadded : (front ++ List.replicate 16 48).take (21 - (Numeral.text 16 v).length) ++
      Numeral.text 16 v = front ++ Numeral.padded 16 16 v := by
    rw [Numeral.padded_eq_append (by omega) (by omega) hlt,
      show 21 - (Numeral.text 16 v).length =
      front.length + (16 - (Numeral.text 16 v).length) by omega, List.take_length_add_append,
        List.take_replicate, Nat.min_eq_left (by omega), List.append_assoc]
    rfl
  have hcompl : complementLoop 16 21 (front ++ Numeral.padded 16 16 v ++ [0]) =
      .ok (front ++ Numeral.padded 16 16 m ++ [0], front.length) := by
    have h := @complementLoop_eq front 16 (Numeral.padded 16 16 v) [0]
      (Numeral.length_padded 16 16 v)
    rw [Numeral.map_padded (by omega) complementDigit_digit hlt, hcomplement] at h
    rw [show 21 = front.length + 16 by omega]
    exact h
  refine ⟨front, ?_⟩
  have hbase : ¬(16 : ℤ) = 10 := by decide
  rw [Nat.cast_ofNat, hpadded] at hdigits
  rw [safeItoa, putDown_scratch hbuff, hsplit]
  simp only [bind, Except.bind, hneg, true_and, hval, pure, Except.pure, hbase, if_true, if_false]
  rw [hfill]
  simp only
  rw [hdigits]
  simp only
  rw [hcompl, List.append_assoc]

end Scratch

/-! ## The destination -/

/-- A destination of which `last` bytes are used for the text, and the terminator is written behind
them: what it holds after the text `out`, as far as there is room. -/
def filled (dst : List UInt8) (last : ℕ) (out : List UInt8) : List UInt8 :=
  out.take last ++ dst.drop (min out.length last)

section Destination

variable {dst out cs rest : List UInt8} {last : ℕ} {c : UInt8}

/-- Nothing is filled in. -/
lemma filled_nil (dst : List UInt8) (last : ℕ) : filled dst last [] = dst := by
  simp [filled]

/-- There is no room for more text. -/
lemma filled_append_of_le (h : last ≤ out.length) (cs : List UInt8) :
    filled dst last (out ++ cs) = filled dst last out ∧
      min (out ++ cs).length last = min out.length last := by
  have hmin : min (out ++ cs).length last = min out.length last := by
    rw [List.length_append, Nat.min_eq_right h, Nat.min_eq_right (by omega)]
  refine ⟨?_, hmin⟩
  rw [filled, filled, hmin, List.take_append_of_le_length h]

/-- One more byte, if there is room. -/
lemma store_filled (hlast : last < dst.length) (h : out.length < last) (c : UInt8) :
    store (filled dst last out) (min out.length last) c = .ok (filled dst last (out ++ [c])) := by
  have hdrop : dst.drop out.length = dst[out.length] :: dst.drop (out.length + 1) :=
    List.drop_eq_getElem_cons (by omega)
  have hfilled : filled dst last out = out ++ dst[out.length] :: dst.drop (out.length + 1) := by
    rw [filled, Nat.min_eq_left (by omega), List.take_of_length_le (by omega), hdrop]
  have hfilled' : filled dst last (out ++ [c]) = out ++ c :: dst.drop (out.length + 1) := by
    have hlen : (out ++ [c]).length = out.length + 1 := by simp
    rw [filled, hlen, Nat.min_eq_left (by omega), List.take_of_length_le (by omega),
      List.append_assoc, List.singleton_append]
  rw [hfilled, hfilled', Nat.min_eq_left (by omega), store_append]

/-- **A string is copied as far as there is room.** -/
theorem copyOut_eq (hlast : last < dst.length) (hcs : (0 : UInt8) ∉ cs) :
    copyOut last (cs ++ 0 :: rest) (filled dst last out) (min out.length last) =
      .ok (filled dst last (out ++ cs), min (out ++ cs).length last) := by
  induction cs generalizing out with
  | nil =>
    rw [List.nil_append, copyOut, if_neg (by simp), List.append_nil]
    rfl
  | cons c cs ih =>
    obtain ⟨hc, hcs⟩ := not_or.mp (List.mem_cons.not.mp hcs)
    rw [List.cons_append, copyOut]
    by_cases hroom : out.length < last
    · have hnext : min out.length last + 1 = min (out ++ [c]).length last := by
        rw [List.length_append, List.length_singleton]
        omega
      rw [if_pos ⟨Ne.symm hc, by omega⟩, store_filled hlast hroom, hnext]
      simp only [bind, Except.bind]
      rw [ih hcs, List.append_assoc, List.singleton_append]
    · obtain ⟨hfilled, hmin⟩ := @filled_append_of_le dst out last (by omega) (c :: cs)
      rw [if_neg (by omega), hfilled, hmin]
      rfl

/-- The terminator is written behind the text. -/
lemma store_terminator (hlast : last < dst.length) :
    store (filled dst last out) (min out.length last) 0 =
      .ok (out.take last ++ 0 :: dst.drop (min out.length last + 1)) := by
  obtain ⟨x, hdrop⟩ : ∃ x, dst.drop (min out.length last) =
      x :: dst.drop (min out.length last + 1) :=
    ⟨_, List.drop_eq_getElem_cons (by omega)⟩
  have hlen : (out.take last).length = min out.length last := by
    rw [List.length_take, Nat.min_comm]
  have h := store_append (out.take last) (dst.drop (min out.length last + 1)) x 0
  rw [hlen] at h
  rw [filled, hdrop, h]

end Destination

/-! ## The parts of a format -/

/-- The modifiers of a number. -/
inductive Modifier
  | none
  | long
  | longLong
  deriving DecidableEq, Repr

/-- The conversions of a number. -/
inductive Conv
  | d
  | i
  | u
  | x
  deriving DecidableEq, Repr

/-- The bytes of a modifier. -/
def Modifier.bytes : Modifier → List UInt8
  | .none => []
  | .long => [108]
  | .longLong => [108, 108]

/-- Is the argument 64 bits wide? -/
def Modifier.isLong (m : Modifier) : Bool := m ≠ .none

/-- The character of a conversion. -/
def Conv.byte : Conv → UInt8
  | .d => 100
  | .i => 105
  | .u => 117
  | .x => 120

/-- The standard text of an argument of some width: in decimal with a minus sign, in decimal, or in
lower-case hexadecimal, without leading zeros. -/
def Conv.text {w : ℕ} (arg : BitVec w) : Conv → List UInt8
  | .d | .i => Decimal.ofInt arg.toInt
  | .u => Decimal.ofNat arg.toNat
  | .x => Numeral.text 16 arg.toNat

/-- The standard text of a number: its argument has 64 bits, or 32 without a modifier. -/
def numberStandard (m : Modifier) (conv : Conv) (slot : BitVec 64) : List UInt8 :=
  if m.isLong then conv.text slot else conv.text (slot.setWidth 32)

/-- The number has no negation, and is to be written with a minus sign. -/
def LeastDecimal (m : Modifier) (conv : Conv) (slot : BitVec 64) : Prop :=
  m ≠ .none ∧ (conv = .d ∨ conv = .i) ∧ slot = BitVec.intMin 64

instance (m : Modifier) (conv : Conv) (slot : BitVec 64) : Decidable (LeastDecimal m conv slot) :=
  inferInstanceAs (Decidable (_ ∧ _))

/-- A part of a format, with its argument. -/
inductive Piece
  | char (c : UInt8)
  | number (m : Modifier) (conv : Conv) (slot : BitVec 64)
  | string (val : Option (List UInt8))

namespace Piece

/-- How a part is written in the format. -/
def format : Piece → List UInt8
  | char c => [c]
  | number m conv _ => 37 :: m.bytes ++ [conv.byte]
  | string _ => [37, 115]

/-- The argument of a part. -/
def args : Piece → List Arg
  | char _ => []
  | number _ _ slot => [.number slot]
  | string val => [.string val]

/-- The text that a part stands for. -/
def text : Piece → List UInt8
  | char c => [c]
  | number m conv slot => numberStandard m conv slot
  | string val => val.getD [40, 110, 117, 108, 108, 41]

/-- An ordinary character is not taken for something else, a number can be negated, and a string has
no null byte. -/
def Ok : Piece → Prop
  | char c => c ≠ 0 ∧ c ≠ 37
  | number m conv slot => ¬LeastDecimal m conv slot
  | string val => ∀ s ∈ val, (0 : UInt8) ∉ s

end Piece

/-! ## Numbers -/

section Numbers

variable {buff : List UInt8} {slot : BitVec 64} {m : Modifier} {conv : Conv} {base : ℕ} {val : ℤ}

/-- What is copied is what is behind the place that is returned. -/
lemma drop_scratch (front text : List UInt8) : (front ++ text).drop front.length = text :=
  List.drop_left

/-- The bounds of an argument as a signed number, and its bits. -/
lemma toInt_bounds (arg : BitVec 64) :
    -2 ^ 63 ≤ arg.toInt ∧ arg.toInt < 2 ^ 63 ∧ (0 ≤ arg.toInt → arg.toInt = arg.toNat) ∧
      (arg.toInt < 0 → (arg.toNat : ℤ) = 2 ^ 64 + arg.toInt) := by
  have hlt := arg.isLt
  rw [BitVec.toInt_eq_toNat_cond]
  split_ifs with h
  · refine ⟨?_, ?_, ?_, ?_⟩ <;> intros <;> omega
  · refine ⟨?_, ?_, ?_, ?_⟩ <;> intros <;> omega

/-- The same for the lower half. -/
lemma toInt_bounds_half (arg : BitVec 32) :
    -2 ^ 31 ≤ arg.toInt ∧ arg.toInt < 2 ^ 31 ∧ (0 ≤ arg.toInt → arg.toInt = arg.toNat) ∧
      (arg.toInt < 0 → (arg.toNat : ℤ) = 2 ^ 32 + arg.toInt) := by
  have hlt := arg.isLt
  rw [BitVec.toInt_eq_toNat_cond]
  split_ifs with h
  · refine ⟨?_, ?_, ?_, ?_⟩ <;> intros <;> omega
  · refine ⟨?_, ?_, ?_, ?_⟩ <;> intros <;> omega

/-- `%d` and `%i`. -/
lemma safeItoa_ten (hlo : -2 ^ 63 < val) (hhi : val < 2 ^ 63) (hbuff : buff.length = 22) :
    ∃ front, safeItoa 10 val buff 22 = .ok (front ++ (Decimal.ofInt val ++ [0]), front.length) := by
  by_cases hneg : val < 0
  · exact safeItoa_neg_ten hlo hneg hbuff
  · obtain ⟨v, rfl⟩ : ∃ v : ℕ, val = v := ⟨val.toNat, by omega⟩
    have hlen : (Numeral.text 10 v).length ≤ 19 :=
      (Numeral.length_text_le_iff (by omega) (by omega)).mpr (by omega)
    have htext : Decimal.ofInt v = Numeral.text 10 v := by
      rw [Decimal.ofInt, if_neg hneg, Numeral.text_ten, Int.natAbs_natCast]
    obtain ⟨front, h⟩ := @safeItoa_natCast buff v 10 (by omega) (by omega) hbuff (by omega)
    rw [Nat.cast_ofNat] at h
    exact ⟨front, htext ▸ h⟩

/-- `%u`. -/
lemma safeUtoa_ten {v : ℕ} (hv : v < 2 ^ 64) (hbuff : buff.length = 22) :
    ∃ front, safeUtoa 10 v buff 22 = .ok (front ++ (Decimal.ofNat v ++ [0]), front.length) := by
  have hlen : (Numeral.text 10 v).length ≤ 20 :=
    (Numeral.length_text_le_iff (by omega) (by omega)).mpr (by omega)
  obtain ⟨front, h⟩ := @safeUtoa_eq buff v 10 (by omega) (by omega) hbuff (by omega)
  rw [Nat.cast_ofNat] at h
  exact ⟨front, h⟩

/-- `%x` of a number that is not negative. -/
lemma safeItoa_sixteen {v : ℕ} (hv : v < 2 ^ 64) (hbuff : buff.length = 22) :
    ∃ front, safeItoa 16 v buff 22 = .ok (front ++ (Numeral.text 16 v ++ [0]), front.length) := by
  have hlen : (Numeral.text 16 v).length ≤ 16 :=
    (Numeral.length_text_le_iff (by omega) (by omega)).mpr (by norm_num; omega)
  obtain ⟨front, h⟩ := @safeItoa_natCast buff v 16 (by omega) (by omega) hbuff (by omega)
  rw [Nat.cast_ofNat] at h
  exact ⟨front, h⟩

/-- The digits of a negative number in hexadecimal. -/
lemma padded_neg {m : ℕ} (hlo : 2 ^ 63 ≤ m) (hhi : m < 2 ^ 64) :
    Numeral.padded 16 16 m = Numeral.text 16 m :=
  Numeral.padded_eq_text (by omega) (by norm_num; omega) (by norm_num; omega)

/-- The last eight digits of a short negative number in hexadecimal. -/
lemma drop_padded_neg {m h : ℕ} (hm : m = 2 ^ 64 - 2 ^ 32 + h) (hlo : 2 ^ 31 ≤ h)
    (hhi : h < 2 ^ 32) : (Numeral.padded 16 16 m).drop 8 = Numeral.text 16 h := by
  have hmod : m % 16 ^ 8 = h := by
    norm_num
    omega
  rw [Numeral.drop_padded 16 8 8, hmod]
  exact Numeral.padded_eq_text (by omega) (by norm_num; omega) (by norm_num; omega)

/-- `%d` and `%i` of a number that can be negated. -/
lemma numberText_decimal {long : Bool} (hconv : conv = .d ∨ conv = .i)
    (hlo : -2 ^ 63 < signedValue long slot) (hhi : signedValue long slot < 2 ^ 63)
    (hbuff : buff.length = 22) :
    numberText buff conv.byte long slot = .ok (Decimal.ofInt (signedValue long slot) ++ [0]) := by
  obtain ⟨front, h⟩ := safeItoa_ten hlo hhi hbuff
  rcases hconv with rfl | rfl
  · simp [numberText, Conv.byte, h, bind, Except.bind, pure, Except.pure]
  · simp [numberText, Conv.byte, h, bind, Except.bind, pure, Except.pure]

/-- An unsigned value fits into 64 bits. -/
lemma unsignedValue_lt (long : Bool) (slot : BitVec 64) : unsignedValue long slot < 2 ^ 64 := by
  have hlt := slot.isLt
  have hlt' := (slot.setWidth 32).isLt
  rw [unsignedValue]
  split_ifs <;> omega

/-- `%u`. -/
lemma numberText_unsigned {long : Bool} (hbuff : buff.length = 22) :
    numberText buff Conv.u.byte long slot =
    .ok (Decimal.ofNat (unsignedValue long slot) ++ [0]) := by
  obtain ⟨front, h⟩ := safeUtoa_ten (unsignedValue_lt long slot) hbuff
  simp [numberText, Conv.byte, h, bind, Except.bind, pure, Except.pure]

/-- `%x` of a number that is not negative. -/
lemma numberText_hex_natCast {long : Bool} {v : ℕ} (hval : signedValue long slot = v)
    (hv : v < 2 ^ 64) (hbuff : buff.length = 22) :
    numberText buff Conv.x.byte long slot = .ok (Numeral.text 16 v ++ [0]) := by
  obtain ⟨front, h⟩ := safeItoa_sixteen hv hbuff
  have hneg : ¬(v : ℤ) < 0 := by omega
  simp [numberText, Conv.byte, hval, h, bind, Except.bind, pure, Except.pure]

/-- `%x` of a negative number: all digits, or the last eight of a short number. -/
lemma numberText_hex_neg {long : Bool} {v : ℕ} (hlo : -2 ^ 63 ≤ signedValue long slot)
    (hneg : signedValue long slot < 0) (hv : (v : ℤ) = 2 ^ 64 + signedValue long slot)
    (hbuff : buff.length = 22) :
    numberText buff Conv.x.byte long slot =
      .ok ((Numeral.padded 16 16 v).drop (if long then 0 else 8) ++ [0]) := by
  obtain ⟨front, h⟩ := safeItoa_neg_sixteen hlo hneg hv hbuff
  have hdrop : (front ++ (Numeral.padded 16 16 v ++ [0])).drop (front.length + 8) =
      (Numeral.padded 16 16 v).drop 8 ++ [0] := by
    rw [← List.drop_drop, drop_scratch, List.drop_append_of_le_length (by simp)]
  cases long
  · simp [numberText, Conv.byte, h, hneg, hdrop, bind, Except.bind, pure, Except.pure]
  · simp [numberText, Conv.byte, h, bind, Except.bind, pure, Except.pure]

/-- `%x`: the digits of the bits of the argument. -/
lemma numberText_hex (long : Bool) (slot : BitVec 64) (hbuff : buff.length = 22) :
    numberText buff Conv.x.byte long slot =
    .ok (Numeral.text 16 (unsignedValue long slot) ++ [0]) := by
  obtain ⟨hlo, hhi, hnonneg, hneg⟩ := toInt_bounds slot
  obtain ⟨hlo', hhi', hnonneg', hneg'⟩ := toInt_bounds_half (slot.setWidth 32)
  have hlt := unsignedValue_lt long slot
  by_cases hsign : signedValue long slot < 0
  · cases long
    · have hsign' : (slot.setWidth 32).toInt < 0 := hsign
      have hvalue := hneg' hsign'
      have hm : (((2 ^ 64 - 2 ^ 32 + (slot.setWidth 32).toNat : ℕ)) : ℤ) =
          2 ^ 64 + signedValue false slot := by
        rw [signedValue, if_neg Bool.false_ne_true]
        push_cast
        omega
      rw [numberText_hex_neg (by rw [signedValue, if_neg Bool.false_ne_true]; omega) hsign hm hbuff,
        if_neg Bool.false_ne_true, drop_padded_neg rfl (by omega) (slot.setWidth 32).isLt]
      rfl
    · have hsign' : slot.toInt < 0 := hsign
      have hvalue := hneg hsign'
      rw [@numberText_hex_neg buff slot true slot.toNat hlo hsign hvalue hbuff, if_pos rfl,
        List.drop_zero, padded_neg (by omega) slot.isLt]
      rfl
  · have hvalue : signedValue long slot = unsignedValue long slot := by
      cases long
      · exact hnonneg' (not_lt.mp hsign)
      · exact hnonneg (not_lt.mp hsign)
    exact numberText_hex_natCast hvalue hlt hbuff

/-- **The text of a number** that is not the least one in decimal. -/
theorem numberText_eq (hok : ¬LeastDecimal m conv slot) (hbuff : buff.length = 22) :
    numberText buff conv.byte m.isLong slot = .ok (numberStandard m conv slot ++ [0]) := by
  obtain ⟨hlo, hhi, -, -⟩ := toInt_bounds slot
  obtain ⟨hlo', hhi', -, -⟩ := toInt_bounds_half (slot.setWidth 32)
  have hdecimal (hconv : conv = .d ∨ conv = .i) :
      numberText buff conv.byte m.isLong slot =
        .ok (Decimal.ofInt (signedValue m.isLong slot) ++ [0]) := by
    cases hlong : m.isLong
    · refine numberText_decimal hconv ?_ ?_ hbuff
      · show -2 ^ 63 < (slot.setWidth 32).toInt
        omega
      · show (slot.setWidth 32).toInt < 2 ^ 63
        omega
    · have hne : slot.toInt ≠ -2 ^ 63 := by
        intro hmin
        have hslot : slot = BitVec.intMin 64 := BitVec.eq_of_toInt_eq hmin
        exact hok ⟨of_decide_eq_true hlong, hconv, hslot⟩
      exact numberText_decimal hconv (lt_of_le_of_ne hlo hne.symm) hhi hbuff
  cases conv with
  | d =>
    rw [hdecimal (.inl rfl), numberStandard, signedValue]
    split_ifs <;> rfl
  | i =>
    rw [hdecimal (.inr rfl), numberStandard, signedValue]
    split_ifs <;> rfl
  | u =>
    rw [numberText_unsigned hbuff, numberStandard, unsignedValue]
    split_ifs <;> rfl
  | x =>
    rw [numberText_hex m.isLong slot hbuff, numberStandard, unsignedValue]
    split_ifs <;> rfl

end Numbers

/-! ## Formats -/

section Formats

variable {buff dst out format : List UInt8} {last rounds n : ℕ} {m : Modifier} {conv : Conv}
  {slot : BitVec 64} {ap : List Arg} {piece : Piece} {pieces : List Piece}

/-- No digit is the zero byte. -/
lemma zero_notMem_ofInt (z : ℤ) : (0 : UInt8) ∉ Decimal.ofInt z := by
  have h := @Numeral.zero_notMem_text 10 z.natAbs (by omega) (by omega)
  rw [Numeral.text_ten] at h
  rw [Decimal.ofInt]
  split_ifs
  · exact List.not_mem_cons_of_ne_of_not_mem (by decide) h
  · exact h

/-- No text of a conversion has the zero byte. -/
lemma zero_notMem_text {w : ℕ} (conv : Conv) (arg : BitVec w) : (0 : UInt8) ∉ conv.text arg := by
  cases conv with
  | d => exact zero_notMem_ofInt _
  | i => exact zero_notMem_ofInt _
  | u => exact @Numeral.zero_notMem_text 10 arg.toNat (by omega) (by omega)
  | x => exact Numeral.zero_notMem_text (by omega) (by omega)

/-- No number has the zero byte. -/
lemma zero_notMem_numberStandard (m : Modifier) (conv : Conv) (slot : BitVec 64) :
    (0 : UInt8) ∉ numberStandard m conv slot := by
  rw [numberStandard]
  split_ifs <;> exact zero_notMem_text conv _

/-- The modifier is read, and the format goes on with the conversion. -/
lemma safeCheckLonglong_eq (m : Modifier) (conv : Conv) (rest : List UInt8) :
    safeCheckLonglong (m.bytes ++ conv.byte :: rest) = .ok (conv.byte :: rest, m.isLong) := by
  cases m <;> cases conv <;> rfl

/-- A number is taken from the arguments, and its text is copied. -/
lemma convert_number (buff : List UInt8) (last : ℕ) (conv : Conv) (long : Bool) (slot : BitVec 64)
    (ap : List Arg) (dst : List UInt8) (pos : ℕ) :
    convert buff last conv.byte long (.number slot :: ap) dst pos =
      (do
        let (dst, pos) ← copyOut last (← numberText buff conv.byte long slot) dst pos
        return (ap, dst, pos)) := by
  cases conv <;> rfl

/-- The same for a string. -/
lemma convert_string (buff : List UInt8) (last : ℕ) (val : Option (List UInt8)) (ap : List Arg)
    (dst : List UInt8) (pos : ℕ) :
    convert buff last 115 false (.string val :: ap) dst pos =
      (do
        let (dst, pos) ← copyOut last ((Piece.string val).text ++ [0]) dst pos
        return (ap, dst, pos)) := rfl

/-- One round of the loop over the format reads one part, unless the destination is full. -/
lemma formatLoop_piece (hbuff : buff.length = 22) (hlast : last < dst.length) (hok : piece.Ok)
    (hroom : (∃ c, piece = .char c) → out.length < last) :
    formatLoop buff last (rounds + 1) (piece.format ++ format) (piece.args ++ ap)
        (filled dst last out) (min out.length last) =
      formatLoop buff last rounds format ap (filled dst last (out ++ piece.text))
        (min (out ++ piece.text).length last) := by
  cases piece with
  | char c =>
    obtain ⟨hzero, hpercent⟩ := hok
    have hlt := hroom ⟨c, rfl⟩
    have hnext : min out.length last + 1 = min (out ++ [c]).length last := by
      rw [List.length_append, List.length_singleton]
      omega
    show formatLoop buff last (rounds + 1) (c :: format) ap _ _ = _
    rw [formatLoop, if_neg hzero, if_pos hpercent, if_neg (by omega), store_filled hlast hlt, hnext]
    rfl
  | number m conv slot =>
    have hconvert : convert buff last conv.byte m.isLong (.number slot :: ap) (filled dst last out)
        (min out.length last) = .ok (ap, filled dst last (out ++ numberStandard m conv slot),
          min (out ++ numberStandard m conv slot).length last) := by
      rw [convert_number, numberText_eq hok hbuff]
      simp only [bind, Except.bind]
      rw [copyOut_eq hlast (zero_notMem_numberStandard m conv slot)]
      rfl
    show formatLoop buff last (rounds + 1) (37 :: (m.bytes ++ [conv.byte]) ++ format)
      (.number slot :: ap) _ _ = _
    rw [List.cons_append, List.append_assoc, List.singleton_append, formatLoop, if_neg (by decide),
      if_neg (by decide), safeCheckLonglong_eq]
    simp only [bind, Except.bind, hconvert]
    rfl
  | string val =>
    have hval : (0 : UInt8) ∉ (Piece.string val).text := by
      rw [Piece.text]
      cases val with
      | none => decide
      | some s => exact hok s rfl
    have hconvert : convert buff last 115 false (.string val :: ap) (filled dst last out)
        (min out.length last) = .ok (ap, filled dst last (out ++ (Piece.string val).text),
          min (out ++ (Piece.string val).text).length last) := by
      rw [convert_string]
      simp only [bind, Except.bind]
      rw [copyOut_eq hlast hval]
      rfl
    show formatLoop buff last (rounds + 1) (37 :: 115 :: format) (.string val :: ap) _ _ = _
    rw [formatLoop, if_neg (by decide), if_neg (by decide)]
    simp only [bind, Except.bind, safeCheckLonglong]
    rw [if_neg (by decide)]
    simp only [pure, Except.pure, hconvert]

/-- The loop stops at an ordinary character when the destination is full. -/
lemma formatLoop_full {c : UInt8} (hc : (Piece.char c).Ok) (hfull : last ≤ out.length) :
    formatLoop buff last (rounds + 1) (c :: format) ap (filled dst last out) (min out.length last) =
      .ok (filled dst last out, min out.length last) := by
  rw [formatLoop, if_neg hc.1, if_pos hc.2, if_pos (Nat.min_eq_right hfull)]
  rfl

/-- **The loop over the format prints all parts**, as far as there is room.

**Proof sketch.** By induction on the parts: one round appends the text of one part, or the
destination is full and the texts that are left change nothing. -/
theorem formatLoop_eq (hbuff : buff.length = 22) (hlast : last < dst.length)
    (hok : ∀ piece ∈ pieces, piece.Ok) (hrounds : pieces.length < rounds) :
    formatLoop buff last rounds (pieces.flatMap Piece.format ++ [0]) (pieces.flatMap Piece.args)
        (filled dst last out) (min out.length last) =
      .ok (filled dst last (out ++ pieces.flatMap Piece.text),
        min (out ++ pieces.flatMap Piece.text).length last) := by
  induction pieces generalizing out rounds with
  | nil =>
    obtain ⟨rounds, rfl⟩ : ∃ k, rounds = k + 1 := ⟨rounds - 1, by omega⟩
    rw [List.flatMap_nil, List.flatMap_nil, List.flatMap_nil, List.nil_append,
      List.append_nil, formatLoop, if_pos rfl]
    rfl
  | cons piece pieces ih =>
    obtain ⟨rounds, rfl⟩ : ∃ k, rounds = k + 1 := ⟨rounds - 1, by omega⟩
    obtain ⟨hpiece, hpieces⟩ := List.forall_mem_cons.mp hok
    rw [List.length_cons] at hrounds
    rw [List.flatMap_cons, List.flatMap_cons, List.flatMap_cons, List.append_assoc]
    by_cases hroom : (∃ c, piece = .char c) → out.length < last
    · rw [formatLoop_piece hbuff hlast hpiece hroom, ih hpieces (by omega), List.append_assoc]
    · obtain ⟨⟨c, rfl⟩, hfull⟩ := Classical.not_imp.mp hroom
      obtain ⟨hfilled, hmin⟩ := @filled_append_of_le dst out last (by omega)
        ((Piece.char c).text ++ pieces.flatMap Piece.text)
      rw [hfilled, hmin]
      exact formatLoop_full hpiece (by omega)

/-- A call prints a text into a destination of `n` bytes: all of it or its first `n - 1` bytes, and
a null byte, and what is behind them stays; no access on the way is a fault. -/
def Prints (r : Except Fault (ℕ × List UInt8)) (dst : List UInt8) (n : ℕ) (text : List UInt8) :
    Prop :=
  r = .ok (min text.length (n - 1),
    text.take (n - 1) ++ 0 :: dst.drop (min text.length (n - 1) + 1))

instance (r : Except Fault (ℕ × List UInt8)) (dst : List UInt8) (n : ℕ) (text : List UInt8) :
    Decidable (Prints r dst n text) :=
  inferInstanceAs (Decidable (_ = _))

/-- Every part of a format takes at least one byte of it. -/
lemma length_le_length_format (pieces : List Piece) :
    pieces.length ≤ (pieces.flatMap Piece.format).length := by
  induction pieces with
  | nil => rfl
  | cons piece pieces ih =>
    have hformat : 0 < piece.format.length := by
      cases piece <;> simp [Piece.format]
    rw [List.flatMap_cons, List.length_append, List.length_cons]
    omega

/-- **A format is printed**, if all its numbers can be negated. -/
theorem safeSnprintf_pieces (hbuff : buff.length = 22) (hn : 1 ≤ n) (hdst : n ≤ dst.length)
    (hok : ∀ piece ∈ pieces, piece.Ok) :
    Prints (safeSnprintf buff dst n (pieces.flatMap Piece.format ++ [0])
      (pieces.flatMap Piece.args)) dst n
      (pieces.flatMap Piece.text) := by
  have hrounds : pieces.length < (pieces.flatMap Piece.format ++ [0]).length := by
    have := length_le_length_format pieces
    rw [List.length_append, List.length_singleton]
    omega
  have hlast : n - 1 < dst.length := by omega
  have h := @formatLoop_eq buff dst [] (n - 1) _ pieces hbuff hlast hok hrounds
  rw [filled_nil, List.length_nil, Nat.zero_min, List.nil_append] at h
  rw [Prints, safeSnprintf, safeVsnprintf]
  simp only [bind, Except.bind, h]
  rw [store_terminator hlast]
  rfl

/-- The least number is its own negation, and its last digit is looked up before the table. -/
lemma numberText_least (hconv : conv = .d ∨ conv = .i) (hbuff : buff.length = 22) :
    numberText buff conv.byte true (BitVec.intMin 64) = .error .outOfBounds := by
  have hitoa : safeItoa 10 (-2 ^ 63) buff 22 = .error .outOfBounds := by
    have hneg : (-2 ^ 63 : ℤ) < 0 := by decide
    have hwrap : int64 (- -2 ^ 63) = -2 ^ 63 := by decide
    have hhex : hexAt ((-2 ^ 63 : ℤ).tmod 10) = .error .outOfBounds := by decide
    have hbase : ¬(10 : ℤ) = 16 := by decide
    rw [safeItoa, putDown_scratch hbuff]
    simp only [bind, Except.bind, pure, Except.pure, hneg, true_and, hbase, if_true, if_false]
    rw [hwrap, digitLoop, hhex]
    rfl
  have hvalue : signedValue true (BitVec.intMin 64) = -2 ^ 63 := by decide
  rw [← hvalue] at hitoa
  rcases hconv with rfl | rfl
  · simp [numberText, Conv.byte, hitoa, bind, Except.bind]
  · simp [numberText, Conv.byte, hitoa, bind, Except.bind]

/-- The call is a fault then. -/
lemma safeSnprintf_least (hbad : LeastDecimal m conv slot) (hbuff : buff.length = 22) :
    safeSnprintf buff dst n ((Piece.number m conv slot).format ++ [0]) [.number slot] =
      .error .outOfBounds := by
  obtain ⟨hlong, hconv, rfl⟩ := hbad
  have hconvert : convert buff (n - 1) conv.byte m.isLong [.number (BitVec.intMin 64)] dst 0 =
      .error .outOfBounds := by
    have hisLong : m.isLong = true := decide_eq_true hlong
    rw [convert_number, hisLong, numberText_least hconv hbuff]
    rfl
  obtain ⟨rounds, hrounds⟩ : ∃ k,
      ((Piece.number m conv (BitVec.intMin 64)).format ++ [0]).length = k + 1 := ⟨_, rfl⟩
  rw [safeSnprintf, safeVsnprintf, hrounds, Piece.format, List.cons_append, List.cons_append,
    List.append_assoc, List.singleton_append, formatLoop, if_neg (by decide), if_neg (by decide),
    safeCheckLonglong_eq]
  simp only [bind, Except.bind, hconvert]

/-- **A number is printed exactly unless it is the least `int64_t` in decimal.**

**Proof sketch.** A format with one number is a list of one part; the least number has no negation,
and its first digit is read from before the table. -/
theorem safeSnprintf_iff (hbuff : buff.length = 22) (hn : 1 ≤ n) (hdst : n ≤ dst.length)
    (m : Modifier) (conv : Conv) (slot : BitVec 64) :
    Prints (safeSnprintf buff dst n ((Piece.number m conv slot).format ++ [0]) [.number slot]) dst n
      (numberStandard m conv slot) ↔ ¬LeastDecimal m conv slot := by
  constructor
  · intro hprints hbad
    rw [Prints, safeSnprintf_least hbad hbuff] at hprints
    cases hprints
  · intro hok
    have h := @safeSnprintf_pieces buff dst n [.number m conv slot] hbuff hn hdst
      (List.forall_mem_singleton.mpr hok)
    simpa only [List.flatMap_singleton, Piece.text, Piece.args] using h

/-- The number `-2` in the lower half of an argument is `fffffffe` for `%x`, of which five digits
fit. -/
theorem minusTwo_prints :
    Prints (safeSnprintf (List.replicate 22 170) (List.replicate 6 7) 6 [37, 120, 0]
      [.number 0xaaaaaaaafffffffe#64]) (List.replicate 6 7) 6
      [102, 102, 102, 102, 102, 102, 102, 101] :=
  (@safeSnprintf_iff (List.replicate 22 170) (List.replicate 6 7) 6 rfl (by decide)
    (by decide) .none .x
    0xaaaaaaaafffffffe#64).mpr (by decide)

/-- Not every number is printed: `%ld` of the least `int64_t` reads before the table of digits. -/
theorem not_forall_prints :
    ¬∀ (m : Modifier) (conv : Conv) (slot : BitVec 64) (n : ℕ) (buff dst : List UInt8),
      buff.length = 22 → 1 ≤ n → n ≤ dst.length →
        Prints (safeSnprintf buff dst n ((Piece.number m conv slot).format ++ [0]) [.number slot])
          dst n
          (numberStandard m conv slot) := by
  intro h
  have hprints := h .long .d (BitVec.intMin 64) 30 (List.replicate 22 0)
    (List.replicate 30 0) (by decide) (by decide) (by decide)
  exact absurd hprints (by decide +kernel)

end Formats

end GfwProxy
