import Mathlib.Algebra.Polynomial.Div
import Mathlib.Algebra.Polynomial.RingDivision
import Mathlib.Algebra.CharP.Two
import Mathlib.Algebra.Field.ZMod
import Mathlib.RingTheory.Coprime.Lemmas
import Mathlib.Tactic.LinearCombination

set_option autoImplicit false

/-!
# Cyclic redundancy checks

A register of `w` bits that divides a string of bits by a polynomial over the field with two
elements.

## Main definitions

* `Crc.push`, `Crc.feed` — the register takes one bit, or a string of bits.
* `Crc.pushR`, `Crc.feedR` — the reflected register, which shifts to the right.
* `Crc.poly`, `Crc.message`, `Crc.generator` — the polynomials.

## Main results

* `Crc.poly_feed` — the register holds the remainder of the division.
* `Crc.feed_byte`, `Crc.feedR_byte` — a byte at a time, from a table.
* `Crc.feed_burst` — two strings that differ in no more than `w` neighbouring bits leave different
  registers.
-/

open Polynomial

namespace Crc

variable {w : ℕ} (P : BitVec w)

/-! ## The register -/

/-- The register takes a bit: what is shifted out and the bit decide whether `P` is subtracted. -/
def push (v : BitVec w) (b : Bool) : BitVec w := v <<< 1 ^^^ if v.msb ^^ b then P else 0#w

/-- The register takes a string of bits. -/
def feed (v : BitVec w) (bits : List Bool) : BitVec w := bits.foldl (push P) v

/-- The reflected register takes a bit. -/
def pushR (v : BitVec w) (b : Bool) : BitVec w := v >>> 1 ^^^ if v.getLsbD 0 ^^ b then P else 0#w

/-- The reflected register takes a string of bits. -/
def feedR (v : BitVec w) (bits : List Bool) : BitVec w := bits.foldl (pushR P) v

/-- The bits of a byte, the most significant one first. -/
def highFirst (b : BitVec 8) : List Bool := (List.range 8).map b.getMsbD

/-- The bits of a byte, the least significant one first. -/
def lowFirst (b : BitVec 8) : List Bool := (List.range 8).map b.getLsbD

/-! ## A byte at a time -/

variable {P}

/-- A shift register is linear in its contents and its input. -/
lemma push_xor (v v' : BitVec w) (b b' : Bool) :
    push P (v ^^^ v') (b ^^ b') = push P v b ^^^ push P v' b' := by
  have hmsb : ((v ^^^ v').msb ^^ (b ^^ b')) = ((v.msb ^^ b) ^^ (v'.msb ^^ b')) := by
    rw [BitVec.msb_xor]
    cases v.msb <;> cases v'.msb <;> cases b <;> cases b' <;> rfl
  rw [push, push, push, hmsb, BitVec.shiftLeft_xor_distrib]
  cases v.msb ^^ b <;> cases v'.msb ^^ b'
  · simp
  · simp [BitVec.xor_assoc]
  · simp [BitVec.xor_assoc, BitVec.xor_comm P]
  · simp only [Bool.xor_self, Bool.false_eq_true, if_false, BitVec.xor_zero, if_true]
    rw [BitVec.xor_assoc (v <<< 1) P, ← BitVec.xor_assoc P, BitVec.xor_comm P,
      BitVec.xor_assoc _ P P, BitVec.xor_self, BitVec.xor_zero]

/-- The bits of two texts, one after the other. -/
lemma feed_append (v : BitVec w) (bits bits' : List Bool) :
    feed P v (bits ++ bits') = feed P (feed P v bits) bits' := List.foldl_append

/-- The register is linear. -/
lemma feed_xor (v v' : BitVec w) {bits bits' : List Bool} (h : bits.length = bits'.length) :
    feed P (v ^^^ v') (List.zipWith Bool.xor bits bits') = feed P v bits ^^^ feed P v' bits' := by
  induction bits generalizing v v' bits' with
  | nil =>
    obtain rfl : bits' = [] := List.eq_nil_of_length_eq_zero h.symm
    rfl
  | cons b bits ih =>
    obtain ⟨b', bits', rfl⟩ := List.exists_cons_of_length_eq_add_one h.symm
    rw [List.zipWith_cons_cons, feed, List.foldl_cons, push_xor]
    exact ih (push P v b) (push P v' b') (by simpa using h)

/-- The bits that the register holds cancel themselves out. -/
lemma feed_own (v : BitVec w) (k : ℕ) : feed P v ((List.range k).map v.getMsbD) = v <<< k := by
  induction k with
  | zero => simp [feed]
  | succ k ih =>
    have hmsb : (v <<< k).msb = v.getMsbD k := by
      rw [BitVec.msb_eq_getMsbD_zero, BitVec.getMsbD_shiftLeft, Nat.zero_add]
    rw [feed] at ih
    rw [feed, List.range_succ, List.map_append, List.foldl_append, ih, List.map_singleton,
      List.foldl_cons, List.foldl_nil, push, hmsb, Bool.xor_self, BitVec.shiftLeft_add]
    simp

/-- The upper byte of a register. -/
def top (v : BitVec w) : BitVec 8 := (v >>> (w - 8)).setWidth 8

/-- The highest bits are those of the highest byte. -/
lemma getMsbD_top (hw : 8 ≤ w) (v : BitVec w) {i : ℕ} (hi : i < 8) :
    (top v).getMsbD i = v.getMsbD i := by
  rw [top, BitVec.getMsbD_eq_getLsbD, BitVec.getMsbD_eq_getLsbD, BitVec.getLsbD_setWidth,
    BitVec.getLsbD_ushiftRight, show w - 8 + (8 - 1 - i) = w - 1 - i by omega]
  simp [hi, show i < w by omega, show 8 - 1 - i < 8 by omega]

/-- A byte can be read off its bits. -/
lemma highFirst_injective {b b' : BitVec 8} (h : highFirst b = highFirst b') : b = b' := by
  refine BitVec.eq_of_getMsbD_eq fun i hi => ?_
  exact List.map_inj_left.mp h i (List.mem_range.mpr hi)

/-- The bits of an exclusive or. -/
lemma highFirst_xor (b b' : BitVec 8) :
    List.zipWith Bool.xor (highFirst b) (highFirst b') = highFirst (b ^^^ b') := by
  simp [highFirst, List.range_succ]

/-- **A byte at a time**: the upper byte of the register and the byte select an entry of a table. -/
theorem feed_byte (hw : 8 ≤ w) (v : BitVec w) (b : BitVec 8) :
    feed P v (highFirst b) = v <<< 8 ^^^ feed P 0#w (highFirst (top v ^^^ b)) := by
  have hown : feed P v (highFirst (top v)) = v <<< 8 := by
    rw [← feed_own v 8, highFirst]
    congr 1
    refine List.map_congr_left fun i hi => ?_
    exact getMsbD_top hw v (List.mem_range.mp hi)
  have hlin :=
    feed_xor (P := P) v 0#w (show (highFirst (top v)).length = (highFirst (top v ^^^ b)).length
      by simp [highFirst])
  rwa [BitVec.xor_zero, highFirst_xor, ← BitVec.xor_assoc, BitVec.xor_self, BitVec.zero_xor,
    hown] at hlin

/-! ## The reflected register -/

/-- The bits of two texts, one after the other, in the reflected register. -/
lemma feedR_append (v : BitVec w) (bits bits' : List Bool) :
    feedR P v (bits ++ bits') = feedR P (feedR P v bits) bits' := List.foldl_append

/-- The reflection of an exclusive or. -/
lemma reverse_xor (v v' : BitVec w) : (v ^^^ v').reverse = v.reverse ^^^ v'.reverse := by
  refine BitVec.eq_of_getLsbD_eq fun i hi => ?_
  rw [BitVec.getLsbD_reverse, BitVec.getLsbD_xor, BitVec.getLsbD_reverse, BitVec.getLsbD_reverse,
    BitVec.getMsbD_xor]

/-- The reflection of a shift. -/
lemma reverse_shiftLeft (v : BitVec w) (k : ℕ) : (v.reverse <<< k).reverse = v >>> k := by
  refine BitVec.eq_of_getLsbD_eq fun i hi => ?_
  rw [BitVec.getLsbD_reverse, BitVec.getMsbD_shiftLeft, BitVec.getMsbD_reverse,
    BitVec.getLsbD_ushiftRight, Nat.add_comm]

/-- A step of the reflected register is the reflection of a step. -/
lemma pushR_eq (v : BitVec w) (b : Bool) : pushR P v b = (push P.reverse v.reverse b).reverse := by
  rw [pushR, push, BitVec.msb_reverse, reverse_xor, reverse_shiftLeft]
  have hzero : (0#w).reverse = 0#w := BitVec.reverse_eq_zero_iff.mpr rfl
  cases v.getLsbD 0 ^^ b <;> simp [BitVec.reverse_reverse_eq, hzero]

/-- The reflected register is the other one, read backwards. -/
lemma feedR_eq (v : BitVec w) (bits : List Bool) :
    feedR P v bits = (feed P.reverse v.reverse bits).reverse := by
  induction bits generalizing v with
  | nil => exact BitVec.reverse_reverse_eq.symm
  | cons b bits ih =>
    have h := ih (pushR P v b)
    rw [pushR_eq, BitVec.reverse_reverse_eq] at h
    rw [feedR, List.foldl_cons, pushR_eq]
    exact h

/-- The bits of a reflected byte. -/
lemma highFirst_reverse (b : BitVec 8) : highFirst b.reverse = lowFirst b := by
  refine List.map_congr_left fun i _ => ?_
  exact BitVec.getMsbD_reverse

/-- A byte can be read off its bits, the lowest one first. -/
lemma lowFirst_injective {b b' : BitVec 8} (h : lowFirst b = lowFirst b') : b = b' := by
  refine BitVec.eq_of_getLsbD_eq fun i hi => ?_
  exact List.map_inj_left.mp h i (List.mem_range.mpr hi)

/-- **A byte at a time**, in the reflected register. -/
theorem feedR_byte (hw : 8 ≤ w) (v : BitVec w) (b : BitVec 8) :
    feedR P v (lowFirst b) = v >>> 8 ^^^ feedR P 0#w (lowFirst (v.setWidth 8 ^^^ b)) := by
  have htop : top v.reverse = (v.setWidth 8).reverse := by
    refine BitVec.eq_of_getMsbD_eq fun i hi => ?_
    rw [getMsbD_top hw _ hi, BitVec.getMsbD_reverse, BitVec.getMsbD_reverse,
      BitVec.getLsbD_setWidth]
    simp [hi]
  have hzero : (0#w).reverse = 0#w := BitVec.reverse_eq_zero_iff.mpr rfl
  rw [feedR_eq, feedR_eq, ← highFirst_reverse, ← highFirst_reverse, feed_byte hw, htop, reverse_xor,
    reverse_shiftLeft, reverse_xor, hzero]

/-! ## The remainder -/

variable (P)

/-- The polynomial of a register. -/
noncomputable def poly (v : BitVec w) : (ZMod 2)[X] :=
  ∑ i ∈ Finset.range w, if v.getLsbD i then X ^ i else 0

/-- The polynomial of a string of bits, the first one having the highest power. -/
noncomputable def message : List Bool → (ZMod 2)[X]
  | [] => 0
  | b :: bits => (if b then X ^ bits.length else 0) + message bits

/-- The polynomial that is divided by. -/
noncomputable def generator : (ZMod 2)[X] := X ^ w + poly P

variable {P}

/-- The coefficients of a polynomial are the bits of its register. -/
lemma coeff_poly (v : BitVec w) (i : ℕ) : (poly v).coeff i = if v.getLsbD i then 1 else 0 := by
  have hterm : ∀ j, (if v.getLsbD j then (X ^ j : (ZMod 2)[X]) else 0).coeff i =
      if j = i then (if v.getLsbD i then 1 else 0) else 0 := by
    intro j
    by_cases hji : j = i
    · subst hji
      cases v.getLsbD j <;> simp
    · cases v.getLsbD j <;> simp [hji, coeff_X_pow, Ne.symm hji]
  rw [poly, finsetSum_coeff, Finset.sum_congr rfl fun j _ => hterm j, Finset.sum_ite_eq']
  by_cases hi : i < w
  · simp [hi]
  · simp [hi, BitVec.getLsbD_of_ge v i (by omega)]

/-- The polynomial of a register has a degree below the width. -/
lemma degree_poly_lt (v : BitVec w) : (poly v).degree < w := by
  rw [degree_lt_iff_coeff_zero]
  intro i hi
  rw [coeff_poly, BitVec.getLsbD_of_ge v i hi]
  rfl

/-- The generator has the leading coefficient one. -/
lemma generator_monic (P : BitVec w) : (generator P).Monic := monic_X_pow_add (degree_poly_lt P)

/-- The degree of the generator is the width. -/
lemma degree_generator (P : BitVec w) : (generator P).degree = w := by
  have hlt : (poly P).degree < (X ^ w : (ZMod 2)[X]).degree := by
    rw [degree_X_pow]
    exact degree_poly_lt P
  rw [generator, degree_add_eq_left_of_degree_lt hlt, degree_X_pow]

/-- The polynomial of an exclusive or is the sum. -/
lemma poly_xor (v v' : BitVec w) : poly (v ^^^ v') = poly v + poly v' := by
  ext i
  rw [coeff_add, coeff_poly, coeff_poly, coeff_poly, BitVec.getLsbD_xor]
  cases v.getLsbD i <;> cases v'.getLsbD i <;> simp [CharTwo.add_self_eq_zero]

/-- What is shifted out is the highest power. -/
lemma poly_shiftLeft (v : BitVec w) :
    poly (v <<< 1) + (if v.msb then X ^ w else 0) = X * poly v := by
  ext i
  have hmsb : v.msb = v.getLsbD (w - 1) := by
    rw [BitVec.msb_eq_getLsbD_last]
  cases i with
  | zero =>
    have hw : (if v.msb then (X ^ w : (ZMod 2)[X]) else 0).coeff 0 = 0 := by
      cases w with
      | zero => simp [BitVec.of_length_zero]
      | succ n => cases v.msb <;> simp
    rw [coeff_add, hw, coeff_poly]
    simp
  | succ i =>
    rw [coeff_add, coeff_X_mul, coeff_poly, coeff_poly, BitVec.getLsbD_shiftLeft]
    by_cases hi : i + 1 < w
    · have hne : i + 1 ≠ w := by omega
      cases v.msb <;> simp [hi, hne]
    · by_cases he : i + 1 = w
      · subst he
        rw [hmsb, Nat.add_sub_cancel]
        cases v.getLsbD i <;> simp
      · have hge : v.getLsbD i = false := BitVec.getLsbD_of_ge v i (by omega)
        cases v.msb <;> simp [hi, he, hge]

/-- One bit. -/
lemma poly_push (v : BitVec w) (b : Bool) : poly (push P v b) =
    X * poly v + (if b then X ^ w else 0) + (if v.msb ^^ b then generator P else 0) := by
  have hzero : poly 0#w = 0 := by
    ext i
    simp [coeff_poly]
  rw [push, poly_xor, ← poly_shiftLeft, generator]
  cases v.msb <;> cases b
  · simp [hzero]
  · simp only [Bool.false_xor, if_true, Bool.false_eq_true, if_false, add_zero]
    linear_combination -(CharTwo.add_self_eq_zero (X ^ w : (ZMod 2)[X]))
  · simp only [Bool.xor_false, if_true, Bool.false_eq_true, if_false, add_zero]
    linear_combination -(CharTwo.add_self_eq_zero (X ^ w : (ZMod 2)[X]))
  · simp only [Bool.xor_self, Bool.false_eq_true, if_false, hzero, if_true]
    linear_combination -(CharTwo.add_self_eq_zero (X ^ w : (ZMod 2)[X]))

/-- **The register holds the remainder** of what it held, shifted by the length of the string, and
of the string, shifted by the width of the register. -/
theorem poly_feed (v : BitVec w) (bits : List Bool) :
    poly (feed P v bits) = (X ^ bits.length * poly v + X ^ w * message bits) %ₘ generator P := by
  have hex : ∀ v : BitVec w, ∃ q : (ZMod 2)[X],
      poly (feed P v bits) + generator P * q = X ^ bits.length * poly v + X ^ w * message bits := by
    induction bits with
    | nil => exact fun v => ⟨0, by simp [feed, message]⟩
    | cons b bits ih =>
      intro v
      obtain ⟨q, hq⟩ := ih (push P v b)
      rw [poly_push] at hq
      refine ⟨q - X ^ bits.length * (if v.msb ^^ b then 1 else 0), ?_⟩
      rw [feed, List.foldl_cons, ← feed, message, List.length_cons]
      cases hc : v.msb ^^ b <;> cases b <;>
        simp only [hc, if_true, Bool.false_eq_true, if_false] at hq ⊢ <;> linear_combination hq
  obtain ⟨q, hq⟩ := hex v
  have hdeg : (poly (feed P v bits)).degree < (generator P).degree := by
    rw [degree_generator]
    exact degree_poly_lt _
  exact (div_modByMonic_unique q _ (generator_monic P) ⟨hq, hdeg⟩).2.symm

/-! ## Bursts -/

/-- The polynomial of two texts, one after the other. -/
lemma message_append (bits bits' : List Bool) :
    message (bits ++ bits') = X ^ bits'.length * message bits + message bits' := by
  induction bits with
  | nil => simp [message]
  | cons b bits ih =>
    rw [List.cons_append, message, ih, message, List.length_append]
    cases b <;> simp only [if_true, Bool.false_eq_true, if_false] <;> ring

/-- Zeros are the polynomial zero. -/
lemma message_replicate (n : ℕ) : message (List.replicate n false) = 0 := by
  induction n with
  | zero => rfl
  | succ n ih => simp [List.replicate_succ, message, ih]

/-- The polynomial of a text has a degree below its length. -/
lemma degree_message_lt (bits : List Bool) : (message bits).degree < bits.length := by
  induction bits with
  | nil => simp [message, bot_lt_iff_ne_bot]
  | cons b bits ih =>
    have hlt : (bits.length : WithBot ℕ) < ((bits.length + 1 : ℕ) : WithBot ℕ) := by
      exact_mod_cast Nat.lt_succ_self _
    rw [message, List.length_cons]
    refine (degree_add_le _ _).trans_lt (max_lt ?_ (ih.trans hlt))
    cases b
    · simp [bot_lt_iff_ne_bot]
    · simpa using hlt

/-- A string stands for nothing only if it has no bit. -/
lemma message_eq_zero {bits : List Bool} (h : message bits = 0) :
    bits = List.replicate bits.length false := by
  induction bits with
  | nil => rfl
  | cons b bits ih =>
    have hcoeff := congrArg (fun p => p.coeff bits.length) h
    have hrest : (message bits).coeff bits.length = 0 :=
      coeff_eq_zero_of_degree_lt (degree_message_lt bits)
    obtain rfl : b = false := by
      cases b
      · rfl
      · simp [message, hrest] at hcoeff
    rw [message] at h
    rw [List.length_cons, List.replicate_succ, ← ih (by simpa using h)]

/-- A generator with a constant term has no factor in common with `X`. -/
lemma generator_coprime (hw : 0 < w) (hP : P.getLsbD 0 = true) : IsCoprime (generator P) X := by
  have hcoeff : (generator P).coeff 0 = 1 := by
    rw [generator, coeff_add, coeff_poly, hP, coeff_X_pow, if_neg (by omega)]
    simp
  have hdiv := divX_mul_X_add (generator P)
  rw [hcoeff, C_1] at hdiv
  refine ⟨1, -(generator P).divX, ?_⟩
  linear_combination -hdiv

/-- A string differs from itself in no bit. -/
lemma zipWith_xor_self (bits : List Bool) :
    List.zipWith Bool.xor bits bits = List.replicate bits.length false := by
  induction bits with
  | nil => rfl
  | cons b bits ih => simp [List.replicate_succ]

/-- Two strings that differ in no bit are one string. -/
lemma eq_of_zipWith_xor {bits bits' : List Bool} (hlen : bits.length = bits'.length)
    (h : List.zipWith Bool.xor bits bits' = List.replicate bits.length false) : bits = bits' := by
  induction bits generalizing bits' with
  | nil => exact (List.eq_nil_of_length_eq_zero hlen.symm).symm
  | cons b bits ih =>
    obtain ⟨b', bits', rfl⟩ := List.exists_cons_of_length_eq_add_one hlen.symm
    rw [List.zipWith_cons_cons, List.length_cons, List.replicate_succ, List.cons.injEq] at h
    rw [ih (by simpa using hlen) h.2, show b = b' by simpa using h.1]

/-- A burst of at most `w` bits, shifted by any number of bits, that leaves nothing in an empty
register has no bit set. -/
lemma burst_of_feed_eq_zero (hw : 0 < w) (hP : P.getLsbD 0 = true) {burst : List Bool}
    {before after : ℕ} (hlen : burst.length ≤ w)
    (h : feed P 0#w (List.replicate before false ++ burst ++ List.replicate after false) = 0#w) :
    message burst = 0 := by
  have hpoly :=
    poly_feed (P := P) 0#w (List.replicate before false ++ burst ++ List.replicate after false)
  have hzero : poly (0#w) = 0 := by
    ext i
    simp [coeff_poly]
  rw [h, hzero, mul_zero, zero_add, message_append, message_append, message_replicate,
    message_replicate, mul_zero, zero_add, add_zero,
      List.length_replicate, ← mul_assoc, ← pow_add] at hpoly
  -- the generator divides the burst, because it has no factor in common with the shift
  have hdvd : generator P ∣ X ^ (w + after) * message burst :=
    (modByMonic_eq_zero_iff_dvd (generator_monic P)).mp hpoly.symm
  have hburst : generator P ∣ message burst :=
    (generator_coprime hw hP).pow_right.dvd_of_dvd_mul_left hdvd
  refine eq_zero_of_dvd_of_degree_lt hburst ?_
  rw [degree_generator]
  exact (degree_message_lt _).trans_le (by exact_mod_cast hlen)

/-- **Bursts are noticed.**  If `P` has a constant term, two strings that differ only within `w`
neighbouring bits leave different registers.

**Proof sketch.** The difference of the registers is the remainder of the burst, shifted.  The
polynomial divides no power of `X`, and a burst has a smaller degree. -/
theorem feed_burst (hw : 0 < w) (hP : P.getLsbD 0 = true) (v : BitVec w)
    {before burst burst' after : List Bool} (hlen : burst.length = burst'.length)
    (hle : burst.length ≤ w) (hne : burst ≠ burst') :
    feed P v (before ++ burst ++ after) ≠ feed P v (before ++ burst' ++ after) := by
  intro he
  -- the difference of the two strings leaves nothing in an empty register
  have hdiff : feed P 0#w (List.zipWith Bool.xor (before ++ burst ++ after)
      (before ++ burst' ++ after)) = 0#w := by
    have h := feed_xor (P := P) v v
      (show (before ++ burst ++ after).length = (before ++ burst' ++ after).length
      by simp [hlen])
    rwa [he, BitVec.xor_self, BitVec.xor_self] at h
  rw [List.zipWith_append (by simp [hlen]), List.zipWith_append rfl, zipWith_xor_self,
    zipWith_xor_self] at hdiff
  have hzero := message_eq_zero (burst_of_feed_eq_zero hw hP (by simp; omega) hdiff)
  refine hne (eq_of_zipWith_xor hlen ?_)
  simpa [hlen] using hzero

end Crc
