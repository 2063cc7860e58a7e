import GfwProxy.Hashkit.HashTag
import GfwProxy.Lib.LittleEndian

set_option autoImplicit false

/-!
# The hash of Jenkins and the address of the key

`hash_jenkins` reads a key by words, by half-words or by bytes, as the address of its first byte
allows on a little-endian machine.

## Main definitions

* `GfwProxy.Jenkins`, `GfwProxy.Jenkins.mix`, `GfwProxy.Jenkins.final` — the internal state and the
  two macros.
* `GfwProxy.wordTail`, `GfwProxy.halfTail`, `GfwProxy.byteTail` — the three switches over the last
  block.
* `GfwProxy.hashJenkins` — `hash_jenkins`.
* `GfwProxy.Jenkins.absorb` — what is computed from the bytes of the key.
* `GfwProxy.serverPoolIdxJenkins` — `server_pool_idx` with this hash function.

## Main results

* `GfwProxy.hashJenkins_eq` — the hash is computed from the bytes of the key alone.
* `GfwProxy.serverPoolIdxJenkins_placement` — the three paths agree, and where a key is sent does
  not depend on where it is in memory.

## Design

Memory gives a byte for each address: behind the key there is something, and the path by words reads
up to three bytes of it.  A `switch` that returns without `final` has no value.  The bytes that a
path reads are compared as numbers in `LittleEndian`.
-/

namespace GfwProxy

open LittleEndian (word)

/-! ## The code -/

/-- The internal state `a`, `b`, `c`. -/
structure Jenkins where
  a : UInt32
  b : UInt32
  c : UInt32
  deriving DecidableEq, Repr

/-- `rot`. -/
def rot (x k : UInt32) : UInt32 := x <<< k ||| x >>> (32 - k)

/-- `mix`. -/
def Jenkins.mix (s : Jenkins) : Jenkins :=
  let ⟨a, b, c⟩ := s
  let a := a - c; let a := a ^^^ rot c 4; let c := c + b
  let b := b - a; let b := b ^^^ rot a 6; let a := a + c
  let c := c - b; let c := c ^^^ rot b 8; let b := b + a
  let a := a - c; let a := a ^^^ rot c 16; let c := c + b
  let b := b - a; let b := b ^^^ rot a 19; let a := a + c
  let c := c - b; let c := c ^^^ rot b 4; let b := b + a
  ⟨a, b, c⟩

/-- `final`, and the result. -/
def Jenkins.final (s : Jenkins) : UInt32 :=
  let ⟨a, b, c⟩ := s
  let c := c ^^^ b; let c := c - rot b 14
  let a := a ^^^ c; let a := a - rot c 11
  let b := b ^^^ a; let b := b - rot a 25
  let c := c ^^^ b; let c := c - rot b 16
  let a := a ^^^ c; let a := a - rot c 4
  let b := b ^^^ a; let b := b - rot a 14
  let c := c ^^^ b; let c := c - rot b 24
  c

/-- The `n` bytes at address `p`. -/
def bytesAt (mem : ℕ → UInt8) (p n : ℕ) : List UInt8 := (List.range n).map fun i => mem (p + i)

/-- What is read at address `p` by a pointer to `n` bytes, as a `uint32_t`. -/
def load (mem : ℕ → UInt8) (p n : ℕ) : UInt32 := word (bytesAt mem p n)

/-- The loop over all but the last block, of at most `rounds` rounds: the address and the length of
what is left, and the state. -/
def jenkinsLoop (block : ℕ → Jenkins → Jenkins) : ℕ → ℕ → ℕ → Jenkins → ℕ × ℕ × Jenkins
  | 0, k, length, s => (k, length, s)
  | rounds + 1, k, length, s =>
    if length > 12 then jenkinsLoop block rounds (k + 12) (length - 12) (block k s).mix
    else (k, length, s)

/-- A block read by words. -/
def wordBlock (mem : ℕ → UInt8) (k : ℕ) (s : Jenkins) : Jenkins :=
  { a := s.a + load mem k 4, b := s.b + load mem (k + 4) 4, c := s.c + load mem (k + 8) 4 }

/-- The last block read by words. -/
def wordTail (mem : ℕ → UInt8) (k length : ℕ) (s : Jenkins) : Option Jenkins :=
  let k0 := load mem k 4
  let k1 := load mem (k + 4) 4
  let k2 := load mem (k + 8) 4
  match length with
  | 12 => some { c := s.c + k2, b := s.b + k1, a := s.a + k0 }
  | 11 => some { c := s.c + (k2 &&& 0xffffff), b := s.b + k1, a := s.a + k0 }
  | 10 => some { c := s.c + (k2 &&& 0xffff), b := s.b + k1, a := s.a + k0 }
  | 9 => some { c := s.c + (k2 &&& 0xff), b := s.b + k1, a := s.a + k0 }
  | 8 => some { s with b := s.b + k1, a := s.a + k0 }
  | 7 => some { s with b := s.b + (k1 &&& 0xffffff), a := s.a + k0 }
  | 6 => some { s with b := s.b + (k1 &&& 0xffff), a := s.a + k0 }
  | 5 => some { s with b := s.b + (k1 &&& 0xff), a := s.a + k0 }
  | 4 => some { s with a := s.a + k0 }
  | 3 => some { s with a := s.a + (k0 &&& 0xffffff) }
  | 2 => some { s with a := s.a + (k0 &&& 0xffff) }
  | 1 => some { s with a := s.a + (k0 &&& 0xff) }
  | _ => none

/-- A block read by half-words. -/
def halfBlock (mem : ℕ → UInt8) (k : ℕ) (s : Jenkins) : Jenkins :=
  { a := s.a + (load mem k 2 + load mem (k + 2) 2 <<< 16)
    b := s.b + (load mem (k + 4) 2 + load mem (k + 6) 2 <<< 16)
    c := s.c + (load mem (k + 8) 2 + load mem (k + 10) 2 <<< 16) }

/-- The last block read by half-words, from a label with an even number on; they end with a
`break`. -/
def halfEven (mem : ℕ → UInt8) (k length : ℕ) (s : Jenkins) : Option Jenkins :=
  let k01 := load mem k 2 + load mem (k + 2) 2 <<< 16
  let k23 := load mem (k + 4) 2 + load mem (k + 6) 2 <<< 16
  let k45 := load mem (k + 8) 2 + load mem (k + 10) 2 <<< 16
  match length with
  | 12 => some { c := s.c + k45, b := s.b + k23, a := s.a + k01 }
  | 10 => some { c := s.c + load mem (k + 8) 2, b := s.b + k23, a := s.a + k01 }
  | 8 => some { s with b := s.b + k23, a := s.a + k01 }
  | 6 => some { s with b := s.b + load mem (k + 4) 2, a := s.a + k01 }
  | 4 => some { s with a := s.a + k01 }
  | 2 => some { s with a := s.a + load mem k 2 }
  | _ => none

/-- The last block read by half-words; the labels with an odd number fall through. -/
def halfTail (mem : ℕ → UInt8) (k length : ℕ) (s : Jenkins) : Option Jenkins :=
  match length with
  | 11 => halfEven mem k 10 { s with c := s.c + load mem (k + 10) 1 <<< 16 }
  | 9 => halfEven mem k 8 { s with c := s.c + load mem (k + 8) 1 }
  | 7 => halfEven mem k 6 { s with b := s.b + load mem (k + 6) 1 <<< 16 }
  | 5 => halfEven mem k 4 { s with b := s.b + load mem (k + 4) 1 }
  | 3 => halfEven mem k 2 { s with a := s.a + load mem (k + 2) 1 <<< 16 }
  | 1 => some { s with a := s.a + load mem k 1 }
  | length => halfEven mem k length s

/-- A block read by bytes. -/
def byteBlock (mem : ℕ → UInt8) (k : ℕ) (s : Jenkins) : Jenkins :=
  { a := s.a + load mem k 1 + load mem (k + 1) 1 <<< 8 + load mem (k + 2) 1 <<< 16 +
      load mem (k + 3) 1 <<< 24
    b := s.b + load mem (k + 4) 1 + load mem (k + 5) 1 <<< 8 + load mem (k + 6) 1 <<< 16 +
      load mem (k + 7) 1 <<< 24
    c := s.c + load mem (k + 8) 1 + load mem (k + 9) 1 <<< 8 + load mem (k + 10) 1 <<< 16 +
      load mem (k + 11) 1 <<< 24 }

/-- The statement behind a label of the switch over the last block read by bytes. -/
def byteCase (mem : ℕ → UInt8) (k length : ℕ) (s : Jenkins) : Jenkins :=
  match length with
  | 12 => { s with c := s.c + load mem (k + 11) 1 <<< 24 }
  | 11 => { s with c := s.c + load mem (k + 10) 1 <<< 16 }
  | 10 => { s with c := s.c + load mem (k + 9) 1 <<< 8 }
  | 9 => { s with c := s.c + load mem (k + 8) 1 }
  | 8 => { s with b := s.b + load mem (k + 7) 1 <<< 24 }
  | 7 => { s with b := s.b + load mem (k + 6) 1 <<< 16 }
  | 6 => { s with b := s.b + load mem (k + 5) 1 <<< 8 }
  | 5 => { s with b := s.b + load mem (k + 4) 1 }
  | 4 => { s with a := s.a + load mem (k + 3) 1 <<< 24 }
  | 3 => { s with a := s.a + load mem (k + 2) 1 <<< 16 }
  | 2 => { s with a := s.a + load mem (k + 1) 1 <<< 8 }
  | 1 => { s with a := s.a + load mem k 1 }
  | _ => s

/-- The statements from a label on: all of them fall through, to the one behind `case 1`. -/
def byteFrom (mem : ℕ → UInt8) (k : ℕ) : ℕ → Jenkins → Jenkins
  | 0, s => s
  | length + 1, s => byteFrom mem k length (byteCase mem k (length + 1) s)

/-- The last block read by bytes. -/
def byteTail (mem : ℕ → UInt8) (k length : ℕ) (s : Jenkins) : Option Jenkins :=
  if 1 ≤ length ∧ length ≤ 12 then some (byteFrom mem k length s) else none

/-- One of the three paths: the loop and the switch. -/
def readKey (block : ℕ → Jenkins → Jenkins) (tail : ℕ → ℕ → Jenkins → Option Jenkins)
    (key length : ℕ) (s : Jenkins) : UInt32 :=
  let (k, rest, s) := jenkinsLoop block length key length s
  match tail k rest s with
  | none => s.c
  | some s => s.final

/-- The state at the beginning. -/
def jenkinsInit (length : ℕ) : Jenkins :=
  let i := 0xdeadbeef + UInt32.ofNat length + 13
  ⟨i, i, i⟩

/-- The path by words. -/
def hashByWords (mem : ℕ → UInt8) (key length : ℕ) : UInt32 :=
  readKey (wordBlock mem) (wordTail mem) key length (jenkinsInit length)

/-- The path by half-words. -/
def hashByHalves (mem : ℕ → UInt8) (key length : ℕ) : UInt32 :=
  readKey (halfBlock mem) (halfTail mem) key length (jenkinsInit length)

/-- The path by bytes. -/
def hashByBytes (mem : ℕ → UInt8) (key length : ℕ) : UInt32 :=
  readKey (byteBlock mem) (byteTail mem) key length (jenkinsInit length)

/-- `hash_jenkins` on a little-endian machine. -/
def hashJenkins (mem : ℕ → UInt8) (key length : ℕ) : UInt32 :=
  if key &&& 0x3 = 0 then hashByWords mem key length
  else if key &&& 0x1 = 0 then hashByHalves mem key length
  else hashByBytes mem key length

/-! ## What is computed -/

/-- A block is added: four bytes to each word, those that are missing being zero. -/
def Jenkins.addBytes (s : Jenkins) (bs : List UInt8) : Jenkins :=
  { a := s.a + word (bs.take 4)
    b := s.b + word ((bs.drop 4).take 4)
    c := s.c + word ((bs.drop 8).take 4) }

/-- The hash of the bytes of a key that are left. -/
def Jenkins.absorb (s : Jenkins) (bs : List UInt8) : UInt32 :=
  if 12 < bs.length then (s.addBytes bs).mix.absorb (bs.drop 12)
  else if bs = [] then s.c
  else (s.addBytes bs).final
  termination_by bs.length
  decreasing_by simp; omega

/-- The hash of a key. -/
def jenkins (key : List UInt8) : UInt32 := (jenkinsInit key.length).absorb key

/-! ## What is read -/

section Reads

variable {mem mem' : ℕ → UInt8} {p k m n : ℕ}

/-- The number of bytes that are read. -/
@[simp] lemma length_bytesAt (mem : ℕ → UInt8) (p n : ℕ) : (bytesAt mem p n).length = n := by
  simp [bytesAt]

/-- The first byte and the others. -/
lemma bytesAt_succ (mem : ℕ → UInt8) (p n : ℕ) :
    bytesAt mem p (n + 1) = mem p :: bytesAt mem (p + 1) n := by
  rw [bytesAt, List.range_succ_eq_map, List.map_cons, List.map_map, bytesAt]
  congr 1
  apply List.map_congr_left
  intro i _
  show mem (p + (i + 1)) = mem (p + 1 + i)
  congr 1
  omega

/-- No bytes are read. -/
@[simp] lemma bytesAt_zero (mem : ℕ → UInt8) (p : ℕ) : bytesAt mem p 0 = [] := rfl

/-- The bytes at an address are those of the first part and those behind it. -/
lemma bytesAt_add (mem : ℕ → UInt8) (p m n : ℕ) :
    bytesAt mem p (m + n) = bytesAt mem p m ++ bytesAt mem (p + m) n := by
  induction m generalizing p with
  | zero => simp
  | succ m ih =>
    rw [show m + 1 + n = (m + n) + 1 by omega, bytesAt_succ, ih, bytesAt_succ,
      show p + 1 + m = p + (m + 1) by omega]
    rfl

/-- The first of the bytes that are read. -/
lemma take_bytesAt (h : m ≤ n) : (bytesAt mem p n).take m = bytesAt mem p m := by
  obtain ⟨r, rfl⟩ : ∃ r, n = m + r := ⟨n - m, by omega⟩
  rw [bytesAt_add, List.take_left' (length_bytesAt mem p m)]

/-- The last of the bytes that are read. -/
lemma drop_bytesAt (h : m ≤ n) : (bytesAt mem p n).drop m = bytesAt mem (p + m) (n - m) := by
  obtain ⟨r, rfl⟩ : ∃ r, n = m + r := ⟨n - m, by omega⟩
  rw [bytesAt_add, List.drop_left' (length_bytesAt mem p m), Nat.add_sub_cancel_left]

/-- A load is the sum of the loads of its parts. -/
lemma load_add (mem : ℕ → UInt8) (p : ℕ) (hm : m < 4) :
    load mem p (m + n) = load mem p m + load mem (p + m) n <<< UInt32.ofNat (8 * m) := by
  rw [load, bytesAt_add, LittleEndian.word_append (by rwa [length_bytesAt]), length_bytesAt]
  rfl

/-- A load of no bytes. -/
lemma load_zero (mem : ℕ → UInt8) (p : ℕ) : load mem p 0 = 0 := rfl

/-- A mask leaves what a shorter load gives. -/
lemma load_and (mem : ℕ → UInt8) (p : ℕ) (hm : m ≤ 4) :
    load mem p 4 &&& UInt32.ofNat (2 ^ (8 * m) - 1) = load mem p m := by
  rw [load, LittleEndian.word_and hm, take_bytesAt hm]
  rfl

/-- What a block adds, if there are at least twelve bytes, or fewer. -/
lemma addBytes_bytesAt (s : Jenkins) : s.addBytes (bytesAt mem k n) =
    { a := s.a + load mem k (min 4 n), b := s.b + load mem (k + 4) (min 4 (n - 4))
      c := s.c + load mem (k + 8) (min 4 (n - 8)) } := by
  have htake : ∀ p n, (bytesAt mem p n).take 4 = bytesAt mem p (min 4 n) := by
    intro p n
    rcases Nat.le_total 4 n with h | h
    · rw [take_bytesAt h, Nat.min_eq_left h]
    · rw [List.take_of_length_le (by simpa using h), Nat.min_eq_right h]
  have hdrop : ∀ m, (bytesAt mem k n).drop m = bytesAt mem (k + m) (n - m) := by
    intro m
    rcases Nat.le_total m n with h | h
    · exact drop_bytesAt h
    · rw [List.drop_of_length_le (by simpa using h), Nat.sub_eq_zero_of_le h, bytesAt_zero]
  rw [Jenkins.addBytes, hdrop, hdrop, htake, htake, htake]
  rfl

/-- A path adds the bytes of a block, and those of the last block. -/
structure Reads (mem : ℕ → UInt8) (block : ℕ → Jenkins → Jenkins)
    (tail : ℕ → ℕ → Jenkins → Option Jenkins) : Prop where
  block : ∀ k n s, 12 ≤ n → block k s = s.addBytes (bytesAt mem k n)
  tail : ∀ k n s, n ≤ 12 → tail k n s = if n = 0 then none else some (s.addBytes (bytesAt mem k n))

/-- The loop ends with at most twelve bytes, which give the same hash from there on. -/
lemma Reads.loop {block : ℕ → Jenkins → Jenkins} {tail : ℕ → ℕ → Jenkins → Option Jenkins}
    (h : Reads mem block tail) : ∀ {rounds k n : ℕ} {s : Jenkins}, n ≤ rounds →
      ∃ k' n' s', jenkinsLoop block rounds k n s = (k', n', s') ∧ n' ≤ 12 ∧
        s'.absorb (bytesAt mem k' n') = s.absorb (bytesAt mem k n) := by
  intro rounds
  induction rounds with
  | zero =>
    intro k n s hn
    exact ⟨k, n, s, rfl, by omega, rfl⟩
  | succ rounds ih =>
    intro k n s hn
    by_cases hlt : n > 12
    · obtain ⟨k', n', s', hloop, hle, habsorb⟩ :=
        @ih (k + 12) (n - 12) (block k s).mix (by omega)
      refine ⟨k', n', s', ?_, hle, ?_⟩
      · rw [jenkinsLoop, if_pos hlt, hloop]
      · rw [habsorb, h.block k n s (by omega), ← drop_bytesAt (by omega)]
        conv_rhs => rw [Jenkins.absorb, if_pos (by simpa using hlt)]
    · refine ⟨k, n, s, ?_, by omega, rfl⟩
      rw [jenkinsLoop, if_neg hlt]

/-- **A path computes the hash of the bytes of the key.**

**Proof sketch.** In each round of the loop twelve bytes are added and the state is mixed; the
switch adds what is left, unless there is nothing. -/
theorem Reads.readKey_eq {block : ℕ → Jenkins → Jenkins} {tail : ℕ → ℕ → Jenkins → Option Jenkins}
    (h : Reads mem block tail) (key length : ℕ) (s : Jenkins) :
    readKey block tail key length s = s.absorb (bytesAt mem key length) := by
  obtain ⟨k, n, s', hloop, hle, habsorb⟩ := @Reads.loop _ _ _ h length key length s le_rfl
  have hlast : ¬12 < (bytesAt mem k n).length := by
    rw [length_bytesAt]
    omega
  rw [← habsorb, readKey, hloop, Jenkins.absorb, if_neg hlast]
  simp only [h.tail k n s' hle]
  cases n with
  | zero => rfl
  | succ n =>
    rw [if_neg (Nat.succ_ne_zero n), if_neg (by simp [bytesAt_succ])]

/-! ## The three paths -/

/-- A load of two to four bytes, byte by byte. -/
lemma load_two (mem : ℕ → UInt8) (p : ℕ) : load mem p 2 = load mem p 1 + load mem (p + 1) 1 <<< 8 :=
  @load_add 1 1 mem p (by omega)

/-- A load of three bytes. -/
lemma load_three (mem : ℕ → UInt8) (p : ℕ) :
    load mem p 3 = load mem p 1 + load mem (p + 1) 1 <<< 8 + load mem (p + 2) 1 <<< 16 := by
  rw [← load_two]
  exact @load_add 2 1 mem p (by omega)

/-- A load of four bytes. -/
lemma load_four (mem : ℕ → UInt8) (p : ℕ) :
    load mem p 4 = load mem p 1 + load mem (p + 1) 1 <<< 8 + load mem (p + 2) 1 <<< 16 +
      load mem (p + 3) 1 <<< 24 := by
  rw [← load_three]
  exact @load_add 3 1 mem p (by omega)

/-- The reads of words see the bytes of the key. -/
lemma wordReads (mem : ℕ → UInt8) : Reads mem (wordBlock mem) (wordTail mem) where
  block := by
    intro k n s hn
    rw [addBytes_bytesAt, Nat.min_eq_left (by omega), Nat.min_eq_left (by omega),
      Nat.min_eq_left (by omega)]
    rfl
  tail := by
    intro k n s hn
    have hmask : ∀ p, (load mem p 4 &&& 0xffffff = load mem p 3 ∧
        load mem p 4 &&& 0xffff = load mem p 2 ∧
        load mem p 4 &&& 0xff = load mem p 1) := fun p =>
      ⟨load_and mem p (by omega : 3 ≤ 4), load_and mem p (by omega : 2 ≤ 4),
        load_and mem p (by omega : 1 ≤ 4)⟩
    rw [addBytes_bytesAt]
    interval_cases n <;> simp [wordTail, hmask, load_zero]

/-- The reads of half words see the bytes of the key. -/
lemma halfReads (mem : ℕ → UInt8) : Reads mem (halfBlock mem) (halfTail mem) where
  block := by
    intro k n s hn
    have hpair : ∀ p, load mem p 2 + load mem (p + 2) 2 <<< 16 = load mem p 4 := fun p =>
      (@load_add 2 2 mem p (by omega)).symm
    rw [addBytes_bytesAt, Nat.min_eq_left (by omega), Nat.min_eq_left (by omega),
      Nat.min_eq_left (by omega), ← hpair, ← hpair, ← hpair]
    rfl
  tail := by
    intro k n s hn
    have hpair : ∀ p, load mem p 4 = load mem p 2 + load mem (p + 2) 2 <<< 16 := fun p =>
      @load_add 2 2 mem p (by omega)
    have hthree : ∀ p, load mem p 3 = load mem p 2 + load mem (p + 2) 1 <<< 16 := fun p =>
      @load_add 2 1 mem p (by omega)
    rw [addBytes_bytesAt]
    -- behind an odd label the byte is added first
    have hswap : ∀ x y z : UInt32, x + y + z = x + (z + y) := by
      intro x y z
      rw [UInt32.add_assoc, UInt32.add_comm y]
    interval_cases n <;> simp [halfTail, halfEven, hpair, hthree, load_zero, hswap]

/-- The reads of bytes see the bytes of the key. -/
lemma byteReads (mem : ℕ → UInt8) : Reads mem (byteBlock mem) (byteTail mem) where
  block := by
    intro k n s hn
    rw [addBytes_bytesAt, Nat.min_eq_left (by omega), Nat.min_eq_left (by omega),
      Nat.min_eq_left (by omega), load_four, load_four, load_four]
    simp only [byteBlock, UInt32.add_assoc, Nat.add_assoc, Nat.reduceAdd]
  tail := by
    intro k n s hn
    -- the switch adds the last byte first
    have hadd : ∀ x y z : UInt32, x + (y + z) = y + (x + z) := by
      intro x y z
      rw [← UInt32.add_assoc, UInt32.add_comm x, UInt32.add_assoc]
    rw [addBytes_bytesAt]
    interval_cases n <;>
      simp [byteTail, byteFrom, byteCase, load_four, load_three, load_two, load_zero,
        UInt32.add_assoc, UInt32.add_comm, hadd]

/-- **Each of the three paths computes the hash of the bytes of the key.** -/
theorem hashByPaths_eq (mem : ℕ → UInt8) (key length : ℕ) :
    hashByWords mem key length = jenkins (bytesAt mem key length) ∧
      hashByHalves mem key length = jenkins (bytesAt mem key length) ∧
      hashByBytes mem key length = jenkins (bytesAt mem key length) := by
  rw [jenkins, length_bytesAt]
  exact ⟨(wordReads mem).readKey_eq key length _, (halfReads mem).readKey_eq key length _,
    (byteReads mem).readKey_eq key length _⟩

/-- **`hash_jenkins` computes the hash of the bytes of the key.** -/
theorem hashJenkins_eq (mem : ℕ → UInt8) (key length : ℕ) :
    hashJenkins mem key length = jenkins (bytesAt mem key length) := by
  obtain ⟨hwords, hhalves, hbytes⟩ := hashByPaths_eq mem key length
  unfold hashJenkins
  split_ifs
  · exact hwords
  · exact hhalves
  · exact hbytes

end Reads

/-! ## Where a key is sent -/

/-- The whole memory: the part that holds the key, and anything beyond it. -/
def ram (mem : List UInt8) (beyond : ℕ → UInt8) (a : ℕ) : UInt8 := mem[a]?.getD (beyond a)

/-- `server_pool_hash`, if the hash function of the pool is `hash_jenkins`. -/
def serverPoolHashJenkins (pool : ServerPool) (mem : ℕ → UInt8) (key keylen : ℕ) : ℕ :=
  if pool.server.length = 1 then 0
  else if keylen = 0 then 0
  else (hashJenkins mem key keylen).toNat

/-- `server_pool_idx` on a key in memory, if the hash function of the pool is `hash_jenkins`. -/
def serverPoolIdxJenkins (pool : ServerPool) (k : KeyAt) (beyond : ℕ → UInt8) (rnd : ℕ) :
    Except Fault ℕ :=
  -- skip hashing and dispatching for pools with only one server
  if pool.server.length = 1 then .ok 0
  else do
    let (key, keylen) ← hashedPart pool.hashTag k.mem k.key k.keylen
    let hash := serverPoolHashJenkins pool (ram k.mem beyond) key keylen
    match pool.distType with
    | .ketama => ketamaDispatch pool.continuum pool.ncontinuum hash
    | .modula => modulaDispatch pool.continuum pool.ncontinuum hash
    | .random => randomDispatch pool.continuum pool.ncontinuum rnd

/-- The pool with a hash function that gets the bytes of the key. -/
def ServerPool.jenkins (pool : ServerPool) : ServerPool :=
  { pool with keyHash := fun key => (GfwProxy.jenkins key).toNat }

section Placement

variable {mem : List UInt8} {p n : ℕ}

/-- The bytes that are read lie in the memory of the key. -/
lemma bytesAt_ram (beyond : ℕ → UInt8) (h : p + n ≤ mem.length) :
    bytesAt (ram mem beyond) p n = slice mem p n := by
  apply List.ext_getElem
  · rw [length_bytesAt, length_slice h]
  · intro i hi hi'
    rw [length_bytesAt] at hi
    simp only [bytesAt, List.getElem_map, List.getElem_range, slice, List.getElem_take,
      List.getElem_drop, ram]
    rw [List.getElem?_eq_getElem (by omega), Option.getD_some]

/-- What is hashed are the bytes. -/
lemma serverPoolHashJenkins_eq (pool : ServerPool) (beyond : ℕ → UInt8) (h : p + n ≤ mem.length) :
    serverPoolHashJenkins pool (ram mem beyond) p n =
      serverPoolHash pool.jenkins (slice mem p n) := by
  rw [serverPoolHashJenkins, serverPoolHash, hashJenkins_eq, bytesAt_ram beyond h, length_slice h]
  rfl

/-- The index is that of a pool that hashes the bytes of the key. -/
lemma serverPoolIdxJenkins_eq (pool : ServerPool) (k : KeyAt) (beyond : ℕ → UInt8) (rnd : ℕ) :
    serverPoolIdxJenkins pool k beyond rnd = serverPoolIdx pool.jenkins k.bytes rnd := by
  obtain ⟨p, n, hpart, hslice, hp, hn⟩ := hashedPart_eq_ok pool.hashTag k
  have hin := k.inside
  have hhash : serverPoolHashJenkins pool (ram k.mem beyond) p n =
      serverPoolHash pool.jenkins (hashTagged pool.hashTag k.bytes) := by
    rw [serverPoolHashJenkins_eq pool beyond (by omega), hslice]
  unfold serverPoolIdxJenkins serverPoolIdx
  rw [hpart]
  show (if pool.server.length = 1 then _ else _) = _
  simp only [bind, Except.bind, hhash]
  rfl

end Placement

/-- **Where a key is sent does not depend on where it is in memory.**  Whatever the address of a key
and whatever is around it, the paths by words, by half-words and by bytes return the same hash, so
keys of the same bytes have the same hash; and with ketama or modula `server_pool_idx` is a function
of the bytes of the key.

**Proof sketch.** Each path adds the same three words in each block: a load of four bytes is the sum
of shifted loads of one and of two bytes, and a mask leaves the load of fewer bytes.  The part of
the key that is hashed depends on its bytes by `hashedPart_eq_ok`. -/
theorem serverPoolIdxJenkins_placement :
    (∀ (mem : ℕ → UInt8) (key length : ℕ),
      hashByWords mem key length = hashByBytes mem key length ∧
      hashByHalves mem key length = hashByBytes mem key length) ∧
    (∀ (mem mem' : ℕ → UInt8) (key key' length : ℕ),
      (∀ i < length, mem (key + i) = mem' (key' + i)) →
        hashJenkins mem key length = hashJenkins mem' key' length) ∧
    ∀ pool : ServerPool, pool.distType = .ketama ∨ pool.distType = .modula →
      ∃ idx : List UInt8 → Except Fault ℕ, ∀ (k : KeyAt) (beyond : ℕ → UInt8) (rnd : ℕ),
        serverPoolIdxJenkins pool k beyond rnd = idx k.bytes := by
  refine ⟨fun mem key length => ?_, fun mem mem' key key' length h => ?_, fun pool hdist => ?_⟩
  · obtain ⟨hwords, hhalves, hbytes⟩ := hashByPaths_eq mem key length
    exact ⟨hwords.trans hbytes.symm, hhalves.trans hbytes.symm⟩
  · have hbytes : bytesAt mem key length = bytesAt mem' key' length := by
      unfold bytesAt
      apply List.map_congr_left
      intro i hi
      exact h i (List.mem_range.mp hi)
    rw [hashJenkins_eq, hashJenkins_eq, hbytes]
  · refine ⟨fun key => serverPoolIdx pool.jenkins key 0, fun k beyond rnd => ?_⟩
    rw [serverPoolIdxJenkins_eq]
    exact serverPoolIdx_rnd pool.jenkins hdist _ _ _

/-- Memory that holds the key `apple` from some address on. -/
def appleAt (p : ℕ) (a : ℕ) : UInt8 :=
  if a < p then 7 else [97, 112, 112, 108, 101].getD (a - p) 99

/-- A key at three addresses, which are read in three ways. -/
theorem appleAt_placement :
    hashJenkins (appleAt 4) 4 5 = 1442444624 ∧
      hashJenkins (appleAt 4) 4 5 = hashJenkins (appleAt 6) 6 5 ∧
      hashJenkins (appleAt 4) 4 5 = hashJenkins (appleAt 7) 7 5 ∧
      ∃ idx : List UInt8 → Except Fault ℕ, ∀ (k : KeyAt) (beyond : ℕ → UInt8) (rnd : ℕ),
        serverPoolIdxJenkins bracedPool k beyond rnd = idx k.bytes :=
  ⟨by decide +kernel,
    serverPoolIdxJenkins_placement.2.1 (appleAt 4) (appleAt 6) 4 6 5 (by decide +kernel),
    serverPoolIdxJenkins_placement.2.1 (appleAt 4) (appleAt 7) 4 7 5 (by decide +kernel),
    serverPoolIdxJenkins_placement.2.2 bracedPool (.inr rfl)⟩

end GfwProxy
