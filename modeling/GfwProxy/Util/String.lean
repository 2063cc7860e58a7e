import GfwProxy.Hashkit.ServerPool
import GfwProxy.Lib.Comparator

set_option autoImplicit false

/-!
# Bytes in memory

The scans of `gf_string.h` over a region of memory, and the comparison of strings of `gf_string.c`.

## Main definitions

* `GfwProxy.slice`, `GfwProxy.byteAt` — a region of memory and one of its bytes.
* `GfwProxy.gfStrchr`, `GfwProxy.gfStrrchr` — `_gf_strchr` and `_gf_strrchr`.
* `GfwProxy.stringCompare` — `string_compare`.

## Main results

* `GfwProxy.gfStrchr_eq_ok`, `GfwProxy.gfStrrchr_some`, `GfwProxy.gfStrrchr_none` — inside the
  memory the scans return, and they find the first and the last place of the byte.
* `GfwProxy.stringCompare_consistent`, `GfwProxy.stringCompare_eq_zero_iff` — the comparison orders
  the strings, and strings without a null byte are equal if it returns zero.

## Design

A memory is the list of its bytes and an address is a place in it; a read behind its end is a fault.
-/

namespace GfwProxy

/-- The `n` bytes of memory from `p` on. -/
def slice (mem : List UInt8) (p n : ℕ) : List UInt8 := (mem.drop p).take n

/-- Reading the byte at `p`. -/
def byteAt (mem : List UInt8) (p : ℕ) : Except Fault UInt8 :=
  match mem[p]? with
  | none => .error .outOfBounds
  | some x => .ok x

/-- The loop of `_gf_strchr` while there are `n` bytes before `last`. -/
def gfStrchrLoop (mem : List UInt8) (c : UInt8) : ℕ → ℕ → Except Fault (Option ℕ)
  | 0, _ => return none
  | n + 1, p => do
    if (← byteAt mem p) = c then return some p else gfStrchrLoop mem c n (p + 1)

/-- `_gf_strchr`. -/
def gfStrchr (mem : List UInt8) (p last : ℕ) (c : UInt8) : Except Fault (Option ℕ) :=
  gfStrchrLoop mem c (last - p) p

/-- The loop of `_gf_strrchr` while there are `n` bytes from `start` to `p`. -/
def gfStrrchrLoop (mem : List UInt8) (start : ℕ) (c : UInt8) : ℕ → Except Fault (Option ℕ)
  | 0 => return none
  | n + 1 => do
    if (← byteAt mem (start + n)) = c then return some (start + n)
    else gfStrrchrLoop mem start c n

/-- `_gf_strrchr`, given the place behind `p`: the pointer `p` itself may be the one before
`start`. -/
def gfStrrchr (mem : List UInt8) (behind start : ℕ) (c : UInt8) : Except Fault (Option ℕ) :=
  gfStrrchrLoop mem start c (behind - start)

variable {mem : List UInt8}

/-- The length of a part of the memory. -/
lemma length_slice {p n : ℕ} (h : p + n ≤ mem.length) : (slice mem p n).length = n := by
  simp only [slice, List.length_take, List.length_drop]
  omega

/-- A slice of a slice. -/
lemma slice_slice {p n i k : ℕ} (h : i + k ≤ n) :
    slice (slice mem p n) i k = slice mem (p + i) k := by
  simp only [slice, List.drop_take, List.drop_drop, List.take_take]
  rw [Nat.min_eq_left (by omega)]

/-- A part of the memory begins with its first byte. -/
lemma slice_succ {p n : ℕ} {x : UInt8} (h : mem[p]? = some x) :
    slice mem p (n + 1) = x :: slice mem (p + 1) n := by
  obtain ⟨hp, rfl⟩ := List.getElem?_eq_some_iff.mp h
  rw [slice, List.drop_eq_getElem_cons hp, List.take_succ_cons, slice]

/-- A part of the memory ends with its last byte. -/
lemma slice_concat {p n : ℕ} {x : UInt8} (h : mem[p + n]? = some x) :
    slice mem p (n + 1) = slice mem p n ++ [x] := by
  have hx : (mem.drop p)[n]? = some x := by
    rw [List.getElem?_drop, h]
  simp [slice, List.take_add_one, hx]

/-- The loop of `_gf_strchr` finds the first place of the byte. -/
lemma gfStrchrLoop_eq_ok (c : UInt8) {n : ℕ} :
    ∀ {p : ℕ}, p + n ≤ mem.length →
      gfStrchrLoop mem c n p = .ok (((slice mem p n).idxOf? c).map (p + ·)) := by
  induction n with
  | zero =>
    intro p _
    rw [slice, List.take_zero]
    rfl
  | succ n ih =>
    intro p h
    have hx : mem[p]? = some mem[p] := List.getElem?_eq_getElem (by omega)
    rw [slice_succ hx, List.idxOf?_cons, gfStrchrLoop, byteAt, hx]
    by_cases hc : mem[p] = c
    · simp [hc, bind, Except.bind, pure, Except.pure]
    · have hmap : ∀ o : Option ℕ, (o.map (· + 1)).map (p + ·) = o.map (p + 1 + ·) := by
        intro o
        rw [Option.map_map]
        congr 1
        funext i
        simp only [Function.comp_apply]
        omega
      simp [hc, bind, Except.bind, ih (p := p + 1) (by omega), hmap]

/-- **Inside the memory `_gf_strchr` finds the first place of the byte.** -/
theorem gfStrchr_eq_ok (c : UInt8) {p last : ℕ} (hp : p ≤ last) (h : last ≤ mem.length) :
    gfStrchr mem p last c = .ok (((slice mem p (last - p)).idxOf? c).map (p + ·)) :=
  gfStrchrLoop_eq_ok c (by omega)

/-- The loop of `_gf_strrchr` finds nothing if there is none. -/
lemma gfStrrchrLoop_none {c : UInt8} {start n : ℕ} :
    start + n ≤ mem.length → c ∉ slice mem start n → gfStrrchrLoop mem start c n = .ok none := by
  induction n with
  | zero => intro _ _; rfl
  | succ n ih =>
    intro h hc
    have hx : mem[start + n]? = some mem[start + n] := List.getElem?_eq_getElem (by omega)
    rw [slice_concat hx, List.mem_append, List.mem_singleton, not_or] at hc
    have hne : mem[start + n] ≠ c := fun he => hc.2 he.symm
    simp only [gfStrrchrLoop, byteAt, hx]
    exact (if_neg hne).trans (ih (by omega) hc.1)

/-- The loop of `_gf_strrchr` finds the last place of the byte. -/
lemma gfStrrchrLoop_some {c : UInt8} {start n : ℕ} {a : List UInt8} :
    ∀ {b : List UInt8}, start + n ≤ mem.length → slice mem start n = a ++ c :: b → c ∉ b →
      gfStrrchrLoop mem start c n = .ok (some (start + a.length)) := by
  induction n with
  | zero =>
    intro b _ hs _
    simp [slice] at hs
  | succ n ih =>
    intro b h hs hb
    have hx : mem[start + n]? = some mem[start + n] := List.getElem?_eq_getElem (by omega)
    rw [slice_concat hx] at hs
    simp only [gfStrrchrLoop, byteAt, hx]
    rcases b.eq_nil_or_concat with rfl | ⟨b, x, rfl⟩
    · -- the last byte is the one looked for
      obtain ⟨ha, hc⟩ := List.append_inj' hs rfl
      have hlen : a.length = n := by rw [← ha, length_slice (by omega)]
      rw [hlen]
      exact if_pos (List.singleton_inj.mp hc)
    · have hs' : slice mem start n ++ [mem[start + n]] = (a ++ c :: b) ++ [x] := by simpa using hs
      obtain ⟨ha, hc⟩ := List.append_inj' hs' rfl
      have hne : mem[start + n] ≠ c := by
        rw [List.singleton_inj.mp hc]
        rintro rfl
        exact hb (by simp)
      exact (if_neg hne).trans (ih (by omega) ha fun hm => hb (by simp [hm]))

/-- **`_gf_strrchr` does not find a byte that is not there.** -/
theorem gfStrrchr_none {c : UInt8} {behind start : ℕ} (hs : start ≤ behind)
    (h : behind ≤ mem.length) (hc : c ∉ slice mem start (behind - start)) :
    gfStrrchr mem behind start c = .ok none :=
  gfStrrchrLoop_none (by omega) hc

/-- **Inside the memory `_gf_strrchr` finds the last place of the byte.** -/
theorem gfStrrchr_some {c : UInt8} {behind start : ℕ} {a b : List UInt8} (hs : start ≤ behind)
    (h : behind ≤ mem.length) (hab : slice mem start (behind - start) = a ++ c :: b) (hb : c ∉ b) :
    gfStrrchr mem behind start c = .ok (some (start + a.length)) :=
  gfStrrchrLoop_some (by omega) hab hb

/-! ## Comparing strings -/

/-- `strncmp`; behind its last byte a string has a null byte. -/
def strncmp : ℕ → List UInt8 → List UInt8 → ℤ
  | 0, _, _ => 0
  | n + 1, s, t =>
    let x := (s.headD 0).toNat
    let y := (t.headD 0).toNat
    if x < y then -1
    else if y < x then 1
    else if x = 0 then 0
    else strncmp n s.tail t.tail

/-- `string_compare`. -/
def stringCompare (s t : List UInt8) : ℤ :=
  if s.length ≠ t.length then (if s.length > t.length then 1 else -1) else strncmp s.length s t

/-- `strncmp` compares consistently. -/
lemma strncmp_consistent (n : ℕ) : Comparator.Consistent (strncmp n) := by
  induction n with
  | zero => constructor <;> simp [strncmp]
  | succ n ih =>
    refine ⟨fun s t => ?_, fun s t u => ?_, fun s t => ?_⟩
    · have ht := ih.total s.tail t.tail
      simp only [strncmp]
      grind
    · have ht := ih.trans s.tail t.tail u.tail
      simp only [strncmp]
      grind
    · have ht := ih.zero s.tail t.tail
      simp only [strncmp]
      grind

/-- **`string_compare` orders the strings.** -/
theorem stringCompare_consistent : Comparator.Consistent stringCompare := by
  refine ⟨fun s t => ?_, fun s t u => ?_, fun s t => ?_⟩
  · have ht := (strncmp_consistent s.length).total s t
    simp only [stringCompare]
    grind
  · have ht := (strncmp_consistent s.length).trans s t u
    simp only [stringCompare]
    grind
  · have ht := (strncmp_consistent s.length).zero s t
    simp only [stringCompare]
    grind

/-- `strncmp` finds two texts without a zero byte equal only if they are. -/
lemma strncmp_eq_zero_iff {s t : List UInt8} (hlen : s.length = t.length) (hs : (0 : UInt8) ∉ s) :
    strncmp s.length s t = 0 ↔ s = t := by
  induction s generalizing t with
  | nil =>
    rw [List.length_nil, eq_comm, List.length_eq_zero_iff] at hlen
    simp [strncmp, hlen]
  | cons x s ih =>
    cases t with
    | nil => simp at hlen
    | cons y t =>
      obtain ⟨hx, hs⟩ := not_or.mp (List.mem_cons.not.mp hs)
      have hx0 : x.toNat ≠ 0 := fun h => hx (UInt8.toNat_inj.mp h).symm
      have hrest := ih (by simpa using hlen) hs
      rw [List.cons.injEq, ← UInt8.toNat_inj, ← hrest]
      simp only [List.length_cons, strncmp, List.headD_cons, List.tail_cons]
      grind

/-- **`string_compare` returns zero on equal strings only**, if they have no null byte. -/
theorem stringCompare_eq_zero_iff {s t : List UInt8} (hs : (0 : UInt8) ∉ s) :
    stringCompare s t = 0 ↔ s = t := by
  by_cases hlen : s.length = t.length
  · rw [stringCompare, if_neg (not_not.mpr hlen), strncmp_eq_zero_iff hlen hs]
  · have hne : s ≠ t := fun h => hlen (congrArg List.length h)
    rw [stringCompare, if_pos hlen]
    simp only [hne, iff_false]
    split_ifs <;> decide

end GfwProxy
