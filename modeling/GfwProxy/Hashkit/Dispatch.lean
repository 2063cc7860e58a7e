import GfwProxy.Hashkit.Update
import GfwProxy.Lib.Ring

set_option autoImplicit false

/-!
# The lookup of ketama is a successor on a ring

## Main results

* `GfwProxy.ketamaSearch_eq_ok` — the binary search finds the first point that is not before the
  hash.
* `GfwProxy.ketamaDispatch_eq` — `ketama_dispatch` returns the server of the successor of the hash
  on the ring of the first `ncontinuum` points.
* `GfwProxy.ketamaDispatch_eq_linearDispatch` — it agrees with a scan of the continuum from its
  first point on, after a number of rounds that is logarithmic in the number of points.
-/

namespace GfwProxy

variable {cs : List Continuum} {n : ℕ}

/-- The first `n` points are in the order of their values. -/
def Sorted (cs : List Continuum) (n : ℕ) : Prop :=
  (cs.take n).Pairwise fun a b => a.value ≤ b.value

/-- The points are in order. -/
lemma Sorted.le (hs : Sorted cs n) {i j : ℕ} {c d : Continuum} (hij : i ≤ j) (hj : j < n)
    (hc : cs[i]? = some c) (hd : cs[j]? = some d) : c.value ≤ d.value := by
  rcases hij.eq_or_lt with rfl | hlt
  · rw [hc] at hd
    exact (Option.some.inj hd) ▸ le_rfl
  · have hi' : (cs.take n)[i]? = some c := by rw [List.getElem?_take_of_lt (by omega), hc]
    have hj' : (cs.take n)[j]? = some d := by rw [List.getElem?_take_of_lt hj, hd]
    obtain ⟨hi, rfl⟩ := List.getElem?_eq_some_iff.mp hi'
    obtain ⟨hj, rfl⟩ := List.getElem?_eq_some_iff.mp hj'
    exact List.pairwise_iff_getElem.mp hs i j hi hj hlt

/-- The binary search ends at the first point that is not before the hash: all points before
`left` are, and none from `right` on is.  Each round at least halves the interval. -/
theorem ketamaSearch_eq_ok (hash : ℕ) (hs : Sorted cs n) (hn : n ≤ cs.length) {fuel : ℕ} :
    ∀ {left right : ℕ}, left ≤ right → right ≤ n → right - left < 2 ^ fuel →
      (∀ i c, i < left → cs[i]? = some c → c.value < hash) →
      (∀ i c, right ≤ i → i < n → cs[i]? = some c → hash ≤ c.value) →
      ∃ r ≤ n, ketamaSearch cs hash fuel left right = .ok r ∧
        (∀ i c, i < r → cs[i]? = some c → c.value < hash) ∧
        ∀ i c, r ≤ i → i < n → cs[i]? = some c → hash ≤ c.value := by
  induction fuel with
  | zero =>
    intro left right hle hright hfuel hbefore hbehind
    rw [pow_zero] at hfuel
    obtain rfl : left = right := by omega
    exact ⟨left, hright, by simp [ketamaSearch], hbefore, hbehind⟩
  | succ fuel ih =>
    intro left right hle hright hfuel hbefore hbehind
    rw [pow_succ] at hfuel
    by_cases hlt : left < right
    · obtain ⟨middle, hmiddle⟩ : ∃ middle, left + (right - left) / 2 = middle := ⟨_, rfl⟩
      have hmlt : middle < cs.length := by omega
      have hget : cs[middle]? = some cs[middle] := List.getElem?_eq_getElem hmlt
      simp only [ketamaSearch, hlt, if_true, hmiddle, hget]
      by_cases hv : cs[middle].value < hash
      · -- everything up to the middle is before the hash
        rw [if_pos hv]
        refine ih (by omega) hright (by omega) (fun i c hi hc => ?_) hbehind
        exact (hs.le (by omega) (by omega) hc hget).trans_lt hv
      · rw [if_neg hv]
        refine ih (by omega) (by omega) (by omega) hbefore fun i c hi hin hc => ?_
        exact (not_lt.mp hv).trans (hs.le hi hin hget hc)
    · obtain rfl : left = right := by omega
      exact ⟨left, hright, by simp [ketamaSearch], hbefore, hbehind⟩

/-- **`ketama_dispatch` returns the server of the successor of the hash.** -/
theorem ketamaDispatch_eq (hash : ℕ) (hs : Sorted cs n) (hn : n ≤ cs.length) (hpos : 0 < n) :
    ∃ c, Ring.succ Continuum.value hash (cs.take n) = some c ∧
      ketamaDispatch cs n hash = .ok c.index := by
  obtain ⟨r, hr, hsearch, hbefore, hbehind⟩ := ketamaSearch_eq_ok hash hs hn (Nat.zero_le n)
    le_rfl (show n - 0 < 2 ^ n from n.lt_two_pow_self) (fun i c hi _ => by omega)
    (fun i c hi hin _ => by omega)
  have hlen : (cs.take n).length = n := by simpa using hn
  have hget : ∀ i (hi : i < (cs.take n).length), cs[i]? = some (cs.take n)[i] := by
    intro i hi
    rw [List.getElem_take, List.getElem?_eq_getElem]
  have hsucc : Ring.succ Continuum.value hash (cs.take n) = _ := Ring.succ_eq_getElem
    (show r ≤ (cs.take n).length by omega) (List.ne_nil_of_length_pos (by omega))
    (fun i hi hir => hbefore i _ hir (hget i hi))
    (fun hi => hbehind r _ le_rfl (by omega) (hget r hi))
  rw [hlen] at hsucc
  have hlt : (if r = n then 0 else r) < (cs.take n).length := by
    split_ifs <;> omega
  rw [List.getElem?_eq_getElem hlt] at hsucc
  refine ⟨_, hsucc, ?_⟩
  have hdispatch : ketamaDispatch cs n hash = slotIndex cs (if r = n then 0 else r) := by
    simp only [ketamaDispatch, hsearch]
    rfl
  rw [hdispatch]
  unfold slotIndex
  rw [hget _ hlt]

/-! ## The linear scan -/

/-- The index stored in the first point that is not before the hash, or in the point `begin` when
there is none. -/
def scanContinuum (begin : Continuum) (hash : ℕ) : List Continuum → ℕ
  | [] => begin.index
  | c :: cs => if hash ≤ c.value then c.index else scanContinuum begin hash cs

/-- What `ketama_dispatch` computes on a whole continuum, by a scan of it from its first point
on. -/
def linearDispatch (hash : ℕ) : List Continuum → Except Fault ℕ
  | [] => .error .outOfBounds
  | begin :: cs => .ok (scanContinuum begin hash (begin :: cs))

/-- The scan finds the first point that is not below the hash, or the first point of all. -/
lemma scanContinuum_eq (begin : Continuum) (hash : ℕ) (cs : List Continuum) :
    scanContinuum begin hash cs =
      ((cs.find? fun c => hash ≤ c.value).getD begin).index := by
  induction cs with
  | nil => rfl
  | cons c cs ih =>
    by_cases h : hash ≤ c.value
    · simp [scanContinuum, h]
    · simp [scanContinuum, h, ih]

/-- A scan of the continuum finds the successor on the ring. -/
lemma linearDispatch_eq {hash : ℕ} {cs : List Continuum} {c : Continuum}
    (h : Ring.succ Continuum.value hash cs = some c) : linearDispatch hash cs = .ok c.index := by
  cases cs with
  | nil => simp [Ring.succ] at h
  | cons begin cs =>
    have hfind : ((begin :: cs).find? fun c => hash ≤ c.value).getD begin = c := by
      unfold Ring.succ at h
      cases hf : (begin :: cs).find? fun c => decide (hash ≤ c.value) with
      | none => simpa [hf] using h
      | some d => simpa [hf] using h
    rw [linearDispatch, scanContinuum_eq, hfind]

/-- **The lookup of ketama is a linear scan.**  On a continuum in the order of its values, possibly
with equal ones, the binary search ends after a number of rounds that is logarithmic in the number
of points, it reads nothing but these points, and `ketama_dispatch` returns the index stored in the
first point whose value is not smaller than the hash, or in the first point of all when there is
none.

**Proof sketch.** By `ketamaSearch_eq_ok` the search ends where the points stop to be before the
hash; there is the point at which the scan stops. -/
theorem ketamaDispatch_eq_linearDispatch {cs : List Continuum} (hne : cs ≠ [])
    (hs : cs.Pairwise fun a b => a.value ≤ b.value) (hash : ℕ) :
    ketamaDispatch cs cs.length hash = linearDispatch hash cs ∧
      ∃ right ≤ cs.length,
        (∀ rounds, cs.length < 2 ^ rounds →
          ketamaSearch cs hash rounds 0 cs.length = .ok right) ∧
        (∀ i c, i < right → cs[i]? = some c → c.value < hash) ∧
        (∀ i c, right ≤ i → cs[i]? = some c → hash ≤ c.value) ∧
        ∃ c, cs[if right = cs.length then 0 else right]? = some c ∧
          ketamaDispatch cs cs.length hash = .ok c.index := by
  have hpos : 0 < cs.length := List.length_pos_iff.mpr hne
  have hs' : Sorted cs cs.length := by
    unfold Sorted
    rwa [List.take_length]
  have hsearch := fun rounds (h : cs.length < 2 ^ rounds) =>
    ketamaSearch_eq_ok hash hs' le_rfl (Nat.zero_le _) le_rfl
      (show cs.length - 0 < 2 ^ rounds from h) (fun i c hi _ => by omega)
      (fun i c hi hin _ => by omega)
  obtain ⟨right, hright, hend, hbefore, hbehind⟩ := hsearch _ cs.length.lt_two_pow_self
  have hlt : (if right = cs.length then 0 else right) < cs.length := by
    split_ifs <;> omega
  constructor
  · obtain ⟨c, hsucc, hdispatch⟩ := ketamaDispatch_eq hash hs' le_rfl hpos
    rw [List.take_length] at hsucc
    rw [hdispatch, linearDispatch_eq hsucc]
  refine ⟨right, hright, fun rounds hrounds => ?_, hbefore, fun i c hi hc => ?_,
    _, List.getElem?_eq_getElem hlt, ?_⟩
  · -- the search ends at the same point, whatever the number of rounds
    obtain ⟨right', hright', hend', hbefore', hbehind'⟩ := hsearch rounds hrounds
    rcases lt_trichotomy right right' with h | rfl | h
    · have hget := List.getElem?_eq_getElem (show right < cs.length by omega)
      exact absurd (hbefore' _ _ h hget) (not_lt.mpr (hbehind _ _ le_rfl (by omega) hget))
    · exact hend'
    · have hget := List.getElem?_eq_getElem (show right' < cs.length by omega)
      exact absurd (hbefore _ _ h hget) (not_lt.mpr (hbehind' _ _ le_rfl (by omega) hget))
  · obtain ⟨hin, -⟩ := List.getElem?_eq_some_iff.mp hc
    exact hbehind i c hi hin hc
  · simp only [ketamaDispatch, hend]
    show slotIndex cs (if right = cs.length then 0 else right) = _
    rw [slotIndex, List.getElem?_eq_getElem hlt]

/-- Five points, three of them with the same value. -/
def fivePoints : List Continuum := [⟨0, 10⟩, ⟨1, 20⟩, ⟨2, 20⟩, ⟨0, 20⟩, ⟨1, 30⟩]

/-- Five points, three of them with the same value, and a hash behind the last one. -/
theorem fivePoints_linearDispatch :
    linearDispatch 20 fivePoints = .ok 1 ∧ linearDispatch 31 fivePoints = .ok 0 ∧
      ketamaDispatch fivePoints 5 20 = linearDispatch 20 fivePoints ∧
      ketamaDispatch fivePoints 5 31 = linearDispatch 31 fivePoints :=
  ⟨rfl, rfl, (ketamaDispatch_eq_linearDispatch (by decide) (by decide) 20).1,
    (ketamaDispatch_eq_linearDispatch (by decide) (by decide) 31).1⟩

end GfwProxy
