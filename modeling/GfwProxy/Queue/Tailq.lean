import Mathlib.Data.List.Induction
import Mathlib.Data.List.Nodup
import Mathlib.Logic.Function.Basic
import GfwProxy.Proxy.Scatter

set_option autoImplicit false

/-!
# Tail queues

The `TAILQ` macros of `gf_queue.h` on the pointers themselves.  The connections and the messages of
the proxy are in lists elsewhere; here is why that is right.

## Main definitions

* `GfwProxy.Tailq.Links` — the link fields of all heads and all elements.
* `GfwProxy.Tailq.init`, `insertTail`, `insertHead`, `remove` — the macros that change them, and
  `GfwProxy.Tailq.Op` for a call of one of them.
* `GfwProxy.Tailq.prev`, `walkNext`, `walkPrev`, `drain` — `TAILQ_PREV` and the loops of the source.
* `GfwProxy.Tailq.Step` — what a call does to the lists, and when it is allowed.
* `GfwProxy.Tailq.Holds` — the pointers spell the lists.

## Main results

* `GfwProxy.Tailq.Holds.run` — allowed calls follow no null pointer and keep the pointers and the
  lists in step.
* `GfwProxy.Tailq.steps_refine` — after any sequence of allowed calls, all reads and all loops of
  the source see the lists.

## Design

A head and an entry have the same two fields in the same order, which is what `TAILQ_PREV` relies
on: both are a `Cell`, and a `tqe_prev` is the cell whose forward pointer it points to.  `TRASHIT`
stores a null pointer.  A queue that is not initialised is `none`.
-/

namespace GfwProxy

namespace Tailq

open Function (update)

/-! ## The macros -/

/-- A `TAILQ_HEAD` or a `TAILQ_ENTRY`. -/
inductive Cell (H E : Type)
  | head (h : H)
  | entry (e : E)
  deriving DecidableEq

/-- The fields of the heads and of the entries. -/
structure Links (H E : Type) where
  /-- `tqh_first`, `tqe_next` -/
  next : Cell H E → Option E
  /-- `tqh_last`, `tqe_prev` -/
  prev : Cell H E → Option (Cell H E)

variable {H E : Type} [DecidableEq H] [DecidableEq E]

def Links.setNext (c : Cell H E) (e : Option E) (s : Links H E) : Links H E :=
  { s with next := update s.next c e }

def Links.setPrev (c : Cell H E) (d : Option (Cell H E)) (s : Links H E) : Links H E :=
  { s with prev := update s.prev c d }

/-- `TAILQ_INIT`. -/
def init (h : H) (s : Links H E) : Links H E :=
  let s := s.setNext (.head h) none
  s.setPrev (.head h) (some (.head h))

/-- `TAILQ_INSERT_TAIL`. -/
def insertTail (h : H) (e : E) (s : Links H E) : Option (Links H E) := do
  let s := s.setNext (.entry e) none
  let s := s.setPrev (.entry e) (s.prev (.head h))
  let last ← s.prev (.head h)
  let s := s.setNext last (some e)
  some (s.setPrev (.head h) (some (.entry e)))

/-- `TAILQ_INSERT_HEAD`. -/
def insertHead (h : H) (e : E) (s : Links H E) : Option (Links H E) :=
  let s := s.setNext (.entry e) (s.next (.head h))
  let s := match s.next (.entry e) with
    | some f => s.setPrev (.entry f) (some (.entry e))
    | none => s.setPrev (.head h) (some (.entry e))
  let s := s.setNext (.head h) (some e)
  some (s.setPrev (.entry e) (some (.head h)))

/-- `TAILQ_REMOVE`. -/
def remove (h : H) (e : E) (s : Links H E) : Option (Links H E) := do
  let s := match s.next (.entry e) with
    | some f => s.setPrev (.entry f) (s.prev (.entry e))
    | none => s.setPrev (.head h) (s.prev (.entry e))
  let before ← s.prev (.entry e)
  let s := s.setNext before (s.next (.entry e))
  let s := s.setNext (.entry e) none
  some (s.setPrev (.entry e) none)

/-- `TAILQ_FIRST`. -/
def first (h : H) (s : Links H E) : Option E := s.next (.head h)

/-- `TAILQ_EMPTY`. -/
def empty (h : H) (s : Links H E) : Bool := (s.next (.head h)).isNone

/-- `TAILQ_NEXT`. -/
def next (e : E) (s : Links H E) : Option E := s.next (.entry e)

/-- `TAILQ_PREV`, through two pointers. -/
def prev (e : E) (s : Links H E) : Option (Option E) := do
  let before ← s.prev (.entry e)
  let last ← s.prev before
  some (s.next last)

/-- The elements that a loop `for (x = TAILQ_NEXT(e); x != NULL && p(x); x = TAILQ_NEXT(x))` visits,
in at most `fuel` rounds. -/
def walkNext (p : E → Bool) (s : Links H E) : ℕ → E → Option (List E)
  | 0, _ => none
  | fuel + 1, e =>
    match next e s with
    | none => some []
    | some x => if p x then (walkNext p s fuel x).map (x :: ·) else some []

/-- The same loop with `TAILQ_PREV`. -/
def walkPrev (p : E → Bool) (s : Links H E) : ℕ → E → Option (List E)
  | 0, _ => none
  | fuel + 1, e => do
    match ← prev e s with
    | none => some []
    | some x => if p x then (walkPrev p s fuel x).map (x :: ·) else some []

/-- The loop `for (x = e; x != NULL; x = y) { y = TAILQ_NEXT(x); TAILQ_REMOVE(h, x); ... }`: the
elements it visits, and the links behind it. -/
def drain (h : H) : ℕ → Option E → Links H E → Option (List E × Links H E)
  | _, none, s => some ([], s)
  | 0, some _, _ => none
  | fuel + 1, some x, s => do
    let y := next x s
    let s ← remove h x s
    let (xs, s) ← drain h fuel y s
    some (x :: xs, s)

/-- A call of a macro. -/
inductive Op (H E : Type)
  | init (h : H)
  | insertTail (h : H) (e : E)
  | insertHead (h : H) (e : E)
  | remove (h : H) (e : E)
  deriving DecidableEq

/-- The call `op`. -/
def Op.run (s : Links H E) : Op H E → Option (Links H E)
  | .init h => some (Tailq.init h s)
  | .insertTail h e => Tailq.insertTail h e s
  | .insertHead h e => Tailq.insertHead h e s
  | .remove h e => Tailq.remove h e s

/-! ## The lists -/

/-- Element `e` is in no queue. -/
def Out (q : H → Option (List E)) (e : E) : Prop := ∀ h l, q h = some l → e ∉ l

/-- What a call does to the lists.  An element is put into a queue only if it is in none, and taken
out of the queue that it is in. -/
inductive Step (q : H → Option (List E)) : Op H E → (H → Option (List E)) → Prop
  | init (h : H) : Step q (.init h) (update q h (some []))
  | insertTail (h : H) (e : E) (l : List E) (hl : q h = some l) (he : Out q e) :
      Step q (.insertTail h e) (update q h (some (l ++ [e])))
  | insertHead (h : H) (e : E) (l : List E) (hl : q h = some l) (he : Out q e) :
      Step q (.insertHead h e) (update q h (some (e :: l)))
  | remove (h : H) (e : E) (l : List E) (hl : q h = some l) (he : e ∈ l) :
      Step q (.remove h e) (update q h (some (l.erase e)))

/-- Sequences of calls. -/
inductive Steps : (H → Option (List E)) → List (Op H E) → (H → Option (List E)) → Prop
  | nil (q : H → Option (List E)) : Steps q [] q
  | cons {ops : List (Op H E)} {q q' q'' : H → Option (List E)} {op : Op H E} (h : Step q op q')
      (hs : Steps q' ops q'') : Steps q (op :: ops) q''

/-! ## The pointers spell the lists -/

/-- The pointers lead from cell `c` through the elements of a list to cell `z`, and back. -/
def Links.Seg (s : Links H E) : Cell H E → List E → Cell H E → Prop
  | c, [], z => c = z
  | c, e :: l, z => s.next c = some e ∧ s.prev (.entry e) = some c ∧ s.Seg (.entry e) l z

/-- The queue with head `h` spells `l`. -/
def Links.Spells (s : Links H E) (h : H) (l : List E) : Prop :=
  ∃ z, s.Seg (.head h) l z ∧ s.next z = none ∧ s.prev (.head h) = some z

/-- **The pointers spell the lists**, each element being in one queue at most, once. -/
structure Holds (s : Links H E) (q : H → Option (List E)) : Prop where
  spells : ∀ h l, q h = some l → s.Spells h l
  nodup : ∀ h l, q h = some l → l.Nodup
  apart : ∀ h l h' l', q h = some l → q h' = some l' → h ≠ h' → ∀ e ∈ l, e ∉ l'

variable {s s' : Links H E} {q q' : H → Option (List E)} {h : H} {e : E} {l a b : List E}
  {c y z : Cell H E}

/-- The `next` link that was set. -/
@[simp] lemma Links.next_setNext (c : Cell H E) (v : Option E) :
    (s.setNext c v).next = update s.next c v := rfl

/-- Setting a `next` link keeps the `prev` links. -/
@[simp] lemma Links.prev_setNext (c : Cell H E) (v : Option E) : (s.setNext c v).prev = s.prev :=
  rfl

/-- Setting a `prev` link keeps the `next` links. -/
@[simp] lemma Links.next_setPrev (c : Cell H E) (v : Option (Cell H E)) :
    (s.setPrev c v).next = s.next := rfl

/-- The `prev` link that was set. -/
@[simp] lemma Links.prev_setPrev (c : Cell H E) (v : Option (Cell H E)) :
    (s.setPrev c v).prev = update s.prev c v := rfl

omit [DecidableEq H] [DecidableEq E] in
/-- A segment of two lists is one of each, from cell to cell. -/
lemma Links.seg_append : s.Seg c (a ++ b) z ↔ ∃ y, s.Seg c a y ∧ s.Seg y b z := by
  induction a generalizing c with
  | nil => simp [Links.Seg]
  | cons e a ih =>
    simp only [List.cons_append, Links.Seg, ih]
    constructor
    · rintro ⟨hn, hp, y, ha, hb⟩
      exact ⟨y, ⟨hn, hp, ha⟩, hb⟩
    · rintro ⟨y, ⟨hn, hp, ha⟩, hb⟩
      exact ⟨hn, hp, y, ha, hb⟩

omit [DecidableEq H] [DecidableEq E] in
/-- The cell at the end of a path is on it. -/
lemma Links.Seg.mem (hs : s.Seg c l z) : z ∈ c :: l.map .entry := by
  induction l generalizing c with
  | nil => simp [show c = z from hs]
  | cons e l ih => exact List.mem_cons_of_mem c (ih hs.2.2)

omit [DecidableEq H] [DecidableEq E] in
/-- A path whose fields have not changed; the forward pointer of its last cell does not belong to
it. -/
lemma Links.Seg.congr (hs : s.Seg c l z) (hd : (c :: l.map Cell.entry).Nodup)
    (hn : ∀ x ∈ c :: l.map Cell.entry, x ≠ z → s'.next x = s.next x)
    (hp : ∀ x ∈ l, s'.prev (.entry x) = s.prev (.entry x)) : s'.Seg c l z := by
  induction l generalizing c with
  | nil => exact hs
  | cons e l ih =>
    obtain ⟨hnext, hprev, hrest⟩ := hs
    have hcz : c ≠ z := by
      rintro rfl
      exact (List.nodup_cons.mp hd).1 hrest.mem
    refine ⟨(hn c (by simp) hcz).trans hnext, (hp e (by simp)).trans hprev, ?_⟩
    refine ih hrest (List.nodup_cons.mp hd).2 (fun x hx => hn x (List.mem_cons_of_mem c hx)) ?_
    exact fun x hx => hp x (List.mem_cons_of_mem e hx)

omit [DecidableEq H] [DecidableEq E] in
/-- The cells of a queue are distinct. -/
lemma nodup_cells (h : H) (hl : l.Nodup) : (Cell.head h :: l.map (Cell.entry (H := H))).Nodup := by
  refine List.nodup_cons.mpr ⟨by simp, hl.map ?_⟩
  intro x x' hx
  exact Cell.entry.inj hx

omit [DecidableEq H] [DecidableEq E] in
/-- A queue whose fields have not changed. -/
lemma Links.Spells.congr (hs : s.Spells h l) (hl : l.Nodup)
    (hc : ∀ x ∈ Cell.head h :: l.map Cell.entry, s'.next x = s.next x ∧ s'.prev x = s.prev x) :
    s'.Spells h l := by
  obtain ⟨z, hseg, hnext, hprev⟩ := hs
  refine ⟨z, hseg.congr (nodup_cells h hl) (fun x hx _ => (hc x hx).1) (fun x hx => ?_), ?_, ?_⟩
  · exact (hc (.entry x) (by simp [hx])).2
  · exact (hc z hseg.mem).1.trans hnext
  · exact (hc (.head h) (by simp)).2.trans hprev

/-! ## One call -/

/-- `TAILQ_INIT` leaves an empty queue. -/
lemma spells_init (h : H) (s : Links H E) : (init h s).Spells h [] :=
  ⟨.head h, rfl, by simp [init], by simp [init]⟩

/-- `TAILQ_INSERT_TAIL` appends. -/
lemma Links.Spells.insertTail (hs : s.Spells h l) (hl : l.Nodup) (he : e ∉ l) :
    ∃ s', insertTail h e s = some s' ∧ s'.Spells h (l ++ [e]) ∧
      ∀ x, x ≠ .head h → x ≠ .entry e → x ∉ l.map Cell.entry →
        s'.next x = s.next x ∧ s'.prev x = s.prev x := by
  obtain ⟨z, hseg, hnext, hprev⟩ := hs
  have hz := hseg.mem
  have hze : z ≠ .entry e := by
    rintro rfl
    simp [he] at hz
  have hlast : (update s.prev (.entry e) (s.prev (.head h))) (.head h) = some z := by
    rw [Function.update_of_ne (by simp), hprev]
  refine ⟨_, by simp only [Tailq.insertTail, hlast, Links.prev_setPrev, Links.prev_setNext]; rfl,
    ?_, ?_⟩
  · refine ⟨.entry e, Links.seg_append.mpr ⟨z, hseg.congr (nodup_cells h hl) ?_ ?_, ?_, ?_, rfl⟩,
      ?_, ?_⟩
    · intro x hx hxz
      have hxe : x ≠ .entry e := by
        rintro rfl
        simp [he] at hx
      simp [hxz, hxe]
    · intro x hx
      have hxe : x ≠ e := by
        rintro rfl
        exact he hx
      simp [hxe]
    · simp
    · simp [hprev]
    · simp [hze.symm]
    · simp
  · intro x hxh hxe hxl
    have hxz : x ≠ z := by
      rintro rfl
      exact (List.mem_cons.mp hz).elim hxh hxl
    simp [hxh, hxe, hxz]

/-- `TAILQ_INSERT_HEAD` puts in front. -/
lemma Links.Spells.insertHead (hs : s.Spells h l) (hl : l.Nodup) (he : e ∉ l) :
    ∃ s', insertHead h e s = some s' ∧ s'.Spells h (e :: l) ∧
      ∀ x, x ≠ .head h → x ≠ .entry e → x ∉ l.map Cell.entry →
        s'.next x = s.next x ∧ s'.prev x = s.prev x := by
  obtain ⟨z, hseg, hnext, hprev⟩ := hs
  cases l with
  | nil =>
    obtain rfl : Cell.head h = z := hseg
    refine ⟨_, by simp [Tailq.insertHead, hnext]; rfl,
      ⟨.entry e, ⟨by simp, by simp, rfl⟩, ?_, ?_⟩, ?_⟩
    · simp
    · simp
    · intro x hxh hxe _
      simp [hxh, hxe]
  | cons f l =>
    obtain ⟨hfirst, hback, hrest⟩ := hseg
    have hfe : f ≠ e := fun h => he (by simp [h])
    have hel : e ∉ l := fun h => he (by simp [h])
    obtain ⟨hfl, hl'⟩ := List.nodup_cons.mp hl
    have hcells : (Cell.entry f :: l.map (Cell.entry (H := H))).Nodup := by
      simpa using (nodup_cells h hl).of_cons
    refine ⟨_, by simp [Tailq.insertHead, hfirst]; rfl,
      ⟨z, ⟨by simp, by simp, ?_, ?_, ?_⟩, ?_, ?_⟩, ?_⟩
    · simp
    · simp [hfe]
    · refine hrest.congr hcells (fun x hx _ => ?_) fun x hx => ?_
      · have hxh : x ≠ .head h := by
          rintro rfl
          simp at hx
        have hxe : x ≠ .entry e := by
          rintro rfl
          simp [hfe.symm, hel] at hx
        simp [hxh, hxe]
      · have hxe : x ≠ e := fun h => hel (h ▸ hx)
        have hxf : x ≠ f := fun h => hfl (h ▸ hx)
        simp [hxe, hxf]
    · have hzh : z ≠ .head h := by
        rintro rfl
        simpa using hrest.mem
      have hze : z ≠ .entry e := by
        rintro rfl
        have := hrest.mem
        simp [hfe.symm, hel] at this
      simp [hzh, hze, hnext]
    · simpa using hprev
    · intro x hxh hxe hxl
      have hxf : x ≠ .entry f := by
        rintro rfl
        simp at hxl
      simp [hxh, hxe, hxf]

/-- `TAILQ_REMOVE` takes the element out. -/
lemma Links.Spells.remove (hs : s.Spells h (a ++ e :: b)) (hl : (a ++ e :: b).Nodup) :
    ∃ s', remove h e s = some s' ∧ s'.Spells h (a ++ b) ∧
      ∀ x, x ≠ .head h → x ∉ (a ++ e :: b).map Cell.entry → s'.next x = s.next x ∧
      s'.prev x = s.prev x := by
  obtain ⟨z, hseg, hnext, hprev⟩ := hs
  obtain ⟨y, hseg₁, hfwd, hback, hseg₂⟩ := Links.seg_append.mp hseg
  obtain ⟨ha, hb, hdisj⟩ := List.nodup_append.mp hl
  obtain ⟨heb, hb'⟩ := List.nodup_cons.mp hb
  have hea : e ∉ a := fun h => hdisj e h e (by simp) rfl
  have hye : y ≠ .entry e := by
    rintro rfl
    simpa [hea] using hseg₁.mem
  have hya : ∀ x : Cell H E, x ≠ .head h → x ∉ a.map Cell.entry → x ≠ y := by
    rintro x hxh hxa rfl
    exact (List.mem_cons.mp hseg₁.mem).elim hxh hxa
  cases b with
  | nil =>
    obtain rfl : Cell.entry e = z := hseg₂
    refine ⟨_, by simp [Tailq.remove, hnext, hback]; rfl, ⟨y, ?_, ?_, ?_⟩, ?_⟩
    · rw [List.append_nil]
      refine hseg₁.congr (nodup_cells h ha) (fun x hx hxy => ?_) fun x hx => ?_
      · have hxe : x ≠ .entry e := by
          rintro rfl
          simp [hea] at hx
        simp [hxe, hxy]
      · have hxe : x ≠ e := fun h => hea (h ▸ hx)
        simp [hxe]
    · simp [hye]
    · simp
    · intro x hxh hxl
      have hxy := hya x hxh fun hmem =>
        hxl (by rw [List.map_append]; exact List.mem_append_left _ hmem)
      have hxe : x ≠ .entry e := by
        rintro rfl
        simp at hxl
      simp [hxh, hxe, hxy]
  | cons f b =>
    obtain ⟨hfwd₂, hback₂, hseg₃⟩ := hseg₂
    have hfe : f ≠ e := fun h => heb (by simp [h])
    have hfa : f ∉ a := fun h => hdisj f h f (by simp) rfl
    obtain ⟨hfb, hbb⟩ := List.nodup_cons.mp hb'
    have hyb : y ∉ (f :: b).map Cell.entry := by
      intro hmem
      obtain ⟨x, hx, rfl⟩ := List.mem_map.mp hmem
      have hxa : x ∈ a := by simpa using hseg₁.mem
      exact hdisj x hxa x (by simp [hx]) rfl
    have hcells : (Cell.entry f :: b.map (Cell.entry (H := H))).Nodup := by
      simpa using (nodup_cells h hb').of_cons
    have hcell : (Cell.entry e : Cell H E) ≠ .entry f := fun h => hfe (Cell.entry.inj h).symm
    refine ⟨_, by simp [Tailq.remove, hfwd₂, hback, Function.update_of_ne hcell]; rfl,
      ⟨z, ?_, ?_, ?_⟩, ?_⟩
    · refine Links.seg_append.mpr
        ⟨y, hseg₁.congr (nodup_cells h ha) (fun x hx hxy => ?_) fun x hx => ?_,
        ?_, ?_, ?_⟩
      · have hxe : x ≠ .entry e := by
          rintro rfl
          simp [hea] at hx
        simp [hxe, hxy]
      · have hxe : x ≠ e := fun h => hea (h ▸ hx)
        have hxf : x ≠ f := fun h => hfa (h ▸ hx)
        simp [hxe, hxf]
      · simp [hye]
      · simp [hfe]
      · refine hseg₃.congr hcells (fun x hx _ => ?_) fun x hx => ?_
        · have hxe : x ≠ .entry e := by
            rintro rfl
            simp only [List.mem_cons, Cell.entry.injEq, List.mem_map, exists_eq_right] at hx
            exact heb (List.mem_cons.mpr hx)
          have hxy : x ≠ y := by
            rintro rfl
            exact hyb (by simpa using hx)
          simp [hxe, hxy]
        · have hxe : x ≠ e := fun h => heb (by simp [← h, hx])
          have hxf : x ≠ f := fun h => hfb (h ▸ hx)
          simp [hxe, hxf]
    · have hz : z ∈ (f :: b).map Cell.entry := by simpa using hseg₃.mem
      have hze : z ≠ .entry e := by
        rintro rfl
        simp only [List.mem_map, Cell.entry.injEq, exists_eq_right] at hz
        exact heb hz
      have hzy : z ≠ y := by
        rintro rfl
        exact hyb hz
      simp [hze, hzy, hnext]
    · simp [hprev]
    · intro x hxh hxl
      have hxy := hya x hxh fun hmem =>
        hxl (by rw [List.map_append]; exact List.mem_append_left _ hmem)
      have hxe : x ≠ .entry e := by
        rintro rfl
        simp at hxl
      have hxf : x ≠ .entry f := by
        rintro rfl
        simp at hxl
      simp [hxe, hxy, hxf]

/-! ## The reads and the loops -/

section Reads

variable (hs : s.Spells h (a ++ e :: b))

include hs

omit [DecidableEq H] [DecidableEq E] in
/-- `TAILQ_NEXT` is the head of what comes behind the element. -/
lemma Links.Spells.next_eq : Tailq.next e s = b.head? := by
  obtain ⟨z, hseg, hnext, -⟩ := hs
  obtain ⟨y, -, -, -, hseg₂⟩ := Links.seg_append.mp hseg
  cases b with
  | nil =>
    obtain rfl : Cell.entry e = z := hseg₂
    exact hnext
  | cons f b => exact hseg₂.1

omit [DecidableEq H] [DecidableEq E] in
/-- `TAILQ_PREV` of the first element goes through the head to the last cell, which leads
nowhere. -/
lemma Links.Spells.prev_eq : Tailq.prev e s = some a.getLast? := by
  obtain ⟨z, hseg, hnext, hprev⟩ := hs
  obtain ⟨y, hseg₁, -, hback, -⟩ := Links.seg_append.mp hseg
  rcases List.eq_nil_or_concat a with rfl | ⟨a, f, rfl⟩
  · obtain rfl : Cell.head h = y := hseg₁
    simp [Tailq.prev, hback, hprev, hnext]
  · rw [List.concat_eq_append] at hseg₁
    obtain ⟨x, -, hfwd, hback₂, hy⟩ := Links.seg_append.mp hseg₁
    obtain rfl : Cell.entry f = y := hy
    simp [Tailq.prev, hback, hback₂, hfwd]

end Reads

omit [DecidableEq H] [DecidableEq E] in
/-- `TAILQ_FIRST` is the head of the list. -/
lemma Links.Spells.first_eq (hs : s.Spells h l) : first h s = l.head? := by
  obtain ⟨z, hseg, hnext, -⟩ := hs
  cases l with
  | nil =>
    obtain rfl : Cell.head h = z := hseg
    exact hnext
  | cons e l => exact hseg.1

omit [DecidableEq H] [DecidableEq E] in
/-- The walk forward takes the elements with the property, given enough fuel. -/
lemma Links.Spells.walkNext_eq {p : E → Bool} {fuel : ℕ} (hs : s.Spells h (a ++ e :: b))
    (hf : b.length < fuel) : walkNext p s fuel e = some (b.takeWhile p) := by
  induction b generalizing a e fuel with
  | nil =>
    obtain ⟨fuel, rfl⟩ := Nat.exists_eq_add_of_lt hf
    simp [walkNext, hs.next_eq]
  | cons x b ih =>
    obtain ⟨fuel, rfl⟩ := Nat.exists_eq_add_of_lt hf
    have hrest : walkNext p s (b.length + 1 + fuel) x = some (b.takeWhile p) :=
      ih (a := a ++ [e]) (by simpa using hs) (by omega)
    rw [List.length_cons, walkNext, hs.next_eq, List.takeWhile_cons]
    by_cases hp : p x = true
    · simp [hp, hrest]
    · simp [hp]

omit [DecidableEq H] [DecidableEq E] in
/-- The walk backward takes the elements with the property, given enough fuel. -/
lemma Links.Spells.walkPrev_eq {p : E → Bool} {fuel : ℕ} (hs : s.Spells h (a ++ e :: b))
    (hf : a.length < fuel) : walkPrev p s fuel e = some (a.reverse.takeWhile p) := by
  induction a using List.reverseRecOn generalizing e b fuel with
  | nil =>
    obtain ⟨fuel, rfl⟩ := Nat.exists_eq_add_of_lt hf
    simp [walkPrev, hs.prev_eq]
  | append_singleton a x ih =>
    obtain ⟨fuel, rfl⟩ := Nat.exists_eq_add_of_lt hf
    have hrest : walkPrev p s (a.length + 1 + fuel) x = some (a.reverse.takeWhile p) :=
      ih (b := e :: b) (by simpa using hs) (by omega)
    rw [walkPrev, hs.prev_eq, List.reverse_append, List.reverse_singleton, List.singleton_append,
      List.takeWhile_cons]
    by_cases hp : p x = true
    · simp [hp, hrest]
    · simp [hp]

/-! ## Runs -/

omit [DecidableEq H] [DecidableEq E] in
/-- The cells of one queue are not cells of another. -/
lemma Holds.away {h₀ : H} {l₀ : List E} {x : Cell H E} (hs : Holds s q) (hl : q h = some l)
    (hl₀ : q h₀ = some l₀) (hne : h₀ ≠ h) (hx : x ∈ Cell.head h₀ :: l₀.map Cell.entry) :
    x ≠ .head h ∧ x ∉ l.map Cell.entry := by
  constructor
  · rintro rfl
    simp [Ne.symm hne] at hx
  · intro hmem
    obtain ⟨y, hy, rfl⟩ := List.mem_map.mp hmem
    exact hs.apart h l h₀ l₀ hl hl₀ (Ne.symm hne) y hy (by simpa using hx)

omit [DecidableEq E] in
/-- One queue has changed. -/
lemma Holds.change (hs : Holds s q) (hl : l.Nodup) (hspells : s'.Spells h l)
    (hmem : ∀ e ∈ l, Out q e ∨ ∃ l₀, q h = some l₀ ∧ e ∈ l₀)
    (hsame : ∀ h₀ l₀, q h₀ = some l₀ → h₀ ≠ h →
      ∀ x ∈ Cell.head h₀ :: l₀.map Cell.entry, s'.next x = s.next x ∧ s'.prev x = s.prev x) :
    Holds s' (update q h (some l)) := by
  have hapart : ∀ h₀ l₀, q h₀ = some l₀ → h₀ ≠ h → ∀ e ∈ l, e ∉ l₀ := by
    intro h₀ l₀ hl₀ hne e he
    rcases hmem e he with hout | ⟨l₁, hl₁, he₁⟩
    · exact hout h₀ l₀ hl₀
    · exact hs.apart h l₁ h₀ l₀ hl₁ hl₀ (Ne.symm hne) e he₁
  refine ⟨fun h₀ l₀ hl₀ => ?_, fun h₀ l₀ hl₀ => ?_, fun h₁ l₁ h₂ l₂ hl₁ hl₂ hne e he₁ he₂ => ?_⟩
  · by_cases hh : h₀ = h
    · subst hh
      obtain rfl : l = l₀ := by simpa using hl₀
      exact hspells
    · rw [Function.update_of_ne hh] at hl₀
      exact (hs.spells h₀ l₀ hl₀).congr (hs.nodup h₀ l₀ hl₀) (hsame h₀ l₀ hl₀ hh)
  · by_cases hh : h₀ = h
    · subst hh
      obtain rfl : l = l₀ := by simpa using hl₀
      exact hl
    · rw [Function.update_of_ne hh] at hl₀
      exact hs.nodup h₀ l₀ hl₀
  · by_cases hh₁ : h₁ = h
    · subst hh₁
      obtain rfl : l = l₁ := by simpa using hl₁
      rw [Function.update_of_ne (Ne.symm hne)] at hl₂
      exact hapart h₂ l₂ hl₂ (Ne.symm hne) e he₁ he₂
    · rw [Function.update_of_ne hh₁] at hl₁
      by_cases hh₂ : h₂ = h
      · subst hh₂
        obtain rfl : l = l₂ := by simpa using hl₂
        exact hapart h₁ l₁ hl₁ hh₁ e he₂ he₁
      · rw [Function.update_of_ne hh₂] at hl₂
        exact hs.apart h₁ l₁ h₂ l₂ hl₁ hl₂ hne e he₁ he₂

/-- **One call**: no null pointer is followed, and the pointers spell the new lists.

**Proof sketch.** One case for each macro, by the lemma about it on the queue that it changes; the
other queues have other cells. -/
theorem Holds.step {op : Op H E} (hs : Holds s q) (hstep : Step q op q') :
    ∃ s', op.run s = some s' ∧ Holds s' q' := by
  cases hstep with
  | init h =>
    refine ⟨_, rfl, hs.change List.nodup_nil (spells_init h s) (by simp)
      fun h₀ l₀ hl₀ hne x hx => ?_⟩
    have hxh : x ≠ .head h := by
      rintro rfl
      simp [Ne.symm hne] at hx
    simp [init, hxh]
  | insertTail h e l hl he =>
    obtain ⟨s', hrun, hspells, hsame⟩ := (hs.spells h l hl).insertTail (hs.nodup h l hl) (he h l hl)
    refine ⟨s', hrun, hs.change ?_ hspells (fun x hx => ?_) fun h₀ l₀ hl₀ hne x hx => ?_⟩
    · exact (hs.nodup h l hl).append (List.nodup_singleton e) (by simpa using he h l hl)
    · rcases List.mem_append.mp hx with hx | hx
      · exact .inr ⟨l, hl, hx⟩
      · exact .inl (List.mem_singleton.mp hx ▸ he)
    · obtain ⟨hxh, hxl⟩ := hs.away hl hl₀ hne hx
      refine hsame x hxh ?_ hxl
      rintro rfl
      simp [he h₀ l₀ hl₀] at hx
  | insertHead h e l hl he =>
    obtain ⟨s', hrun, hspells, hsame⟩ := (hs.spells h l hl).insertHead (hs.nodup h l hl) (he h l hl)
    refine ⟨s', hrun, hs.change ?_ hspells (fun x hx => ?_) fun h₀ l₀ hl₀ hne x hx => ?_⟩
    · exact List.nodup_cons.mpr ⟨he h l hl, hs.nodup h l hl⟩
    · rcases List.mem_cons.mp hx with rfl | hx
      · exact .inl he
      · exact .inr ⟨l, hl, hx⟩
    · obtain ⟨hxh, hxl⟩ := hs.away hl hl₀ hne hx
      refine hsame x hxh ?_ hxl
      rintro rfl
      simp [he h₀ l₀ hl₀] at hx
  | remove h e l hl he =>
    have hnodup := hs.nodup h l hl
    obtain ⟨a, b, rfl, hea⟩ := List.eq_append_cons_of_mem he
    obtain ⟨s', hrun, hspells, hsame⟩ := (hs.spells h _ hl).remove hnodup
    have herase : (a ++ e :: b).erase e = a ++ b := by
      rw [List.erase_append_right _ hea, List.erase_cons_head]
    rw [herase]
    refine ⟨s', hrun, hs.change ?_ hspells (fun x hx => ?_) fun h₀ l₀ hl₀ hne x hx => ?_⟩
    · exact hnodup.sublist (by simp)
    · refine .inr ⟨_, hl, ?_⟩
      rcases List.mem_append.mp hx with hx | hx
      · exact List.mem_append_left _ hx
      · exact List.mem_append_right _ (List.mem_cons_of_mem e hx)
    · obtain ⟨hxh, hxl⟩ := hs.away hl hl₀ hne hx
      exact hsame x hxh hxl

/-- **Sequences of calls.** -/
theorem Holds.run {ops : List (Op H E)} (hs : Holds s q) (hsteps : Steps q ops q') :
    ∃ s', ops.foldlM Op.run s = some s' ∧ Holds s' q' := by
  induction hsteps generalizing s with
  | nil q => exact ⟨s, rfl, hs⟩
  | cons hstep _ ih =>
    obtain ⟨s₁, hop, hs₁⟩ := hs.step hstep
    obtain ⟨s₂, hrun, hs₂⟩ := ih hs₁
    exact ⟨s₂, by simp [hop, hrun], hs₂⟩

/-- The loop that takes the elements out one by one visits them all, in order, and leaves an empty
queue. -/
lemma Holds.drain {fuel : ℕ} (hs : Holds s q) (hl : q h = some l) (hf : l.length ≤ fuel) :
    ∃ s', Tailq.drain h fuel l.head? s = some (l, s') ∧ Holds s' (update q h (some [])) := by
  induction l generalizing s q fuel with
  | nil => exact ⟨s, by cases fuel <;> rfl, by rwa [← hl, Function.update_eq_self]⟩
  | cons e l ih =>
    obtain ⟨fuel, rfl⟩ : ∃ k, fuel = k + 1 := ⟨fuel - 1, by simp at hf; omega⟩
    have hnext : next e s = l.head? := Links.Spells.next_eq (a := []) (hs.spells h _ hl)
    obtain ⟨s₁, hrun, hs₁⟩ := hs.step (.remove h e _ hl List.mem_cons_self)
    rw [List.erase_cons_head] at hs₁
    obtain ⟨s₂, hdrain, hs₂⟩ := ih (q := update q h (some l)) hs₁ (by simp) (by simpa using hf)
    rw [Function.update_idem] at hs₂
    have hremove : Tailq.remove h e s = some s₁ := hrun
    exact ⟨s₂, by simp [Tailq.drain, hnext, hremove, hdrain], hs₂⟩

end Tailq

/-! ## The queues of the proxy -/

namespace Tailq

open Function (update)

variable {H : Type} [DecidableEq H]

/-- What the source reads from a queue of messages is what the list says. -/
structure Reads (s : Links H MsgId) (h : H) (l : List MsgId) : Prop where
  first : first h s = l.head?
  empty : empty h s = l.isEmpty
  next : ∀ m ∈ l, next m s = tailqNext m l
  before : ∀ m ∈ l, ∀ (p : MsgId → Bool) (fuel : ℕ), l.length ≤ fuel →
    walkPrev p s fuel m = some ((tailqBefore m l).takeWhile p)
  after : ∀ m ∈ l, ∀ (p : MsgId → Bool) (fuel : ℕ), l.length ≤ fuel →
    walkNext p s fuel m = some ((tailqAfter m l).takeWhile p)
  drain : ∀ fuel, l.length ≤ fuel → ∃ s', drain h fuel l.head? s = some (l, s')

/-- A queue that is held reads as its list. -/
lemma Holds.reads {s : Links H MsgId} {q : H → Option (List MsgId)} {h : H} {l : List MsgId}
    (hs : Holds s q) (hl : q h = some l) : Reads s h l where
  first := (hs.spells h l hl).first_eq
  empty := by
    have hfirst := (hs.spells h l hl).first_eq
    rw [Tailq.first] at hfirst
    cases l <;> simp [empty, hfirst]
  next := by
    intro m hm
    obtain ⟨a, b, rfl, hma⟩ := List.eq_append_cons_of_mem hm
    rw [(hs.spells h _ hl).next_eq, tailqNext_append b hma]
  before := by
    intro m hm p fuel hf
    obtain ⟨a, b, rfl, hma⟩ := List.eq_append_cons_of_mem hm
    rw [(tailq_split hma).1]
    exact (hs.spells h _ hl).walkPrev_eq (by simp at hf; omega)
  after := by
    intro m hm p fuel hf
    obtain ⟨a, b, rfl, hma⟩ := List.eq_append_cons_of_mem hm
    rw [(tailq_split hma).2]
    exact (hs.spells h _ hl).walkNext_eq (by simp at hf; omega)
  drain := by
    intro fuel hf
    obtain ⟨s', hdrain, -⟩ := hs.drain hl hf
    exact ⟨s', hdrain⟩

/-- **Whatever calls have been made, the pointers are the lists.**  From pointers that nothing is
known about, any allowed sequence of calls follows no null pointer, and behind it every queue that
has been initialised reads as its list. -/
theorem steps_refine {ops : List (Op H MsgId)} {q : H → Option (List MsgId)} (s : Links H MsgId)
    (hs : Steps (fun _ => none) ops q) :
    ∃ s', ops.foldlM Op.run s = some s' ∧ ∀ h l, q h = some l → Reads s' h l := by
  have hnone : Holds s fun _ => none := ⟨by simp, by simp, by simp⟩
  obtain ⟨s', hrun, hs'⟩ := hnone.run hs
  exact ⟨s', hrun, fun h l hl => hs'.reads hl⟩

/-- Two requests are put into queue 0, and the first one goes on to queue 1. -/
def passOn : List (Op ℕ MsgId) :=
  [.init 0, .init 1, .insertTail 0 5, .insertTail 0 7, .remove 0 5, .insertTail 1 5]

/-- The lists behind these calls. -/
def passedOn : ℕ → Option (List MsgId) :=
  update (update (update (update (update (update (fun _ => none) 0 (some [])) 1 (some [])) 0
    (some [5])) 0 (some [5, 7])) 0 (some [7])) 1 (some [5])

/-- The operations are lawful on lists. -/
lemma passOn_steps : Steps (fun _ => none) passOn passedOn := by
  refine .cons (.init 0) (.cons (.init 1) (.cons (.insertTail 0 5 [] rfl ?_) (.cons
    (.insertTail 0 7 [5] rfl ?_) (.cons (.remove 0 5 [5, 7] rfl (by simp)) (.cons
    (.insertTail 1 5 [] rfl ?_) (.nil _))))))
  all_goals
    intro h l hl
    simp only [Function.update_apply] at hl
    split_ifs at hl <;> cases hl <;> decide

/-- The request is handed over to the other queue. -/
theorem passOn_refine :
    ∃ s', passOn.foldlM Op.run (⟨fun _ => none, fun _ => none⟩ : Links ℕ MsgId) = some s' ∧
    Reads s' 0 [7] ∧ Reads s' 1 [5] := by
  obtain ⟨s', hrun, hreads⟩ := steps_refine ⟨fun _ => none, fun _ => none⟩ passOn_steps
  exact ⟨s', hrun, hreads 0 [7] rfl, hreads 1 [5] rfl⟩

end Tailq

end GfwProxy
