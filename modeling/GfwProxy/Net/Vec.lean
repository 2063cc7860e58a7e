import Mathlib.Data.List.Count
import Mathlib.Data.List.Pairwise
import GfwProxy.Net.Facts

set_option autoImplicit false

/-!
# Fragment vectors in the queue of a client

The order of the requests in the queue of a client, and the accounting of their fragments, one
lemma an operation.

## Main definitions

* `GfwProxy.Vec` — the invariant of one queue.

## Main results

* `GfwProxy.Vec.mem_run` — the fragments of a vector are next to each other.
* `GfwProxy.Vec.settle`, `GfwProxy.Vec.erase`, `GfwProxy.Vec.mark` — the operations keep the
  invariant.
-/

namespace GfwProxy

open Function

/-- Is `y` a fragment of `o`? -/
def MsgCols.FragOf (m : MsgCols) (o y : MsgId) : Bool := m.fragOwner y = some o

/-- Is `y` a fragment of `o` that is not done? -/
def MsgCols.Undone (m : MsgCols) (o y : MsgId) : Bool := !m.done y && m.FragOf o y

/-- The requests of the queue `q` are in the order in which they were received, the fragments of
a vector belong together, and the owner of a vector counts those that are done.  The list `pend`
holds the fragments that are still to be forwarded, and `lost` tells whether a fragment has failed
without being counted. -/
structure Vec (m : MsgCols) (q pend : List MsgId) (nReq lim : ℕ) (lost : Prop) : Prop where
  sorted : q.Pairwise fun x y => m.reqNo x ≤ m.reqNo y
  lt : ∀ x ∈ q, m.reqNo x < nReq
  same : ∀ x ∈ q, ∀ y ∈ q, m.reqNo x = m.reqNo y →
    m.fragId x = m.fragId y ∧ (m.fragId x = 0 → x = y)
  vec : ∀ x ∈ q, ∀ y ∈ q, m.fragId x = m.fragId y → m.fragId x ≠ 0 →
    m.reqNo x = m.reqNo y ∧ m.fragOwner x = m.fragOwner y
  le : ∀ x ∈ q, m.fragId x ≤ lim
  plain : ∀ x ∈ q, m.fragOwner x = none ↔ m.fragId x = 0
  first : q.Pairwise fun x y => m.fragOwner x = some y → m.fragId x ≠ m.fragId y
  marked : ∀ x ∈ q, m.fdone x = true → m.fragId x ≠ 0 →
    ∀ y ∈ q, m.fragId y = m.fragId x → m.done y = true
  owner : ∀ y ∈ q, m.done y = false → ∀ o, m.fragOwner y = some o →
    o ∈ q ∧ m.fragOwner o = some o ∧ m.fragId o = m.fragId y
  head_done : ∀ o ∈ q, m.fragOwner o = some o → m.done o = true
  count : ∀ o ∈ q, m.fragOwner o = some o →
    m.nfragDone o + q.countP (m.Undone o) + pend.countP (m.FragOf o) ≤ m.nfrag o
  exact : ¬lost → ∀ o ∈ q, m.fragOwner o = some o →
    m.nfragDone o + q.countP (m.Undone o) + pend.countP (m.FragOf o) = m.nfrag o

/-- The fields of a message that the accounting speaks about. -/
structure MsgCols.SameVec (m m' : MsgCols) (x : MsgId) : Prop where
  reqNo : m'.reqNo x = m.reqNo x
  fragId : m'.fragId x = m.fragId x
  fragOwner : m'.fragOwner x = m.fragOwner x
  nfrag : m'.nfrag x = m.nfrag x
  nfragDone : m'.nfragDone x = m.nfragDone x
  done : m'.done x = m.done x
  fdone : m'.fdone x = m.fdone x

/-- The fields of a message that the order of a queue depends on. -/
structure MsgCols.SameOrder (m m' : MsgCols) (x : MsgId) : Prop where
  reqNo : m'.reqNo x = m.reqNo x
  fragId : m'.fragId x = m.fragId x
  fragOwner : m'.fragOwner x = m.fragOwner x
  fdone : m'.fdone x = m.fdone x

/-- The same vector is in the same order. -/
lemma MsgCols.SameVec.order {m m' : MsgCols} {x : MsgId} (h : m.SameVec m' x) :
    m.SameOrder m' x :=
  ⟨h.reqNo, h.fragId, h.fragOwner, h.fdone⟩

variable {m m' : MsgCols} {q pend : List MsgId} {nReq lim : ℕ} {lost : Prop}

/-- An empty queue. -/
lemma Vec.nil : Vec m [] pend nReq lim lost := by
  constructor <;> simp

section Keep

variable (hv : Vec m q pend nReq lim lost)

include hv

/-- Nothing changes for the messages of the queue. -/
lemma Vec.congr {lim' : ℕ} {lost' : Prop} (hq : ∀ x ∈ q, m.SameVec m' x)
    (hp : ∀ y ∈ pend, m'.fragOwner y = m.fragOwner y) (hlim : lim ≤ lim') (hlost : lost → lost') :
    Vec m' q pend nReq lim' lost' := by
  have hcount : ∀ o, q.countP (m'.Undone o) = q.countP (m.Undone o) := by
    intro o
    refine List.countP_congr fun x hx => ?_
    simp [MsgCols.Undone, MsgCols.FragOf, (hq x hx).done, (hq x hx).fragOwner]
  have hpend : ∀ o, pend.countP (m'.FragOf o) = pend.countP (m.FragOf o) := by
    intro o
    refine List.countP_congr fun y hy => ?_
    simp [MsgCols.FragOf, hp y hy]
  constructor
  case sorted =>
    refine hv.sorted.imp_of_mem fun hx hy h => ?_
    rwa [(hq _ hx).reqNo, (hq _ hy).reqNo]
  case lt =>
    intro x hx
    rw [(hq x hx).reqNo]
    exact hv.lt x hx
  case same =>
    intro x hx y hy
    rw [(hq x hx).reqNo, (hq y hy).reqNo, (hq x hx).fragId, (hq y hy).fragId]
    exact hv.same x hx y hy
  case vec =>
    intro x hx y hy
    rw [(hq x hx).reqNo, (hq y hy).reqNo, (hq x hx).fragId, (hq y hy).fragId,
      (hq x hx).fragOwner, (hq y hy).fragOwner]
    exact hv.vec x hx y hy
  case le =>
    intro x hx
    rw [(hq x hx).fragId]
    exact (hv.le x hx).trans hlim
  case plain =>
    intro x hx
    rw [(hq x hx).fragId, (hq x hx).fragOwner]
    exact hv.plain x hx
  case first =>
    refine hv.first.imp_of_mem fun hx hy h => ?_
    rwa [(hq _ hx).fragOwner, (hq _ hx).fragId, (hq _ hy).fragId]
  case marked =>
    intro x hx hf hne y hy he
    rw [(hq x hx).fdone] at hf
    rw [(hq x hx).fragId] at hne he
    rw [(hq y hy).fragId] at he
    rw [(hq y hy).done]
    exact hv.marked x hx hf hne y hy he
  case owner =>
    intro y hy hd o ho
    rw [(hq y hy).done] at hd
    rw [(hq y hy).fragOwner] at ho
    obtain ⟨hmem, hoo, hid⟩ := hv.owner y hy hd o ho
    rw [(hq o hmem).fragOwner, (hq o hmem).fragId, (hq y hy).fragId]
    exact ⟨hmem, hoo, hid⟩
  case head_done =>
    intro o ho hoo
    rw [(hq o ho).fragOwner] at hoo
    rw [(hq o ho).done]
    exact hv.head_done o ho hoo
  case count =>
    intro o ho hoo
    rw [(hq o ho).fragOwner] at hoo
    rw [hcount, hpend, (hq o ho).nfragDone, (hq o ho).nfrag]
    exact hv.count o ho hoo
  case exact =>
    intro hl o ho hoo
    rw [(hq o ho).fragOwner] at hoo
    rw [hcount, hpend, (hq o ho).nfragDone, (hq o ho).nfrag]
    exact hv.exact (fun h => hl (hlost h)) o ho hoo

/-- Other fragments are to be forwarded, none of them of a vector in this queue. -/
lemma Vec.set_pend {pend' : List MsgId}
    (h : ∀ o ∈ q, pend'.countP (m.FragOf o) = pend.countP (m.FragOf o)) :
    Vec m q pend' nReq lim lost :=
  { hv with
    count := fun o ho hoo => by rw [h o ho]; exact hv.count o ho hoo
    exact := fun hl o ho hoo => by rw [h o ho]; exact hv.exact hl o ho hoo }

/-- More requests have been received. -/
lemma Vec.received {nReq' : ℕ} (h : nReq ≤ nReq') : Vec m q pend nReq' lim lost :=
  { hv with lt := fun x hx => (hv.lt x hx).trans_le h }

end Keep

/-! ## Vectors are contiguous -/

/-- An element that no other one stands before without satisfying `p` is in the prefix that
satisfies `p`. -/
lemma mem_takeWhile_of_between {α : Type} {p : α → Bool} {l : List α} {y : α} (hy : y ∈ l)
    (hp : p y = true) (h : l.Pairwise fun x z => z = y → p x = true) : y ∈ l.takeWhile p := by
  obtain ⟨a, b, rfl⟩ := List.append_of_mem hy
  have ha : ∀ x ∈ a, p x = true := by
    intro x hx
    exact (List.pairwise_append.mp h).2.2 x hx y List.mem_cons_self rfl
  rw [List.takeWhile_append_of_pos ha, List.takeWhile_cons_of_pos hp]
  simp

section Run

variable (hv : Vec m q pend nReq lim lost)

include hv

/-- **Vectors are contiguous.**  The requests that carry the fragment id of `x` are next to it.

**Proof sketch.** The queue is sorted by request numbers, and the requests with one fragment id have
one number; so whatever is between two of them has that number too, and hence their id. -/
theorem Vec.mem_run {x y : MsgId} (hx : x ∈ q) (hn : q.Nodup) (hne : m.fragId x ≠ 0)
    (hy : y ∈ q) (he : m.fragId y = m.fragId x) :
    y = x ∨ y ∈ (tailqBefore x q).takeWhile (fun z => m.fragId z = m.fragId x) ∨
      y ∈ (tailqAfter x q).takeWhile (fun z => m.fragId z = m.fragId x) := by
  obtain ⟨a, b, rfl⟩ := List.append_of_mem hx
  have hxa : x ∉ a := by
    intro h
    exact (List.nodup_append.mp hn).2.2 x h x List.mem_cons_self rfl
  obtain ⟨hbefore, hafter⟩ := tailq_split (b := b) hxa
  have hreq : m.reqNo y = m.reqNo x := (hv.vec y hy x hx he (he ▸ hne)).1
  obtain ⟨hsa, hsb, hab⟩ := List.pairwise_append.mp hv.sorted
  obtain ⟨hxb, hsb⟩ := List.pairwise_cons.mp hsb
  -- a request between two of one vector has their number
  have hbetween : ∀ z ∈ a ++ x :: b, m.reqNo z = m.reqNo x → m.fragId z = m.fragId x :=
    fun z hz h => (hv.same z hz x hx h).1
  rw [hbefore, hafter]
  rcases List.mem_append.mp hy with hya | hyb
  · refine .inr (.inl (mem_takeWhile_of_between (List.mem_reverse.mpr hya) (by simpa using he) ?_))
    rw [List.pairwise_reverse]
    refine hsa.imp_of_mem fun {u v} hu hv h => ?_
    rintro rfl
    have hle := hab v hv x List.mem_cons_self
    exact decide_eq_true (hbetween v (by simp [hv]) (by omega))
  · rcases List.mem_cons.mp hyb with rfl | hyb
    · exact .inl rfl
    · refine .inr (.inr (mem_takeWhile_of_between hyb (by simpa using he) ?_))
      refine hsb.imp_of_mem fun {u v} hu hv h => ?_
      rintro rfl
      have hle := hxb u hu
      exact decide_eq_true (hbetween u (by simp [hu]) (by omega))

end Run

/-! ## Requests enter and leave the queue -/

/-- The number of fragments of a queue that are not done, once one of them is. -/
lemma countP_settle {q : List MsgId} {f g : MsgId → Bool} {x : MsgId} (hn : q.Nodup)
    (hx : x ∈ q) (hg : g x = false) (h : ∀ y ∈ q, y ≠ x → g y = f y) :
    q.countP f = q.countP g + if f x = true then 1 else 0 := by
  obtain ⟨a, b, rfl⟩ := List.append_of_mem hx
  have hxa : x ∉ a := fun h => (List.nodup_append.mp hn).2.2 x h x List.mem_cons_self rfl
  have hxb : x ∉ b := (List.nodup_cons.mp (List.nodup_append.mp hn).2.1).1
  have ha : a.countP f = a.countP g := by
    refine List.countP_congr fun y hy => ?_
    rw [h y (by simp [hy]) (fun he => hxa (he ▸ hy))]
  have hb : b.countP f = b.countP g := by
    refine List.countP_congr fun y hy => ?_
    rw [h y (by simp [hy]) (fun he => hxb (he ▸ hy))]
  rw [List.countP_append, List.countP_append, List.countP_cons, List.countP_cons, ha, hb, hg]
  split
  · simp
    omega
  · simp

section Keep

variable (hv : Vec m q pend nReq lim lost)

include hv

/-- A request that is not fragmented enters the queue. -/
lemma Vec.append {x : MsgId} (hn : ∀ y ∈ q, m.reqNo y < m.reqNo x)
    (hlt : m.reqNo x < nReq) (hf : m.fragOwner x = none) (hf' : m.fragId x = 0) :
    Vec m (q ++ [x]) pend nReq lim lost := by
  have hcount : ∀ o, (q ++ [x]).countP (m.Undone o) = q.countP (m.Undone o) := by
    intro o
    simp [List.countP_append, MsgCols.Undone, MsgCols.FragOf, hf]
  have hmem : ∀ {P : MsgId → Prop}, (∀ y ∈ q, P y) → P x → ∀ y ∈ q ++ [x], P y := by
    intro P hq hp y hy
    rcases List.mem_append.mp hy with hy | hy
    · exact hq y hy
    · rw [List.mem_singleton.mp hy]
      exact hp
  constructor
  case sorted =>
    refine List.pairwise_append.mpr ⟨hv.sorted, List.pairwise_singleton _ _, fun y hy z hz => ?_⟩
    rw [List.mem_singleton.mp hz]
    exact (hn y hy).le
  case lt => exact hmem hv.lt hlt
  case same =>
    refine hmem (fun y hy => hmem (hv.same y hy) fun h => ?_) (hmem (fun y hy h => ?_) fun _ => ?_)
    · exact absurd h (hn y hy).ne
    · exact absurd h (hn y hy).ne'
    · exact ⟨rfl, fun _ => rfl⟩
  case vec =>
    refine hmem (fun y hy => hmem (hv.vec y hy) fun h hne => ?_) (hmem (fun y hy h hne => ?_)
      fun _ hne => ?_)
    · exact absurd (h.trans hf') hne
    · exact absurd hf' hne
    · exact absurd hf' hne
  case le => exact hmem hv.le (by simp [hf'])
  case plain => exact hmem hv.plain (by simp [hf, hf'])
  case first =>
    refine List.pairwise_append.mpr
      ⟨hv.first, List.pairwise_singleton _ _, fun y hy z hz h he => ?_⟩
    rw [List.mem_singleton.mp hz, hf'] at he
    rw [(hv.plain y hy).mpr he] at h
    cases h
  case marked =>
    refine hmem (fun y hy hfd hne => hmem (hv.marked y hy hfd hne) fun he => ?_) fun _ hne => ?_
    · exact absurd (he.symm.trans hf') hne
    · exact absurd hf' hne
  case owner =>
    refine hmem (fun y hy hd o hyo => ?_) fun _ o hxo => ?_
    · obtain ⟨hoq, hoo, hid⟩ := hv.owner y hy hd o hyo
      exact ⟨List.mem_append_left _ hoq, hoo, hid⟩
    · rw [hf] at hxo
      cases hxo
  case head_done =>
    refine hmem hv.head_done fun h => ?_
    rw [hf] at h
    cases h
  case count =>
    refine hmem (fun o ho hoo => ?_) fun h => ?_
    · rw [hcount]
      exact hv.count o ho hoo
    · rw [hf] at h
      cases h
  case exact =>
    intro hl
    refine hmem (fun o ho hoo => ?_) fun h => ?_
    · rw [hcount]
      exact hv.exact hl o ho hoo
    · rw [hf] at h
      cases h

end Keep

/-- The owner `x` of a vector enters the queue, and its fragments `subs` are to be forwarded. -/
lemma Vec.append_owner (hv : Vec m q [] nReq lim lost) {x : MsgId} {subs : List MsgId}
    (hx : x ∉ q) (hn : ∀ y ∈ q, m.reqNo y < m.reqNo x) (hlt : m.reqNo x < nReq)
    (hf : m.fragOwner x = some x) (hf' : m.fragId x ≠ 0) (hle : m.fragId x ≤ lim)
    (hfresh : ∀ y ∈ q, m.fragId y ≠ m.fragId x) (hd : m.done x = true) (hfd : m.fdone x = false)
    (hzero : m.nfragDone x = 0) (hnfrag : m.nfrag x = subs.length)
    (hsubs : ∀ y ∈ subs, m.fragOwner y = some x) :
    Vec m (q ++ [x]) subs nReq lim lost := by
  have hcount : ∀ o, (q ++ [x]).countP (m.Undone o) = q.countP (m.Undone o) := by
    intro o
    simp [List.countP_append, MsgCols.Undone, hd]
  have hother : ∀ o ∈ q, subs.countP (m.FragOf o) = 0 := by
    intro o ho
    refine List.countP_eq_zero.mpr fun y hy h => ?_
    rw [MsgCols.FragOf, hsubs y hy] at h
    rw [Option.some.inj (of_decide_eq_true h)] at hx
    exact hx ho
  have hself : q.countP (m.Undone x) = 0 := by
    refine List.countP_eq_zero.mpr fun y hy h => ?_
    simp only [MsgCols.Undone, MsgCols.FragOf, Bool.and_eq_true, Bool.not_eq_true',
      decide_eq_true_eq] at h
    exact hx (hv.owner y hy h.1 x h.2).1
  have hall : subs.countP (m.FragOf x) = subs.length := by
    refine List.countP_eq_length.mpr fun y hy => ?_
    simp [MsgCols.FragOf, hsubs y hy]
  have hmem : ∀ {P : MsgId → Prop}, (∀ y ∈ q, P y) → P x → ∀ y ∈ q ++ [x], P y := by
    intro P hq hp y hy
    rcases List.mem_append.mp hy with hy | hy
    · exact hq y hy
    · rw [List.mem_singleton.mp hy]
      exact hp
  constructor
  case sorted =>
    refine List.pairwise_append.mpr ⟨hv.sorted, List.pairwise_singleton _ _, fun y hy z hz => ?_⟩
    rw [List.mem_singleton.mp hz]
    exact (hn y hy).le
  case lt => exact hmem hv.lt hlt
  case same =>
    refine hmem (fun y hy => hmem (hv.same y hy) fun h => ?_) (hmem (fun y hy h => ?_) fun _ => ?_)
    · exact absurd h (hn y hy).ne
    · exact absurd h (hn y hy).ne'
    · exact ⟨rfl, fun _ => rfl⟩
  case vec =>
    refine hmem (fun y hy => hmem (hv.vec y hy) fun h => ?_) (hmem (fun y hy h => ?_)
      fun _ _ => ⟨rfl, rfl⟩)
    · exact absurd h (hfresh y hy)
    · exact absurd h.symm (hfresh y hy)
  case le => exact hmem hv.le hle
  case plain => exact hmem hv.plain (by simp [hf, hf'])
  case first =>
    refine List.pairwise_append.mpr ⟨hv.first, List.pairwise_singleton _ _, fun y hy z hz _ => ?_⟩
    rw [List.mem_singleton.mp hz]
    exact hfresh y hy
  case marked =>
    refine hmem (fun y hy hfy hne => hmem (hv.marked y hy hfy hne) fun _ => hd) fun h => ?_
    rw [hfd] at h
    cases h
  case owner =>
    refine hmem (fun y hy hdy o hyo => ?_) fun h => ?_
    · obtain ⟨hoq, hoo, hid⟩ := hv.owner y hy hdy o hyo
      exact ⟨List.mem_append_left _ hoq, hoo, hid⟩
    · rw [hd] at h
      cases h
  case head_done => exact hmem hv.head_done fun _ => hd
  case count =>
    refine hmem (fun o ho hoo => ?_) fun _ => ?_
    · rw [hcount, hother o ho]
      exact hv.count o ho hoo
    · rw [hcount, hself, hall, hzero, hnfrag]
      omega
  case exact =>
    intro hl
    refine hmem (fun o ho hoo => ?_) fun _ => ?_
    · rw [hcount, hother o ho]
      exact hv.exact hl o ho hoo
    · rw [hcount, hself, hall, hzero, hnfrag]
      omega

/-- The next fragment `x` of the owner `o` enters the queue. -/
lemma Vec.append_sub {x o : MsgId} {rest : List MsgId} (hv : Vec m q (x :: rest) nReq lim lost)
    (hx : x ∉ q) (ho : o ∈ q) (hoo : m.fragOwner o = some o) (hf : m.fragOwner x = some o)
    (hid : m.fragId x = m.fragId o) (hne : m.fragId o ≠ 0) (hreq : m.reqNo x = m.reqNo o)
    (hlast : m.reqNo x + 1 = nReq) (hd : m.done x = false) (hfd : m.fdone x = false)
    (hmark : ∀ y ∈ q, m.fragId y = m.fragId x → m.fdone y = false) :
    Vec m (q ++ [x]) rest nReq lim lost := by
  have hxo : x ≠ o := fun he => hx (he ▸ ho)
  have hcount : ∀ o', (q ++ [x]).countP (m.Undone o') + rest.countP (m.FragOf o') =
      q.countP (m.Undone o') + (x :: rest).countP (m.FragOf o') := by
    intro o'
    rw [List.countP_append, List.countP_singleton, List.countP_cons]
    simp only [MsgCols.Undone, hd, Bool.not_false, Bool.true_and]
    omega
  have hle : ∀ y ∈ q, m.reqNo y ≤ m.reqNo x := by
    intro y hy
    have := hv.lt y hy
    omega
  have hmem : ∀ {P : MsgId → Prop}, (∀ y ∈ q, P y) → P x → ∀ y ∈ q ++ [x], P y := by
    intro P hq hp y hy
    rcases List.mem_append.mp hy with hy | hy
    · exact hq y hy
    · rw [List.mem_singleton.mp hy]
      exact hp
  constructor
  case sorted =>
    refine List.pairwise_append.mpr ⟨hv.sorted, List.pairwise_singleton _ _, fun y hy z hz => ?_⟩
    rw [List.mem_singleton.mp hz]
    exact hle y hy
  case lt => exact hmem hv.lt (by omega)
  case same =>
    refine hmem (fun y hy => hmem (hv.same y hy) fun h => ?_) (hmem (fun y hy h => ?_) fun _ => ?_)
    · have hyid := (hv.same y hy o ho (h.trans hreq)).1
      exact ⟨hyid.trans hid.symm, fun h0 => absurd (hyid.symm.trans h0) hne⟩
    · have hyid := (hv.same y hy o ho (h.symm.trans hreq)).1
      exact ⟨hid.trans hyid.symm, fun h0 => absurd (hid.symm.trans h0) hne⟩
    · exact ⟨rfl, fun _ => rfl⟩
  case vec =>
    refine hmem (fun y hy => hmem (hv.vec y hy) fun h hny => ?_) (hmem (fun y hy h _ => ?_)
      fun _ _ => ⟨rfl, rfl⟩)
    · obtain ⟨hr, hown⟩ := hv.vec y hy o ho (h.trans hid) hny
      exact ⟨hr.trans hreq.symm, hown.trans (hoo.trans hf.symm)⟩
    · obtain ⟨hr, hown⟩ := hv.vec y hy o ho (h.symm.trans hid) (by rw [← h, hid]; exact hne)
      exact ⟨hreq.trans hr.symm, hf.trans (hoo.symm.trans hown.symm)⟩
  case le => exact hmem hv.le (by rw [hid]; exact hv.le o ho)
  case plain => exact hmem hv.plain (by simp [hf, hid, hne])
  case first =>
    refine List.pairwise_append.mpr
      ⟨hv.first, List.pairwise_singleton _ _, fun y hy z hz h he => ?_⟩
    rw [List.mem_singleton.mp hz] at h he
    have hown := (hv.vec y hy o ho (he.trans hid) (by rw [he, hid]; exact hne)).2
    rw [h, hoo] at hown
    exact hxo (Option.some.inj hown)
  case marked =>
    refine hmem (fun y hy hfy hny => hmem (hv.marked y hy hfy hny) fun he => ?_) fun h => ?_
    · rw [hmark y hy he.symm] at hfy
      cases hfy
    · rw [hfd] at h
      cases h
  case owner =>
    refine hmem (fun y hy hdy o' hyo => ?_) fun _ o' hxo' => ?_
    · obtain ⟨hoq, hoo', hid'⟩ := hv.owner y hy hdy o' hyo
      exact ⟨List.mem_append_left _ hoq, hoo', hid'⟩
    · rw [hf] at hxo'
      cases hxo'
      exact ⟨List.mem_append_left _ ho, hoo, hid.symm⟩
  case head_done =>
    refine hmem hv.head_done fun h => ?_
    rw [hf] at h
    exact absurd (Option.some.inj h).symm hxo
  case count =>
    refine hmem (fun o' ho' hoo' => ?_) fun h => ?_
    · rw [add_assoc, hcount, ← add_assoc]
      exact hv.count o' ho' hoo'
    · rw [hf] at h
      exact absurd (Option.some.inj h).symm hxo
  case exact =>
    intro hl
    refine hmem (fun o' ho' hoo' => ?_) fun h => ?_
    · rw [add_assoc, hcount, ← add_assoc]
      exact hv.exact hl o' ho' hoo'
    · rw [hf] at h
      exact absurd (Option.some.inj h).symm hxo

/-- A request that is done, with all requests of its vector, leaves the queue. -/
theorem Vec.erase (hv : Vec m q [] nReq lim lost) {p : MsgId} (hd : m.done p = true)
    (hall : m.fragId p ≠ 0 → ∀ y ∈ q, m.fragId y = m.fragId p → m.done y = true) :
    Vec m (q.erase p) [] nReq lim lost := by
  have hsub : (q.erase p).Sublist q := List.erase_sublist
  have hcount : ∀ o, (q.erase p).countP (m.Undone o) = q.countP (m.Undone o) := by
    intro o
    rw [List.countP_erase]
    simp [MsgCols.Undone, hd]
  constructor
  case sorted => exact hv.sorted.sublist hsub
  case lt => exact fun x hx => hv.lt x (hsub.subset hx)
  case same => exact fun x hx y hy => hv.same x (hsub.subset hx) y (hsub.subset hy)
  case vec => exact fun x hx y hy => hv.vec x (hsub.subset hx) y (hsub.subset hy)
  case le => exact fun x hx => hv.le x (hsub.subset hx)
  case plain => exact fun x hx => hv.plain x (hsub.subset hx)
  case first => exact hv.first.sublist hsub
  case marked =>
    exact fun x hx hf hne y hy => hv.marked x (hsub.subset hx) hf hne y (hsub.subset hy)
  case owner =>
    intro y hy hdy o hyo
    obtain ⟨hoq, hoo, hid⟩ := hv.owner y (hsub.subset hy) hdy o hyo
    have hop : o ≠ p := by
      rintro rfl
      have hne : m.fragId o ≠ 0 := fun h => by simp [(hv.plain o hoq).mpr h] at hoo
      rw [hall hne y (hsub.subset hy) hid.symm] at hdy
      cases hdy
    exact ⟨(List.mem_erase_of_ne hop).mpr hoq, hoo, hid⟩
  case head_done => exact fun o ho => hv.head_done o (hsub.subset ho)
  case count =>
    intro o ho hoo
    rw [hcount]
    exact hv.count o (hsub.subset ho) hoo
  case exact =>
    intro hl o ho hoo
    rw [hcount]
    exact hv.exact hl o (hsub.subset ho) hoo

/-! ## Requests are done -/

/-- A request is done, and its owner counts it, if it is a fragment.

**Proof sketch.** The counter of the owner grows by one, and the number of its fragments that are
not done shrinks by one. -/
theorem Vec.settle (hv : Vec m q pend nReq lim lost) {x : MsgId} (hn : q.Nodup) (hx : x ∈ q)
    (hd : m.done x = false) {m' : MsgCols} (hsame : m'.reqNo = m.reqNo ∧ m'.fragId = m.fragId ∧
      m'.fragOwner = m.fragOwner ∧ m'.nfrag = m.nfrag ∧ m'.fdone = m.fdone)
    (hdone : m'.done = update m.done x true) (hcounted : ∀ o ∈ q, m.fragOwner o = some o →
      m'.nfragDone o = m.nfragDone o + if m.fragOwner x = some o then 1 else 0) :
    Vec m' q pend nReq lim lost := by
  obtain ⟨hreq, hid, hown, hnfrag, hfd⟩ := hsame
  have hmono : ∀ y, m.done y = true → m'.done y = true := by
    intro y hy
    rcases eq_or_ne y x with rfl | hne
    · simp [hdone]
    · simpa [hdone, hne] using hy
  have hcount : ∀ o, q.countP (m.Undone o) =
      q.countP (m'.Undone o) + if m.fragOwner x = some o then 1 else 0 := by
    intro o
    rw [countP_settle (g := m'.Undone o) hn hx]
    · simp [MsgCols.Undone, MsgCols.FragOf, hd]
    · simp [MsgCols.Undone, hdone]
    · intro y _ hne
      simp [MsgCols.Undone, MsgCols.FragOf, hdone, hown, hne]
  have hpend : ∀ o, pend.countP (m'.FragOf o) = pend.countP (m.FragOf o) := by
    intro o
    unfold MsgCols.FragOf
    rw [hown]
  constructor
  case sorted => rw [hreq]; exact hv.sorted
  case lt => rw [hreq]; exact hv.lt
  case same => rw [hreq, hid]; exact hv.same
  case vec => rw [hreq, hid, hown]; exact hv.vec
  case le => rw [hid]; exact hv.le
  case plain => rw [hid, hown]; exact hv.plain
  case first => rw [hid, hown]; exact hv.first
  case marked =>
    rw [hfd, hid]
    exact fun y hy hf hne z hz he => hmono z (hv.marked y hy hf hne z hz he)
  case owner =>
    rw [hown, hid]
    refine fun y hy hdy => hv.owner y hy ?_
    by_contra h
    rw [hmono y (by simpa using h)] at hdy
    cases hdy
  case head_done =>
    rw [hown]
    exact fun o ho hoo => hmono o (hv.head_done o ho hoo)
  case count =>
    rw [hown]
    intro o ho hoo
    have h := hv.count o ho hoo
    rw [hcount o] at h
    rw [hpend, hnfrag, hcounted o ho hoo]
    omega
  case exact =>
    rw [hown]
    intro hl o ho hoo
    have h := hv.exact hl o ho hoo
    rw [hcount o] at h
    rw [hpend, hnfrag, hcounted o ho hoo]
    omega

/-- A request is done, and is not counted. -/
lemma Vec.settle_lost (hv : Vec m q pend nReq lim lost) {x : MsgId} (hn : q.Nodup) (hx : x ∈ q)
    (hd : m.done x = false) {m' : MsgCols} (hsame : m'.reqNo = m.reqNo ∧ m'.fragId = m.fragId ∧
      m'.fragOwner = m.fragOwner ∧ m'.nfrag = m.nfrag ∧ m'.fdone = m.fdone)
    (hdone : m'.done = update m.done x true) (hcounted : m'.nfragDone = m.nfragDone)
    (hlost : m.fragOwner x ≠ none → lost) : Vec m' q pend nReq lim lost := by
  obtain ⟨hreq, hid, hown, hnfrag, hfd⟩ := hsame
  by_cases hx' : m.fragOwner x = none
  · refine hv.settle hn hx hd ⟨hreq, hid, hown, hnfrag, hfd⟩ hdone fun o _ _ => ?_
    simp [hcounted, hx']
  · have hmono : ∀ y, m.done y = true → m'.done y = true := by
      intro y hy
      rcases eq_or_ne y x with rfl | hne
      · simp [hdone]
      · simpa [hdone, hne] using hy
    have hcount : ∀ o, q.countP (m'.Undone o) ≤ q.countP (m.Undone o) := by
      intro o
      refine List.countP_mono_left fun y _ h => ?_
      simp only [MsgCols.Undone, MsgCols.FragOf, Bool.and_eq_true, Bool.not_eq_true',
        hown] at h ⊢
      refine ⟨?_, h.2⟩
      by_contra hdy
      rw [hmono y (by simpa using hdy)] at h
      cases h.1
    have hpend : ∀ o, pend.countP (m'.FragOf o) = pend.countP (m.FragOf o) := by
      intro o
      unfold MsgCols.FragOf
      rw [hown]
    constructor
    case sorted => rw [hreq]; exact hv.sorted
    case lt => rw [hreq]; exact hv.lt
    case same => rw [hreq, hid]; exact hv.same
    case vec => rw [hreq, hid, hown]; exact hv.vec
    case le => rw [hid]; exact hv.le
    case plain => rw [hid, hown]; exact hv.plain
    case first => rw [hid, hown]; exact hv.first
    case marked =>
      rw [hfd, hid]
      exact fun y hy hf hne z hz he => hmono z (hv.marked y hy hf hne z hz he)
    case owner =>
      rw [hown, hid]
      refine fun y hy hdy => hv.owner y hy ?_
      by_contra h
      rw [hmono y (by simpa using h)] at hdy
      cases hdy
    case head_done =>
      rw [hown]
      exact fun o ho hoo => hmono o (hv.head_done o ho hoo)
    case count =>
      rw [hown]
      intro o ho hoo
      have h := hv.count o ho hoo
      have := hcount o
      rw [hpend, hnfrag, hcounted]
      omega
    case exact => exact fun hl => absurd (hlost hx') hl

/-- The requests of a vector are marked as done once all of them are. -/
theorem Vec.mark (hv : Vec m q pend nReq lim lost) {f : MsgId → Bool}
    (hf : ∀ y ∈ q, f y = true → m.fdone y = true ∨ (m.fragId y ≠ 0 →
      ∀ z ∈ q, m.fragId z = m.fragId y → m.done z = true)) :
    Vec { m with fdone := f } q pend nReq lim lost := by
  refine ⟨hv.sorted, hv.lt, hv.same, hv.vec, hv.le, hv.plain, hv.first, ?_, hv.owner, hv.head_done,
    hv.count, hv.exact⟩
  intro x hx hfx hne
  rcases hf x hx hfx with h | h
  · exact hv.marked x hx h hne
  · exact h hne

end GfwProxy
