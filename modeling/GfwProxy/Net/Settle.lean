import Mathlib.Data.List.TakeWhile
import GfwProxy.Net.Requests

set_option autoImplicit false

/-!
# Requests are done

A request is done, possibly in error; a fragment is counted for its vector, and a vector is marked
as done.  The invariant is kept.

## Main results

* `GfwProxy.Inv.settle`, `GfwProxy.Inv.skip` — a request is done, and counted or not.
* `GfwProxy.Inv.leave`, `GfwProxy.Inv.orphan` — a request leaves the queue of its client.
* `GfwProxy.Inv.mark` — a vector is marked as done.
-/

namespace GfwProxy

open Function

variable {n n' : Net}

/-! ## What changes when a request is done -/

section Settled

variable {m x : MsgId}

/-- The fragments next to a request are in its queue, and of the same vector. -/
lemma Net.of_mem_fragRun {q : List MsgId} (hx : x ∈ n.fragRun q m) :
    x ∈ q ∧ n.m.fragId x = n.m.fragId m := by
  rcases List.mem_append.mp hx with hx | hx
  · have hmem := (List.takeWhile_prefix _).mem hx
    exact ⟨(List.takeWhile_prefix _).mem (List.mem_reverse.mp hmem),
      by simpa using List.mem_takeWhile_imp hx⟩
  · have hmem := List.mem_of_mem_tail ((List.takeWhile_prefix _).mem hx)
    exact ⟨(List.dropWhile_suffix _).mem hmem, by simpa using List.mem_takeWhile_imp hx⟩

/-- Counting a fragment moves no message. -/
@[simp] lemma Net.count_place (n : Net) (m : MsgId) (b : Bool) : (n.count m b).g = n.g := by
  unfold Net.count
  split <;> rfl

/-- Counting a fragment changes no connection. -/
@[simp] lemma Net.count_conn (n : Net) (m : MsgId) (b : Bool) : (n.count m b).c = n.c := by
  unfold Net.count
  split <;> rfl

/-- Counting a fragment changes no static variable but the log. -/
@[simp] lemma Net.count_statics (n : Net) (m : MsgId) (b : Bool) :
    (n.count m b).a.freeMsgq = n.a.freeMsgq ∧ (n.count m b).a.nextMsg = n.a.nextMsg ∧
      (n.count m b).a.freeConnq = n.a.freeConnq ∧ (n.count m b).a.nextConn = n.a.nextConn ∧
      (n.count m b).a.sConnq = n.a.sConnq ∧ (n.count m b).a.fragId = n.a.fragId := by
  unfold Net.count
  split <;> exact ⟨rfl, rfl, rfl, rfl, rfl, rfl⟩

/-- A message that is neither the request nor the owner of its vector stays as it is. -/
lemma Net.sameVec_settle (hx : x ≠ m) (ho : n.m.fragOwner m ≠ some x) (b e : Bool) :
    n.m.SameVec (((n.finish m).count m b).fail m e).m x := by
  cases hm : n.m.fragOwner m with
  | none => constructor <;> simp [Net.count, Net.fail, Net.finish, hm, hx]
  | some o =>
    have hxo : x ≠ o := fun he => ho (he ▸ hm)
    constructor <;> simp [Net.count, Net.fail, Net.finish, hm, hx, hxo]

/-- The same, for a sub-message that is still to be forwarded. -/
lemma Net.sameSub_settle (hx : x ≠ m) (ho : n.m.fragOwner m ≠ some x) (b e : Bool) :
    n.SameSub (((n.finish m).count m b).fail m e) x := by
  cases hm : n.m.fragOwner m with
  | none => constructor <;> simp [Net.count, Net.fail, Net.finish, MsgCols.blank_iff, hm, hx]
  | some o =>
    have hxo : x ≠ o := fun he => ho (he ▸ hm)
    constructor <;> simp [Net.count, Net.fail, Net.finish, MsgCols.blank_iff, hm, hx, hxo]

/-- The order of a queue does not depend on it. -/
lemma Net.sameOrder_settle (n : Net) (m x : MsgId) (b e : Bool) :
    n.m.SameOrder (((n.finish m).count m b).fail m e).m x := by
  cases hm : n.m.fragOwner m <;> constructor <;> simp [Net.count, Net.fail, Net.finish, hm]

/-- A fragment that was not counted has not been counted later. -/
lemma Net.lost_settle (h : n.Lost) (m : MsgId) (b e : Bool) :
    (((n.finish m).count m b).fail m e).Lost := by
  obtain ⟨i, hi⟩ := h
  refine ⟨i, ?_⟩
  cases hm : n.m.fragOwner m <;> simp [Net.count, Net.fail, Net.finish, hm, hi]

/-- The vectors of the queue that the request is in stay in order. -/
lemma Net.vec_settle {q pend : List MsgId} {nReq lim : ℕ} {lost : Prop}
    (hv : Vec n.m q pend nReq lim lost) (hn : q.Nodup) (hm : m ∈ q) (hd : n.m.done m = false)
    (b e : Bool) : Vec (((n.finish m).count m b).fail m e).m q pend nReq lim lost := by
  cases ho : n.m.fragOwner m with
  | none =>
    refine hv.settle hn hm hd ?_ ?_ fun o _ _ => ?_
    all_goals simp [Net.count, Net.fail, Net.finish, ho]
  | some o =>
    refine hv.settle hn hm hd ?_ ?_ fun o' _ _ => ?_
    · simp [Net.count, Net.fail, Net.finish, ho]
    · simp [Net.count, Net.fail, Net.finish, ho]
    · rcases eq_or_ne o' o with rfl | hne
      · simp [Net.count, Net.fail, Net.finish, ho]
      · simp [Net.count, Net.fail, Net.finish, ho, hne, hne.symm]

end Settled

/-! ## Requests are done -/

section Settle

variable (hi : Inv n) {m : MsgId} {c s : ConnId} {cli : Option ConnId}

include hi

/-- The queues of two clients have no request in common. -/
lemma Inv.notMem_omsgq {c' : ConnId} {x : MsgId} (hc : n.Client c) (hc' : n.Client c')
    (hne : c' ≠ c) (hx : x ∈ n.c.omsgq c') : x ∉ n.c.omsgq c := by
  intro hmem
  obtain ⟨srv, h⟩ := (hi.queues.omsgq_client c' hc' x).mp hx
  obtain ⟨srv', h'⟩ := (hi.queues.omsgq_client c hc x).mp hmem
  rw [h] at h'
  simp only [Place.req.injEq, Option.some.injEq] at h'
  exact hne h'.1

/-- A request of a client that is in no queue of a server connection is done, possibly in error;
if it is a fragment, it is counted.

**Proof sketch.** The request and the owner of its vector are in the queue of its client, whose
vectors stay in order (`Vec.settle`).  Nothing changes for a message in another queue, or for one
that is still to be forwarded. -/
lemma Inv.settle (hm : n.g.place m = .req (some c) none) (hd : n.m.done m = false)
    (hcl : c ∉ n.g.closing) (b e : Bool) : Inv (((n.finish m).count m b).fail m e) := by
  have hc := (hi.facts.cli m c none hm).1
  have hmq : m ∈ n.c.omsgq c := (hi.queues.omsgq_client c hc m).mpr ⟨none, hm⟩
  have hv := hi.vec c hc hcl
  have howner : ∀ o, n.m.fragOwner m = some o → o ∈ n.c.omsgq c := fun o ho =>
    (hv.owner m hmq hd o ho).1
  have hplace : ∀ o, n.m.fragOwner m = some o → ∃ srv, n.g.place o = .req (some c) srv :=
    fun o ho => (hi.queues.omsgq_client c hc o).mp (howner o ho)
  have hcounted : Facts ((n.finish m).count m b) := by
    refine (hi.facts.finish hm).count ?_ ?_ b
    · simp [Net.finish, hm]
    · intro o ho
      obtain ⟨srv, h⟩ := hplace o ho
      simp [Net.finish, h]
  have hm' : ((n.finish m).count m b).g.place m = .req (some c) none := by
    simpa [Net.finish] using hm
  constructor
  case addr => apply hi.addr.congr <;> simp [Net.fail, Net.finish]
  case queues => apply hi.queues.congr <;> simp [Net.fail, Net.finish]
  case facts => exact hcounted.fail hm' e
  case vec =>
    intro c' hc' hcl'
    have hclient : n.Client c' := by simpa [Net.Client, Net.fail, Net.finish] using hc'
    have hclosing : c' ∉ n.g.closing := by simpa [Net.fail, Net.finish] using hcl'
    have hlost : n.Lost → (((n.finish m).count m b).fail m e).Lost :=
      fun h => Net.lost_settle h m b e
    have hsettled : Vec (((n.finish m).count m b).fail m e).m (n.c.omsgq c') n.g.pend (n.c.nReq c')
        n.a.fragId n.Lost := by
      rcases eq_or_ne c' c with rfl | hne
      · have hopen : n.Open c' := by
          obtain ⟨p, hp⟩ := hc
          simp [Net.Open, hp]
        exact Net.vec_settle hv (hi.queues.omsgq_nodup c' hopen) hmq hd b e
      · refine (hi.vec c' hclient hclosing).congr (fun x hx => ?_) (fun y _ => ?_) le_rfl id
        · have hx' := hi.notMem_omsgq hc hclient hne hx
          refine Net.sameVec_settle ?_ (fun ho => hx' (howner x ho)) b e
          rintro rfl
          exact hx' hmq
        · exact (Net.sameOrder_settle n m y b e).fragOwner
    have h : Vec (((n.finish m).count m b).fail m e).m (n.c.omsgq c') n.g.pend (n.c.nReq c')
        n.a.fragId (((n.finish m).count m b).fail m e).Lost :=
      hsettled.congr (fun _ _ => ⟨rfl, rfl, rfl, rfl, rfl, rfl, rfl⟩) (fun _ _ => rfl) le_rfl hlost
    simpa [Net.fail, Net.finish] using h
  case pend =>
    intro y hy
    have hy' : y ∈ n.g.pend := by simpa [Net.fail, Net.finish] using hy
    obtain ⟨c', o, hp⟩ := hi.pend y hy'
    have hsub : n.SameSub (((n.finish m).count m b).fail m e) y := by
      refine Net.sameSub_settle ?_ (fun ho => ?_) b e
      · exact hi.ne_of_pend hy' (by simp [hm])
      · obtain ⟨srv, h⟩ := hplace y ho
        exact hi.ne_of_pend hy' (by simp [h]) rfl
    refine ⟨c', o, hp.frame ?_ (fun x _ => Net.sameOrder_settle n m x b e) hsub⟩
    constructor
    · simpa [Net.Client, Net.fail, Net.finish] using hp.client
    · simpa [Net.fail, Net.finish] using hp.closing
    all_goals simp [Net.fail, Net.finish]
  case pend_nodup => simpa [Net.fail, Net.finish] using hi.pend_nodup

/-- A request of a client fails without being counted. -/
lemma Inv.skip (hm : n.g.place m = .req (some c) none) (hd : n.m.done m = false)
    (hcl : c ∉ n.g.closing) (hf : n.m.fragOwner m ≠ none → n.Lost) :
    Inv ((n.finish m).fail m true) := by
  have hc := (hi.facts.cli m c none hm).1
  have hmq : m ∈ n.c.omsgq c := (hi.queues.omsgq_client c hc m).mpr ⟨none, hm⟩
  have hmp : m ∉ n.g.pend := fun h => hi.ne_of_pend h (by simp [hm]) rfl
  refine ⟨hi.addr.congr rfl rfl rfl rfl rfl rfl rfl rfl rfl,
    hi.queues.congr rfl rfl rfl rfl rfl, (hi.facts.finish hm).fail hm true, fun c' hc' hcl' => ?_,
    fun y hy => ?_, hi.pend_nodup⟩
  · rcases eq_or_ne c' c with rfl | hne
    · exact (hi.vec c' hc hcl).settle_lost
        (hi.queues.omsgq_nodup c' (by obtain ⟨p, hp⟩ := hc; simp [Net.Open, hp])) hmq
        hd ⟨rfl, rfl, rfl, rfl, rfl⟩ rfl rfl hf
    · refine (hi.vec c' hc' hcl').congr (fun x hx => ?_) (fun _ _ => rfl) le_rfl id
      have hxm : x ≠ m := hi.ne_of_mem hc' hx (by simp [hm, hne.symm])
      constructor <;> simp [Net.fail, Net.finish, hxm]
  · obtain ⟨c', o, hp⟩ := hi.pend y hy
    have hym : y ≠ m := fun he => hmp (he ▸ hy)
    refine ⟨c', o, hp.frame ⟨hp.client, hp.closing, rfl, rfl, rfl⟩ (fun _ _ => ⟨rfl, rfl, rfl,
      rfl⟩) ?_⟩
    constructor <;> simp [Net.fail, Net.finish, MsgCols.blank_iff, hym]

/-- A request leaves the queue of its client. -/
lemma Inv.leave (hm : n.g.place m = .req (some c) none)
    (hcl : c ∈ n.g.closing ∨ n.g.pend = [] ∧ n.VectorDone c m) :
    Inv ((n.deqOut c m).move m .hand) := by
  have hc := (hi.facts.cli m c none hm).1
  have hmp : m ∉ n.g.pend := fun h => hi.ne_of_pend h (by simp [hm]) rfl
  refine ⟨(hi.addr.move m (by simp [hm])).congr rfl rfl rfl rfl rfl rfl rfl rfl rfl,
    hi.queues.leave hm hc, (hi.facts.leave hm).congr rfl rfl rfl rfl, fun c' hc' hcl' => ?_,
    fun y hy => ?_, hi.pend_nodup⟩
  · have hv := hi.vec c' hc' hcl'
    rcases eq_or_ne c' c with rfl | hne
    · rcases hcl with hcl | ⟨hp, hdone, hall⟩
      · exact absurd hcl hcl'
      · rw [hp] at hv
        simp only [Net.move, Net.deqOut, update_self, hp]
        exact hv.erase hdone hall
    · simpa only [Net.move, Net.deqOut, Net.Lost, update_of_ne hne] using hv
  · obtain ⟨c', o, hp⟩ := hi.pend y hy
    have hne : c' ≠ c := by
      rintro rfl
      rcases hcl with hcl | ⟨hnil, -⟩
      · exact hp.closing hcl
      · simp [Net.move, Net.deqOut, hnil] at hy
    have hym : y ≠ m := fun he => hmp (he ▸ hy)
    refine ⟨c', o, hp.frame ⟨hp.client, hp.closing, by simp [Net.move, Net.deqOut, hne], rfl, rfl⟩
      (fun _ _ => ⟨rfl, rfl, rfl, rfl⟩) ⟨?_, rfl, rfl, id, rfl, rfl, rfl, rfl⟩⟩
    simp [Net.move, Net.deqOut, hym]

/-- A request whose client is closed is left to its server connection. -/
lemma Inv.orphan {srv : Option (ConnId × Bool)} (hm : n.g.place m = .req (some c) srv)
    (hcl : c ∈ n.g.closing) :
    Inv ({ n.deqOut c m with m.swallow := update n.m.swallow m true }.move m (.req none srv)) := by
  have hc := (hi.facts.cli m c srv hm).1
  have hmp : m ∉ n.g.pend := fun h => hi.ne_of_pend h (by simp [hm]) rfl
  refine ⟨(hi.addr.move m (by simp [hm])).congr rfl rfl rfl rfl rfl rfl rfl rfl rfl,
    (hi.queues.leave hm hc).congr rfl rfl rfl rfl rfl, (hi.facts.orphan hm).congr rfl rfl rfl rfl,
    fun c' hc' hcl' => ?_, fun y hy => ?_, hi.pend_nodup⟩
  · have hne : c' ≠ c := by
      rintro rfl
      exact hcl' hcl
    have hv : Vec { n.m with swallow := update n.m.swallow m true } (n.c.omsgq c') n.g.pend
        (n.c.nReq c') n.a.fragId n.Lost :=
      (hi.vec c' hc' hcl').congr (fun _ _ => ⟨rfl, rfl, rfl, rfl, rfl, rfl, rfl⟩) (fun _ _ => rfl)
        le_rfl id
    simpa only [Net.move, Net.deqOut, Net.Lost, update_of_ne hne] using hv
  · obtain ⟨c', o, hp⟩ := hi.pend y hy
    have hne : c' ≠ c := by
      rintro rfl
      exact hp.closing hcl
    have hym : y ≠ m := fun he => hmp (he ▸ hy)
    refine ⟨c', o, hp.frame ⟨hp.client, hp.closing, by simp [Net.move, Net.deqOut, hne], rfl, rfl⟩
      (fun _ _ => ⟨rfl, rfl, rfl, rfl⟩) ?_⟩
    constructor <;> simp [Net.move, Net.deqOut, MsgCols.blank_iff, hym]

/-- The vector at the head of a queue is not complete while one of its sub-messages is still to be
forwarded. -/
lemma Inv.nfragDone_lt {y o : MsgId} (hcl : c ∉ n.g.closing) (hpy : n.Pending y c o)
    (hy : y ∈ n.g.pend) (hhead : (n.c.omsgq c).head? = some m)
    (hid : n.m.fragId m = n.m.fragId y) : n.m.nfragDone m < n.m.nfrag m := by
  have hv := hi.vec c hpy.client hcl
  have hm : m ∈ n.c.omsgq c := List.mem_of_mem_head? hhead
  have hmid : n.m.fragId m = n.m.fragId o := hid.trans hpy.fragId
  have hmo : n.m.fragOwner m = some o :=
    (hv.vec m hm o hpy.mem hmid (by rw [hmid]; exact hpy.ne)).2.trans hpy.self
  -- the owner is ahead of its fragments, so it is the head
  have hom : o = m := by
    by_contra hne
    obtain ⟨rest, hrest⟩ := List.head?_eq_some_iff.mp hhead
    have hfirst := hv.first
    have hmem := hpy.mem
    rw [hrest] at hfirst hmem
    rcases List.mem_cons.mp hmem with h | h
    · exact hne h
    · exact (List.pairwise_cons.mp hfirst).1 o h hmo hmid
  subst hom
  have hcount := hv.count o hpy.mem hpy.self
  have hpos : 0 < n.g.pend.countP (n.m.FragOf o) :=
    List.countP_pos_iff.mpr ⟨y, hy, by simp [MsgCols.FragOf, hpy.fragOwner]⟩
  omega

/-- The requests of a vector are marked as done.

**Proof sketch.** The requests that are marked are those of the queue that carry the fragment id of
`m`.  They are all done, and none of them is in another queue or still to be forwarded. -/
lemma Inv.mark (hc : n.Client c) (hm : m ∈ n.c.omsgq c) (hd : n.m.done m = true)
    (hf : n.m.fragId m ≠ 0) (hnfrag : n.m.nfrag m ≤ n.m.nfragDone m)
    (hr : ∀ x ∈ n.fragRun (n.c.omsgq c) m, n.m.done x = true) (hcl : c ∉ n.g.closing)
    (hp : n.g.pend = [] ∨ (n.c.omsgq c).head? = some m) :
    Inv { n with
      m.fdone := fun x => if x ∈ m :: n.fragRun (n.c.omsgq c) m then true else n.m.fdone x } := by
  have hopen : n.Open c := by
    obtain ⟨p, hp⟩ := hc
    simp [Net.Open, hp]
  have hv := hi.vec c hc hcl
  have hnodup := hi.queues.omsgq_nodup c hopen
  have hrun : ∀ y, y ∈ m :: n.fragRun (n.c.omsgq c) m →
      y ∈ n.c.omsgq c ∧ n.m.fragId y = n.m.fragId m := by
    intro y hy
    rcases List.mem_cons.mp hy with rfl | hy
    · exact ⟨hm, rfl⟩
    · exact Net.of_mem_fragRun hy
  have hall : ∀ y ∈ n.c.omsgq c, n.m.fragId y = n.m.fragId m → n.m.done y = true := by
    intro y hy he
    rcases hv.mem_run hm hnodup hf hy he with rfl | h | h
    · exact hd
    · exact hr y (List.mem_append_left _ h)
    · exact hr y (List.mem_append_right _ h)
  have hother : ∀ c' x, n.Client c' → x ∈ n.c.omsgq c' → c' ≠ c →
      x ∉ m :: n.fragRun (n.c.omsgq c) m :=
    fun c' x hc' hx hne hmem => hi.notMem_omsgq hc hc' hne hx (hrun x hmem).1
  have hreading : ∀ y, (∀ c srv, n.g.place y ≠ .req (some c) srv) →
      y ∉ m :: n.fragRun (n.c.omsgq c) m := by
    intro y hy hmem
    obtain ⟨srv, h⟩ := (hi.queues.omsgq_client c hc y).mp (hrun y hmem).1
    exact hy c srv h
  constructor
  case addr => exact hi.addr.congr rfl rfl rfl rfl rfl rfl rfl rfl rfl
  case queues => exact hi.queues.congr rfl rfl rfl rfl rfl
  case facts => exact hi.facts.mark fun y c' hy => if_neg (hreading y (by simp [hy]))
  case vec =>
    intro c' hc' hcl'
    rcases eq_or_ne c' c with rfl | hne
    · refine hv.mark fun y _ hfy => ?_
      change (if y ∈ m :: n.fragRun (n.c.omsgq c') m then true else n.m.fdone y) = true at hfy
      split at hfy
      · rename_i hmem
        exact .inr fun _ z hz he => hall z hz (he.trans (hrun y hmem).2)
      · exact .inl hfy
    · refine (hi.vec c' hc' hcl').congr (fun x hx => ?_) (fun _ _ => rfl) le_rfl id
      exact ⟨rfl, rfl, rfl, rfl, rfl, rfl, if_neg (hother c' x hc' hx hne)⟩
  case pend =>
    intro y hy
    obtain ⟨c', o, hpy⟩ := hi.pend y hy
    have hynot : y ∉ m :: n.fragRun (n.c.omsgq c) m := hreading y (by simp [hpy.place])
    refine ⟨c', o, { hpy with blank := { hpy.blank with fdone := ?_ }, unmarked := ?_ }⟩
    · exact (if_neg hynot).trans hpy.blank.fdone
    intro x hx he
    change (if x ∈ m :: n.fragRun (n.c.omsgq c) m then true else n.m.fdone x) = false
    rw [if_neg, hpy.unmarked x hx he]
    intro hmem
    rcases hp with hnil | hhead
    · simp [hnil] at hy
    · have hcc : c' = c := by
        by_contra hne
        exact hother c' x hpy.client hx hne hmem
      subst hcc
      have hlt := hi.nfragDone_lt hcl hpy hy hhead ((hrun x hmem).2.symm.trans he)
      exact absurd hnfrag (not_le.mpr hlt)
  case pend_nodup => exact hi.pend_nodup

end Settle
end GfwProxy
