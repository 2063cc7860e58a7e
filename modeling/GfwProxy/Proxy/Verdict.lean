import Mathlib.Data.List.Nodup
import Mathlib.Data.List.Pairwise
import Mathlib.Data.List.Count
import GfwProxy.Proxy.After

set_option autoImplicit false

/-!
# The verdicts on a fragment vector

`req_done` and `req_error` of `gf_request.c` scan the queue of a client in both directions from a
request and mark all requests of its vector once they know the answer.

## Main definitions

* `GfwProxy.Verdict.St` — the queue of a client, the fields of its requests that the verdicts read
  and write, and the calls of the post-coalesce callback.
* `GfwProxy.Verdict.reqDone`, `GfwProxy.Verdict.reqError`, `GfwProxy.Verdict.complete`.
* `GfwProxy.Verdict.Run` — completions and verdicts in any order.
* `GfwProxy.Verdict.Done`, `GfwProxy.Verdict.Failed` — the answers, without the marks.

## Main results

* `GfwProxy.Verdict.Run.inv` — what the marks mean, in every state that is reached.
* `GfwProxy.Verdict.Run.verdicts` — the verdicts are right, and the callback is called with the
  first true answer for a vector.
* `GfwProxy.Verdict.reqDone_heap`, `GfwProxy.Verdict.reqError_heap` — the verdicts are those of
  `req_done` and `req_error` on the state of the proxy.
* `GfwProxy.Verdict.complete_heap`, `GfwProxy.Verdict.complete_response`,
  `GfwProxy.Verdict.complete_reply` — a completion is what `server_close`, `rsp_forward` and
  `req_make_reply` do on the state of the proxy.

## Design

A queue is made up of items: single requests, and vectors with their owner in front.
-/

namespace GfwProxy.Verdict

/-! ## The code -/

/-- The fields of `struct msg` that the verdicts read and write. -/
structure Req where
  done : Bool := false
  error : Bool := false
  fdone : Bool := false
  ferror : Bool := false
  fragId : ℕ := 0
  nfrag : ℕ := 0
  nfragDone : ℕ := 0
  fragOwner : Option MsgId := none
  deriving DecidableEq, Repr

/-- The requests and the queue of the client; `coalesced` holds the arguments of the calls of
`post_coalesce`. -/
structure St where
  msg : MsgId → Req
  omsgq : List MsgId
  coalesced : List (Option MsgId) := []

/-- The requests next to `m` in the queue that carry its fragment id: those before it and those
after it, nearest first. -/
def St.fragRun (s : St) (m : MsgId) : List MsgId :=
  let same : MsgId → Bool := fun x => (s.msg x).fragId = (s.msg m).fragId
  (tailqBefore m s.omsgq).takeWhile same ++ (tailqAfter m s.omsgq).takeWhile same

/-- Update all requests of a list. -/
def St.modMsgs (xs : List MsgId) (f : Req → Req) (s : St) : St :=
  { s with msg := fun x => if x ∈ xs then f (s.msg x) else s.msg x }

/-- Marking messages does not change what was coalesced. -/
@[simp] lemma St.modMsgs_coalesced (xs : List MsgId) (f : Req → Req) (s : St) :
    (s.modMsgs xs f).coalesced = s.coalesced := rfl

/-- Marking messages does not change the queue. -/
@[simp] lemma St.modMsgs_omsgq (xs : List MsgId) (f : Req → Req) (s : St) :
    (s.modMsgs xs f).omsgq = s.omsgq := rfl

/-- `req_done`. -/
def reqDone (m : MsgId) (s : St) : Bool × St :=
  let msg := s.msg m
  if !msg.done then (false, s)
  else if msg.fragId = 0 then (true, s)
  -- request has already been marked as done
  else if msg.fdone then (true, s)
  else if msg.nfragDone < msg.nfrag then (false, s)
  -- check all fragments of the given request vector are done
  else if (s.fragRun m).any fun x => !(s.msg x).done then (false, s)
  else
    let s := s.modMsgs (m :: s.fragRun m) fun x => { x with fdone := true }
    (true, { s with coalesced := s.coalesced ++ [msg.fragOwner] })

/-- `req_error`. -/
def reqError (m : MsgId) (s : St) : Bool × St :=
  let msg := s.msg m
  if msg.error then (true, s)
  else if msg.fragId = 0 then (false, s)
  -- request has already been marked to be in error
  else if msg.ferror then (true, s)
  else if (s.fragRun m).any fun x => (s.msg x).error then
    (true, s.modMsgs (m :: s.fragRun m) fun x => { x with ferror := true })
  else (false, s)

/-- Is the request a fragment, and of which owner? -/
def St.fragOf (s : St) (m : MsgId) : Option MsgId :=
  match (s.msg m).fragOwner with
  | none => none
  | some o => if o = m then none else some o

/-- A request is completed, possibly with an error; a fragment is counted by its owner. -/
def complete (m : MsgId) (error : Bool) (s : St) : St :=
  let s := s.modMsgs [m] fun x => { x with done := true, error := x.error || error }
  match s.fragOf m with
  | none => s
  | some o => s.modMsgs [o] fun x => { x with nfragDone := x.nfragDone + 1 }

/-! ## Items of a queue -/

/-- A request that is not a part of a vector, or a vector: its owner and its fragments. -/
inductive Item
  | single (m : MsgId)
  | vector (o : MsgId) (fs : List MsgId)
  deriving DecidableEq, Repr

/-- The requests of an item. -/
def Item.members : Item → List MsgId
  | .single m => [m]
  | .vector o fs => o :: fs

/-- The queue is made up of the items, and vectors have their own fragment ids. -/
structure Queue (items : List Item) (s : St) : Prop where
  queue : s.omsgq = items.flatMap Item.members
  nodup : s.omsgq.Nodup
  single : ∀ m, .single m ∈ items → (s.msg m).fragId = 0
  fragId : ∀ o fs, .vector o fs ∈ items → (s.msg o).fragId ≠ 0
  nfrag : ∀ o fs, .vector o fs ∈ items → (s.msg o).nfrag = fs.length
  members : ∀ o fs, .vector o fs ∈ items → ∀ x ∈ o :: fs,
    (s.msg x).fragOwner = some o ∧ (s.msg x).fragId = (s.msg o).fragId
  frags : ∀ o fs, .vector o fs ∈ items → ∀ f ∈ fs, (s.msg f).nfrag = 0
  unique : ∀ x ∈ s.omsgq, ∀ y ∈ s.omsgq, (s.msg x).fragId = (s.msg y).fragId →
    (s.msg x).fragId ≠ 0 → (s.msg x).fragOwner = (s.msg y).fragOwner

/-- No verdict was taken yet, and the owners have counted the fragments that are done. -/
structure Start (items : List Item) (s : St) : Prop where
  queue : Queue items s
  fdone : ∀ x ∈ s.omsgq, (s.msg x).fdone = false
  ferror : ∀ x ∈ s.omsgq, (s.msg x).ferror = false
  count : ∀ o fs, .vector o fs ∈ items →
    fs.countP (fun f => (s.msg f).done) ≤ (s.msg o).nfragDone
  coalesced : s.coalesced = []

/-- The states reached by completions and verdicts on the requests of the queue, in any order, with
the requests for which `req_done` has returned true. -/
inductive Run (items : List Item) : St → List MsgId → Prop
  | start {s : St} (h : Start items s) : Run items s []
  | complete {s : St} {yes : List MsgId} {m : MsgId} {error : Bool} (h : Run items s yes)
      (hm : m ∈ s.omsgq) : Run items (complete m error s) yes
  | done {s : St} {yes : List MsgId} {m : MsgId} (h : Run items s yes) (hm : m ∈ s.omsgq) :
      Run items (reqDone m s).2 (if (reqDone m s).1 then yes ++ [m] else yes)
  | error {s : St} {yes : List MsgId} {m : MsgId} (h : Run items s yes) (hm : m ∈ s.omsgq) :
      Run items (reqError m s).2 yes

/-- A request is done: itself and, if it is in a vector, all of the vector, and the owner of a
vector has counted all its fragments. -/
def Done (items : List Item) (s : St) (m : MsgId) : Prop :=
  (s.msg m).done = true ∧ ∀ o fs, .vector o fs ∈ items → m ∈ o :: fs →
    (s.msg m).nfrag ≤ (s.msg m).nfragDone ∧ ∀ x ∈ o :: fs, (s.msg x).done = true

/-- A request is in error: itself or a request of its vector. -/
def Failed (items : List Item) (s : St) (m : MsgId) : Prop :=
  (s.msg m).error = true ∨ ∃ o fs, .vector o fs ∈ items ∧ m ∈ o :: fs ∧
    ∃ x ∈ o :: fs, (s.msg x).error = true

/-! ## The requests of a vector are found -/

section Scan

variable {items : List Item} {s : St} {m o : MsgId} {fs a b : List MsgId}

/-- Items of a queue do not share a request. -/
lemma Queue.item_eq (hq : Queue items s) {i j : Item} (hi : i ∈ items) (hj : j ∈ items)
    (hmi : m ∈ i.members) (hmj : m ∈ j.members) : i = j := by
  have hnodup := hq.nodup
  rw [hq.queue, List.nodup_flatMap] at hnodup
  have hsymm : Std.Symm (Function.onFun List.Disjoint Item.members) :=
    ⟨fun _ _ h x hx hy => h hy hx⟩
  by_contra hne
  exact hnodup.2.forall hi hj hne hmi hmj

/-- The members of an item are in the queue. -/
lemma Queue.mem_omsgq (hq : Queue items s) {i : Item} (hi : i ∈ items) (hm : m ∈ i.members) :
    m ∈ s.omsgq := by
  rw [hq.queue]
  exact List.mem_flatMap.mpr ⟨i, hi, hm⟩

/-- A request that carries the fragment id of a vector belongs to it. -/
lemma Queue.mem_of_fragId_eq (hq : Queue items s) (hv : .vector o fs ∈ items) (hm : m ∈ o :: fs)
    {x : MsgId} (hx : x ∈ s.omsgq) (he : (s.msg x).fragId = (s.msg m).fragId) : x ∈ o :: fs := by
  have hmq : m ∈ s.omsgq := hq.mem_omsgq hv hm
  have hne : (s.msg m).fragId ≠ 0 := (hq.members o fs hv m hm).2 ▸ hq.fragId o fs hv
  have howner : (s.msg x).fragOwner = some o :=
    (hq.unique x hx m hmq he (he ▸ hne)).trans (hq.members o fs hv m hm).1
  rw [hq.queue] at hx
  obtain ⟨i, hi, hxi⟩ := List.mem_flatMap.mp hx
  cases i with
  | single y =>
    obtain rfl : x = y := by simpa [Item.members] using hxi
    exact absurd (hq.single x hi) (he ▸ hne)
  | vector o' fs' =>
    have ho : o' = o := Option.some.inj ((hq.members o' fs' hi x hxi).1.symm.trans howner)
    subst ho
    have hitem := hq.item_eq hi hv (List.mem_cons_self) (List.mem_cons_self)
    rw [Item.vector.injEq] at hitem
    rw [← hitem.2]
    exact hxi

/-- A scan stops where its condition fails. -/
lemma takeWhile_append_of_none {p : MsgId → Bool} (ha : ∀ x ∈ a, p x = true)
    (hb : ∀ x ∈ b, p x = false) : (a ++ b).takeWhile p = a := by
  rw [List.takeWhile_append_of_pos ha]
  cases b with
  | nil => simp
  | cons x b => simp [hb x (by simp)]

/-- The two scans from a request find the rest of its vector, and nothing else. -/
lemma Queue.fragRun_eq (hq : Queue items s) (hv : .vector o fs ∈ items) (hm : m ∈ o :: fs) :
    ∃ a b, o :: fs = a ++ m :: b ∧ s.fragRun m = a.reverse ++ b := by
  obtain ⟨a, b, hab⟩ := List.append_of_mem hm
  obtain ⟨l, r, hitems⟩ := List.append_of_mem hv
  obtain ⟨pre, post, hsplit⟩ : ∃ pre post, s.omsgq = (pre ++ a) ++ m :: (b ++ post) := by
    refine ⟨l.flatMap Item.members, r.flatMap Item.members, ?_⟩
    rw [hq.queue, hitems, List.flatMap_append, List.flatMap_cons, Item.members, hab]
    simp
  refine ⟨a, b, hab, ?_⟩
  have hnodup := hq.nodup
  rw [hsplit] at hnodup
  have hma : m ∉ pre ++ a := fun h =>
    (List.nodup_append.mp hnodup).2.2 m h m List.mem_cons_self rfl
  have hsame : ∀ x ∈ o :: fs, decide ((s.msg x).fragId = (s.msg m).fragId) = true := fun x hx =>
    decide_eq_true ((hq.members o fs hv x hx).2.trans (hq.members o fs hv m hm).2.symm)
  have hother : ∀ x ∈ s.omsgq, x ∉ o :: fs →
      decide ((s.msg x).fragId = (s.msg m).fragId) = false := fun x hx hxv =>
    decide_eq_false fun he => hxv (hq.mem_of_fragId_eq hv hm hx he)
  -- the neighbours of the vector are not in it
  have hpre : ∀ x ∈ pre.reverse, decide ((s.msg x).fragId = (s.msg m).fragId) = false := by
    intro x hx
    refine hother x (by rw [hsplit]; simp_all) fun hxv => ?_
    rw [hab] at hxv
    grind
  have hpost : ∀ x ∈ post, decide ((s.msg x).fragId = (s.msg m).fragId) = false := by
    intro x hx
    refine hother x (by rw [hsplit]; simp_all) fun hxv => ?_
    rw [hab] at hxv
    grind
  obtain ⟨hbefore, hafter⟩ := @tailq_split m (pre ++ a) (b ++ post) hma
  rw [← hsplit] at hbefore hafter
  simp only [St.fragRun, hbefore, hafter, List.reverse_append]
  rw [takeWhile_append_of_none (fun x hx => hsame x (by rw [hab]; simp_all)) hpre,
    takeWhile_append_of_none (fun x hx => hsame x (by rw [hab]; simp_all)) hpost]

/-- The requests that a verdict on a vector marks are those of the vector. -/
lemma Queue.mem_marked (hq : Queue items s) (hv : .vector o fs ∈ items) (hm : m ∈ o :: fs)
    {x : MsgId} : x ∈ m :: s.fragRun m ↔ x ∈ o :: fs := by
  obtain ⟨a, b, hab, hrun⟩ := hq.fragRun_eq hv hm
  rw [hab, hrun]
  simp only [List.mem_cons, List.mem_append, List.mem_reverse]
  tauto

end Scan

/-! ## The invariant -/

/-- What the marks mean, and that the owners have counted the fragments that are done. -/
structure Inv (items : List Item) (s : St) (yes : List MsgId) : Prop where
  queue : Queue items s
  count : ∀ o fs, .vector o fs ∈ items →
    fs.countP (fun f => (s.msg f).done) ≤ (s.msg o).nfragDone
  fdone : ∀ o fs, .vector o fs ∈ items → ∀ x ∈ o :: fs,
    (s.msg x).fdone = true ↔ some o ∈ s.coalesced
  done : ∀ o fs, .vector o fs ∈ items → some o ∈ s.coalesced →
    ∀ x ∈ o :: fs, (s.msg x).done = true
  ferror : ∀ o fs, .vector o fs ∈ items → ∀ x ∈ o :: fs, (s.msg x).ferror = true →
    ∃ y ∈ o :: fs, (s.msg y).error = true
  called : ∀ o fs, .vector o fs ∈ items → (some o ∈ s.coalesced ↔ ∃ x ∈ o :: fs, x ∈ yes)
  nodup : s.coalesced.Nodup

section Inv

variable {items : List Item} {s : St} {yes : List MsgId} {m o : MsgId} {fs : List MsgId}
  {error : Bool}

/-- At the start nothing has been completed. -/
lemma Start.inv (h : Start items s) : Inv items s [] where
  queue := h.queue
  count := h.count
  fdone o fs hv x hx := by
    simp [h.coalesced, h.fdone x (h.queue.mem_omsgq hv hx)]
  done o fs hv ho := by simp [h.coalesced] at ho
  ferror o fs hv x hx hf := by simp [h.ferror x (h.queue.mem_omsgq hv hx)] at hf
  called o fs hv := by simp [h.coalesced]
  nodup := by simp [h.coalesced]

/-- The structure of the queue depends on three fields only. -/
lemma Queue.congr {s' : St} (hq : Queue items s) (homsgq : s'.omsgq = s.omsgq)
    (hmsg : ∀ x, (s'.msg x).fragId = (s.msg x).fragId ∧ (s'.msg x).nfrag = (s.msg x).nfrag ∧
      (s'.msg x).fragOwner = (s.msg x).fragOwner) : Queue items s' := by
  have hid := fun x => (hmsg x).1
  have hnf := fun x => (hmsg x).2.1
  have how := fun x => (hmsg x).2.2
  constructor
  · rw [homsgq, hq.queue]
  · rw [homsgq]
    exact hq.nodup
  · simpa only [hid] using hq.single
  · simpa only [hid] using hq.fragId
  · simpa only [hnf] using hq.nfrag
  · simpa only [hid, how] using hq.members
  · simpa only [hnf] using hq.frags
  · simpa only [homsgq, hid, how] using hq.unique

/-- If all requests of a vector are done, its owner has counted them. -/
lemma Inv.nfrag_le (h : Inv items s yes) (hv : .vector o fs ∈ items)
    (hd : ∀ x ∈ o :: fs, (s.msg x).done = true) {x : MsgId} (hx : x ∈ o :: fs) :
    (s.msg x).nfrag ≤ (s.msg x).nfragDone := by
  rcases List.mem_cons.mp hx with rfl | hf
  · have hall : fs.countP (fun f => (s.msg f).done) = fs.length :=
      List.countP_eq_length.mpr fun f hf => hd f (by simp [hf])
    have hcount := h.count x fs hv
    rw [h.queue.nfrag x fs hv]
    omega
  · rw [h.queue.frags o fs hv x hf]
    exact Nat.zero_le _

/-! ### `req_done` -/

/-- Which item a request of the queue is in. -/
lemma Queue.exists_item (hq : Queue items s) (hm : m ∈ s.omsgq) :
    .single m ∈ items ∨ ∃ o fs, .vector o fs ∈ items ∧ m ∈ o :: fs := by
  rw [hq.queue] at hm
  obtain ⟨i, hi, hmi⟩ := List.mem_flatMap.mp hm
  cases i with
  | single x =>
    obtain rfl : m = x := by simpa [Item.members] using hmi
    exact .inl hi
  | vector o fs => exact .inr ⟨o, fs, hi, hmi⟩

/-- A single request is in no vector. -/
lemma Queue.not_mem_vector (hq : Queue items s) (hs : .single m ∈ items)
    (hv : .vector o fs ∈ items) : m ∉ o :: fs := by
  intro hm
  have hitem := hq.item_eq hs hv (List.mem_singleton_self m) hm
  cases hitem

/-- Each vector has its own requests. -/
lemma Queue.vector_eq (hq : Queue items s) {o' : MsgId} {fs' : List MsgId}
    (hv : .vector o fs ∈ items) (hv' : .vector o' fs' ∈ items) (hm : m ∈ o :: fs)
    (hm' : m ∈ o' :: fs') : o = o' ∧ fs = fs' := by
  have hitem := hq.item_eq hv hv' hm hm'
  rwa [Item.vector.injEq] at hitem

/-- **What `req_done` does on a single request.** -/
lemma Inv.reqDone_single (h : Inv items s yes) (hs : .single m ∈ items) :
    reqDone m s = ((s.msg m).done, s) := by
  have hid := h.queue.single m hs
  cases hd : (s.msg m).done <;> simp [reqDone, hd, hid]

/-- All requests of the vector of `m` are marked. -/
def St.marked (s : St) (o m : MsgId) : St :=
  let s' := s.modMsgs (m :: s.fragRun m) fun x => { x with fdone := true }
  { s' with coalesced := s.coalesced ++ [some o] }

/-- **What `req_done` does on a request of a vector**: it is not done, or was marked before, or all
of its vector is marked now. -/
lemma Inv.reqDone_vector (h : Inv items s yes) (hv : .vector o fs ∈ items) (hm : m ∈ o :: fs) :
    (reqDone m s = (false, s) ∧ some o ∉ s.coalesced ∧ ¬∀ x ∈ o :: fs, (s.msg x).done = true) ∨
    (reqDone m s = (true, s) ∧ some o ∈ s.coalesced) ∨
    (reqDone m s = (true, s.marked o m) ∧ some o ∉ s.coalesced ∧
      ∀ x ∈ o :: fs, (s.msg x).done = true) := by
  have hid : (s.msg m).fragId ≠ 0 := (h.queue.members o fs hv m hm).2 ▸ h.queue.fragId o fs hv
  have howner := (h.queue.members o fs hv m hm).1
  by_cases hcalled : some o ∈ s.coalesced
  · -- the vector was marked before
    have hd := h.done o fs hv hcalled m hm
    have hf := (h.fdone o fs hv m hm).mpr hcalled
    exact .inr (.inl ⟨by simp [reqDone, hd, hid, hf], hcalled⟩)
  have hf : (s.msg m).fdone = false := by
    simpa using mt (h.fdone o fs hv m hm).mp hcalled
  have hmarked : ∀ x, x ∈ m :: s.fragRun m ↔ x ∈ o :: fs := fun x => h.queue.mem_marked hv hm
  by_cases hall : ∀ x ∈ o :: fs, (s.msg x).done = true
  · have hn : ¬(s.msg m).nfragDone < (s.msg m).nfrag := not_lt.mpr (h.nfrag_le hv hall hm)
    have hany : (s.fragRun m).any (fun x => !(s.msg x).done) = false := by
      rw [List.any_eq_false]
      intro x hx
      simp [hall x ((hmarked x).mp (by simp [hx]))]
    refine .inr (.inr ⟨?_, hcalled, hall⟩)
    simp only [reqDone, hall m hm, hid, hf, hn, hany, howner]
    rfl
  · refine .inl ⟨?_, hcalled, hall⟩
    by_cases hd : (s.msg m).done = true
    swap
    · simp [reqDone, hd]
    have hany : (s.fragRun m).any (fun x => !(s.msg x).done) = true := by
      obtain ⟨x, hx, hxd⟩ : ∃ x ∈ o :: fs, ¬(s.msg x).done = true := by
        by_contra hno
        exact hall fun x hx => by_contra fun hxd => hno ⟨x, hx, hxd⟩
      rcases List.mem_cons.mp ((hmarked x).mpr hx) with rfl | hx
      · exact absurd hd hxd
      · exact List.any_eq_true.mpr ⟨x, hx, by simpa using hxd⟩
    simp [reqDone, hd, hid, hf, hany]

/-- A true answer for a single request says nothing about the vectors. -/
lemma Inv.yes_single (h : Inv items s yes) (hs : .single m ∈ items) : Inv items s (yes ++ [m]) where
  queue := h.queue
  count := h.count
  fdone := h.fdone
  done := h.done
  ferror := h.ferror
  nodup := h.nodup
  called o fs hv := by
    rw [h.called o fs hv]
    refine exists_congr fun x => and_congr_right fun hx => ?_
    have hne : x ≠ m := fun he => h.queue.not_mem_vector hs hv (he ▸ hx)
    simp [hne]

/-- One more true answer for a vector that was called back for. -/
lemma Inv.yes_vector (h : Inv items s yes) (hv : .vector o fs ∈ items) (hm : m ∈ o :: fs)
    (hc : some o ∈ s.coalesced) : Inv items s (yes ++ [m]) where
  queue := h.queue
  count := h.count
  fdone := h.fdone
  done := h.done
  ferror := h.ferror
  nodup := h.nodup
  called o' fs' hv' := by
    by_cases hm' : m ∈ o' :: fs'
    · obtain ⟨rfl, rfl⟩ := h.queue.vector_eq hv hv' hm hm'
      exact ⟨fun _ => ⟨m, hm, by simp⟩, fun _ => hc⟩
    · rw [h.called o' fs' hv']
      refine exists_congr fun x => and_congr_right fun hx => ?_
      have hne : x ≠ m := fun he => hm' (he ▸ hx)
      simp [hne]

/-- The first true answer for a vector. -/
lemma Inv.mark (h : Inv items s yes) (hv : .vector o fs ∈ items) (hm : m ∈ o :: fs)
    (hc : some o ∉ s.coalesced) (hall : ∀ x ∈ o :: fs, (s.msg x).done = true) :
    Inv items (s.marked o m) (yes ++ [m]) := by
  have hmarked : ∀ x, x ∈ m :: s.fragRun m ↔ x ∈ o :: fs := fun x => h.queue.mem_marked hv hm
  -- only `fdone` changes
  have hmsg : ∀ x, (s.marked o m).msg x =
      { s.msg x with fdone := (s.msg x).fdone || decide (x ∈ o :: fs) } := by
    intro x
    by_cases hx : x ∈ o :: fs
    · simp only [St.marked, St.modMsgs, (hmarked x).mpr hx, if_true, hx, decide_true, Bool.or_true]
    · simp only [St.marked, St.modMsgs, mt (hmarked x).mp hx, if_false, hx, decide_false,
        Bool.or_false]
  have hcoalesced : (s.marked o m).coalesced = s.coalesced ++ [some o] := rfl
  have hother : ∀ o' fs', .vector o' fs' ∈ items → (o' = o ↔ m ∈ o' :: fs') := by
    intro o' fs' hv'
    constructor
    · rintro rfl
      rwa [(h.queue.vector_eq hv' hv List.mem_cons_self List.mem_cons_self).2]
    · intro hm'
      exact (h.queue.vector_eq hv' hv hm' hm).1
  constructor
  · exact h.queue.congr rfl fun x => by simp [hmsg]
  · simpa only [hmsg] using h.count
  · intro o' fs' hv' x hx
    rw [hmsg, hcoalesced, List.mem_append, List.mem_singleton, Bool.or_eq_true,
      h.fdone o' fs' hv' x hx, decide_eq_true_eq, Option.some.injEq]
    refine or_congr_right ?_
    constructor
    · intro hx'
      exact (h.queue.vector_eq hv' hv hx hx').1
    · rintro rfl
      rwa [← (h.queue.vector_eq hv' hv List.mem_cons_self List.mem_cons_self).2]
  · intro o' fs' hv' hc' x hx
    rw [hmsg]
    rw [hcoalesced, List.mem_append, List.mem_singleton, Option.some.injEq] at hc'
    rcases hc' with hc' | rfl
    · exact h.done o' fs' hv' hc' x hx
    · rw [(h.queue.vector_eq hv' hv List.mem_cons_self List.mem_cons_self).2] at hx
      exact hall x hx
  · simpa only [hmsg] using h.ferror
  · intro o' fs' hv'
    rw [hcoalesced, List.mem_append, List.mem_singleton, Option.some.injEq, h.called o' fs' hv',
      hother o' fs' hv']
    simp only [List.mem_append, List.mem_singleton]
    constructor
    · rintro (⟨x, hx, hy⟩ | hm')
      · exact ⟨x, hx, .inl hy⟩
      · exact ⟨m, hm', .inr rfl⟩
    · rintro ⟨x, hx, hy | rfl⟩
      · exact .inl ⟨x, hx, hy⟩
      · exact .inr hx
  · rw [hcoalesced, List.nodup_append]
    refine ⟨h.nodup, by simp, fun x hx y hy => ?_⟩
    rw [List.mem_singleton.mp hy]
    exact fun he => hc (he ▸ hx)

/-- **`req_done` keeps the invariant.** -/
lemma Inv.afterDone (h : Inv items s yes) (hm : m ∈ s.omsgq) :
    Inv items (reqDone m s).2 (if (reqDone m s).1 then yes ++ [m] else yes) := by
  rcases h.queue.exists_item hm with hs | ⟨o, fs, hv, hmv⟩
  · rw [h.reqDone_single hs]
    cases (s.msg m).done with
    | false => exact h
    | true => exact h.yes_single hs
  · rcases h.reqDone_vector hv hmv with ⟨hr, -, -⟩ | ⟨hr, hc⟩ | ⟨hr, hc, hall⟩
    · rw [hr]
      exact h
    · rw [hr]
      exact h.yes_vector hv hmv hc
    · rw [hr]
      exact h.mark hv hmv hc hall

/-! ### `req_error` -/

/-- All requests of a vector that has an error are marked. -/
lemma Inv.markError (h : Inv items s yes) (hv : .vector o fs ∈ items) (hm : m ∈ o :: fs)
    (he : ∃ y ∈ o :: fs, (s.msg y).error = true) :
    Inv items (s.modMsgs (m :: s.fragRun m) fun x => { x with ferror := true }) yes := by
  have hmarked : ∀ x, x ∈ m :: s.fragRun m ↔ x ∈ o :: fs := fun x => h.queue.mem_marked hv hm
  have hmsg : ∀ x, (s.modMsgs (m :: s.fragRun m) fun x => { x with ferror := true }).msg x =
      { s.msg x with ferror := (s.msg x).ferror || decide (x ∈ o :: fs) } := by
    intro x
    by_cases hx : x ∈ o :: fs
    · simp only [St.modMsgs, (hmarked x).mpr hx, if_true, hx, decide_true, Bool.or_true]
    · simp only [St.modMsgs, mt (hmarked x).mp hx, if_false, hx, decide_false, Bool.or_false]
  constructor
  · exact h.queue.congr rfl fun x => by simp [hmsg]
  · simpa only [hmsg] using h.count
  · simpa only [hmsg, St.modMsgs_coalesced] using h.fdone
  · simpa only [hmsg, St.modMsgs_coalesced] using h.done
  · intro o' fs' hv' x hx hf
    rw [hmsg, Bool.or_eq_true, decide_eq_true_eq] at hf
    simp only [hmsg]
    rcases hf with hf | hx'
    · exact h.ferror o' fs' hv' x hx hf
    · obtain ⟨rfl, rfl⟩ := h.queue.vector_eq hv' hv hx hx'
      exact he
  · exact h.called
  · exact h.nodup

/-- In a vector, a request is in error if one of the vector is. -/
lemma Inv.failed_iff (h : Inv items s yes) (hv : .vector o fs ∈ items) (hm : m ∈ o :: fs) :
    Failed items s m ↔ ∃ y ∈ o :: fs, (s.msg y).error = true := by
  constructor
  · rintro (he | ⟨o', fs', hv', hm', he⟩)
    · exact ⟨m, hm, he⟩
    · obtain ⟨rfl, rfl⟩ := h.queue.vector_eq hv' hv hm' hm
      exact he
  · intro he
    exact .inr ⟨o, fs, hv, hm, he⟩

/-- **What `req_error` does**: it answers for the request or its vector, and marks the vector at
most. -/
lemma Inv.afterError (h : Inv items s yes) (hm : m ∈ s.omsgq) :
    ((reqError m s).1 = true ↔ Failed items s m) ∧
      Inv items (reqError m s).2 yes ∧
      (reqError m s).2.coalesced = s.coalesced := by
  by_cases he : (s.msg m).error = true
  · have hr : reqError m s = (true, s) := by simp [reqError, he]
    rw [hr]
    exact ⟨iff_of_true rfl (.inl he), h, rfl⟩
  rcases h.queue.exists_item hm with hs | ⟨o, fs, hv, hmv⟩
  · have hid := h.queue.single m hs
    have hr : reqError m s = (false, s) := by simp [reqError, he, hid]
    rw [hr]
    refine ⟨iff_of_false Bool.false_ne_true ?_, h, rfl⟩
    rintro (he' | ⟨o, fs, hv, hmv, -⟩)
    · exact he he'
    · exact h.queue.not_mem_vector hs hv hmv
  have hid : (s.msg m).fragId ≠ 0 := (h.queue.members o fs hv m hmv).2 ▸ h.queue.fragId o fs hv
  have hmarked : ∀ x, x ∈ m :: s.fragRun m ↔ x ∈ o :: fs := fun x => h.queue.mem_marked hv hmv
  rw [h.failed_iff hv hmv]
  by_cases hf : (s.msg m).ferror = true
  · -- the vector was marked before
    have hr : reqError m s = (true, s) := by simp [reqError, he, hid, hf]
    rw [hr]
    exact ⟨iff_of_true rfl (h.ferror o fs hv m hmv hf), h, rfl⟩
  by_cases hany : (s.fragRun m).any (fun x => (s.msg x).error) = true
  · have hr : reqError m s =
        (true, s.modMsgs (m :: s.fragRun m) fun x => { x with ferror := true }) := by
      simp [reqError, he, hid, hf, hany]
    obtain ⟨y, hy, hye⟩ := List.any_eq_true.mp hany
    have hex : ∃ y ∈ o :: fs, (s.msg y).error = true :=
      ⟨y, (hmarked y).mp (List.mem_cons_of_mem m hy), hye⟩
    rw [hr]
    exact ⟨iff_of_true rfl hex, h.markError hv hmv hex, rfl⟩
  · have hr : reqError m s = (false, s) := by
      simp only [Bool.not_eq_true] at hany
      simp [reqError, he, hid, hf, hany]
    rw [hr]
    refine ⟨iff_of_false Bool.false_ne_true ?_, h, rfl⟩
    rintro ⟨y, hy, hye⟩
    rcases List.mem_cons.mp ((hmarked y).mpr hy) with rfl | hy
    · exact he hye
    · exact hany (List.any_eq_true.mpr ⟨y, hy, hye⟩)

/-! ### Completions -/

/-- One more element of a list without duplicates. -/
lemma countP_or_le {p : MsgId → Bool} {xs : List MsgId} (hn : xs.Nodup) :
    xs.countP (fun x => p x || decide (x = m)) ≤ xs.countP p + if m ∈ xs then 1 else 0 := by
  induction xs with
  | nil => simp
  | cons x xs ih =>
    obtain ⟨hx, hn⟩ := List.nodup_cons.mp hn
    have hrest := ih hn
    by_cases hxm : x = m
    · subst hxm
      rw [if_neg hx] at hrest
      simp only [List.countP_cons, List.mem_cons, true_or, if_true, decide_true, Bool.or_true]
      split_ifs <;> omega
    · have hmx : (m ∈ x :: xs) = (m ∈ xs) := by simp [Ne.symm hxm]
      simp only [List.countP_cons, hmx, hxm, decide_false, Bool.or_false]
      omega

/-- The fields of the requests behind a completion. -/
lemma complete_msg (m : MsgId) (error : Bool) (s : St) (x : MsgId) :
    (complete m error s).msg x = { s.msg x with
      done := (s.msg x).done || decide (x = m)
      error := (s.msg x).error || (decide (x = m) && error)
      nfragDone := (s.msg x).nfragDone + if s.fragOf m = some x then 1 else 0 } := by
  obtain ⟨s', hs'⟩ : ∃ s', s' =
    s.modMsgs [m] fun x => { x with done := true, error := x.error || error } := ⟨_, rfl⟩
  have hmsg : s'.msg x = { s.msg x with
      done := (s.msg x).done || decide (x = m)
      error := (s.msg x).error || (decide (x = m) && error) } := by
    by_cases hx : x = m <;> simp [hs', St.modMsgs, hx]
  have hfrag : s'.fragOf m = s.fragOf m := by
    simp [hs', St.fragOf, St.modMsgs]
  simp only [complete, ← hs', hfrag]
  cases hf : s.fragOf m with
  | none => simp [hmsg]
  | some o =>
    by_cases hx : x = o
    · subst hx
      simp [St.modMsgs, hmsg]
    · simp [St.modMsgs, hmsg, hx, Ne.symm hx]

/-- Completing a request coalesces nothing. -/
@[simp] lemma complete_coalesced (m : MsgId) (error : Bool) (s : St) :
    (complete m error s).coalesced = s.coalesced := by
  simp only [complete]
  split <;> rfl

/-- Completing a request does not change the queue. -/
@[simp] lemma complete_omsgq (m : MsgId) (error : Bool) (s : St) :
    (complete m error s).omsgq = s.omsgq := by
  simp only [complete]
  split <;> rfl

/-- The owner counts a fragment that is completed. -/
lemma Queue.fragOf_frag (hq : Queue items s) (hv : .vector o fs ∈ items) (hf : m ∈ fs) :
    s.fragOf m = some o := by
  have hnodup : (o :: fs).Nodup := by
    have hall := hq.nodup
    rw [hq.queue, List.nodup_flatMap] at hall
    exact hall.1 _ hv
  have hne : o ≠ m := fun h => (List.nodup_cons.mp hnodup).1 (h ▸ hf)
  simp [St.fragOf, (hq.members o fs hv m (by simp [hf])).1, hne]

/-- **A completion keeps the invariant.** -/
lemma Inv.afterComplete (h : Inv items s yes) :
    Inv items (complete m error s) yes := by
  constructor
  · exact h.queue.congr (complete_omsgq m error s) fun x => by simp [complete_msg]
  · intro o fs hv
    have hnodup : fs.Nodup := by
      have hall := h.queue.nodup
      rw [h.queue.queue, List.nodup_flatMap] at hall
      exact (List.nodup_cons.mp (hall.1 _ hv)).2
    have hcount := h.count o fs hv
    have hor := countP_or_le (m := m) (p := fun x => (s.msg x).done) hnodup
    simp only [complete_msg]
    by_cases hf : m ∈ fs
    · rw [if_pos (h.queue.fragOf_frag hv hf)]
      rw [if_pos hf] at hor
      omega
    · rw [if_neg hf] at hor
      omega
  · simpa only [complete_msg, complete_coalesced] using h.fdone
  · intro o fs hv hc x hx
    rw [complete_coalesced] at hc
    rw [complete_msg, Bool.or_eq_true]
    exact .inl (h.done o fs hv hc x hx)
  · intro o fs hv x hx hf
    rw [complete_msg] at hf
    obtain ⟨y, hy, hye⟩ := h.ferror o fs hv x hx hf
    refine ⟨y, hy, ?_⟩
    rw [complete_msg, Bool.or_eq_true]
    exact .inl hye
  · simpa only [complete_coalesced] using h.called
  · simpa only [complete_coalesced] using h.nodup

end Inv

/-! ## Runs -/

section Runs

variable {items : List Item} {s : St} {yes : List MsgId} {m : MsgId}

/-- **The invariant holds in every state that is reached.** -/
theorem Run.inv (h : Run items s yes) : Inv items s yes := by
  induction h with
  | start h => exact h.inv
  | complete _ _ ih => exact ih.afterComplete
  | done _ hm ih => exact ih.afterDone hm
  | error _ hm ih => exact (ih.afterError hm).2.1

/-- **`req_done` is right.** -/
lemma Inv.reqDone_iff (h : Inv items s yes) (hm : m ∈ s.omsgq) :
    (reqDone m s).1 = true ↔ Done items s m := by
  rcases h.queue.exists_item hm with hs | ⟨o, fs, hv, hmv⟩
  · rw [h.reqDone_single hs]
    constructor
    · intro hd
      exact ⟨hd, fun o fs hv hmv => absurd hmv (h.queue.not_mem_vector hs hv)⟩
    · intro hd
      exact hd.1
  have hdone : (∀ x ∈ o :: fs, (s.msg x).done = true) → Done items s m := by
    intro hall
    refine ⟨hall m hmv, fun o' fs' hv' hm' => ?_⟩
    obtain ⟨rfl, rfl⟩ := h.queue.vector_eq hv hv' hmv hm'
    exact ⟨h.nfrag_le hv hall hmv, hall⟩
  rcases h.reqDone_vector hv hmv with ⟨hr, -, hall⟩ | ⟨hr, hc⟩ | ⟨hr, -, hall⟩
  · rw [hr]
    exact iff_of_false Bool.false_ne_true fun hd => hall (hd.2 o fs hv hmv).2
  · rw [hr]
    exact iff_of_true rfl (hdone (h.done o fs hv hc))
  · rw [hr]
    exact iff_of_true rfl (hdone hall)

/-- **When the callback is called.** -/
lemma Inv.reqDone_coalesced (h : Inv items s yes) {o : MsgId} {fs : List MsgId}
    (hv : .vector o fs ∈ items) (hm : m ∈ o :: fs) :
    (reqDone m s).2.coalesced =
      if (reqDone m s).1 = true ∧ ∀ x ∈ o :: fs, x ∉ yes then s.coalesced ++ [some o]
      else s.coalesced := by
  have hcalled : (∀ x ∈ o :: fs, x ∉ yes) ↔ some o ∉ s.coalesced := by
    rw [h.called o fs hv]
    simp
  rcases h.reqDone_vector hv hm with ⟨hr, -, -⟩ | ⟨hr, hc⟩ | ⟨hr, hc, -⟩
  · rw [hr, if_neg fun hyes => Bool.false_ne_true hyes.1]
  · rw [hr, if_neg fun hyes => hcalled.mp hyes.2 hc]
  · rw [hr, if_pos ⟨rfl, hcalled.mpr hc⟩]
    rfl

/-- **The verdicts on fragment vectors are right**, and the post-coalesce callback is called once
for a vector, with the first true answer for it.

**Proof sketch.** The two scans from a request find exactly its vector, as that is contiguous and
its fragment id is its own.  So the mark of `req_done` is on all requests of a vector or on none,
which is the case exactly if the callback was called, and then all requests of the vector are done;
the mark of `req_error` is on requests of vectors with an error only. -/
theorem Run.verdicts (h : Run items s yes) :
    (∀ m ∈ s.omsgq,
      ((reqDone m s).1 = true ↔ Done items s m) ∧
      ((reqError m s).1 = true ↔ Failed items s m) ∧
      (reqError m s).2.coalesced = s.coalesced ∧
      (.single m ∈ items → (reqDone m s).2.coalesced = s.coalesced) ∧
      ∀ error, (Verdict.complete m error s).coalesced = s.coalesced) ∧
    ∀ o fs, .vector o fs ∈ items →
      (s.coalesced.count (some o) = if ∃ x ∈ o :: fs, x ∈ yes then 1 else 0) ∧
      ∀ m ∈ o :: fs, (reqDone m s).2.coalesced =
        if (reqDone m s).1 = true ∧ ∀ x ∈ o :: fs, x ∉ yes then s.coalesced ++ [some o]
        else s.coalesced := by
  have hi := h.inv
  refine ⟨fun m hm => ?_, fun o fs hv => ⟨?_, fun m hm => hi.reqDone_coalesced hv hm⟩⟩
  · refine ⟨hi.reqDone_iff hm, (hi.afterError hm).1, (hi.afterError hm).2.2, fun hs => ?_,
      fun error => ?_⟩
    · rw [hi.reqDone_single hs]
    · exact complete_coalesced m error s
  · have hcalled := hi.called o fs hv
    split_ifs with hyes
    · exact List.count_eq_one_of_mem hi.nodup (hcalled.mpr hyes)
    · exact List.count_eq_zero.mpr fun hc => hyes (hcalled.mp hc)

end Runs

/-- A queue with a vector of one fragment and a single request. -/
def pairQueue : St where
  msg x :=
    if x = 1 then { fragId := 7, nfrag := 1, fragOwner := some 1 }
    else if x = 2 then { fragId := 7, fragOwner := some 1 }
    else {}
  omsgq := [1, 2, 3]

/-- The queue has a vector of two fragments and a single request. -/
lemma pairQueue_start : Start [.vector 1 [2], .single 3] pairQueue := by
  have hvec : ∀ {o : MsgId} {fs : List MsgId}, Item.vector o fs ∈ [Item.vector 1 [2], .single 3] →
      o = 1 ∧ fs = [2] := by
    intro o fs h
    simpa using h
  constructor
  · constructor
    · decide
    · decide
    · intro m hm
      obtain rfl : m = 3 := by simpa using hm
      decide
    · intro o fs hv
      obtain ⟨rfl, rfl⟩ := hvec hv
      decide
    · intro o fs hv
      obtain ⟨rfl, rfl⟩ := hvec hv
      decide
    · intro o fs hv
      obtain ⟨rfl, rfl⟩ := hvec hv
      decide
    · intro o fs hv
      obtain ⟨rfl, rfl⟩ := hvec hv
      decide
    · decide
  · decide
  · decide
  · intro o fs hv
    obtain ⟨rfl, rfl⟩ := hvec hv
    decide
  · decide

/-- The fragment is completed with an error, then the owner. -/
theorem pairQueue_verdicts :
    (reqDone 2 (complete 1 false (complete 2 true pairQueue))).2.coalesced = [some 1] := by
  have h2 : Run [.vector 1 [2], .single 3] (complete 2 true pairQueue) [] :=
    Run.complete (Run.start pairQueue_start) (by decide)
  have h : Run [.vector 1 [2], .single 3] (complete 1 false (complete 2 true pairQueue)) [] :=
    Run.complete h2 (by decide)
  exact ((Run.verdicts h).2 1 [2] (by decide)).2 2 (by decide)

/-! ## The verdicts in the proxy -/

section Proxy

/-- What the verdicts see of the state of the proxy. -/
def St.of (h : Heap) (c : ConnId) (coalesced : List (Option MsgId)) : St where
  msg x :=
    { done := (h.msg x).done, error := (h.msg x).error, fdone := (h.msg x).fdone
      ferror := (h.msg x).ferror, fragId := (h.msg x).fragId, nfrag := (h.msg x).nfrag
      nfragDone := (h.msg x).nfragDone, fragOwner := (h.msg x).fragOwner }
  omsgq := (h.conn c).omsgq
  coalesced := coalesced

/-- The callback changes the bytes of responses only. -/
lemma St.of_postCoalesce (h : Heap) (c : ConnId) (xs : List MsgId) (bytes : MsgId → List Mbuf)
    (calls : List (Option MsgId)) : St.of (h.postCoalesce xs bytes) c calls = St.of h c calls := by
  simp only [St.of, Heap.postCoalesce, Heap.modMsgs]
  congr 1
  funext x
  split_ifs <;> rfl

/-- Requests are marked as done. -/
lemma St.of_fdone (h : Heap) (c : ConnId) (xs : List MsgId) (calls : List (Option MsgId)) :
    St.of (h.modMsgs xs fun _ x => { x with fdone := true }) c calls =
      (St.of h c calls).modMsgs xs fun x => { x with fdone := true } := by
  simp only [St.of, Heap.modMsgs, St.modMsgs]
  congr 1
  funext x
  split_ifs <;> rfl

/-- **`req_done` of the proxy is this `req_done`.**

**Proof sketch.** Both run the same branches on the same marks; the scans are over the same queue,
with a bound on the rounds in the proxy. -/
theorem reqDone_heap (env : Env) (c : ConnId) (m : MsgId) (h : Heap) (calls : List (Option MsgId)) :
    After (GfwProxy.reqDone env c (some m)) (fun b h' =>
      reqDone m (St.of h c calls) =
        (b, St.of h' c (reqDone m (St.of h c calls)).2.coalesced)) h := by
  obtain ⟨s, hs⟩ : ∃ s, s = St.of h c calls := ⟨_, rfl⟩
  have hdone : (s.msg m).done = (h.msg m).done := by rw [hs]; rfl
  have hid : (s.msg m).fragId = (h.msg m).fragId := by rw [hs]; rfl
  have hfdone : (s.msg m).fdone = (h.msg m).fdone := by rw [hs]; rfl
  have hcount : (s.msg m).nfragDone < (s.msg m).nfrag ↔ (h.msg m).nfragDone < (h.msg m).nfrag := by
    rw [hs]
    rfl
  have hany : ((s.fragRun m).any fun x => !(s.msg x).done) =
      ((h.fragRun (h.conn c).omsgq m).any fun x => !(h.msg x).done) := by
    rw [hs]
    rfl
  -- an answer without a mark
  have hsame : ∀ {b : Bool}, reqDone m s = (b, s) →
      reqDone m s = (b, St.of h c (reqDone m s).2.coalesced) := by
    intro b hr
    rw [hr, hs]
    rfl
  rw [← hs]
  unfold GfwProxy.reqDone
  refine After.deref fun m' hm => After.getMsg ?_
  obtain rfl := Option.some.inj hm
  refine After.ite (fun h1 => After.pure (hsame ?_)) fun h1 => ?_
  · simp only [reqDone, hdone, h1, if_true]
  refine After.ite (fun h2 => After.pure (hsame ?_)) fun h2 => ?_
  · simp only [reqDone, hdone, h1, hid, h2, if_true, if_false,
      Bool.false_eq_true]
  refine After.ite (fun h3 => After.pure (hsame ?_)) fun h3 => ?_
  · simp only [reqDone, hdone, h1, hid, h2, hfdone, h3, if_true, if_false,
      Bool.false_eq_true]
  refine After.ite (fun h4 => After.pure (hsame ?_)) fun h4 => ?_
  · simp only [reqDone, hdone, h1, hid, h2, hfdone, h3, hcount, h4, if_true, if_false,
      Bool.false_eq_true]
  refine After.readHeap (After.readHeap ?_)
  refine After.ite (fun h5 => After.pure (hsame ?_)) fun h5 => ?_
  · simp only [reqDone, hdone, h1, hid, h2, hfdone, h3, hcount, h4, hany, h5, if_true, if_false,
      Bool.false_eq_true]
  refine After.modHeap (After.ask fun t => After.modHeap (After.pure ?_))
  rw [St.of_postCoalesce, St.of_fdone]
  simp only [reqDone, hdone, h1, hid, h2, hfdone, h3, hcount, h4, hany, h5, if_false,
    Bool.false_eq_true]
  rw [hs]
  rfl

/-- Requests are marked as in error. -/
lemma St.of_ferror (h : Heap) (c : ConnId) (xs : List MsgId) (calls : List (Option MsgId)) :
    St.of (h.modMsgs xs fun _ x => { x with ferror := true }) c calls =
      (St.of h c calls).modMsgs xs fun x => { x with ferror := true } := by
  simp only [St.of, Heap.modMsgs, St.modMsgs]
  congr 1
  funext x
  split_ifs <;> rfl

/-- **`req_error` of the proxy is this `req_error`.** -/
theorem reqError_heap (c : ConnId) (m : MsgId) (h : Heap) (calls : List (Option MsgId)) :
    After (GfwProxy.reqError c m) (fun b h' =>
      reqError m (St.of h c calls) = (b, St.of h' c calls)) h := by
  obtain ⟨s, hs⟩ : ∃ s, s = St.of h c calls := ⟨_, rfl⟩
  have herror : (s.msg m).error = (h.msg m).error := by rw [hs]; rfl
  have hid : (s.msg m).fragId = (h.msg m).fragId := by rw [hs]; rfl
  have hferror : (s.msg m).ferror = (h.msg m).ferror := by rw [hs]; rfl
  have hany : ((s.fragRun m).any fun x => (s.msg x).error) =
      ((h.fragRun (h.conn c).omsgq m).any fun x => (h.msg x).error) := by
    rw [hs]
    rfl
  -- an answer without a mark
  have hsame : ∀ {b : Bool}, reqError m s = (b, s) → reqError m s = (b, St.of h c calls) := by
    intro b hr
    rw [hr, hs]
  rw [← hs]
  unfold GfwProxy.reqError
  refine After.getMsg ?_
  refine After.ite (fun h1 => After.pure (hsame ?_)) fun h1 => ?_
  · simp only [reqError, herror, h1, if_true]
  refine After.ite (fun h2 => After.pure (hsame ?_)) fun h2 => ?_
  · simp only [reqError, herror, h1, hid, h2, if_true, if_false, Bool.false_eq_true]
  refine After.ite (fun h3 => After.pure (hsame ?_)) fun h3 => ?_
  · simp only [reqError, herror, h1, hid, h2, hferror, h3, if_true, if_false, Bool.false_eq_true]
  refine After.readHeap (After.readHeap ?_)
  refine After.ite (fun h4 => After.modHeap (After.pure ?_)) fun h4 => After.pure (hsame ?_)
  · rw [St.of_ferror]
    simp only [reqError, herror, h1, hid, h2, hferror, h3, hany, h4, if_true, if_false,
      Bool.false_eq_true]
    rw [hs]
    rfl
  · simp only [reqError, herror, h1, hid, h2, hferror, h3, hany, h4, if_false, Bool.false_eq_true]

/-! ### Completing a request -/

/-- A message is updated, and so is what the verdicts see of it. -/
lemma St.of_modMsg {h : Heap} {m : MsgId} {f : Msg → Msg} {g : Req → Req} (c : ConnId)
    (calls : List (Option MsgId))
    (hfg : (St.of (h.modMsg m f) c calls).msg m = g ((St.of h c calls).msg m)) :
    St.of (h.modMsg m f) c calls = (St.of h c calls).modMsgs [m] g := by
  have hmsg : (St.of (h.modMsg m f) c calls).msg = ((St.of h c calls).modMsgs [m] g).msg := by
    funext x
    rcases eq_or_ne x m with rfl | hne
    · rw [hfg]
      simp [St.modMsgs]
    · simp [St.of, St.modMsgs, Heap.modMsg, hne]
  exact congrArg (fun msg => ({ msg, omsgq := (h.conn c).omsgq, coalesced := calls } : St)) hmsg

/-- An update that the verdicts do not see. -/
lemma St.of_modMsg_same {h : Heap} {m : MsgId} {f : Msg → Msg} (c : ConnId)
    (calls : List (Option MsgId))
    (hf : (St.of (h.modMsg m f) c calls).msg m = (St.of h c calls).msg m) :
    St.of (h.modMsg m f) c calls = St.of h c calls := by
  rw [St.of_modMsg (g := id) c calls hf]
  simp [St.modMsgs]

/-- The owner of a fragment counts it. -/
lemma countFragment_heap (c : ConnId) (m : MsgId) (h : Heap) (calls : List (Option MsgId)) :
    After (countFragment m) (fun _ h' => St.of h' c calls =
      match (h.msg m).fragOwner with
      | none => St.of h c calls
      | some o => (St.of h c calls).modMsgs [o] fun x => { x with nfragDone := x.nfragDone + 1 })
      h := by
  unfold countFragment
  refine After.getMsg ?_
  cases ho : (h.msg m).fragOwner with
  | none => exact After.pure rfl
  | some o =>
    refine After.readHeap (After.readHeap (After.emit (After.modMsg (After.last (After.modMsg
      (After.pure ?_))))))
    rw [St.of_modMsg_same c calls (by simp [St.of, Heap.modMsg])]
    exact St.of_modMsg c calls (by simp [St.of, Heap.modMsg, Heap.emit])

/-- **`server_close` completes a request** that is not the owner of a vector with an error. -/
theorem complete_heap {h : Heap} {m : MsgId} (c : ConnId) (err : ℤ) (calls : List (Option MsgId))
    (hm : (h.msg m).fragOwner ≠ some m) :
    After (do
      modMsg m fun x => { x with done := true, error := true, err := err }
      countFragment m) (fun _ h' => St.of h' c calls = complete m true (St.of h c calls)) h := by
  refine After.modMsg ((countFragment_heap c m _ calls).mono fun _ h' hcount => ?_)
  have hdone := St.of_modMsg (h := h) (m := m)
    (f := fun x => { x with done := true, error := true, err := err })
    (g := fun x => { x with done := true, error := x.error || true }) c calls
    (by simp [St.of, Heap.modMsg])
  rw [hcount, hdone]
  have howner : ((h.modMsg m fun x =>
      { x with done := true, error := true, err := err }).msg m).fragOwner =
        (h.msg m).fragOwner := by
    simp [Heap.modMsg]
  rw [howner]
  unfold complete
  cases ho : (h.msg m).fragOwner with
  | none => simp [St.fragOf, St.modMsgs, St.of, ho]
  | some o =>
    have hne : o ≠ m := fun he => hm (he ▸ ho)
    simp [St.fragOf, St.modMsgs, St.of, ho, hne]

/-- **`req_make_reply` completes the owner of a vector** or a request that is in none. -/
theorem complete_reply {h : Heap} {m : MsgId} (c : ConnId) (calls : List (Option MsgId))
    (hm : ∀ o, (h.msg m).fragOwner = some o → o = m) :
    St.of (h.modMsg m fun x => { x with done := true }) c calls =
      complete m false (St.of h c calls) := by
  have hdone := St.of_modMsg (h := h) (m := m) (f := fun x => { x with done := true })
    (g := fun x => { x with done := true, error := x.error || false }) c calls
    (by simp [St.of, Heap.modMsg])
  rw [hdone]
  unfold complete
  cases ho : (h.msg m).fragOwner with
  | none => simp [St.fragOf, St.modMsgs, St.of, ho]
  | some o =>
    obtain rfl := hm o ho
    simp [St.fragOf, St.modMsgs, St.of, ho]

/-- Two updates of different requests commute. -/
lemma St.modMsgs_comm {s : St} {a b : MsgId} (hne : a ≠ b) (f g : Req → Req) :
    (s.modMsgs [a] f).modMsgs [b] g = (s.modMsgs [b] g).modMsgs [a] f := by
  simp only [St.modMsgs, List.mem_singleton, St.mk.injEq, and_true]
  funext x
  by_cases ha : x = a <;> by_cases hb : x = b <;> simp_all

/-- The error that the callback raises. -/
lemma raiseError_heap (c : ConnId) (p : MsgId) (err : Option ℤ) (h : Heap)
    (calls : List (Option MsgId)) :
    After (raiseError p err) (fun _ h' => St.of h' c calls =
      (St.of h c calls).modMsgs [p] fun x => { x with error := x.error || err.isSome }) h := by
  cases err with
  | none => exact After.pure (by simp [St.modMsgs])
  | some e =>
    exact After.last (After.modMsg
      (After.pure (St.of_modMsg c calls (by simp [St.of, Heap.modMsg]))))

/-- **`rsp_forward` completes a request**, marked `done` before, that is not the owner of a vector:
its callback counts a fragment, and may raise an error.

**Proof sketch.** The count, the mark of an error and the link to the response touch different
fields, so their order does not matter. -/
theorem complete_response {h : Heap} {m p : MsgId} (c : ConnId) (calls : List (Option MsgId))
    (hdone : (h.msg p).done = true) (hp : (h.msg p).fragOwner ≠ some p)
    (hid : (h.msg p).fragId = 0 → (h.msg p).fragOwner = none) :
    After (preCoalesceCb m p)
      (fun _ h' => ∃ error, St.of h' c calls = complete p error (St.of h c calls)) h := by
  have hmark : ∀ e : Bool, ((St.of h c calls).modMsgs [p] fun x =>
      { x with done := true, error := x.error || e }) =
        (St.of h c calls).modMsgs [p] fun x => { x with error := x.error || e } := by
    intro e
    simp only [St.modMsgs, List.mem_singleton, St.mk.injEq, and_true]
    funext x
    split_ifs with hx
    · subst hx
      simp [St.of, hdone]
    · rfl
  unfold preCoalesceCb
  refine After.getMsg (After.ite (fun h0 => After.pure ⟨false, ?_⟩) fun h0 => ?_)
  · unfold complete
    rw [hmark false]
    simp [St.fragOf, St.modMsgs, St.of, hid h0]
  refine (countFragment_heap c p h calls).call fun _ h' hcount => After.getMsg (After.modMsg ?_)
  refine (raiseError_heap c p _ _ calls).mono fun _ h'' hraise => ?_
  refine ⟨(h'.msg m).preCoalesce.err.isSome, ?_⟩
  rw [hraise, St.of_modMsg_same c calls (by simp [St.of, Heap.modMsg]), hcount]
  unfold complete
  rw [hmark]
  cases ho : (h.msg p).fragOwner with
  | none => simp [St.fragOf, St.modMsgs, St.of, ho]
  | some o =>
    have hne : o ≠ p := fun he => hp (he ▸ ho)
    simp only [St.modMsgs_comm hne]
    simp [St.fragOf, St.modMsgs, St.of, ho, hne]

end Proxy

end GfwProxy.Verdict
