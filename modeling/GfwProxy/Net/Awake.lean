import GfwProxy.Net.Isolation

set_option autoImplicit false

/-!
# No lost wakeup

A client whose next response is ready waits for write events, and a client that waits for write
events is going to get one: a notification is pending, or its socket is full.

## Main definitions

* `GfwProxy.Roused` — a client whose next response is ready waits for write events.
* `GfwProxy.Notified` — a client that waits for write events is going to get one.

## Main results

* `GfwProxy.SendMoves.roused`, `GfwProxy.SendMoves.notified` — the moves keep them.

## Design

While a handler is busy with a client it may have to wait for its turn; the sets `due` and `cold` of
the ghost hold such clients.  Registrations that fail, and notifications that are consumed although
nothing could be sent, are in the log.
-/

namespace GfwProxy

open Function

variable {n n' : Net} {c s : ConnId} {m : MsgId}

/-! ## Clients that wait -/

/-- The queue of client `c` begins with a request whose response is ready. -/
def Net.Finished (n : Net) (c : ConnId) : Prop :=
  ∃ x, (n.c.omsgq c).head? = some x ∧ n.isDone (n.c.omsgq c) x = true

/-- A client could not be registered for write events. -/
def Net.Unwoken (n : Net) : Prop := ∃ c, .noWake c ∈ n.a.log

/-- **A client whose next response is ready waits for write events.** -/
def Roused (n : Net) : Prop :=
  ∀ c, n.Client c → c ∉ n.g.closing → c ∉ n.g.due → n.Finished c →
    n.c.sendActive c = true ∨ n.Unwoken

/-- The fields of message `m` that its verdict depends on are the same. -/
structure MsgCols.SameDone (m₁ m₂ : MsgCols) (m : MsgId) : Prop where
  done : m₂.done m = m₁.done m
  fragId : m₂.fragId m = m₁.fragId m
  fdone : m₂.fdone m = m₁.fdone m
  nfrag : m₂.nfrag m = m₁.nfrag m
  nfragDone : m₂.nfragDone m = m₁.nfragDone m

/-- The fragments next to request `x` are the same, if the messages of its queue are. -/
lemma Net.fragRun_congr {q : List MsgId} {x : MsgId} (hx : x ∈ q)
    (h : ∀ y ∈ q, n'.m.fragId y = n.m.fragId y) : n'.fragRun q x = n.fragRun q x := by
  have htake : ∀ l : List MsgId, (∀ y ∈ l, y ∈ q) →
      l.takeWhile (fun y => n'.m.fragId y = n'.m.fragId x) = l.takeWhile fun y =>
        n.m.fragId y = n.m.fragId x := by
    intro l hl
    induction l with
    | nil => rfl
    | cons y ys ih =>
      have hys := ih fun z hz => hl z (List.mem_cons_of_mem _ hz)
      have hy := h y (hl y List.mem_cons_self)
      rw [List.takeWhile_cons, List.takeWhile_cons, hys, hy, h x hx]
  have hbefore : ∀ y ∈ tailqBefore x q, y ∈ q := fun y hy =>
    (List.takeWhile_prefix _).mem (List.mem_reverse.mp hy)
  have hafter : ∀ y ∈ tailqAfter x q, y ∈ q := fun y hy =>
    (List.dropWhile_suffix _).mem (List.mem_of_mem_tail hy)
  simp only [Net.fragRun, htake _ hbefore, htake _ hafter]

/-- A request is done if what the verdict reads is the same. -/
lemma Net.isDone_congr {q : List MsgId} {x : MsgId} (hx : x ∈ q)
    (h : ∀ y ∈ q, n.m.SameDone n'.m y) :
    n'.isDone q x = n.isDone q x := by
  have hrun : n'.fragRun q x = n.fragRun q x := Net.fragRun_congr hx fun y hy => (h y hy).fragId
  have hall : ((n.fragRun q x).all fun y => n'.m.done y) =
      (n.fragRun q x).all fun y => n.m.done y := by
    rw [Bool.eq_iff_iff, List.all_eq_true, List.all_eq_true]
    exact forall₂_congr fun y hy => by rw [(h y (Net.of_mem_fragRun hy).1).done]
  simp only [Net.isDone, hrun, hall, (h x hx).done, (h x hx).fragId, (h x hx).fdone, (h x hx).nfrag,
    (h x hx).nfragDone]

/-- A request in the queue that is done once another one has been appended was done before. -/
lemma Net.isDone_append {q : List MsgId} {x : MsgId} (hx : x ∈ q)
    (h : n.isDone (q ++ [m]) x = true) :
    n.isDone q x = true := by
  obtain ⟨a, b, rfl, ha⟩ := List.eq_append_cons_of_mem hx
  obtain ⟨hbefore, hafter⟩ := tailq_split (b := b) ha
  obtain ⟨hbefore', hafter'⟩ := tailq_split (b := b ++ [m]) ha
  have happend : a ++ x :: b ++ [m] = a ++ x :: (b ++ [m]) := by simp
  have hsub : ∀ y ∈ n.fragRun (a ++ x :: b) x, y ∈ n.fragRun (a ++ x :: b ++ [m]) x := by
    intro y hy
    rw [happend]
    simp only [Net.fragRun, hbefore, hafter, hbefore', hafter', List.mem_append] at hy ⊢
    refine hy.imp_right fun hy => ?_
    rw [List.takeWhile_append]
    split
    · exact List.mem_append_left _ ((List.takeWhile_prefix _).mem hy)
    · exact hy
  simp only [Net.isDone, Bool.and_eq_true, Bool.or_eq_true, decide_eq_true_eq,
    List.all_eq_true] at h ⊢
  exact ⟨h.1, h.2.imp_right fun h => ⟨h.1, fun y hy => h.2 y (hsub y hy)⟩⟩

/-- Client `c` was a client as before, with the same queue. -/
structure Net.SameHead (n n' : Net) (c : ConnId) : Prop where
  client : n.Client c
  closing : c ∉ n.g.closing
  due : c ∉ n.g.due
  active : n.c.sendActive c = true → n'.c.sendActive c = true
  omsgq : n'.c.omsgq c = n.c.omsgq c
  msg : ∀ x ∈ n.c.omsgq c, n.m.SameDone n'.m x

/-- Every client that is not to be woken is as before, or awake, or its notification has failed. -/
lemma Roused.frame (hr : Roused n) (hlog : n.a.log ⊆ n'.a.log)
    (h : ∀ c, n'.Client c → c ∉ n'.g.closing → c ∉ n'.g.due → n'.Finished c →
      n.SameHead n' c ∨ n'.c.sendActive c = true ∨ n'.Unwoken) : Roused n' := by
  intro c hc hcl hdue hfin
  rcases h c hc hcl hdue hfin with hsame | hwait
  · obtain ⟨x, hhead, hdone⟩ := hfin
    rw [hsame.omsgq] at hhead hdone
    rw [Net.isDone_congr (List.mem_of_mem_head? hhead) hsame.msg] at hdone
    rcases hr c hsame.client hsame.closing hsame.due ⟨x, hhead, hdone⟩ with hact | ⟨c', hc'⟩
    · exact .inl (hsame.active hact)
    · exact .inr ⟨c', hlog hc'⟩
  · exact hwait

/-- The queues and the messages are the same, and nothing is due less than before. -/
lemma Roused.same (hr : Roused n) (hlog : n.a.log ⊆ n'.a.log) (ho : n'.c.owner = n.c.owner)
    (hcl : n.g.closing ⊆ n'.g.closing) (hdue : n.g.due ⊆ n'.g.due)
    (ha : n'.c.sendActive = n.c.sendActive) (hq : n'.c.omsgq = n.c.omsgq)
    (hm : ∀ x, n.m.SameDone n'.m x) : Roused n' := by
  refine hr.frame hlog fun c hc hc' hd _ =>
    .inl ⟨?_, fun h => hc' (hcl h), fun h => hd (hdue h), by rw [ha]; exact id,
      by rw [hq], fun x _ => hm x⟩
  rwa [Net.Client, ← ho]

/-- The queue of connection `s`, which is no client's, is written to. -/
lemma Roused.other (hr : Roused n) {q : List MsgId} (hs : n.Server s) (hlog : n.a.log ⊆ n'.a.log)
    (ho : n'.c.owner = n.c.owner) (hcl : n.g.closing ⊆ n'.g.closing) (hdue : n.g.due ⊆ n'.g.due)
    (ha : n'.c.sendActive = n.c.sendActive) (hq : n'.c.omsgq = update n.c.omsgq s q)
    (hm : ∀ x, n.m.SameDone n'.m x) : Roused n' := by
  refine hr.frame hlog fun c hc hc' hd _ => .inl ?_
  have hclient : n.Client c := by rwa [Net.Client, ← ho]
  exact ⟨hclient, fun h => hc' (hcl h), fun h => hd (hdue h), by rw [ha]; exact id,
    by rw [hq, update_of_ne (hclient.ne hs)], fun x _ => hm x⟩

/-- Only message `m` changes, and it is in the queue of no client. -/
lemma Roused.outside (hr : Roused n) (hi : Inv n) (hm : ∀ c srv, n.g.place m ≠ .req (some c) srv)
    (hlog : n.a.log ⊆ n'.a.log) (ho : n'.c.owner = n.c.owner) (hcl : n.g.closing ⊆ n'.g.closing)
    (hdue : n.g.due ⊆ n'.g.due) (ha : n'.c.sendActive = n.c.sendActive)
    (hq : n'.c.omsgq = n.c.omsgq) (hother : ∀ x, x ≠ m → n.m.SameDone n'.m x) : Roused n' := by
  refine hr.frame hlog fun c hc hc' hd _ => .inl ?_
  have hclient : n.Client c := by rwa [Net.Client, ← ho]
  exact ⟨hclient, fun h => hc' (hcl h), fun h => hd (hdue h), by rw [ha]; exact id, by rw [hq],
    fun x hx => hother x (hi.ne_of_mem hclient hx (hm c))⟩

/-- A connection is opened with an empty queue. -/
lemma Roused.opened {o : Option Owner} (hr : Roused n) (hlog : n.a.log ⊆ n'.a.log)
    (ho : n'.c.owner = update n.c.owner c o) (hcl : n'.g.closing = n.g.closing \ {c})
    (hdue : n'.g.due = n.g.due \ {c}) (ha : n'.c.sendActive = update n.c.sendActive c false)
    (hq : n'.c.omsgq = update n.c.omsgq c []) (hm : n'.m = n.m) : Roused n' := by
  refine hr.frame hlog fun c' hc hc' hd hfin => .inl ?_
  have hne : c' ≠ c := by
    rintro rfl
    obtain ⟨x, hx, -⟩ := hfin
    simp [hq] at hx
  refine ⟨?_, fun h => hc' ?_, fun h => hd ?_, ?_, by rw [hq, update_of_ne hne],
    fun x _ => hm ▸ ⟨rfl, rfl, rfl, rfl, rfl⟩⟩
  · rwa [Net.Client, ho, update_of_ne hne] at hc
  · rw [hcl]
    exact ⟨h, hne⟩
  · rw [hdue]
    exact ⟨h, hne⟩
  · rw [ha, update_of_ne hne]
    exact id

/-- A connection is not open any more. -/
lemma Roused.left (hr : Roused n) (hlog : n.a.log ⊆ n'.a.log)
    (ho : n'.c.owner = update n.c.owner c none) (hcl : n.g.closing ⊆ n'.g.closing)
    (hdue : n.g.due ⊆ n'.g.due) (ha : n'.c.sendActive = n.c.sendActive)
    (hq : n'.c.omsgq = n.c.omsgq) (hm : n'.m = n.m) : Roused n' := by
  refine hr.frame hlog fun c' hc hc' hd _ =>
    .inl ⟨?_, fun h => hc' (hcl h), fun h => hd (hdue h), by rw [ha]; exact id,
      by rw [hq], fun x _ => hm ▸ ⟨rfl, rfl, rfl, rfl, rfl⟩⟩
  obtain ⟨p, hp⟩ := hc
  have hne : c' ≠ c := by
    rintro rfl
    rw [ho, update_self] at hp
    cases hp
  exact ⟨p, by rwa [ho, update_of_ne hne] at hp⟩

/-- Something happens to client `c` and to messages in its queue, and its queue is looked at
later. -/
lemma Roused.later (hr : Roused n) (hlog : n.a.log ⊆ n'.a.log) (ho : n'.c.owner = n.c.owner)
    (hcl : n.g.closing ⊆ n'.g.closing) (hdue : n.g.due ⊆ n'.g.due)
    (ha : n'.c.sendActive = n.c.sendActive) (hc : c ∈ n'.g.closing ∨ c ∈ n'.g.due)
    (hother : ∀ c', n.Client c' → c' ≠ c → n'.c.omsgq c' = n.c.omsgq c' ∧
      ∀ x ∈ n.c.omsgq c', n.m.SameDone n'.m x) : Roused n' := by
  refine hr.frame hlog fun c' hc' hcl' hd _ => .inl ?_
  have hclient : n.Client c' := by rwa [Net.Client, ← ho]
  have hne : c' ≠ c := by
    rintro rfl
    exact hc.elim hcl' hd
  obtain ⟨hq, hm⟩ := hother c' hclient hne
  exact ⟨hclient, fun h => hcl' (hcl h), fun h => hd (hdue h), by rw [ha]; exact id, hq, hm⟩

/-- The queues of two clients have no request in common. -/
lemma Inv.apart (hi : Inv n) {c' : ConnId} {x : MsgId} {srv : Option (ConnId × Bool)}
    (hc' : n.Client c') (hne : c' ≠ c) (hm : n.g.place m = .req (some c) srv)
    (hx : x ∈ n.c.omsgq c') : x ≠ m := by
  rintro rfl
  obtain ⟨srv', hplace⟩ := (hi.queues.omsgq_client c' hc' x).mp hx
  rw [hm] at hplace
  simp only [Place.req.injEq, Option.some.injEq] at hplace
  exact hne hplace.1.symm

/-- Request `m` in the queue of client `c` is done, counted and perhaps in error. -/
lemma Roused.settle (hr : Roused n) (hi : Inv n) (hm : n.g.place m = .req (some c) none)
    (hd : n.m.done m = false) (hcl : c ∉ n.g.closing) (b e : Bool) :
    Roused ((((n.finish m).count m b).fail m e).setDue c) := by
  have hc := (hi.facts.cli m c none hm).1
  have hmq : m ∈ n.c.omsgq c := (hi.queues.omsgq_client c hc m).mpr ⟨none, hm⟩
  refine hr.later (c := c) ?_ ?_ ?_ ?_ ?_ (.inr ?_) fun c' hc' hne => ⟨?_, fun x hx => ?_⟩
  · exact Net.log_count (n.finish m) m b
  · simp [Net.setDue, Net.fail, Net.finish]
  · simp [Net.setDue, Net.fail, Net.finish]
  · simp [Net.setDue, Net.fail, Net.finish]
  · simp [Net.setDue, Net.fail, Net.finish]
  · simp [Net.setDue]
  · simp [Net.setDue, Net.fail, Net.finish]
  · have hxm := hi.apart hc' hne hm hx
    cases ho : n.m.fragOwner m with
    | none => constructor <;> simp [Net.setDue, Net.fail, Net.count, Net.finish, ho, hxm]
    | some o =>
      -- the owner of a fragment is in the same queue
      obtain ⟨hoq, -⟩ := (hi.vec c hc hcl).owner m hmq hd o ho
      obtain ⟨srv, hplace⟩ := (hi.queues.omsgq_client c hc o).mp hoq
      have hxo := hi.apart hc' hne hplace hx
      constructor <;> simp [Net.setDue, Net.fail, Net.count, Net.finish, ho, hxm, hxo]

/-- Request `m` enters the queue of client `c`; it is not ready yet, or the queue is looked at
later. -/
lemma Roused.enqOut (hr : Roused n) (hi : Inv n) (hc : n.Client c) (hm : n.g.place m = .hand)
    (hlog : n'.a.log = n.a.log) (ho : n'.c.owner = n.c.owner) (hcl : n'.g.closing = n.g.closing)
    (hdue : n.g.due ⊆ n'.g.due) (ha : n'.c.sendActive = n.c.sendActive)
    (hq : n'.c.omsgq = update n.c.omsgq c (n.c.omsgq c ++ [m]))
    (hother : ∀ x, x ≠ m → n.m.SameDone n'.m x)
    (hnew : c ∈ n'.g.due ∨ n.c.omsgq c ≠ [] ∨ n'.isDone [m] m = false) : Roused n' := by
  have hne : ∀ c', n.Client c' → ∀ x ∈ n.c.omsgq c', x ≠ m := fun c' hc' x hx =>
    hi.ne_of_mem hc' hx fun srv => by simp [hm]
  refine hr.frame (hlog ▸ List.Subset.refl _) fun c' hc' hcl' hd hfin => ?_
  have hclient : n.Client c' := by rwa [Net.Client, ← ho]
  have hclosing : c' ∉ n.g.closing := by rwa [← hcl]
  have hdue' : c' ∉ n.g.due := fun h => hd (hdue h)
  rcases eq_or_ne c' c with rfl | hcc
  · obtain ⟨x, hhead, hdone⟩ := hfin
    rw [hq, update_self] at hhead hdone
    cases hold : n.c.omsgq c' with
    | nil =>
      rw [hold, List.nil_append] at hhead hdone
      obtain rfl := Option.some.inj hhead
      rcases hnew with hnew | hnew | hnew
      · exact absurd hnew hd
      · exact absurd hold hnew
      · rw [hnew] at hdone
        cases hdone
    | cons y ys =>
      obtain rfl : y = x := by simpa [hold] using hhead
      have hy : y ∈ n.c.omsgq c' := by simp [hold]
      have hdone₁ := Net.isDone_append hy hdone
      rw [Net.isDone_congr hy fun z hz => hother z (hne c' hclient z hz)] at hdone₁
      right
      rw [ha]
      rcases hr c' hclient hclosing hdue' ⟨y, by simp [hold], hdone₁⟩ with hact | ⟨c'', hno⟩
      · exact .inl hact
      · exact .inr ⟨c'', by rwa [hlog]⟩
  · exact .inl ⟨hclient, hclosing, hdue', by rw [ha]; exact id, by rw [hq, update_of_ne hcc],
      fun x hx => hother x (hne c' hclient x hx)⟩

/-- Taking a message out of the tree does not matter for the verdicts. -/
lemma Net.sameDone_tmoDelete (n : Net) (m x : MsgId) : n.m.SameDone (n.tmoDelete m).m x := by
  unfold Net.tmoDelete
  split <;> exact ⟨rfl, rfl, rfl, rfl, rfl⟩

/-- The timers do not matter. -/
lemma Roused.tmoDelete (hr : Roused n) (m : MsgId) : Roused (n.tmoDelete m) := by
  unfold Net.tmoDelete
  split
  · exact hr
  · exact hr.same (List.Subset.refl _) rfl subset_rfl subset_rfl rfl rfl fun _ =>
      ⟨rfl, rfl, rfl, rfl, rfl⟩

/-- A message is released. -/
lemma Roused.put (hr : Roused n) (m : MsgId) : Roused (n.put m) :=
  hr.same (List.subset_cons_self _ _) rfl subset_rfl subset_rfl rfl rfl fun _ =>
    ⟨rfl, rfl, rfl, rfl, rfl⟩

/-- A request leaves the queue of a server connection. -/
lemma Roused.deqOut (hr : Roused n) (hs : n.Server s) (m : MsgId) : Roused (n.deqOut s m) :=
  hr.other hs (List.Subset.refl _) rfl subset_rfl subset_rfl rfl rfl fun _ =>
    ⟨rfl, rfl, rfl, rfl, rfl⟩

/-! ### Moves of a server connection -/

/-- A client is woken. -/
lemma Roused.wake (hr : Roused n) (c : ConnId) :
    Roused { n with
      c.sendActive := update n.c.sendActive c true
      c.evOut := update n.c.evOut c true } := by
  refine hr.frame (List.Subset.refl _) fun c' hc hcl hd _ =>
    .inl ⟨hc, hcl, hd, fun hact => ?_, rfl, fun _ _ => ⟨rfl, rfl, rfl, rfl, rfl⟩⟩
  rcases eq_or_ne c' c with rfl | hne
  · exact update_self _ _ _
  · simpa [hne] using hact

/-- A client has been looked at: it is awake, or its notification has failed, or its next response
is not ready. -/
lemma Roused.calm (hr : Roused n)
    (hcalm : n.c.sendActive c = false → n.Unwoken ∨ ¬n.Client c ∨
      ∀ x, (n.c.omsgq c).head? = some x → n.isDone (n.c.omsgq c) x = false) :
    Roused { n with g.due := n.g.due \ {c} } := by
  refine hr.frame (List.Subset.refl _) fun c' hc hcl hd hfin => ?_
  rcases eq_or_ne c' c with rfl | hne
  · right
    cases hact : n.c.sendActive c' with
    | true => exact .inl rfl
    | false =>
      obtain ⟨x, hhead, hdone⟩ := hfin
      rcases hcalm hact with hno | hnot | hundone
      · exact .inr hno
      · exact absurd hc hnot
      · have hdone' : n.isDone (n.c.omsgq c') x = true := hdone
        rw [hundone x hhead] at hdone'
        cases hdone'
  · exact .inl ⟨hc, hcl, fun hmem => hd ⟨hmem, hne⟩, id, rfl,
      fun _ _ => ⟨rfl, rfl, rfl, rfl, rfl⟩⟩

/-- A queue that begins with a request that is marked as done, begins with one whose response is
ready. -/
lemma Net.HeadDone.finished (h : n.HeadDone c) : n.Finished c := by
  obtain ⟨x, hx, hd, hf⟩ := h
  refine ⟨x, hx, ?_⟩
  rcases hf with hf | hf <;> simp [Net.isDone, hd, hf]

/-- The requests of a vector are marked as done.  The queue of their client began with a request
that was done before. -/
lemma Roused.fdone (hr : Roused n) (hi : Inv n) (hc : n.Client c) (hcl : c ∉ n.g.closing)
    (hm : m ∈ n.c.omsgq c) (hd : n.m.done m = true) (hn : n.m.nfrag m ≤ n.m.nfragDone m)
    (hrun : ∀ x ∈ n.fragRun (n.c.omsgq c) m, n.m.done x = true)
    (hp : n.g.pend = [] ∧ n.HeadDone c ∨ (n.c.omsgq c).head? = some m) :
    Roused { n with
      m.fdone := fun x =>
        if x ∈ m :: n.fragRun (n.c.omsgq c) m then true else n.m.fdone x } := by
  have hmem : ∀ y ∈ m :: n.fragRun (n.c.omsgq c) m, y ∈ n.c.omsgq c :=
    List.forall_mem_cons.mpr ⟨hm, fun _ hy => (Net.of_mem_fragRun hy).1⟩
  refine hr.frame (List.Subset.refl _) fun c' hc' hcl' hd' _ => ?_
  rcases eq_or_ne c' c with rfl | hne
  · refine .inr (hr c' hc hcl hd' ?_)
    rcases hp with ⟨-, hhead⟩ | hhead
    · exact hhead.finished
    · refine ⟨m, hhead, ?_⟩
      have hall : ((n.fragRun (n.c.omsgq c') m).all fun x => n.m.done x) = true :=
        List.all_eq_true.mpr hrun
      simp [Net.isDone, hd, hn, hall]
  · refine .inl ⟨hc', hcl', hd', id, rfl, fun x hx => ⟨rfl, rfl, if_neg fun hx' => ?_, rfl, rfl⟩⟩
    obtain ⟨srv, hplace⟩ := (hi.queues.omsgq_client c hc x).mp (hmem x hx')
    exact hi.apart hc' hne hplace hx rfl

/-- A request that waits for a server fails. -/
lemma Roused.failIn (hr : Roused n) (hi : Inv n) (b : Bool)
    (hm : n.g.place m = .req (some c) (some (s, false))) (hc : c ∉ n.g.closing) :
    Roused ((((((n.deqIn s m).move m (.req (some c) none)).finish m).count m b).fail m
      true).setDue c) := by
  have hd := (hi.facts.srv m (some c) s false hm).2.1
  have h₁ : Roused ((n.deqIn s m).move m (.req (some c) none)) :=
    hr.same (List.Subset.refl _) rfl subset_rfl subset_rfl rfl rfl fun _ =>
      ⟨rfl, rfl, rfl, rfl, rfl⟩
  exact h₁.settle (hi.deqIn hm) (by simp [Net.move]) hd hc b true

/-- A request leaves the queue of its server connection and goes back to its client. -/
lemma Roused.back (hr : Roused n) (hs : n.Server s) (m : MsgId) (x : Place) :
    Roused (((n.tmoDelete m).deqOut s m).move m x) := by
  have h₁ : Roused ((n.tmoDelete m).deqOut s m) :=
    (hr.tmoDelete m).deqOut (by simpa [Net.Server] using hs) m
  exact h₁.same (List.Subset.refl _) rfl subset_rfl subset_rfl rfl rfl fun _ =>
    ⟨rfl, rfl, rfl, rfl, rfl⟩

/-- A request that has been sent to a server fails. -/
lemma Roused.failOut (hr : Roused n) (hi : Inv n) (b : Bool)
    (hm : n.g.place m = .req (some c) (some (s, true))) (hc : c ∉ n.g.closing) :
    Roused (((((((n.tmoDelete m).deqOut s m).move m (.req (some c) none)).finish m).count m
      b).fail m true).setDue c) := by
  obtain ⟨hserver, hd, -⟩ := hi.facts.srv m (some c) s true hm
  refine (hr.back hserver m _).settle ((hi.tmoDelete m).deqOut (Net.place_tmoDelete hm))
    (by simp [Net.move]) ?_ ?_ b true
  · simpa [Net.move, Net.deqOut] using hd
  · simpa [Net.move, Net.deqOut] using hc

/-- **A move of a server connection keeps the clients roused.** -/
lemma ServerMove.roused (h : ServerMove n n') (hi : Inv n) (hr : Roused n) : Roused n' := by
  have hlog : ∀ e : Ev, n.a.log ⊆ e :: n.a.log := fun e => List.subset_cons_self e _
  cases h with
  | note | touch =>
    exact hr.same (hlog _) rfl subset_rfl subset_rfl rfl rfl fun _ => ⟨rfl, rfl, rfl, rfl, rfl⟩
  | wake c => exact hr.wake c
  | calm c hcalm => exact hr.calm hcalm
  | fdone c m hc hcl hm hd hf hn hrun hp => exact hr.fdone hi hc hcl hm hd hn hrun hp
  | openServer s p i hs => exact hr.opened (c := s) (List.Subset.refl _) rfl rfl rfl rfl rfl rfl
  | beginCloseServer s hs =>
    exact hr.same (List.Subset.refl _) rfl (Set.subset_insert s _) subset_rfl rfl rfl fun _ =>
      ⟨rfl, rfl, rfl, rfl, rfl⟩
  | unrefServer s p i ho hi' hq hr' =>
    exact hr.left (c := s) (List.Subset.refl _) rfl subset_rfl subset_rfl rfl rfl rfl
  | abandon s p i ho ha =>
    exact hr.left (c := s) (List.Subset.refl _) rfl subset_rfl subset_rfl rfl rfl rfl
  | dropIn s m hm =>
    have h₁ : Roused (n.deqIn s m) :=
      hr.same (List.Subset.refl _) rfl subset_rfl subset_rfl rfl rfl fun _ =>
        ⟨rfl, rfl, rfl, rfl, rfl⟩
    exact (h₁.tmoDelete m).put m
  | dropOut s m hm hs =>
    have hserver := (hi.facts.srv m none s true hm).1
    refine ((hr.tmoDelete m).deqOut ?_ m).put m
    simpa [Net.Server] using hserver
  | failIn s c m b hm hc => exact hr.failIn hi b hm hc
  | failOut s c m b hm hc hs => exact hr.failOut hi b hm hc
  | discardRsp s m hs hr' =>
    have h₁ : Roused { n with c.rmsg := update n.c.rmsg s none } :=
      hr.same (List.Subset.refl _) rfl subset_rfl subset_rfl rfl rfl fun _ =>
        ⟨rfl, rfl, rfl, rfl, rfl⟩
    exact h₁.put m
  | _ =>
    exact hr.same (List.Subset.refl _) rfl subset_rfl subset_rfl rfl rfl fun _ =>
      ⟨rfl, rfl, rfl, rfl, rfl⟩

/-! ### The other moves -/

/-- A client stops waiting for write events: its queue is empty, or it is being closed. -/
lemma Roused.sleep (hr : Roused n) (hc : n.Client c → n.c.omsgq c = [] ∨ c ∈ n.g.closing) :
    Roused { n with
      c.sendActive := update n.c.sendActive c false
      c.evOut := update n.c.evOut c false } := by
  refine hr.frame (List.Subset.refl _) fun c' hc' hcl hd hfin =>
    .inl ⟨hc', hcl, hd, fun hact => ?_, rfl, fun _ _ => ⟨rfl, rfl, rfl, rfl, rfl⟩⟩
  have hne : c' ≠ c := by
    rintro rfl
    obtain ⟨x, hx, -⟩ := hfin
    rcases hc hc' with hq | hmem
    · have hx' : (n.c.omsgq c').head? = some x := hx
      simp [hq] at hx'
    · exact hcl hmem
  simpa [hne] using hact

/-- A request that is expected enters the queue of its client, and is not done. -/
lemma Roused.expect (hr : Roused n) (hi : Inv n) (hc : n.Client c) (hm : n.g.place m = .hand)
    (hd : n.m.done m = false) (pend : List MsgId) :
    Roused ({ n.enqOut c m with g.pend := pend }.move m (.req (some c) none)) := by
  refine hr.enqOut (m := m) hi hc hm rfl rfl rfl subset_rfl rfl rfl
    (fun _ _ => ⟨rfl, rfl, rfl, rfl, rfl⟩) (.inr (.inr ?_))
  simp [Net.isDone, Net.move, Net.enqOut, hd]

/-- The proxy answers request `m` itself.  The owner of a vector is not ready before its fragments
are. -/
lemma Roused.reply (hr : Roused n) (hi : Inv n) {r : MsgId} (subs : List MsgId) (due : Set ConnId)
    (hm : n.Held c m)
    (hs : subs = [] ∧ n.m.fragOwner m = none ∧ n.m.fragId m = 0 ∨ n.Vector c m subs)
    (hdue : n.g.due ⊆ due) (hdue' : subs = [] → c ∈ due) :
    Roused ({ ((n.link m r).finish m).enqOut c m with g.pend := subs, g.due := due }
      |>.move m (.req (some c) none) |>.move r (.rsp m)) := by
  refine hr.enqOut (m := m) hi hm.client hm.place rfl rfl rfl hdue rfl rfl (fun y hne => ?_) ?_
  · constructor <;> simp [Net.move, Net.enqOut, Net.finish, Net.link, hne]
  cases subs with
  | nil => exact .inl (hdue' rfl)
  | cons y ys =>
    refine .inr (.inr ?_)
    have hv := hs.resolve_left (by simp)
    have hnfrag : n.m.nfrag m = ys.length + 1 := hv.nfrag
    have hzero : n.m.nfragDone m = 0 := hm.blank.nfragDone
    have hmark : n.m.fdone m = false := hm.blank.fdone
    simp [Net.isDone, Net.move, Net.enqOut, Net.finish, Net.link, hv.fragId, hmark, hnfrag, hzero]

/-- The proxy fails to answer a request itself. -/
lemma Roused.failReply (hr : Roused n) (hi : Inv n) (subs : List MsgId) (hm : n.Held c m) :
    Roused ({ ((n.enqOut c m).finish m).fail m true with g.pend := subs }.setDue c
      |>.move m (.req (some c) none)) := by
  refine hr.enqOut (m := m) hi hm.client hm.place rfl rfl rfl (Set.subset_insert c _) rfl rfl
    (fun y hne => ?_) (.inl (Set.mem_insert c _))
  constructor <;> simp [Net.setDue, Net.move, Net.enqOut, Net.finish, Net.fail, hne]

/-- A request cannot be forwarded, and is not counted. -/
lemma Roused.skipFwd (hr : Roused n) (hi : Inv n) (hm : n.g.place m = .req (some c) none) :
    Roused (((n.finish m).fail m true).setDue c) := by
  refine hr.later (c := c) (List.Subset.refl _) rfl subset_rfl (Set.subset_insert c _) rfl
    (.inr (Set.mem_insert c _)) ?_
  refine fun c' hc' hne => ⟨rfl, fun x hx => ?_⟩
  have hxm := hi.apart hc' hne hm hx
  constructor <;> simp [Net.setDue, Net.fail, Net.finish, hxm]

/-- A request leaves the queue of its client, which is being closed or begins with a request that is
marked as done. -/
lemma Roused.leave (hr : Roused n) (p : MsgId)
    (hc : c ∈ n.g.closing ∨ n.g.pend = [] ∧ n.VectorDone c p ∧ n.HeadDone c) :
    Roused ((n.deqOut c p).move p .hand) := by
  refine hr.frame (List.Subset.refl _) fun c' hc' hcl hd _ => ?_
  rcases eq_or_ne c' c with rfl | hne
  · exact .inr (hr c' hc' hcl hd (hc.resolve_left hcl).2.2.finished)
  · exact .inl ⟨hc', hcl, hd, id, by simp [Net.move, Net.deqOut, hne],
      fun _ _ => ⟨rfl, rfl, rfl, rfl, rfl⟩⟩

/-- Response `m` is received for request `p`. -/
lemma Roused.respond (hr : Roused n) (hi : Inv n) {p : MsgId} (b e : Bool)
    (hp : n.g.place p = .req (some c) (some (s, true))) (hc : c ∉ n.g.closing) :
    Roused ((({ (((((((n.emit (.link (n.m.id p) false)).tmoDelete p).deqOut s p).move p
      (.req (some c) none)).finish p).count p b).fail p e) with
        c.answers := update n.c.answers s
          (n.c.answers s ++ [Answer.linked (n.m.id p)]) }.link p m).move m (.rsp p)).setDue c) := by
  obtain ⟨hserver, hd, -⟩ := hi.facts.srv p (some c) s true hp
  have hi₀ : Inv (n.emit (.link (n.m.id p) false)) := hi.same ⟨rfl, rfl, rfl, rfl, rfl, rfl, rfl,
    rfl, rfl, rfl, rfl, rfl, rfl, rfl, rfl, fun _ => List.mem_cons_of_mem _, rfl, rfl, rfl⟩
  have h₀ : Roused (n.emit (.link (n.m.id p) false)) :=
    hr.same (List.subset_cons_self _ _) rfl subset_rfl subset_rfl rfl rfl fun _ =>
      ⟨rfl, rfl, rfl, rfl, rfl⟩
  have h₁ := (h₀.back (s := s) (by simpa [Net.Server, Net.emit] using hserver) p
    (.req (some c) none)).settle ((hi₀.tmoDelete p).deqOut (Net.place_tmoDelete hp)) (m := p)
    (c := c) (by simp [Net.move]) (by simpa [Net.move, Net.deqOut, Net.emit] using hd)
    (by simpa [Net.move, Net.deqOut, Net.emit] using hc) b e
  exact h₁.same (List.Subset.refl _) rfl subset_rfl subset_rfl rfl rfl fun _ =>
    ⟨rfl, rfl, rfl, rfl, rfl⟩

/-- A response to request `p`, whose client is closed, is swallowed with it. -/
lemma Roused.swallowed (hr : Roused n) (hi : Inv n) {p : MsgId}
    (hp : n.g.place p = .req none (some (s, true))) :
    Roused ({ ((n.tmoDelete p).deqOut s p).finish p with
      c.answers := update n.c.answers s
        (n.c.answers s ++ [Answer.swallowed (n.m.id p)]) }.put p) := by
  have hserver := (hi.facts.srv p none s true hp).1
  have h₁ : Roused { ((n.tmoDelete p).deqOut s p).finish p with
      c.answers := update n.c.answers s (n.c.answers s ++ [Answer.swallowed (n.m.id p)]) } := by
    refine hr.frame (by simp [Net.finish, Net.deqOut]) fun c hc hcl hd _ => .inl ?_
    have hclient : n.Client c := by simpa [Net.Client, Net.finish, Net.deqOut] using hc
    refine ⟨hclient, ?_, ?_, ?_, ?_, fun x hx => ?_⟩
    · simpa [Net.finish, Net.deqOut] using hcl
    · simpa [Net.finish, Net.deqOut] using hd
    · simp [Net.finish, Net.deqOut]
    · simp [Net.finish, Net.deqOut, hclient.ne hserver]
    · have hne : x ≠ p := hi.ne_of_mem hclient hx (by simp [hp])
      have hsame := n.sameDone_tmoDelete p x
      refine ⟨?_, hsame.fragId, hsame.fdone, hsame.nfrag, hsame.nfragDone⟩
      simp [Net.finish, Net.deqOut, hne]
  exact h₁.put p

/-- **A move keeps the clients roused.**

**Proof sketch.** A move that makes a response ready puts its client into the set of those that are
to be looked at.  A request that enters a queue is not ready yet, and one leaves a queue only if the
next one is marked as done, for which the client waits already. -/
lemma Move.roused (h : Move n n') (hi : Inv n) (hr : Roused n) : Roused n' := by
  cases h with
  | server h => exact h.roused hi hr
  | timerTouch s m hs ht hd he =>
    exact hr.same (List.subset_cons_self _ _) rfl subset_rfl subset_rfl rfl rfl fun _ =>
      ⟨rfl, rfl, rfl, rfl, rfl⟩
  | sleep c hc => exact hr.sleep hc
  | openClient c p sd hc => exact hr.opened (c := c) (List.Subset.refl _) rfl rfl rfl rfl rfl rfl
  | beginClose c hc =>
    exact hr.same (List.Subset.refl _) rfl (Set.subset_insert c _) subset_rfl rfl rfl fun _ =>
      ⟨rfl, rfl, rfl, rfl, rfl⟩
  | unrefClient c p ho hq hr' =>
    exact hr.left (c := c) (List.Subset.refl _) rfl subset_rfl subset_rfl rfl rfl rfl
  | newMsg m x hm hid hx =>
    refine hr.outside (m := m) hi (by simp [hm.place]) (List.Subset.refl _) rfl subset_rfl
      subset_rfl rfl rfl fun y hne => ?_
    constructor <;> simp [MsgCols.set, hne]
  | vector m k hm hp =>
    refine hr.outside (m := m) hi (by simp [hm]) (List.Subset.refl _) rfl subset_rfl
      subset_rfl rfl rfl fun y hne => ?_
    constructor <;> simp [hne]
  | put m hm hp ht hn => exact hr.put m
  | tmoDelete m => exact hr.tmoDelete m
  | expect c m hm hr' hf hf' => exact hr.expect hi hm.client hm.place hm.blank.done n.g.pend
  | expectSub c m rest hp hm hc =>
    obtain ⟨c', o, hpend⟩ := hi.pend m (by simp [hp])
    exact hr.expect hi hc hpend.place hpend.blank.done rest
  | reply c m r subs due hm hr' hrb hmr hrs hs hdue hdue' =>
    exact hr.reply hi subs due hm hs hdue hdue'
  | failReply c m subs hm hs => exact hr.failReply hi subs hm
  | failHand m hm hp =>
    refine hr.outside (m := m) hi (by simp [hm]) (List.Subset.refl _) rfl subset_rfl
      subset_rfl rfl rfl fun y hne => ?_
    constructor <;> simp [Net.finish, Net.fail, hne]
  | failFwd c m b hm hd hc => exact hr.settle hi hm hd hc b true
  | skipFwd c m hm hd hc hf => exact hr.skipFwd hi hm
  | leave c p hp hc => exact hr.leave p hc
  | orphan c m srv hm hd hc =>
    refine hr.later (c := c) (List.Subset.refl _) rfl subset_rfl subset_rfl rfl (.inl hc) ?_
    exact fun c' hc' hne => ⟨by simp [Net.move, Net.deqOut, hne],
      fun x hx => ⟨rfl, rfl, rfl, rfl, rfl⟩⟩
  | sendDone s m cli hm hr' =>
    have hserver := (hi.facts.srv m cli s false hm).1
    exact hr.other hserver (List.Subset.refl _) rfl subset_rfl subset_rfl rfl rfl fun _ =>
      ⟨rfl, rfl, rfl, rfl, rfl⟩
  | respond s c p m rest b e hq hp hc hm hb hn => exact hr.respond hi b e hp hc
  | swallowed s p rest hq hp => exact hr.swallowed hi hp
  | _ =>
    exact hr.same (List.Subset.refl _) rfl subset_rfl subset_rfl rfl rfl fun _ =>
      ⟨rfl, rfl, rfl, rfl, rfl⟩

/-- **A client whose next response is ready waits for write events.** -/
theorem SendMoves.roused (h : SendMoves n n') (hs : Sound n) (hr : Roused n) : Roused n' := by
  induction h with
  | refl => exact hr
  | tail hms hm ih =>
    cases hm with
    | move hm => exact hm.roused (SendMoves.sound hms hs).inv ih
    | cursor c x =>
      exact ih.same (List.Subset.refl _) rfl subset_rfl subset_rfl rfl rfl fun _ =>
        ⟨rfl, rfl, rfl, rfl, rfl⟩

/-! ## Clients that are going to be notified -/

/-- A write notification of some client was consumed although nothing could be sent. -/
def Net.Wasted (n : Net) : Prop := ∃ c, .idle c ∈ n.a.log

/-- A write notification of client `c` is pending, or its socket is full. -/
def Net.Stirring (n : Net) (c : ConnId) : Prop := n.c.evOut c = true ∨ n.c.lastShort c = true

/-- **A client that waits for write events is going to get one.** -/
def Notified (n : Net) : Prop :=
  ∀ c, n.Client c → c ∉ n.g.closing → c ∉ n.g.cold → n.c.sendActive c = true →
    n.Stirring c ∨ n.Wasted

/-- Client `c` was a client as before, and waited for write events. -/
structure Net.SameWait (n n' : Net) (c : ConnId) : Prop where
  client : n.Client c
  closing : c ∉ n.g.closing
  cold : c ∉ n.g.cold
  active : n.c.sendActive c = true
  stirring : n.Stirring c → n'.Stirring c

/-- Every client that waits is as before, or is being served, or has wasted a notification. -/
lemma Notified.frame (hn : Notified n) (hlog : n.a.log ⊆ n'.a.log)
    (h : ∀ c, n'.Client c → c ∉ n'.g.closing → c ∉ n'.g.cold → n'.c.sendActive c = true →
      n.SameWait n' c ∨ n'.Stirring c ∨ n'.Wasted) : Notified n' := by
  intro c hc hcl hcold hact
  rcases h c hc hcl hcold hact with hsame | hwait
  · rcases hn c hsame.client hsame.closing hsame.cold hsame.active with hst | ⟨c', hc'⟩
    · exact .inl (hsame.stirring hst)
    · exact .inr ⟨c', hlog hc'⟩
  · exact hwait

/-- The registrations and the notifications are the same. -/
lemma Notified.same (hn : Notified n) (hlog : n.a.log ⊆ n'.a.log) (ho : n'.c.owner = n.c.owner)
    (hcl : n.g.closing ⊆ n'.g.closing) (hcold : n'.g.cold = n.g.cold)
    (ha : n'.c.sendActive = n.c.sendActive) (he : n'.c.evOut = n.c.evOut)
    (hs : n'.c.lastShort = n.c.lastShort) : Notified n' := by
  refine hn.frame hlog fun c hc hc' hd hact => .inl ⟨?_, fun h => hc' (hcl h), ?_, ?_, ?_⟩
  · rwa [Net.Client, ← ho]
  · rwa [← hcold]
  · rwa [← ha]
  · simp only [Net.Stirring, he, hs]
    exact id

/-- A connection is opened. -/
lemma Notified.opened {o : Option Owner} (hn : Notified n) (hlog : n.a.log ⊆ n'.a.log)
    (ho : n'.c.owner = update n.c.owner c o) (hcl : n'.g.closing = n.g.closing \ {c})
    (hcold : n'.g.cold = n.g.cold \ {c}) (ha : n'.c.sendActive = update n.c.sendActive c false)
    (he : n'.c.evOut = update n.c.evOut c false)
    (hs : n'.c.lastShort = update n.c.lastShort c false) :
    Notified n' := by
  refine hn.frame hlog fun c' hc hc' hd hact => .inl ?_
  have hne : c' ≠ c := by
    rintro rfl
    simp [ha] at hact
  refine ⟨?_, fun h => hc' ?_, fun h => hd ?_, ?_, ?_⟩
  · rwa [Net.Client, ho, update_of_ne hne] at hc
  · rw [hcl]
    exact ⟨h, hne⟩
  · rw [hcold]
    exact ⟨h, hne⟩
  · rwa [ha, update_of_ne hne] at hact
  · simp only [Net.Stirring, he, hs, update_of_ne hne]
    exact id

/-- A connection is not open any more. -/
lemma Notified.left (hn : Notified n) (hlog : n.a.log ⊆ n'.a.log)
    (ho : n'.c.owner = update n.c.owner c none) (hcl : n.g.closing ⊆ n'.g.closing)
    (hcold : n'.g.cold = n.g.cold) (ha : n'.c.sendActive = n.c.sendActive)
    (he : n'.c.evOut = n.c.evOut) (hs : n'.c.lastShort = n.c.lastShort) : Notified n' := by
  refine hn.frame hlog fun c' hc hc' hd hact => .inl ⟨?_, fun h => hc' (hcl h), ?_, ?_, ?_⟩
  · obtain ⟨p, hp⟩ := hc
    have hne : c' ≠ c := by
      rintro rfl
      rw [ho, update_self] at hp
      cases hp
    exact ⟨p, by rwa [ho, update_of_ne hne] at hp⟩
  · rwa [← hcold]
  · rwa [← ha]
  · simp only [Net.Stirring, he, hs]
    exact id

/-- A move of a server connection keeps the notifications. -/
lemma ServerMove.notified (h : ServerMove n n') (hn : Notified n) : Notified n' := by
  cases h with
  | note | touch => exact hn.same (List.subset_cons_self _ _) rfl subset_rfl rfl rfl rfl rfl
  | wake c =>
    refine hn.frame (List.Subset.refl _) fun c' hc hcl hd hact => ?_
    rcases eq_or_ne c' c with rfl | hne
    · exact .inr (.inl (.inl (update_self _ _ _)))
    · refine .inl ⟨hc, hcl, hd, ?_, ?_⟩
      · simpa [hne] using hact
      · simp [Net.Stirring, hne]
  | openServer s p i hs => exact hn.opened (c := s) (List.Subset.refl _) rfl rfl rfl rfl rfl rfl
  | beginCloseServer s hs =>
    exact hn.same (List.Subset.refl _) rfl (Set.subset_insert s _) rfl rfl rfl rfl
  | unrefServer s p i ho hi hq hr =>
    exact hn.left (c := s) (List.Subset.refl _) rfl subset_rfl rfl rfl rfl rfl
  | abandon s p i ho ha =>
    exact hn.left (c := s) (List.Subset.refl _) rfl subset_rfl rfl rfl rfl rfl
  | dropIn s m hm => refine hn.same ?_ ?_ ?_ ?_ ?_ ?_ ?_ <;> simp [Net.put, Net.deqIn]
  | dropOut s m hm hs => refine hn.same ?_ ?_ ?_ ?_ ?_ ?_ ?_ <;> simp [Net.put, Net.deqOut]
  | failIn s c m b hm hc =>
    refine hn.same (Net.log_count (((n.deqIn s m).move m (.req (some c) none)).finish m) m b) ?_
      ?_ ?_ ?_ ?_ ?_
    all_goals simp [Net.setDue, Net.fail, Net.finish, Net.move, Net.deqIn]
  | failOut s c m b hm hc hs =>
    refine hn.same ?_ ?_ ?_ ?_ ?_ ?_ ?_
    · have hlog :=
        Net.log_count ((((n.tmoDelete m).deqOut s m).move m (.req (some c) none)).finish m) m b
      exact fun e he => hlog (by simpa [Net.finish, Net.move, Net.deqOut] using he)
    all_goals simp [Net.setDue, Net.fail, Net.finish, Net.move, Net.deqOut]
  | discardRsp s m hs hr => exact hn.same (List.subset_cons_self _ _) rfl subset_rfl rfl rfl rfl rfl
  | _ => exact hn.same (List.Subset.refl _) rfl subset_rfl rfl rfl rfl rfl

/-- A move keeps the notifications. -/
lemma Move.notified (h : Move n n') (hn : Notified n) : Notified n' := by
  cases h with
  | server h => exact h.notified hn
  | timerTouch => exact hn.same (List.subset_cons_self _ _) rfl subset_rfl rfl rfl rfl rfl
  | sleep c hc =>
    refine hn.frame (List.Subset.refl _) fun c' hc' hcl hd hact => .inl ?_
    have hne : c' ≠ c := by
      rintro rfl
      simp at hact
    refine ⟨hc', hcl, hd, by simpa [hne] using hact, ?_⟩
    simp [Net.Stirring, hne]
  | deliver c =>
    refine hn.frame (List.Subset.refl _) fun c' hc hcl hd hact => .inl ?_
    have hne : c' ≠ c := fun he => hd (he ▸ Set.mem_insert _ _)
    refine ⟨hc, hcl, fun hmem => hd (Set.mem_insert_of_mem _ hmem), hact, ?_⟩
    simp [Net.Stirring, hne]
  | edge c =>
    refine hn.frame (List.Subset.refl _) fun c' hc hcl hd hact => .inl ⟨hc, hcl, hd, hact, ?_⟩
    rcases eq_or_ne c' c with rfl | hne
    · rintro (he | hs)
      · exact .inl (by simp [he])
      · exact .inr hs
    · simp [Net.Stirring, hne]
  | written c b hc =>
    refine hn.frame (List.Subset.refl _) fun c' hc' hcl hd hact => .inl ⟨hc', hcl, hd, hact, ?_⟩
    have hne : c' ≠ c := by
      rintro rfl
      exact hd (hc hc')
    simp [Net.Stirring, hne]
  | settle c hc =>
    refine hn.frame (List.Subset.refl _) fun c' hc' hcl hd hact => ?_
    rcases eq_or_ne c' c with rfl | hne
    · right
      by_contra hnot
      obtain ⟨hst, hwaste⟩ := not_or.mp hnot
      obtain ⟨he, hs⟩ := not_or.mp hst
      exact hwaste (hc hc' hcl hact (Bool.not_eq_true _ ▸ he) (Bool.not_eq_true _ ▸ hs))
    · exact .inl ⟨hc', hcl, fun hmem => hd ⟨hmem, hne⟩, hact, id⟩
  | openClient c p sd hc => exact hn.opened (c := c) (List.Subset.refl _) rfl rfl rfl rfl rfl rfl
  | beginClose c hc =>
    exact hn.same (List.Subset.refl _) rfl (Set.subset_insert c _) rfl rfl rfl rfl
  | unrefClient c p ho hq hr =>
    exact hn.left (c := c) (List.Subset.refl _) rfl subset_rfl rfl rfl rfl rfl
  | put => exact hn.same (List.subset_cons_self _ _) rfl subset_rfl rfl rfl rfl rfl
  | tmoDelete m => refine hn.same ?_ ?_ ?_ ?_ ?_ ?_ ?_ <;> simp
  | failFwd c m b hm hd hc =>
    refine hn.same (Net.log_count (n.finish m) m b) ?_ ?_ ?_ ?_ ?_ ?_
    all_goals simp [Net.setDue, Net.fail, Net.finish]
  | respond s c p m rest b e hq hp hc hm hb hn' =>
    refine hn.same ?_ ?_ ?_ ?_ ?_ ?_ ?_
    · have hlog :=
        Net.log_count (((((n.emit (.link (n.m.id p) false)).tmoDelete p).deqOut s p).move p
          (.req (some c) none)).finish p) p b
      exact fun e he => hlog (by simp [Net.finish, Net.move, Net.deqOut, Net.emit, he])
    all_goals simp [Net.setDue, Net.fail, Net.finish, Net.move, Net.deqOut, Net.link, Net.emit]
  | swallowed s p rest hq hp =>
    refine hn.same ?_ ?_ ?_ ?_ ?_ ?_ ?_ <;> simp [Net.put, Net.finish, Net.deqOut]
  | _ => exact hn.same (List.Subset.refl _) rfl subset_rfl rfl rfl rfl rfl

/-- **A client that waits for write events is going to get one.** -/
theorem SendMoves.notified (h : SendMoves n n') (hn : Notified n) : Notified n' := by
  induction h with
  | refl => exact hn
  | tail _ hm ih =>
    cases hm with
    | move hm => exact hm.notified ih
    | cursor c x => exact ih.same (List.Subset.refl _) rfl subset_rfl rfl rfl rfl rfl

end GfwProxy
