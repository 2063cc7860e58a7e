import GfwProxy.Net.Reach

set_option autoImplicit false

/-!
# Waking a client

The verdict on a request, and the registration of its client for write events, as moves.

## Main definitions

* `GfwProxy.Net.Flags` — two views differ in notifications and marks only.

## Main results

* `GfwProxy.reqDone_moves`, `GfwProxy.wakeHead_moves`.
-/

namespace GfwProxy

open Function

variable {env : Env} {n n' : Net} {h h' : Heap} {g g' : Ghost} {c : ConnId} {m : MsgId} {b : Bool}

/-- The view `n'` differs from `n` in the registrations for write events, in the marks of done
vectors, in the log and in what is due. -/
def Net.Flags (n n' : Net) : Prop :=
  ∃ sendActive evOut fdone log due,
    n' = { n with
      c.sendActive := sendActive, c.evOut := evOut, m.fdone := fdone, a.log := log, g.due := due }

/-- No flag has changed. -/
lemma Net.Flags.refl (n : Net) : n.Flags n := ⟨_, _, _, _, _, rfl⟩

/-- Changes of flags compose. -/
lemma Net.Flags.trans {n₁ n₂ n₃ : Net} (h₁ : n₁.Flags n₂) (h₂ : n₂.Flags n₃) : n₁.Flags n₃ := by
  obtain ⟨_, _, _, _, _, rfl⟩ := h₁
  obtain ⟨_, _, _, _, _, rfl⟩ := h₂
  exact ⟨_, _, _, _, _, rfl⟩

/-! ## `event_add_out` -/

/-- `event_add_out` wakes the connection; if it fails for a client, that is in the log. -/
lemma eventAddOut_moves (h : Heap) (g : Ghost) (c : ConnId) :
    After (eventAddOut env c) (Reach ServerMove (h.net g) fun ok h' g' =>
      g' = g ∧ (h.net g).Flags (h'.net g) ∧ (ok = true → (h'.conn c).sendActive = true) ∧
      (ok = false → (h.conn c).client = true → .noWake c ∈ h'.log)) h := by
  unfold eventAddOut
  refine After.getConn (After.ite (fun ha => After.pure ?_) fun _ => After.ask fun t => ?_)
  · exact .here ⟨rfl, .refl _, fun _ => ha, by simp⟩
  refine After.ite (fun _ => After.modConn ?_) fun _ => ?_
  · have he : (h.modConn c fun x => { x with sendActive := true, evOut := true }).net g =
        { h.net g with
          c.sendActive := update (h.net g).c.sendActive c true
          c.evOut := update (h.net g).c.evOut c true } := by
      simp [ConnCols.set]
    exact After.pay₁ (.wake c) he.symm (After.pure (.here ⟨rfl, ⟨_, _, _, _, _, he⟩, by simp⟩))
  · refine After.onlyIf (Q := fun _ h' => h' = if (h.conn c).client then h.emit (.noWake c) else h)
      ?_ ?_ ?_
    · intro hc
      exact After.last (After.emit (After.pure (by simp [hc])))
    · intro hc
      simp [hc]
    · rintro h' rfl
      cases hc : (h.conn c).client with
      | false => exact After.pure (.here ⟨rfl, .refl _, by simp⟩)
      | true =>
        refine After.pay₁ (g := g) (.note (.noWake c) rfl) rfl (After.pure (.here ?_))
        exact ⟨rfl, ⟨_, _, _, _, _, rfl⟩, by simp [Heap.emit]⟩

/-! ## `req_done` -/

/-- `req_done` reads the view only. -/
lemma Heap.net_isDone (q : List MsgId) (m : MsgId) : (h.net g).isDone q m = h.isDone q m := rfl

/-- The post-coalesce callback changes nothing in the view. -/
lemma Heap.net_postCoalesce (vector : List MsgId) (bytes : MsgId → List Mbuf) :
    (h.postCoalesce vector bytes).net g = h.net g := by
  have hmsg : MsgCols.of (h.postCoalesce vector bytes).msg = MsgCols.of h.msg := by
    simp only [Heap.postCoalesce, Heap.modMsgs, MsgCols.of, MsgCols.mk.injEq]
    refine ⟨?_, ?_, ?_, ?_, ?_, ?_, ?_, ?_, ?_, ?_, ?_, ?_, ?_, ?_, ?_, ?_, ?_⟩ <;>
      (funext x; split_ifs <;> rfl)
  simp only [Heap.net, hmsg]
  rfl

/-- The marks of a done vector. -/
lemma Heap.net_mark (xs : List MsgId) :
    (h.modMsgs xs fun _ x => { x with fdone := true }).net g =
      { h.net g with m.fdone := fun x => if x ∈ xs then true else (h.net g).m.fdone x } := by
  have hmsg : MsgCols.of (h.modMsgs xs fun _ x => { x with fdone := true }).msg =
      { MsgCols.of h.msg with fdone := fun x => if x ∈ xs then true else (h.msg x).fdone } := by
    simp only [Heap.modMsgs, MsgCols.of, MsgCols.mk.injEq]
    refine ⟨?_, ?_, ?_, ?_, ?_, ?_, ?_, ?_, ?_, ?_, ?_, ?_, ?_, ?_, ?_, ?_, ?_⟩ <;>
      (funext x; split_ifs <;> rfl)
  simp only [Heap.net, hmsg]
  rfl

/-- The verdict on request `m` in the queue of client `c` is right, and a request that is done is
marked. -/
structure Net.Verdict (n : Net) (c : ConnId) (m : MsgId) (ok : Bool) : Prop where
  isDone : n.isDone (n.c.omsgq c) m = ok
  marked : ok = true → n.m.done m = true ∧ (n.m.fragId m = 0 ∨ n.m.fdone m = true)

/-- `req_done` changes only the marks of a vector, and its verdict is that of the view. -/
theorem reqDone_moves (hc : (h.net g).Client c) (hcl : c ∉ g.closing) (hm : m ∈ (h.conn c).omsgq)
    (hp : g.pend = [] ∧ (h.net g).HeadDone c ∨ (h.conn c).omsgq.head? = some m) :
    After (reqDone env c (some m)) (Reach ServerMove (h.net g) fun ok h' g' =>
      g' = g ∧ (h.net g).Flags (h'.net g) ∧ (h'.net g).Verdict c m ok ∧ h'.conn = h.conn ∧
        h'.log = h.log) h := by
  unfold reqDone
  refine After.deref fun m' hm' => ?_
  obtain rfl := Option.some.inj hm'
  refine After.getMsg (After.ite (fun hd => After.pure ?_) fun hd => ?_)
  · refine .here ⟨rfl, .refl _, ⟨?_, by simp⟩, rfl, rfl⟩
    simp only [Bool.not_eq_eq_eq_not, Bool.not_true] at hd
    simp [Net.isDone, hd]
  simp only [Bool.not_eq_eq_eq_not, Bool.not_true, Bool.not_eq_false] at hd
  refine After.ite (fun hf => After.pure ?_) fun hf => ?_
  · exact .here ⟨rfl, .refl _, ⟨by simp [Net.isDone, hd, hf], fun _ => ⟨hd, .inl hf⟩⟩, rfl, rfl⟩
  refine After.ite (fun hfd => After.pure ?_) fun hfd => ?_
  · exact .here ⟨rfl, .refl _, ⟨by simp [Net.isDone, hd, hfd], fun _ => ⟨hd, .inr hfd⟩⟩, rfl, rfl⟩
  refine After.ite (fun hn => After.pure ?_) fun hn => ?_
  · refine .here ⟨rfl, .refl _, ⟨?_, by simp⟩, rfl, rfl⟩
    simp [Net.isDone, hf, hfd, not_le.mpr hn]
  refine After.readHeap (After.readHeap (After.ite (fun hr => After.pure ?_) fun hr => ?_))
  · refine .here ⟨rfl, .refl _, ⟨?_, by simp⟩, rfl, rfl⟩
    obtain ⟨x, hx, hxd⟩ := List.any_eq_true.mp hr
    have hall : ((h.fragRun (h.conn c).omsgq m).all fun x => (h.msg x).done) = false := by
      rw [← Bool.not_eq_true, List.all_eq_true]
      intro hall
      simp [hall x hx] at hxd
    rw [Heap.net_isDone, Heap.isDone]
    simp only [Heap.net_conn, hall, hd, hf, hfd]
    simp
  have hrun : ∀ x ∈ (h.net g).fragRun ((h.net g).c.omsgq c) m, (h.net g).m.done x = true := by
    intro x hx
    by_contra hxd
    exact hr (List.any_eq_true.mpr ⟨x, hx, by simpa using hxd⟩)
  refine After.modHeap (After.ask fun t => After.modHeap (After.pure ?_))
  have hnet := Heap.net_mark (h := h) (g := g) (m :: h.fragRun (h.conn c).omsgq m)
  refine ⟨g, .single ?_, rfl, ?_, ⟨?_, fun _ => ?_⟩, rfl, rfl⟩
  all_goals rw [Heap.net_postCoalesce, hnet]
  · exact .fdone c m hc hcl hm hd hf (not_lt.mp hn) hrun hp
  · exact ⟨_, _, _, _, _, rfl⟩
  · simp [Net.isDone, hd]
  · exact ⟨hd, .inr (by simp)⟩

/-! ## The head of a queue -/

/-- What is reached by moves of a server connection is reached by moves. -/
lemma Reach.server {α : Type} {Q : α → Heap → Ghost → Prop} {a : α}
    (hr : Reach ServerMove n Q a h) : Reach Move n Q a h := by
  obtain ⟨g, hm, hq⟩ := hr
  exact ⟨g, ServerMoves.moves hm, hq⟩

/-- The verdict on the head of the queue is known, and if it is done, the client waits for write
events or cannot. -/
lemma Net.Verdict.calm (hv : (h.net g).Verdict c m b) (hhead : (h.conn c).omsgq.head? = some m)
    (hb : b = true → (h.conn c).sendActive = false → .noWake c ∈ h.log) :
    ServerMove (h.net g) (h.net { g with due := g.due \ {c} }) := by
  refine .calm c fun hs => ?_
  cases b with
  | true => exact .inl ⟨c, hb rfl hs⟩
  | false =>
    refine .inr (.inr fun x hx => ?_)
    obtain rfl := Option.some.inj (hhead.symm.trans hx)
    exact hv.isDone

/-- **The head of a queue is looked at**, so nothing is due any more.

**Proof sketch.** If the head of the queue is done, the client is registered for write events, or
that is logged; if it is not, it has no claim to be woken. -/
theorem wakeHead_moves (hi : Inv (h.net g)) (hc : (h.net g).Client c) (hcl : c ∉ g.closing) :
    After (wakeHead env c) (Reach ServerMove (h.net g) fun _ h' g' =>
      g' = { g with due := g.due \ {c} } ∧ (h.net g).Flags (h'.net g')) h := by
  have hclient : (h.conn c).client = true := (hi.addr.pool_client c hc).1
  unfold wakeHead
  refine After.getConn ?_
  cases hhead : (h.conn c).omsgq.head? with
  | none =>
    refine After.call (R := fun _ _ => False) ?_ fun _ _ hf => hf.elim
    exact After.fault_bind
  | some m =>
    refine After.follow (reqDone_moves (m := m) hc hcl (List.mem_of_mem_head? hhead) (.inr hhead))
      ?_
    rintro ok h₁ g₁ - ⟨rfl, hflags, hv, hconn, hlog⟩
    refine After.ite (fun hok => ?_) fun hok => ?_
    · refine After.last (After.follow (eventAddOut_moves h₁ g₁ c) ?_)
      rintro ok₂ h₂ g₂ - ⟨rfl, hflags₂, hact, hno⟩
      have hcalm : ServerMove (h₂.net g₂) (h₂.net { g₂ with due := g₂.due \ {c} }) := by
        refine .calm c fun hs => .inl ⟨c, hno ?_ (by rw [hconn]; exact hclient)⟩
        cases ok₂ with
        | false => rfl
        | true => exact absurd (hact rfl) (by simpa using hs)
      refine After.pure ⟨_, .single hcalm, rfl, (hflags.trans hflags₂).trans ⟨_, _, _, _, _, rfl⟩⟩
    · have hcalm : ServerMove (h₁.net g₁) (h₁.net { g₁ with due := g₁.due \ {c} }) :=
        hv.calm (by rw [hconn, hhead]) fun hb => absurd hb hok
      exact After.pure ⟨_, .single hcalm, rfl, hflags.trans ⟨_, _, _, _, _, rfl⟩⟩

end GfwProxy
