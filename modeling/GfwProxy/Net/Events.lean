import GfwProxy.Net.Answering
import GfwProxy.Net.Receiving

set_option autoImplicit false

/-!
# The event loop as moves

The callbacks of the event loop make moves, and between two callbacks nothing is left to do: no
connection is being closed, no client waits to be woken, and nothing is to be forwarded.

## Main definitions

* `GfwProxy.Steady` — what holds whenever a callback has handled an event of a connection.
* `GfwProxy.AtRest` — what holds between two callbacks.

## Main results

* `GfwProxy.step_moves` — one step of the event loop.
* `GfwProxy.Run.moves` — a run of the proxy is a sequence of moves.
-/

namespace GfwProxy

open Function

variable {env : Env} {n n' : Net} {h h' : Heap} {g g' : Ghost} {c s : ConnId} {m : MsgId}

/-- What holds whenever a callback has handled an event of a connection. -/
structure Steady (n : Net) : Prop extends Ready n where
  answered : Answered n
  still : n.Still
  pend : n.g.pend = []

/-- **What holds between two callbacks.** -/
structure AtRest (n : Net) : Prop extends Steady n where
  due : n.g.due = ∅
  cold : n.g.cold = ∅
  shut : ∀ x, n.Open x → x ∉ n.g.closing

/-- Something may be left to do for connection `c` only. -/
structure LeftTo (n : Net) (c : ConnId) : Prop extends Steady n where
  due : n.g.due ⊆ {c}
  cold : n.g.cold ⊆ {c}
  shut : ∀ x, n.Open x → x ∈ n.g.closing → x = c

/-- A state at rest is one that is left to any connection. -/
lemma AtRest.leftTo (hr : AtRest n) (c : ConnId) : LeftTo n c where
  toSteady := hr.toSteady
  due := hr.due.subset.trans (Set.empty_subset _)
  cold := hr.cold.subset.trans (Set.empty_subset _)
  shut x ho hc := absurd hc (hr.shut x ho)

/-- Moves that end with a served connection keep the state steady. -/
lemma Steady.moves (hs : Steady n) (hm : Moves n n') (hc : ∀ x, n'.Client x → x ∉ n'.g.closing)
    (hp : n'.g.pend = []) : Steady n' where
  toSound := Moves.sound hm hs.toSound
  closing := hc
  answered := Moves.answered hm hs.inv hs.answered
  still := Moves.still hm hs.still
  pend := hp

/-! ## Closing -/

/-- A connection has been closed, and nothing is left to do. -/
lemma Closed.rest (hl : LeftTo (h.net g) c) (hm : Moves (h.net g) (h'.net g'))
    (hc : Closed c h h' g g') :
    AtRest (h'.net g') := by
  have hne : ∀ {x}, (h'.net g').Open x → x ≠ c := by
    rintro x ho rfl
    rw [Net.Open, hc.owner] at ho
    exact ho (update_self _ _ _)
  have hshut : ∀ x, (h'.net g').Open x → x ∉ g'.closing := by
    intro x ho hxc
    have ho' : (h.net g).Open x := by
      have hx := hne ho
      rw [Net.Open, hc.owner, update_of_ne hx] at ho
      exact ho
    exact hne ho (hl.shut x ho' ((hc.closing hxc).resolve_left (hne ho)))
  refine ⟨hl.toSteady.moves hm (fun x hx => hshut x hx.isOpen) hc.pend, ?_, ?_, hshut⟩
  · exact Set.subset_empty_iff.mp (hc.due.trans (Set.sdiff_eq_empty.mpr hl.due).subset)
  · exact Set.subset_empty_iff.mp (hc.cold.trans (Set.sdiff_eq_empty.mpr hl.cold).subset)

/-- **`core_close`**. -/
theorem coreClose_rest (hl : LeftTo (h.net g) c) :
    After (coreClose env c) (Reach Move (h.net g) fun _ h' g' => AtRest (h'.net g')) h := by
  refine (coreClose_moves hl.toReady hl.pend).mono fun _ h' hreach => ?_
  obtain ⟨g', hmoves, hclosed⟩ := hreach
  exact ⟨g', hmoves, hclosed.rest hl hmoves⟩

/-- **`core_error`**. -/
theorem coreError_rest (hl : LeftTo (h.net g) c) :
    After (coreError env c) (Reach Move (h.net g) fun _ h' g' => AtRest (h'.net g')) h := by
  unfold coreError
  refine After.ask fun t => After.modConn ?_
  have he : (h.modConn c fun x => { x with err := env.soerror t }).net g = h.net g :=
    Heap.net_modConn_unseen rfl
  refine After.same he ?_
  rw [← he] at hl
  exact coreClose_rest hl

/-! ## Writing -/

/-- **`msg_send`**. -/
theorem msgSend_moves (hs : Steady (h.net g)) (ho : (h.net g).Open c)
    (hcold : (h.net g).Client c → c ∈ g.cold) :
    After (msgSend env c) (Reach SendMove (h.net g) fun status h' g' => Sent c h h' g g' ∧
      (h'.net g').Still ∧
      ((h.net g).Client c → status = .ok → (h'.conn c).err = 0 → h'.Settles c)) h := by
  unfold msgSend
  have he : (h.modConn c fun x => { x with sendReady := true }).net g = h.net g :=
    Heap.net_modConn_unseen rfl
  have hready : ((h.modConn c fun x => { x with sendReady := true }).conn c).sendReady =
      true := by simp
  have hsmsg : ∀ x, ((h.modConn c fun y => { y with sendReady := true }).conn x).smsg =
      (h.conn x).smsg :=
    fun x => congrArg (fun n : Net => n.c.smsg x) he
  refine After.modConn (After.same he ?_)
  have howner := congrArg (fun n : Net => n.c.owner) he
  rw [← he] at hs ho hcold ⊢
  generalize (h.modConn c fun x => { x with sendReady := true }) =
    h₁ at he hready hsmsg hs ho hcold howner ⊢
  have hsent₁ : Sent c h h₁ g g := ⟨.refl g, howner, fun x _ => hsmsg x⟩
  have hstill : ∀ {h' : Heap} {g' : Ghost}, Sent c h₁ h' g g' →
      ((h'.net g').Client c → (h'.conn c).smsg = none) → (h'.net g').Still := by
    intro h' g' hsent hc x hx
    rcases eq_or_ne x c with rfl | hne
    · exact hc hx
    · have hx' : (h₁.net g).Client x := by
        obtain ⟨p, hp⟩ := hx
        exact ⟨p, by rw [← hsent.owner]; exact hp⟩
      exact (hsent.smsg x hne).trans (hs.still x hx')
  rcases ho.cases with hc | hc
  · have ha : Answering (h₁.net g) c := ⟨hs.toSound, hs.answered, hc, hs.closing c hc, hs.pend⟩
    refine (msgSendLoop_client_moves env.fuel ha (hcold hc) (hs.still c hc) hready).mono
      fun status h₂ hreach =>
      hreach.mono fun g₂ hafter => ?_
    obtain ⟨hsent, hnone, hsettle⟩ := hafter
    exact ⟨hsent₁.trans hsent, hstill hsent fun _ => hnone, fun _ => hsettle⟩
  · refine (msgSendLoop_server_moves env.fuel hs.toSound hc hs.pend).mono fun status h₂ hreach =>
      hreach.mono fun g₂ hsent =>
        ⟨hsent₁.trans hsent, hstill hsent fun hc' => ?_, fun hc' => absurd hc' hc.not_client⟩
    obtain ⟨p, hp⟩ := hc'
    exact absurd ⟨p, by rw [← hsent.owner]; exact hp⟩ hc.not_client

/-- The moves of sending keep the state steady. -/
lemma Steady.sends (hs : Steady (h.net g)) (hm : SendMoves (h.net g) (h'.net g'))
    (hsent : Sent c h h' g g') (hstill : (h'.net g').Still) : Steady (h'.net g') where
  toSound := SendMoves.sound hm hs.toSound
  closing x hx hxc := by
    obtain ⟨p, ho⟩ := hx
    rw [hsent.owner] at ho
    obtain ⟨place, rfl⟩ := hsent.moved
    exact hs.closing x ⟨p, ho⟩ hxc
  answered := SendMoves.answered hm hs.toSound hs.answered
  still := hstill
  pend := hsent.pend hs.pend

/-- The write notification of connection `c` has been handled. -/
lemma settle_rest (hl : LeftTo (h.net g) c) (hdue : g.due = ∅)
    (hcl : (h.net g).Open c → c ∉ g.closing) (hset : (h.net g).Client c → h.Settles c) :
    ∃ g', Moves (h.net g) (h.net g') ∧ AtRest (h.net g') := by
  have hmove : Move (h.net g) (h.net { g with cold := g.cold \ {c} }) := by
    refine .settle c fun hc _ _ _ hshort => ?_
    rcases hset hc with hs | hidle
    · have hs' : (h.net g).c.lastShort c = true := hs
      rw [hs'] at hshort
      cases hshort
    · exact hidle
  refine ⟨_, .single hmove, hl.toSteady.moves (.single hmove) hl.closing hl.pend, hdue, ?_,
    fun x ho hxc => ?_⟩
  · exact Set.sdiff_eq_empty.mpr hl.cold
  · obtain rfl := hl.shut x ho hxc
    exact hcl ho hxc

/-- **The write half of `core_core`.**

**Proof sketch.** After the write the connection is closed, or the client has been looked at: if the
write did not fill the socket, there was nothing left to send. -/
theorem coreSend_rest (hl : LeftTo (h.net g) c) (ho : (h.net g).Open c) (hdue : g.due = ∅)
    (hcl : c ∉ g.closing) (hc : (h.net g).Client c → c ∈ g.cold) :
    After (coreSend env c) (Reach SendMove (h.net g) fun _ h' g' => AtRest (h'.net g')) h := by
  unfold coreSend mustClose
  refine After.follow (msgSend_moves hl.toSteady ho hc) ?_
  rintro status h₁ g₁ hmoves ⟨hsent, hstill, hsettle⟩
  have hg₁ : g₁.due = g.due ∧ g₁.cold = g.cold ∧ g₁.closing = g.closing := by
    obtain ⟨place, rfl⟩ := hsent.moved
    exact ⟨rfl, rfl, rfl⟩
  have hl₁ : LeftTo (h₁.net g₁) c := by
    refine ⟨hl.toSteady.sends hmoves hsent hstill, hg₁.1.subset.trans hl.due,
      hg₁.2.1.subset.trans hl.cold, ?_⟩
    intro x hx hxc
    rw [Net.Open, hsent.owner] at hx
    exact hl.shut x hx (hg₁.2.2.subset hxc)
  rw [bind_assoc]
  refine After.getConn ?_
  cases hclose : decide (status ≠ .ok) || (h₁.conn c).done || decide ((h₁.conn c).err ≠ 0) with
  | true =>
    refine (coreClose_rest hl₁).mono fun _ h₂ hreach => ?_
    exact Reach.send hreach
  | false =>
    simp only [ne_eq, decide_not, Bool.or_eq_false_iff, Bool.not_eq_eq_eq_not, Bool.not_false,
      decide_eq_true_eq] at hclose
    have hcl₁ : c ∉ g₁.closing := hg₁.2.2 ▸ hcl
    obtain ⟨g₂, hmoves₂, hrest⟩ :=
      settle_rest hl₁ (hg₁.1.trans hdue) (fun _ => hcl₁) fun hclient => by
        refine hsettle ?_ hclose.1.1 hclose.2
        obtain ⟨p, hp⟩ := hclient
        exact ⟨p, by rw [← hsent.owner]; exact hp⟩
    exact After.pure ⟨g₂, Moves.send hmoves₂, hrest⟩

/-! ## `core_core` -/

/-- The read half of `core_core` has handled the input of connection `c`, and closes it if that
failed. -/
lemma Heard.steady {status : Rstatus} (hs : Steady n) (hm : Moves n n') (hh : Heard c status n n') :
    Steady n' := by
  refine hs.moves hm (fun x hx hxc => ?_) hh.spoiled.pend
  have hx' := hh.spoiled.client x hx
  rcases hh.spoiled.shut x hx.isOpen hxc with ⟨-, hold⟩ | ⟨rfl, hserver⟩
  · exact hs.closing x hx' hold
  · exact hserver.not_client hx'

/-- What is left when the read half of `core_core` has failed. -/
lemma Heard.leftTo {status : Rstatus} (hl : LeftTo n c) (hm : Moves n n')
    (hh : Heard c status n n') : LeftTo n' c where
  toSteady := hh.steady hl.toSteady hm
  due := hh.spoiled.due.trans (Set.insert_subset rfl hl.due)
  cold := hh.spoiled.cold_sub.trans hl.cold
  shut x hx hxc := by
    rcases hh.spoiled.shut x hx hxc with ⟨ho, hold⟩ | ⟨rfl, -⟩
    · exact hl.shut x ho hold
    · rfl

/-- **`core_core`**.

**Proof sketch.** The three events in turn.  After each the connection may be closed, and then
nothing is left to do; otherwise the next one starts from a state in which only this connection may
have something left. -/
theorem coreCore_rest (henv : env.Splits) (hl : LeftTo (h.net g) c) (hdue : g.due = ∅)
    (hcl : (h.net g).Open c → c ∉ g.closing) {err read write : Bool}
    (hcold : g.cold = if write then {c} else ∅) :
    After (coreCore env c err read write)
      (Reach SendMove (h.net g) fun _ h' g' => AtRest (h'.net g')) h := by
  -- a callback that does not write is done
  have hidle : ∀ {h₁ : Heap} {g₁ : Ghost}, LeftTo (h₁.net g₁) c → g₁.due = ∅ → (h₁.net g₁).Open c →
      c ∉ g₁.closing → (c ∈ g₁.cold ↔ c ∈ g.cold) →
      After (onlyIf write (coreSend env c))
        (Reach SendMove (h₁.net g₁) fun _ h' g' => AtRest (h'.net g')) h₁ := by
    intro h₁ g₁ hl₁ hdue₁ ho₁ hcl₁ hiff
    rw [hcold] at hiff
    cases write with
    | true => exact coreSend_rest hl₁ ho₁ hdue₁ hcl₁ fun _ => hiff.mpr (by simp)
    | false =>
      refine After.pure (.here ⟨hl₁.toSteady, hdue₁, ?_, fun x ho hxc => ?_⟩)
      · have hnotin : c ∉ g₁.cold := fun hmem => by simpa using hiff.mp hmem
        exact (Set.subset_singleton_iff_eq.mp hl₁.cold).resolve_right fun he => hnotin (he ▸ rfl)
      · obtain rfl := hl₁.shut x ho hxc
        exact hcl₁ hxc
  unfold coreCore
  refine After.getConn (After.ite (fun hnone => ?_) fun hsome => ?_)
  · -- the connection is not open any more
    have howner : (h.conn c).owner = none := Option.isNone_iff_eq_none.mp hnone
    obtain ⟨g₁, hmoves, hrest⟩ :=
      settle_rest hl hdue hcl fun hc => absurd hc (Heap.not_client howner)
    exact After.pure ⟨g₁, Moves.send hmoves, hrest⟩
  have ho : (h.net g).Open c := fun he => hsome (Option.isNone_iff_eq_none.mpr he)
  refine After.ite (fun _ => ?_) fun _ => After.ite (fun _ => ?_) fun _ => ?_
  · exact (coreError_rest hl).mono fun _ _ hreach => Reach.send hreach
  · refine After.followMove (msgRecv_moves henv hl.toReady hl.pend ho) ?_
    rintro status h₁ g₁ hmoves hheard
    have hl₁ := hheard.leftTo hl hmoves
    unfold mustClose
    rw [bind_assoc]
    refine After.getConn ?_
    cases hclose : decide (status ≠ .ok) || (h₁.conn c).done || decide ((h₁.conn c).err ≠ 0) with
    | true =>
      refine (coreClose_rest hl₁).mono fun _ h₂ hreach => ?_
      exact Reach.send hreach
    | false =>
      simp only [ne_eq, decide_not, Bool.or_eq_false_iff, Bool.not_eq_eq_eq_not, Bool.not_false,
        decide_eq_true_eq] at hclose
      have hpassed := hheard.passed hclose.1.1
      have hdue₁ : g₁.due ⊆ g.due := hpassed.calmer.due
      rw [hdue] at hdue₁
      have ho₁ := hpassed.isOpen ho
      exact hidle hl₁ (Set.subset_empty_iff.mp hdue₁) ho₁
        (fun hxc => hcl ho (hpassed.calmer.shut c ho₁ hxc).2) hpassed.cold
  · exact hidle hl hdue ho (hcl ho) .rfl

/-! ## `core_timeout` -/

/-- The timeout of `epoll_wait` is none of the objects. -/
lemma setTimeout_after {Q : Unit → Heap → Prop} {timeout : ℤ} (hQ : Q () h) :
    After (setTimeout timeout) Q h := by
  refine After.last (After.run (fun _ => ()) (fun σ => { σ with timeout := timeout })
    (fun _ => rfl) ?_)
  rintro σ rfl
  exact After.pure hQ

/-- A client connection that is gone cannot be closed. -/
lemma coreClose_gone (hc : (h.conn c).client = true) (ho : (h.conn c).owner = none) :
    After (coreClose env c) (fun _ _ => False) h := by
  unfold coreClose
  let g : Ghost := ⟨fun _ => .free, ∅, ∅, ∅, []⟩
  refine After.call (eventDelConn_moves (g := g) fun hcl => absurd hcl (Heap.not_client ho)) ?_
  rintro - h₁ ⟨g₁, -, -, howner₁, hclient₁⟩
  refine After.getConn ?_
  rw [hclient₁, if_pos hc]
  unfold clientClose
  refine After.getConn (After.ownerPool fun p hp => ?_)
  have hnone : (h₁.conn c).owner = none := (congrFun howner₁ c).trans ho
  rw [hnone] at hp
  cases hp

/-- A timer goes away, and nothing that is read behind it. -/
lemma Heap.tmoDelete_same (h : Heap) (m : MsgId) : (h.tmoDelete m).conn = h.conn ∧
    ((h.tmoDelete m).msg m).id = (h.msg m).id ∧ (h.tmoDelete m).stale m = h.stale m := by
  unfold Heap.tmoDelete
  split
  · exact ⟨rfl, rfl, rfl⟩
  · refine ⟨rfl, by simp, ?_⟩
    unfold Heap.stale
    simp only [Heap.modMsg, update_self]

/-- A request of a client that expires is touched. -/
lemma timerTouch_moves (hm : (h.msg m).tmoData = some s) (hd : (h.msg m).done = false)
    (he : (h.msg m).error = false) (hc : (h.net g).Client s) :
    Moves (h.net g) (((h.tmoDelete m).emit (.touch s (h.msg m).id (h.stale m))).net g) := by
  have htouch : Move (h.net g) ((h.net g).emit (.touch s (h.msg m).id (h.stale m))) :=
    .timerTouch s m hc hm hd he
  refine .tail (.single htouch) ?_
  have hview : ((h.tmoDelete m).emit (.touch s (h.msg m).id (h.stale m))).net g =
      ((h.net g).emit (.touch s (h.msg m).id (h.stale m))).tmoDelete m := by
    rw [Heap.net_emit, Heap.net_tmoDelete]
    unfold Net.tmoDelete Net.emit
    split <;> rfl
  rw [hview]
  exact .tmoDelete m

/-- **`core_timeout`**: the loop closes the server connections of the requests that have expired.

**Proof sketch.** Induction on the fuel.  A request that is done or in error only leaves the tree;
otherwise its timer names a connection that is open, or one whose close faults, and closing an open
one leaves nothing to do. -/
theorem coreTimeoutLoop_rest (fuel : ℕ) (hr : AtRest (h.net g)) :
    After (coreTimeoutLoop env fuel)
      (Reach Move (h.net g) fun _ h' g' => AtRest (h'.net g')) h := by
  induction fuel generalizing h g with
  | zero => exact After.fault
  | succ fuel ih =>
    unfold coreTimeoutLoop
    refine After.readHeap ?_
    cases hhead : h.tmoRbt.head? with
    | none => exact setTimeout_after (.here hr)
    | some m =>
      have hdelete : Moves (h.net g) ((h.tmoDelete m).net g) := by
        rw [Heap.net_tmoDelete]
        exact .single (.tmoDelete m)
      have hshut : ∀ x, ((h.tmoDelete m).net g).Open x → x ∉ g.closing := by
        intro x hx
        rw [Heap.net_tmoDelete, Net.Open, Net.tmoDelete_conn] at hx
        exact hr.shut x hx
      have hr₁ : AtRest ((h.tmoDelete m).net g) :=
        ⟨hr.toSteady.moves hdelete (fun x hx => hshut x hx.isOpen) hr.pend, hr.due, hr.cold, hshut⟩
      refine After.getMsg (After.ite (fun _ => After.modHeap (After.pay hdelete (ih hr₁)))
        fun hlive => ?_)
      rw [Bool.or_eq_true, not_or, Bool.not_eq_true, Bool.not_eq_true] at hlive
      refine After.deref fun s hs => After.ask fun t =>
        After.ite (fun _ => setTimeout_after (.here hr)) fun _ => ?_
      refine After.modHeap (After.getConn ?_)
      obtain ⟨hconn, hid, hstale⟩ := h.tmoDelete_same m
      rw [hconn]
      by_cases hbad : (h.conn s).client = true ∧ ¬(h.net g).Client s
      · -- the connection of a client that is gone cannot be closed
        have howner : (h.conn s).owner = none := by
          by_contra ho
          rcases Net.Open.cases (n := h.net g) (c := s) ho with hc | hserver
          · exact hbad.2 hc
          · exact absurd hbad.1
              (by simp [show (h.conn s).client = false from hr.inv.addr.server_client s hserver])
        refine After.onlyIf (Q := fun _ h₂ => h₂.conn = h.conn) (fun _ => ?_) (fun _ => hconn) ?_
        · exact After.getMsg (After.readHeap (After.last (After.emit (After.pure hconn))))
        · intro h₂ hconn₂
          refine After.modConn (After.call
            (coreClose_gone (by simp [hconn₂, hbad.1]) (by simp [hconn₂, howner])) ?_)
          exact fun _ _ hf => hf.elim
      -- the connection is touched, if it is the connection of a client
      refine After.onlyIf (Q := fun _ h₂ => Moves (h.net g) (h₂.net g) ∧ AtRest (h₂.net g))
        (fun hc => ?_) (fun _ => ⟨hdelete, hr₁⟩) ?_
      · have hcs : (h.net g).Client s := by
          by_contra hnot
          exact hbad ⟨hc, hnot⟩
        have hmoves := timerTouch_moves hs hlive.2 hlive.1 hcs
        refine After.getMsg (After.readHeap (After.last (After.emit (After.pure ?_))))
        rw [hid, hstale]
        exact ⟨hmoves, hr.toSteady.moves hmoves hr₁.closing hr.pend, hr.due, hr.cold, hr₁.shut⟩
      · rintro h₂ ⟨hmoves₂, hr₂⟩
        refine After.modConn ?_
        have he : (h₂.modConn s fun x => { x with err := etimedout }).net g = h₂.net g :=
          Heap.net_modConn_unseen rfl
        refine After.pay (n := h.net g) (by rw [he]; exact hmoves₂) ?_
        rw [← he] at hr₂
        refine After.follow (coreClose_rest (hr₂.leftTo s)) ?_
        rintro - h₃ g₃ - hr₃
        exact ih hr₃

/-! ## `proxy_accept` -/

/-- What is left of the sets of the ghost when connection `c` is opened. -/
def Ghost.without (c : ConnId) (g : Ghost) : Ghost :=
  { g with closing := g.closing \ {c}, due := g.due \ {c}, cold := g.cold \ {c} }

/-- Connection object `c` is replaced, and `k` client connections are counted. -/
def Heap.replace (c : ConnId) (x : Conn) (k : ℕ) (h : Heap) : Heap :=
  { h with conn := update h.conn c x, ncurrCconn := k }

/-- A client connection that has been allocated, with socket `sd`, is an open one. -/
lemma openClient_moves {p sd k : ℕ} {x : Conn} (hf : (h.net g).FreshConn c)
    (hx : x.seen = { owner := some (.pool p), client := true, gen := (h.conn c).gen }) :
    Move (h.net g) ((h.replace c { x with sd := sd } k).net (g.without c)) := by
  have hset : ConnCols.of (update h.conn c { x with sd := sd }) =
      (ConnCols.of h.conn).set c
      { owner := some (.pool p), client := true, gen := (h.conn c).gen, sd := sd } := by
    have hx' : { x with sd := sd }.seen =
        { owner := some (.pool p), client := true, gen := (h.conn c).gen, sd := sd } := by
      calc { x with sd := (sd : ℤ) }.seen = { x.seen with sd := sd } := rfl
        _ = { owner := some (.pool p), client := true, gen := (h.conn c).gen, sd := sd } := by
          rw [hx]
    rw [ConnCols.of_update, ← hx']
    rfl
  have he : (h.replace c { x with sd := sd } k).net (g.without c) =
      { h.net g with
        c := (h.net g).c.set c
          { owner := some (.pool p), client := true, gen := (h.net g).c.gen c, sd := sd }
        g := g.without c } := by
    simp only [Heap.net, Heap.replace, hset]
    rfl
  rw [he]
  exact .openClient c p sd hf

/-- `conn_get` for a client connection. -/
lemma connGetClient_after {p : ℕ} (hi : Inv (h.net g)) (redis : Bool) :
    After (connGetClient env p redis)
      (fun o h' => (o = none → ServerMoves (h.net g) (h'.net g) ∧ h'.conn = h.conn) ∧
      ∀ c, o = some c → ∃ (h₁ : Heap) (x : Conn) (k : ℕ), ServerMoves (h.net g) (h₁.net g) ∧
      h₁.conn = h.conn ∧ (h₁.net g).FreshConn c ∧
        x.seen = { owner := some (.pool p), client := true, gen := (h₁.conn c).gen } ∧
        h' = h₁.replace c x k) h := by
  unfold connGetClient connGet₀
  rw [bind_assoc]
  refine After.call (connAddr_moves hi) ?_
  rintro o h₁ ⟨g₁, hmoves, rfl, hconn, hfresh⟩
  cases o with
  | none => exact After.pure ⟨fun _ => ⟨hmoves, hconn⟩, by simp⟩
  | some c =>
    have hnew : h₁.New c (h₁.modConn c fun x => { gen := x.gen }) := Heap.New.reset h₁ c
    obtain ⟨x, hx, he⟩ := hnew
    rw [bind_assoc]
    refine After.modConn ?_
    rw [pure_bind, he]
    refine After.modConn (After.modHeap ?_)
    unfold clientRef
    refine After.modConn (After.pure ⟨by simp, ?_⟩)
    rintro c' ⟨⟩
    refine ⟨h₁, { x with redis := redis, client := true, owner := some (.pool p) },
      h₁.ncurrCconn + 1, hmoves, hconn, hfresh c rfl, ?_, ?_⟩
    · calc ({ x with redis := redis, client := true, owner := some (.pool p) } : Conn).seen
          = { x.seen with client := true, owner := some (.pool p) } := rfl
        _ = { owner := some (.pool p), client := true, gen := (h₁.conn c).gen } := by rw [hx]
    · simp [Heap.modConn, Heap.replace]

/-- **`proxy_accept`**.

**Proof sketch.** Opening a client is one move, as the connection is fresh and has no queue.  If its
socket cannot be registered it is closed again. -/
theorem proxyAccept_rest {p sd : ℕ} (hr : AtRest (h.net g)) :
    After (proxyAccept env p sd) (Reach Move (h.net g) fun _ h' g' => AtRest (h'.net g')) h := by
  unfold proxyAccept
  refine After.readHeap (After.ite (fun _ => After.pure (.here hr)) fun _ => After.getPool
    fun pool => ?_)
  refine After.call (connGetClient_after (g := g) hr.inv _) ?_
  rintro o h₁ ⟨hnone, hsome⟩
  cases o with
  | none =>
    obtain ⟨hmoves, hconn⟩ := hnone rfl
    have hshut : ∀ x, (h₁.net g).Open x → x ∉ g.closing := by
      intro x hx
      refine hr.shut x ?_
      simpa [Net.Open, Heap.net, hconn] using hx
    exact After.pure ⟨g, ServerMoves.moves hmoves, hr.toSteady.moves (ServerMoves.moves hmoves)
      (fun x hx => hshut x hx.isOpen) hr.pend, hr.due, hr.cold, hshut⟩
  | some c =>
    obtain ⟨h₀, x, k, hmoves, hconn, hfresh, hx, rfl⟩ := hsome c rfl
    have hopen : Move (h₀.net g) ((h₀.replace c { x with sd := sd } k).net (g.without c)) :=
      openClient_moves hfresh hx
    have hmoves' := (ServerMoves.moves hmoves).tail hopen
    refine After.modConn (After.statsPool ?_)
    have he : ((h₀.replace c x k).modConn c fun y => { y with sd := sd }) =
        h₀.replace c { x with sd := sd } k := by
      simp [Heap.modConn, Heap.replace]
    rw [he]
    have howner : ((h₀.replace c { x with sd := sd } k).net (g.without c)).c.owner =
        update (h.net g).c.owner c (some (.pool p)) := by
      have hxo : x.owner = some (.pool p) := congrArg Conn.owner hx
      show (ConnCols.of (update h₀.conn c _)).owner = _
      rw [ConnCols.of_update, hconn]
      simp only [ConnCols.set, hxo]
      rfl
    generalize h₀.replace c { x with sd := sd } k = h₁ at hmoves' howner ⊢
    have hr₁ : AtRest (h₁.net (g.without c)) := by
      have hshut : ∀ y, (h₁.net (g.without c)).Open y → y ∉ (g.without c).closing := by
        rintro y hy ⟨hold, hne⟩
        rw [Net.Open, howner, update_of_ne hne] at hy
        exact hr.shut y hy hold
      refine ⟨hr.toSteady.moves hmoves' (fun y hy => hshut y hy.isOpen) hr.pend, ?_, ?_, hshut⟩
      · exact Set.subset_empty_iff.mp (Set.sdiff_subset.trans hr.due.subset)
      · exact Set.subset_empty_iff.mp (Set.sdiff_subset.trans hr.cold.subset)
    have hclose : ∀ {h₂ : Heap} {g₂ : Ghost}, AtRest (h₂.net g₂) →
        After (clientClose c) (Reach Move (h₂.net g₂) fun _ h' g' => AtRest (h'.net g')) h₂ := by
      intro h₂ g₂ hr₂
      refine (clientClose_moves hr₂.toSound hr₂.pend).mono fun _ h₃ hreach => ?_
      obtain ⟨g₃, hmoves₃, hdue, hcold, hclosing, hpend, howner₃⟩ := hreach
      exact ⟨g₃, hmoves₃, Closed.rest (hr₂.leftTo c) hmoves₃
        ⟨hdue.subset, hcold.subset, hclosing.subset, howner₃, hpend⟩⟩
    refine After.pay hmoves' (After.ask fun t => After.ite (fun _ => hclose hr₁) fun _ => ?_)
    refine After.followServer (eventAddConn_moves h₁ (g.without c) c) ?_
    rintro ok h₂ g₂ hmoves₂ ⟨rfl, hsock⟩
    have hr₂ : AtRest (h₂.net (g.without c)) := by
      have hshut : ∀ y, (h₂.net (g.without c)).Open y → y ∉ (g.without c).closing := by
        intro y hy
        obtain ⟨_, _, _, hview⟩ := hsock
        rw [hview] at hy
        exact hr₁.shut y hy
      exact ⟨hr₁.toSteady.moves (ServerMoves.moves hmoves₂) (fun y hy => hshut y hy.isOpen)
        hr₁.pend, hr₁.due, hr₁.cold, hshut⟩
    exact After.ite (fun _ => hclose hr₂) fun _ => After.pure (.here hr₂)

/-! ## Runs -/

/-- The write notification of connection `c` is delivered. -/
lemma deliver_move (c : ConnId) :
    Move (h.net g) ((h.modConn c fun x => { x with evOut := false }).net
      { g with cold := insert c g.cold }) := by
  have he : (h.modConn c fun x => { x with evOut := false }).net
        { g with cold := insert c g.cold } =
      { h.net g with
        c.evOut := update (h.net g).c.evOut c false
        g.cold := insert c (h.net g).g.cold } := by
    rw [Heap.net_modConn]
    simp [ConnCols.set, Heap.net, ConnCols.of]
  rw [he]
  exact .deliver c

/-- The socket of connection `c` has become writable. -/
lemma becomeWritable_move (c : ConnId) :
    Move (h.net g) ((h.modConn c fun x => { x with evOut := x.evOut || x.lastShort }).net g) := by
  have he : (h.modConn c fun x => { x with evOut := x.evOut || x.lastShort }).net g =
      { h.net g with c.evOut := update (h.net g).c.evOut c ((h.net g).c.evOut c ||
          (h.net g).c.lastShort c) } := by
    simp [ConnCols.set]
  rw [he]
  exact .edge c

/-- **One step of the event loop.**

**Proof sketch.** Each kind of input is one of the results above, from and to a state in which
nothing is left to do. -/
theorem step_moves (henv : env.Splits) (input : Input) (hr : AtRest (h.net g)) :
    After (step env input) (Reach SendMove (h.net g) fun _ h' g' => AtRest (h'.net g')) h := by
  cases input with
  | accept p sd => exact (proxyAccept_rest hr).mono fun _ _ hreach => Reach.send hreach
  | event c err read write =>
    cases write with
    | false => exact coreCore_rest henv (hr.leftTo c) hr.due (hr.shut c) hr.cold
    | true =>
      refine After.modConn (After.pay (.single (.move (deliver_move c))) ?_)
      have hopen : ∀ x, ((h.modConn c fun x => { x with evOut := false }).net
          { g with cold := insert c g.cold }).Open x → (h.net g).Open x := by
        intro x hx
        rw [Heap.net_modConn] at hx
        simpa [ConnCols.set] using hx
      have hcold : insert c g.cold = {c} := by
        have hcold : g.cold = ∅ := hr.cold
        simp [hcold]
      have hs := hr.toSteady.moves (.single (deliver_move c))
        (fun x hx => hr.shut x (hopen x hx.isOpen)) hr.pend
      exact coreCore_rest henv ⟨hs, hr.due.subset.trans (Set.empty_subset _), hcold.subset,
        fun x hx hxc => absurd hxc (hr.shut x (hopen x hx))⟩ hr.due
        (fun ho => hr.shut c (hopen c ho)) hcold
  | timeout =>
    refine After.readHeap ?_
    exact (coreTimeoutLoop_rest _ hr).mono fun _ _ hreach => Reach.send hreach
  | writable c =>
    refine After.last (After.modConn (After.pure ⟨g, .single (.move (becomeWritable_move c)), ?_⟩))
    have hshut : ∀ x,
        ((h.modConn c fun x => { x with evOut := x.evOut || x.lastShort }).net g).Open x →
        x ∉ g.closing := by
      intro x hx
      rw [Heap.net_modConn] at hx
      exact hr.shut x (by simpa [ConnCols.set] using hx)
    exact ⟨hr.toSteady.moves (.single (becomeWritable_move c)) (fun x hx => hshut x hx.isOpen)
      hr.pend, hr.due, hr.cold, hshut⟩
  | preconnect p i =>
    refine (serverEachPreconnect_moves hr.toReady).mono fun _ h' hreach => ?_
    obtain ⟨g', hmoves, hcalmer⟩ := hreach
    have hpend := (ServerMoves.keeps hmoves hr.inv).pend
    have hready := hcalmer.ready hr.toReady (Moves.sound (ServerMoves.moves hmoves) hr.toSound)
    refine ⟨g', Moves.send (ServerMoves.moves hmoves),
      hr.toSteady.moves (ServerMoves.moves hmoves) hready.closing (hpend.trans hr.pend), ?_, ?_,
        fun x hx hxc => ?_⟩
    · exact Set.subset_empty_iff.mp (hcalmer.due.trans hr.due.subset)
    · exact Set.subset_empty_iff.mp ((ServerMoves.cold hmoves).trans hr.cold.subset)
    · obtain ⟨ho, hold⟩ := hcalmer.shut x hx hxc
      exact hr.shut x ho hold

/-- The ghost of the proxy at its start. -/
def Ghost.start : Ghost := ⟨fun _ => .free, ∅, ∅, ∅, []⟩

/-- Nothing has happened yet. -/
lemma atRest_start : AtRest (({} : Heap).net .start) where
  inv := by
    refine ⟨?_, ?_, ?_, ?_, ?_, ?_⟩
    · constructor <;> simp [Heap.net, Ghost.start, ConnCols.of]
    · constructor <;> simp [Heap.net, Ghost.start, ConnCols.of]
    · constructor <;> simp [Heap.net, Ghost.start]
    · rintro c ⟨p, ho⟩
      cases ho
    · simp [Ghost.start]
    · simp [Ghost.start]
  timed := by constructor <;> simp [Heap.net, MsgCols.of]
  closing c hc := by
    obtain ⟨p, ho⟩ := hc
    cases ho
  answered := by
    rintro p c ⟨hplace, -, -⟩
    cases hplace
  still := by
    rintro c ⟨p, ho⟩
    cases ho
  pend := rfl
  due := rfl
  cold := rfl
  shut _ _ := Set.notMem_empty _

/-- **A run of the proxy is a sequence of moves**, and between two callbacks nothing is left to
do. -/
theorem Run.moves {σ₀ σ : St} (h₀ : σ₀.Init) (hr : Run Env.Splits σ₀ σ) :
    ∃ g, SendMoves (({} : Heap).net .start) (σ.heap.net g) ∧ AtRest (σ.heap.net g) := by
  induction hr with
  | init =>
    rw [h₀.heap]
    exact ⟨.start, .refl, atRest_start⟩
  | @step σ σ' _ env henv input hstep ih =>
    obtain ⟨g, hmoves, hrest⟩ := ih
    obtain ⟨g', hmoves', hrest'⟩ := step_moves henv input hrest σ.start rfl () σ' hstep
    exact ⟨g', hmoves.trans hmoves', hrest'⟩

end GfwProxy
