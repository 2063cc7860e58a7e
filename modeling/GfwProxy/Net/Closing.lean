import GfwProxy.Net.Release
import GfwProxy.Proxy.Close

set_option autoImplicit false

/-!
# Closing connections

`client_close` and `server_close` as moves.

## Main definitions

* `GfwProxy.Ready` — the invariants hold, and no client is being closed.
* `GfwProxy.ServerLeft`, `GfwProxy.Closed` — what closing a connection leaves of it.

## Main results

* `GfwProxy.serverClose_moves`, `GfwProxy.clientClose_moves`, `GfwProxy.coreClose_moves`.
-/

namespace GfwProxy

open Function

variable {env : Env} {n n' : Net} {h h' : Heap} {g g' : Ghost} {c s : ConnId} {m : MsgId}
  {out : Bool} {cli : Option ConnId}

/-! ## No client is being closed -/

/-- The invariants hold, and no client is being closed. -/
structure Ready (n : Net) : Prop extends Sound n where
  closing : ∀ c, n.Client c → c ∉ n.g.closing

/-- The moves of a server connection keep what the handlers rely on. -/
lemma ServerMoves.ready (hm : ServerMoves n n') (hr : Ready n) : Ready n' where
  toSound := Moves.sound hm.moves hr.toSound
  closing c hc := by
    have hk := ServerMoves.keeps hm hr.inv
    have hc' := hk.back c hc
    rw [(hk.client c hc').closing]
    exact hr.closing c hc'

/-! ## `server_close` -/

/-- What is due and what is being written to. -/
structure Ghost.Less (g g' : Ghost) : Prop where
  closing : g'.closing = g.closing
  due : g'.due ⊆ g.due
  cold : g'.cold = g.cold

/-- Request `m` leaves its queue. -/
def Heap.dequeue (s : ConnId) (out : Bool) (m : MsgId) (h : Heap) : Heap :=
  if out then (h.tmoDelete m).modConn s fun x => { x with omsgq := x.omsgq.erase m }
  else h.modConn s fun x => { x with imsgq := x.imsgq.erase m }

/-- A request leaves the queue that it is in. -/
lemma serverDequeue_after (s : ConnId) (out : Bool) (m : MsgId) :
    After (serverDequeue s out m) (fun _ h' => h' = h.dequeue s out m) h := by
  unfold serverDequeue
  refine After.ite (fun hout => ?_) fun hout => ?_
  · unfold reqServerDequeueOmsgq
    refine After.modHeap (After.modConn (After.ownerServer fun p i _ => After.statsServer
      (After.getMsg (After.last (After.statsServer (After.pure ?_))))))
    rw [Heap.dequeue, if_pos hout]
  · unfold reqServerDequeueImsgq
    refine After.modConn (After.ownerServer fun p i _ => After.statsServer
      (After.getMsg (After.last (After.statsServer (After.pure ?_)))))
    rw [Heap.dequeue, if_neg hout]

/-- The same on the view. -/
def Net.dequeue (s : ConnId) (out : Bool) (m : MsgId) (n : Net) : Net :=
  if out then (n.tmoDelete m).deqOut s m else n.deqIn s m

/-- A request leaves the queue that it is in, on the view. -/
lemma Heap.net_dequeue : (h.dequeue s out m).net g = (h.net g).dequeue s out m := by
  cases out with
  | false =>
    show (h.modConn s fun x => { x with imsgq := x.imsgq.erase m }).net g = (h.net g).deqIn s m
    simp [ConnCols.set, Net.deqIn]
  | true =>
    show ((h.tmoDelete m).modConn s fun x => { x with omsgq := x.omsgq.erase m }).net g =
      ((h.net g).tmoDelete m).deqOut s m
    rw [← Heap.net_tmoDelete]
    simp [ConnCols.set, Net.deqOut]

/-- `countFragment` on the view. -/
lemma countFragment_after (m : MsgId) (g : Ghost) :
    After (countFragment m) (fun _ h' => h'.conn = h.conn ∧ ∃ b, h'.net g = (h.net g).count m b)
      h := by
  unfold countFragment
  refine After.getMsg ?_
  cases ho : (h.msg m).fragOwner with
  | none => exact After.pure ⟨rfl, false, by simp [Net.count, ho]⟩
  | some o =>
    refine After.readHeap (After.readHeap (After.emit (After.modMsg (After.last (After.modMsg
      (After.pure ⟨rfl, h.ownerReleased m, ?_⟩))))))
    rcases eq_or_ne m o with rfl | hne
    · simp [MsgCols.set, Net.count, ho, Net.emit]
    · have hm : ((h.emit (.fragInc (h.msg m).id (h.stale m) (h.ownerReleased m))).modMsg o fun x =>
          { x with nfragDone := x.nfragDone + 1 }).msg m = h.msg m := by
        simp [Heap.modMsg, Heap.emit, hne]
      simp only [Heap.net_modMsg, hm]
      simp [MsgCols.set, Net.count, ho, Net.emit, hne]

/-- A request that nobody waits for is released. -/
lemma serverClose_drop (hr : Ready (h.net g)) (hm : g.place m = .req none (some (s, out)))
    (hcl : s ∈ g.closing) :
    ServerMoves (h.net g) (((h.dequeue s out m).reqPut m).net (g.move m .free)) ∧
      (((h.dequeue s out m).reqPut m).net (g.move m .free)).c = ((h.net g).dequeue s out m).c := by
  have hpeer : ((h.dequeue s out m).msg m).peer = none := by
    have hp := (hr.inv.facts.srv m none s out hm).2.2.2.1
    cases out with
    | false => exact hp
    | true =>
      show ((h.tmoDelete m).msg m).peer = none
      unfold Heap.tmoDelete
      split <;> simpa using hp
  have hput : (((h.dequeue s out m).reqPut m).net (g.move m .free)) =
      (((h.net g).dequeue s out m).tmoDelete m).put m := by
    have hnil : (h.dequeue s out m).putPeer m = h.dequeue s out m := by
      unfold Heap.putPeer
      simp only [hpeer]
    rw [Heap.reqPut, hnil, Heap.net_msgPut, Heap.net_tmoDelete, Heap.net_dequeue]
  rw [hput]
  refine ⟨?_, by simp [Net.put]⟩
  cases out with
  | false => exact .single (.dropIn s m hm)
  | true =>
    have htmo : (((h.net g).dequeue s true m).tmoDelete m) = (h.net g).dequeue s true m := by
      rw [Net.tmoDelete, if_pos]
      simp [Net.dequeue, Net.deqOut]
    rw [htmo]
    exact .single (.dropOut s m hm hcl)

/-- The ghost when request `m` of client `c` has failed. -/
def Ghost.failed (c : ConnId) (m : MsgId) (g : Ghost) : Ghost :=
  { g with place := update g.place m (.req (some c) none), due := insert c g.due }

/-- A request of client `c` fails. -/
lemma serverClose_fail (hr : Ready (h.net g)) (hm : g.place m = .req (some c) (some (s, out)))
    (hcl : s ∈ g.closing) {n' : Net} {b : Bool}
    (hn' : n' = ((((((h.net g).emit (.touch c (h.msg m).id (h.stale m))).dequeue s out m).move m
      (.req (some c) none)).finish m |>.count m b).fail m true).setDue c) :
    ServerMoves (h.net g) n' := by
  obtain ⟨hclient, hof, -⟩ := hr.inv.facts.cli m c _ hm
  have hstale : h.stale m = false := by
    have ho : (h.msg m).owner = some c := hof.1
    have hg : (h.msg m).ownerGen = (h.conn c).gen := hof.2
    simp [Heap.stale, ho, hg]
  have hc := hr.closing c hclient
  have h₁ : ServerMove (h.net g) ((h.net g).emit (.touch c (h.msg m).id false)) := .touch c m hstale
  rw [hn', hstale]
  refine .tail (.single h₁) ?_
  cases out with
  | false => exact .failIn s c m b hm hc
  | true => exact .failOut s c m b hm hc hcl

/-- The queue that a request leaves, and the other one. -/
structure Net.Left (n n' : Net) (s : ConnId) (out : Bool) (m : MsgId) : Prop where
  imsgq : n'.c.imsgq s = if out then n.c.imsgq s else (n.c.imsgq s).erase m
  omsgq : n'.c.omsgq s = if out then (n.c.omsgq s).erase m else n.c.omsgq s
  rmsg : n'.c.rmsg s = n.c.rmsg s
  owner : n'.c.owner = n.c.owner

/-- The columns of the connections tell that the request has left its queue. -/
lemma Net.Left.of_conn (hc : n'.c = (n.dequeue s out m).c) : n.Left n' s out m := by
  cases out with
  | false => constructor <;> simp [hc, Net.dequeue, Net.deqIn]
  | true => constructor <;> simp [hc, Net.dequeue, Net.deqOut]

/-- Flags may change behind that. -/
lemma Net.Left.flags {n₁ n₂ n₃ : Net} (h : n₁.Left n₂ s out m) (hf : n₂.Flags n₃) :
    n₁.Left n₃ s out m := by
  obtain ⟨_, _, _, _, _, rfl⟩ := hf
  exact ⟨h.imsgq, h.omsgq, h.rmsg, h.owner⟩

/-- What a request takes along when it leaves its queue. -/
@[simp] lemma Net.dequeue_view : (n.dequeue s out m).m.id = n.m.id ∧
    (n.dequeue s out m).m.peer = n.m.peer ∧ (n.dequeue s out m).m.owner = n.m.owner ∧
    (n.dequeue s out m).m.noreply = n.m.noreply ∧ (n.dequeue s out m).m.swallow = n.m.swallow ∧
    (n.dequeue s out m).m.ownerGen = n.m.ownerGen ∧ (n.dequeue s out m).c.gen = n.c.gen ∧
    (n.dequeue s out m).c.owner = n.c.owner ∧ (n.dequeue s out m).g = n.g := by
  cases out with
  | false => exact ⟨rfl, rfl, rfl, rfl, rfl, rfl, rfl, rfl, rfl⟩
  | true =>
    simp only [Net.dequeue, if_true, Net.tmoDelete]
    split <;> exact ⟨rfl, rfl, rfl, rfl, rfl, rfl, rfl, rfl, rfl⟩

/-- The request that has left its queue is the same in other respects. -/
lemma Heap.dequeue_view : ((h.dequeue s out m).msg m).swallow = (h.msg m).swallow ∧
    ((h.dequeue s out m).msg m).noreply = (h.msg m).noreply ∧
    ((h.dequeue s out m).msg m).owner = (h.msg m).owner ∧
    ((h.dequeue s out m).msg m).id = (h.msg m).id ∧ (h.dequeue s out m).stale m = h.stale m := by
  have hn : ∀ g, (h.dequeue s out m).net g = (h.net g).dequeue s out m := fun _ => Heap.net_dequeue
  let g : Ghost := ⟨fun _ => .free, ∅, ∅, ∅, []⟩
  have hswallow := congrArg (fun n : Net => n.m.swallow m) (hn g)
  have hnoreply := congrArg (fun n : Net => n.m.noreply m) (hn g)
  have howner := congrArg (fun n : Net => n.m.owner m) (hn g)
  have hid := congrArg (fun n : Net => n.m.id m) (hn g)
  have hstale := congrArg (fun n : Net => n.stale m) (hn g)
  refine ⟨?_, ?_, ?_, ?_, ?_⟩
  · simpa using hswallow
  · simpa using hnoreply
  · simpa using howner
  · simpa using hid
  · calc (h.dequeue s out m).stale m = ((h.dequeue s out m).net g).stale m := rfl
      _ = ((h.net g).dequeue s out m).stale m := hstale
      _ = h.stale m := by unfold Net.stale; simp only [Net.dequeue_view]; rfl

/-- Leaving a queue and logging commute. -/
lemma Net.emit_dequeue (e : Ev) : (n.dequeue s out m).emit e = (n.emit e).dequeue s out m := by
  cases out with
  | false => rfl
  | true =>
    by_cases ht : n.m.tmoData m = none
    all_goals simp [Net.dequeue, Net.tmoDelete, ht, Net.emit, Net.deqOut]

/-- Counting and failing commute. -/
lemma Net.count_fail (n : Net) (m : MsgId) (b e : Bool) :
    (n.fail m e).count m b = (n.count m b).fail m e := by
  cases ho : n.m.fragOwner m
  all_goals simp [Net.count, Net.fail, ho]
  rfl

/-- Counting a fragment and noting who is to be woken commute. -/
lemma Net.count_setDue (n : Net) (m : MsgId) (b : Bool) :
    (n.setDue c).count m b = (n.count m b).setDue c := by
  cases ho : n.m.fragOwner m
  all_goals simp [Net.count, Net.setDue, ho]
  rfl

/-- A request is done and in error, on the view. -/
lemma Heap.net_failed (e : ℤ) :
    (h.modMsg m fun x => { x with done := true, error := true, err := e }).net g =
      ((h.net g).finish m).fail m true := by
  simp [MsgCols.set, Net.finish, Net.fail]

/-- One round of the loops of `server_close`. -/
lemma serverCloseMsg_moves (hr : Ready (h.net g)) (hm : g.place m = .req cli (some (s, out)))
    (hcl : s ∈ g.closing) :
    After (serverCloseMsg env s out m) (Reach ServerMove (h.net g) fun _ h' g' =>
      g.Less g' ∧ (h.net g).Left (h'.net g') s out m) h := by
  obtain ⟨hserver, hdone, herror, hpeer, hnoreply, hswallow⟩ := hr.inv.facts.srv m cli s out hm
  simp only [Heap.net_msg] at hnoreply hswallow
  obtain ⟨hview₁, hview₂, hview₃, hview₄, hview₅⟩ := Heap.dequeue_view (h := h) (s := s) (m := m)
  unfold serverCloseMsg
  refine (serverDequeue_after s out m).call ?_
  rintro - h₁ rfl
  refine After.getMsg (After.ite (fun hd => ?_) fun hd => ?_)
  · rw [hview₁, hview₂] at hd
    obtain rfl : cli = none := by
      cases cli with
      | none => rfl
      | some c =>
        have hno := (hr.inv.facts.cli m c _ hm).2.2
        simp only [Heap.net_msg] at hno
        simp only [hno, Bool.false_or, Bool.and_eq_true] at hd
        exact (hnoreply hd.2).2
    obtain ⟨hmoves, hconn⟩ := serverClose_drop hr hm hcl
    refine After.last (After.modHeap
      (After.pure ⟨_, hmoves, ⟨rfl, subset_rfl, rfl⟩, .of_conn hconn⟩))
  · rw [hview₁, hview₂] at hd
    obtain ⟨c, rfl⟩ : ∃ c, cli = some c := by
      cases cli with
      | some c => exact ⟨c, rfl⟩
      | none =>
        refine absurd ?_ hd
        cases hno : (h.msg m).noreply with
        | false => simp [hswallow hno rfl]
        | true => simp [(hnoreply hno).1]
    obtain ⟨hclient, hof, -⟩ := hr.inv.facts.cli m c _ hm
    have howner : (h.msg m).owner = some c := hof.1
    rw [hview₃, howner]
    refine After.deref fun c' hc' => ?_
    obtain rfl := Option.some.inj hc'
    rw [touch, bind_assoc]
    refine After.getMsg ?_
    rw [bind_assoc]
    refine After.readHeap (After.emit (After.getConn (After.modMsg ?_)))
    rw [hview₄, hview₅]
    refine (countFragment_after m (g.failed c m)).call ?_
    rintro - h₂ ⟨-, b, hnet⟩
    have hview : h₂.net (g.failed c m) =
        ((((((h.net g).emit (.touch c (h.msg m).id (h.stale m))).dequeue s out m).move m
          (.req (some c) none)).finish m |>.count m b).fail m true).setDue c := by
      rw [hnet, Heap.net_failed, Net.count_fail, ← Net.emit_dequeue, ← Heap.net_dequeue]
      let n₀ := ((((h.dequeue s out m).net g).emit (.touch c (h.msg m).id (h.stale m))).move m
        (.req (some c) none)).finish m
      exact congrArg (fun n : Net => n.fail m true) (Net.count_setDue n₀ m b)
    have hfail : ServerMoves (h.net g) (h₂.net (g.failed c m)) := serverClose_fail hr hm hcl hview
    have hconn : (h₂.net (g.failed c m)).c = ((h.net g).dequeue s out m).c := by
      rw [hview, ← Net.emit_dequeue]
      simp [Net.setDue, Net.fail, Net.finish, Net.move, Net.emit]
    have hr' := ServerMoves.ready hfail hr
    have hclient' : (h₂.net (g.failed c m)).Client c := by
      have hk := (ServerMoves.keeps hfail hr.inv).client c hclient
      obtain ⟨p, ho⟩ := hclient
      exact ⟨p, hk.owner.trans ho⟩
    refine After.pay hfail (After.follow (wakeHead_moves hr'.inv hclient'
      (hr'.closing c hclient')) ?_)
    rintro - h₃ g₃ - ⟨rfl, hflags⟩
    refine After.pure (.here ⟨⟨rfl, ?_, rfl⟩, (Net.Left.of_conn hconn).flags hflags⟩)
    rintro x ⟨hx, hxc⟩
    exact hx.resolve_left hxc

/-- The connection of a server is open. -/
lemma Net.Server.isOpen (hs : n.Server s) : n.Open s := by
  obtain ⟨p, i, ho⟩ := hs
  simp [Net.Open, ho]

/-- The connection of a client is open. -/
lemma Net.Client.isOpen (hc : n.Client c) : n.Open c := by
  obtain ⟨p, ho⟩ := hc
  simp [Net.Open, ho]

/-- The loops of `server_close`. -/
lemma serverCloseMsgs_moves (hcl : s ∈ g.closing) (ms : List MsgId) (hr : Ready (h.net g))
    (hs : (h.net g).Server s)
    (hq : ms = if out then (h.conn s).omsgq else (h.conn s).imsgq) :
    After (serverCloseMsgs env s out ms) (Reach ServerMove (h.net g) fun _ h' g' =>
      g.Less g' ∧ (h'.conn s).imsgq = (if out then (h.conn s).imsgq else []) ∧
        (h'.conn s).omsgq = (if out then [] else (h.conn s).omsgq) ∧
        (h'.conn s).rmsg = (h.conn s).rmsg ∧ (h'.net g').c.owner = (h.net g).c.owner) h := by
  induction ms generalizing h g with
  | nil =>
    refine After.pure (.here ⟨⟨rfl, subset_rfl, rfl⟩, ?_, ?_, rfl, rfl⟩)
    · cases out with
      | false => exact hq.symm
      | true => rfl
    · cases out with
      | false => rfl
      | true => exact hq.symm
  | cons m ms ih =>
    obtain ⟨cli, hm⟩ : ∃ cli, g.place m = .req cli (some (s, out)) := by
      have hmem : m ∈ if out then (h.conn s).omsgq else (h.conn s).imsgq := hq ▸ List.mem_cons_self
      cases out with
      | false => exact (hr.inv.queues.imsgq s hs.isOpen m).mp hmem
      | true => exact (hr.inv.queues.omsgq_server s hs m).mp hmem
    refine After.follow (serverCloseMsg_moves hr hm hcl) ?_
    rintro - h₁ g₁ hmoves ⟨hless, hleft⟩
    have himsgq : (h₁.conn s).imsgq = if out then (h.conn s).imsgq else (h.conn s).imsgq.erase m :=
      hleft.imsgq
    have homsgq : (h₁.conn s).omsgq = if out then (h.conn s).omsgq.erase m else (h.conn s).omsgq :=
      hleft.omsgq
    have hs' : (h₁.net g₁).Server s := by
      obtain ⟨p, i, ho⟩ := hs
      exact ⟨p, i, (congrFun hleft.owner s).trans ho⟩
    have hq' : ms = if out then (h₁.conn s).omsgq else (h₁.conn s).imsgq := by
      rw [himsgq, homsgq]
      cases out with
      | false =>
        have hq₀ : m :: ms = (h.conn s).imsgq := hq
        show ms = (h.conn s).imsgq.erase m
        rw [← hq₀, List.erase_cons_head]
      | true =>
        have hq₀ : m :: ms = (h.conn s).omsgq := hq
        show ms = (h.conn s).omsgq.erase m
        rw [← hq₀, List.erase_cons_head]
    refine (ih (hless.closing ▸ hcl) (ServerMoves.ready hmoves hr) hs' hq').mono
      fun _ h₂ hreach => ?_
    refine hreach.mono fun g₂ ⟨hless₂, himsgq₂, homsgq₂, hrmsg₂, howner₂⟩ => ?_
    refine ⟨⟨hless₂.closing.trans hless.closing, hless₂.due.trans hless.due,
      hless₂.cold.trans hless.cold⟩, ?_, ?_, hrmsg₂.trans hleft.rmsg, howner₂.trans hleft.owner⟩
    · rw [himsgq₂, himsgq]
      cases out <;> rfl
    · rw [homsgq₂, homsgq]
      cases out <;> rfl

/-- The connection leaves its server. -/
lemma serverUnref_after (s : ConnId) (g : Ghost) :
    After (serverUnref s) (fun _ h' => ∃ p i, (h.conn s).owner = some (.server p i) ∧
      h'.net g = (h.net g).unrefServer s p i) h := by
  unfold serverUnref
  refine After.ownerServer fun p i ho =>
    After.modConn (After.last (After.modHeap (After.pure ⟨p, i, ho, ?_⟩)))
  have hc : (h.modConn s fun x => { x with owner := none }).net g =
      { h.net g with c.owner := update (h.net g).c.owner s none } := by
    simp [ConnCols.set]
  exact congrArg (fun n : Net => { n with
    a.sConnq := fun p' i' => if p' = p ∧ i' = i then (h.sConnq p i).erase s else h.sConnq p' i' })
      hc

/-- A connection goes to the free list, on the view. -/
lemma Heap.net_connPut : (h.connPut c).net g = { h.net g with
    c.gen := update (h.net g).c.gen c ((h.net g).c.gen c + 1)
    a.freeConnq := c :: (h.net g).a.freeConnq } := by
  have hc : (h.modConn c fun x => { x with gen := x.gen + 1 }).net g =
      { h.net g with c.gen := update (h.net g).c.gen c ((h.net g).c.gen c + 1) } := by
    simp [ConnCols.set]
  exact congrArg (fun n : Net => { n with a.freeConnq := c :: h.freeConnq }) hc

/-- A connection without an owner is none of a client. -/
lemma Heap.not_client (ho : (h.conn c).owner = none) : ¬(h.net g).Client c := by
  rintro ⟨p, hp⟩
  have hp' : (h.conn c).owner = some (.pool p) := hp
  rw [ho] at hp'
  cases hp'

/-- The socket of a connection without an owner is forgotten. -/
lemma setSd_moves (ho : (h.conn c).owner = none) :
    ServerMove (h.net g) ((h.modConn c fun x => { x with sd := -1 }).net g) := by
  have he : (h.modConn c fun x => { x with sd := -1 }).net g =
      { h.net g with c.sd := update (h.net g).c.sd c (-1) } := by
    simp [ConnCols.set]
  rw [he]
  exact .setSd c (-1) (Heap.not_client ho)

/-- A connection without an owner is put on the free list. -/
lemma connPut_moves (hf : (h.net g).FreshConn c) : ServerMove (h.net g) ((h.connPut c).net g) := by
  rw [Heap.net_connPut]
  exact .connPut c hf

/-- The ghost of `server_close` tells whether a queue holds a timer. -/
lemma Heap.armed_iff : h.armed s = true ↔ (h.net g).Armed s := by
  simp [Heap.armed, Net.Armed, and_assoc, Option.isSome_iff_ne_none, or_and_right, exists_or]

/-- An open connection is neither free nor new. -/
lemma Inv.fresh_of_open (hi : Inv n) (hc : n.Open c) : c ∉ n.a.freeConnq ∧ c < n.a.nextConn :=
  ⟨fun hmem => hc (hi.addr.cfree c hmem).1, hi.addr.cused c hc⟩

/-- A response that is being received from a server is discarded. -/
lemma discardRsp_moves (hs : (h.net g).Server s) :
    After (discardRsp s (h.conn s).rmsg) (Reach ServerMove (h.net g) fun _ h' g' =>
      g.Less g' ∧ (h'.conn s).rmsg = none ∧ (h'.conn s).imsgq = (h.conn s).imsgq ∧
        (h'.conn s).omsgq = (h.conn s).omsgq ∧ (h'.net g').c.owner = (h.net g).c.owner) h := by
  cases hrmsg : (h.conn s).rmsg with
  | none => exact After.pure (.here ⟨⟨rfl, subset_rfl, rfl⟩, hrmsg, rfl, rfl, rfl⟩)
  | some m =>
    have he : ((h.modConn s fun x => { x with rmsg := none }).rspPut m).net (g.move m .free) =
        { h.net g with c.rmsg := update (h.net g).c.rmsg s none }.put m := by
      rw [Heap.rspPut, Heap.net_msgPut]
      congr 1
      simp [ConnCols.set]
    refine After.modConn (After.last (After.modHeap (After.pure ⟨g.move m .free, .single ?_,
      ⟨rfl, subset_rfl, rfl⟩, ?_, ?_, ?_, ?_⟩)))
    · rw [he]
      exact .discardRsp s m hs hrmsg
    · simp [Heap.rspPut, Heap.msgPut, Heap.emit, Heap.modMsg]
    · simp [Heap.rspPut, Heap.msgPut, Heap.emit, Heap.modMsg]
    · simp [Heap.rspPut, Heap.msgPut, Heap.emit, Heap.modMsg]
    · rw [he]
      rfl

/-- What `server_close` leaves of the connection. -/
structure ServerLeft (s : ConnId) (h h' : Heap) (g g' : Ghost) : Prop where
  due : g'.due ⊆ g.due
  closing : g'.closing ⊆ insert s g.closing
  owner : (h'.net g').c.owner = update (h.net g).c.owner s none

/-- A connection with a descriptor is given up with the requests in its queues. -/
lemma serverAbandon_moves {p i : ℕ} (hfree : s ∉ h.freeConnq) (hlt : s < h.nextConn) :
    After (do
        onlyIf (← readHeap fun h => h.armed s) (emit (.abandon s))
        serverFailureOf env p i
        serverUnref s
        modHeap (Heap.connPut s))
      (Reach ServerMove (h.net g) fun _ h' g' => ServerLeft s h h' g g') h := by
  refine After.readHeap (After.onlyIf (Q := fun _ h₁ => ServerMoves (h.net g) (h₁.net g) ∧
    h₁.freeConnq = h.freeConnq ∧ h₁.nextConn = h.nextConn ∧ h₁.conn = h.conn ∧
    ((h₁.net g).Armed s → ∃ s', .abandon s' ∈ h₁.log)) (fun harmed => ?_) (fun harmed => ?_) ?_)
  · refine After.last (After.emit (After.pure ⟨.single ?_, rfl, rfl, rfl, fun _ => ⟨s, ?_⟩⟩))
    · exact .note (.abandon s) rfl
    · exact List.mem_cons_self
  · refine ⟨.refl, rfl, rfl, rfl, fun h => ?_⟩
    rw [Heap.armed_iff.mpr h] at harmed
    cases harmed
  rintro h₁ ⟨hnote, hfree₁, hlt₁, hconn₁, harmed⟩
  refine After.pay hnote (After.skip (serverFailureOf_heap _ _) fun _ => ?_)
  let g' : Ghost := { g with place := fun m => Net.afterAbandon s (g.place m) }
  refine (serverUnref_after s g').call ?_
  rintro - h₂ ⟨p', i', ho', hnet⟩
  have hmove : ServerMove (h₁.net g) (h₂.net g') := by
    rw [hnet]
    exact .abandon s p' i' ho' harmed
  have hfresh : (h₂.net g').FreshConn s := by
    rw [hnet]
    refine ⟨by simp [Net.unrefServer], ?_, ?_⟩
    · show s ∉ h₁.freeConnq
      rwa [hfree₁]
    · show s < h₁.nextConn
      rwa [hlt₁]
  refine After.last (After.modHeap (After.pure
    ⟨g', .tail (.single hmove) (connPut_moves hfresh), subset_rfl, Set.subset_insert s _, ?_⟩))
  rw [Heap.net_connPut, hnet]
  simp only [Net.unrefServer, Heap.net, hconn₁]

/-- A connection whose queues are empty leaves its server, and goes to the free list. -/
lemma serverFree_moves (hi : Inv (h.net g)) (himsgq : (h.conn s).imsgq = [])
    (homsgq : (h.conn s).omsgq = []) (hrmsg : (h.conn s).rmsg = none) :
    After (do
        serverUnref s
        modConn s fun x => { x with sd := -1 }
        modHeap (Heap.connPut s))
      (Reach ServerMove (h.net g) fun _ h' g' => g' = g ∧
        (h'.net g).c.owner = update (h.net g).c.owner s none) h := by
  refine (serverUnref_after s g).call ?_
  rintro - h₁ ⟨p, i, ho, hnet⟩
  have hunref : ServerMove (h.net g) (h₁.net g) := by
    rw [hnet]
    exact .unrefServer s p i ho himsgq homsgq hrmsg
  have howner : (h₁.conn s).owner = none := by
    have h := congrArg (fun n : Net => n.c.owner s) hnet
    simpa [Net.unrefServer] using h
  have hsd : ServerMove (h₁.net g) ((h₁.modConn s fun x => { x with sd := -1 }).net g) :=
    setSd_moves howner
  have hfresh : ((h₁.modConn s fun x => { x with sd := -1 }).net g).FreshConn s := by
    have hs : (h.net g).Server s := ⟨p, i, ho⟩
    obtain ⟨hfree, hlt⟩ := hi.fresh_of_open hs.isOpen
    have hfreeConnq := congrArg (fun n : Net => n.a.freeConnq) hnet
    have hnextConn := congrArg (fun n : Net => n.a.nextConn) hnet
    refine ⟨?_, ?_, ?_⟩
    · show ((h₁.modConn s fun x => { x with sd := -1 }).conn s).owner = none
      simpa using howner
    · show s ∉ (h₁.net g).a.freeConnq
      rw [hfreeConnq]
      exact hfree
    · show s < (h₁.net g).a.nextConn
      rw [hnextConn]
      exact hlt
  have hmoves : ServerMoves (h.net g)
      (((h₁.modConn s fun x => { x with sd := -1 }).connPut s).net g) :=
    ((Relation.ReflTransGen.single hunref).tail hsd).tail (connPut_moves hfresh)
  refine After.modConn (After.last (After.modHeap (After.pure ⟨g, hmoves, rfl, ?_⟩)))
  have hkeep : ((h₁.modConn s fun x => { x with sd := -1 }).net g).c.owner =
      (h₁.net g).c.owner := by
    simp [ConnCols.set]
  rw [Heap.net_connPut]
  show ((h₁.modConn s fun x => { x with sd := -1 }).net g).c.owner = _
  rw [hkeep, hnet]
  rfl

/-- The queues of a connection without a descriptor are drained, and it is freed. -/
lemma serverDrain_moves {p i : ℕ} (hr : Ready (h.net g)) (hs : (h.net g).Server s) :
    After (do
        serverCloseMsgs env s false (h.conn s).imsgq
        serverCloseMsgs env s true (h.conn s).omsgq
        discardRsp s (h.conn s).rmsg
        serverFailureOf env p i
        serverUnref s
        modConn s fun x => { x with sd := -1 }
        modHeap (Heap.connPut s))
      (Reach ServerMove (h.net g) fun _ h' g' => ServerLeft s h h' g g') h := by
  have hbegin : ServerMove (h.net g) (h.net { g with closing := insert s g.closing }) :=
    .beginCloseServer s hs
  have hr₁ := ServerMoves.ready (.single hbegin) hr
  refine After.pay (.single hbegin) ?_
  have hcl : s ∈ (insert s g.closing) := Set.mem_insert s g.closing
  refine After.follow (@serverCloseMsgs_moves env h _ s false hcl (h.conn s).imsgq hr₁ hs rfl) ?_
  rintro - h₂ g₂ hmoves₂ ⟨hless₂, himsgq₂, homsgq₂, hrmsg₂, howner₂⟩
  have hs₂ : (h₂.net g₂).Server s := by
    obtain ⟨p', i', ho'⟩ := hs
    exact ⟨p', i', (congrFun howner₂ s).trans ho'⟩
  have hr₂ := ServerMoves.ready hmoves₂ hr₁
  refine After.follow (@serverCloseMsgs_moves env h₂ g₂ s true (hless₂.closing ▸ hcl)
    (h.conn s).omsgq hr₂ hs₂ homsgq₂.symm) ?_
  rintro - h₃ g₃ hmoves₃ ⟨hless₃, himsgq₃, homsgq₃, hrmsg₃, howner₃⟩
  have hs₃ : (h₃.net g₃).Server s := by
    obtain ⟨p', i', ho'⟩ := hs₂
    exact ⟨p', i', (congrFun howner₃ s).trans ho'⟩
  rw [show (h.conn s).rmsg = (h₃.conn s).rmsg by rw [hrmsg₃, hrmsg₂]]
  refine After.follow (discardRsp_moves hs₃) ?_
  rintro - h₄ g₄ hmoves₄ ⟨hless₄, hrmsg₄, himsgq₄, homsgq₄, howner₄⟩
  refine After.skip (serverFailureOf_heap _ _) fun _ => ?_
  have hr₄ := ServerMoves.ready (hmoves₃.trans hmoves₄) hr₂
  refine (serverFree_moves hr₄.inv (himsgq₄.trans (himsgq₃.trans himsgq₂))
    (homsgq₄.trans homsgq₃) hrmsg₄).mono fun _ h₅ hreach => hreach.mono fun g₅ hrest => ?_
  obtain ⟨rfl, howner₅⟩ := hrest
  refine ⟨(hless₄.due.trans hless₃.due).trans hless₂.due,
    ((hless₄.closing.trans hless₃.closing).trans hless₂.closing).subset, howner₅.trans ?_⟩
  exact congrArg (fun f => update f s none) (howner₄.trans (howner₃.trans howner₂))

/-- **`server_close`**: the requests in the queues of the connection are released or fail, or it is
abandoned with them.

**Proof sketch.** With `sd > 0` the connection leaves its server with its requests, which is an
abandonment.  Otherwise it begins to close; the two loops over its queues empty them, the response
being received is put, and a connection with empty queues may be unreferenced and freed. -/
theorem serverClose_moves (hr : Ready (h.net g)) :
    After (serverClose env s) (Reach ServerMove (h.net g) fun _ h' g' =>
      g'.due ⊆ g.due ∧ g'.closing ⊆ insert s g.closing ∧
        (h'.net g').c.owner = update (h.net g).c.owner s none) h := by
  unfold serverClose
  refine After.getConn (After.ownerServer fun p i ho => ?_)
  have hs : (h.net g).Server s := ⟨p, i, ho⟩
  obtain ⟨hfree, hlt⟩ := hr.inv.fresh_of_open hs.isOpen
  refine After.skip (serverCloseStats_heap _ _ _ _ _) fun _ => After.modConn ?_
  have he : (h.modConn s fun x => { x with connected := false }).net g = h.net g :=
    Heap.net_modConn_unseen rfl
  have hs₁ := he ▸ hs
  have hr₁ := he ▸ hr
  have hfree₁ : s ∉ (h.modConn s fun x => { x with connected := false }).freeConnq := hfree
  have hlt₁ : s < (h.modConn s fun x => { x with connected := false }).nextConn := hlt
  have hsame : ((h.modConn s fun x => { x with connected := false }).conn s).imsgq =
      (h.conn s).imsgq ∧ ((h.modConn s fun x => { x with connected := false }).conn s).omsgq =
      (h.conn s).omsgq ∧ ((h.modConn s fun x => { x with connected := false }).conn s).rmsg =
      (h.conn s).rmsg := by
    simp
  refine After.same he ?_
  rw [← hsame.1, ← hsame.2.1, ← hsame.2.2]
  generalize h.modConn s (fun x => { x with connected := false }) = h₁ at *
  have hclosed : ∀ {h₂ : Heap} {g₂ : Ghost}, ServerLeft s h₁ h₂ g g₂ → g₂.due ⊆ g.due ∧
      g₂.closing ⊆ insert s g.closing ∧
      (h₂.net g₂).c.owner = update (h.net g).c.owner s none :=
    fun hc => ⟨hc.due, hc.closing, by rw [hc.owner, he]⟩
  refine After.ite (fun _ => ?_) fun _ => ?_
  · exact (serverAbandon_moves hfree₁ hlt₁).mono fun _ h₂ hreach => hreach.mono fun g₂ => hclosed
  · exact (serverDrain_moves hr₁ hs₁).mono fun _ h₂ hreach => hreach.mono fun g₂ => hclosed

/-! ## `client_close` -/

/-- A connection that changes in what the view sees of it. -/
lemma Heap.net_conn_update {x : Conn} (hx : h'.conn = update h.conn c x) :
    ConnCols.of h'.conn = (ConnCols.of h.conn).set c x := by
  rw [hx, ConnCols.of_update]

/-- A request that is being received is discarded. -/
lemma discardReq_moves (hs : Sound (h.net g)) (ho : (h.net g).Open c) :
    After (discardReq c (h.conn c).rmsg) (Reach Move (h.net g) fun _ h' g' =>
      g.Moved g' ∧ h'.conn = update h.conn c { h.conn c with rmsg := none }) h := by
  cases hrmsg : (h.conn c).rmsg with
  | none =>
    refine After.pure (.here ⟨.refl g, ?_⟩)
    rw [← hrmsg]
    exact (update_eq_self c h.conn).symm
  | some m =>
    have hplace : g.place m = .reading c := (hs.inv.queues.rmsg c ho m).mp hrmsg
    have hunread : Move (h.net g)
        ((h.modConn c fun x => { x with rmsg := none }).net (g.move m .hand)) := by
      have he : (h.modConn c fun x => { x with rmsg := none }).net (g.move m .hand) =
          { h.net g with c.rmsg := update (h.net g).c.rmsg c none }.move m .hand := by
        rw [Heap.net_move]
        simp [ConnCols.set]
      rw [he]
      exact .unread c m ho hrmsg
    have hn : m ∉ g.pend := fun hmem => hs.inv.ne_of_pend hmem (m := m) (by simp [hplace]) rfl
    obtain ⟨g', hmoves, hmoved, -, -⟩ := reqPut_moves (Moves.sound (.single hunread) hs)
      (m := m) (by simp [Ghost.move]) hn
    refine After.modConn (After.last
      (After.modHeap (After.pure ⟨g', .head hunread hmoves, ?_, ?_⟩)))
    · exact (Ghost.moved_move m .hand g).trans hmoved
    · rw [Heap.reqPut_conn]
      rfl

/-- One round of the loop of `client_close`. -/
lemma clientCloseMsg_moves (hs : Sound (h.net g)) (hc : (h.net g).Client c) (hcl : c ∈ g.closing)
    (hp : g.pend = []) (hm : m ∈ (h.conn c).omsgq) :
    After (clientCloseMsg c m) (Reach Move (h.net g) fun _ h' g' => g.Moved g' ∧
      h'.conn = update h.conn c { h.conn c with omsgq := (h.conn c).omsgq.erase m }) h := by
  obtain ⟨srv, hplace⟩ := (hs.inv.queues.omsgq_client c hc m).mp hm
  have hplace' : g.place m = .req (some c) srv := hplace
  unfold clientCloseMsg reqClientDequeueOmsgq
  refine After.modConn (After.getMsg (After.ite (fun hd => ?_) fun hd => ?_))
  · -- a request that is done is in no queue of a server connection
    obtain rfl : srv = none := by
      cases srv with
      | none => rfl
      | some x =>
        have hdone := (hs.inv.facts.srv m (some c) x.1 x.2 hplace).2.1
        simp only [Heap.net_msg] at hdone
        simp [hdone] at hd
    have hleave : Move (h.net g)
        ((h.modConn c fun x => { x with omsgq := x.omsgq.erase m }).net (g.move m .hand)) := by
      have he : (h.modConn c fun x => { x with omsgq := x.omsgq.erase m }).net (g.move m .hand) =
          ((h.net g).deqOut c m).move m .hand := by
        rw [Heap.net_move]
        simp [ConnCols.set, Net.deqOut]
      rw [he]
      exact .leave c m hplace (.inl hcl)
    obtain ⟨g', hmoves, hmoved, -, -⟩ := reqPut_moves (Moves.sound (.single hleave) hs)
      (m := m) (by simp [Ghost.move]) (by simp [Ghost.move, hp])
    refine After.last (After.modHeap (After.pure ⟨g', .head hleave hmoves, ?_, ?_⟩))
    · exact (Ghost.moved_move m .hand g).trans hmoved
    · rw [Heap.reqPut_conn]
      rfl
  · have he : ((h.modConn c fun x => { x with omsgq := x.omsgq.erase m }).modMsg m fun x =>
        { x with swallow := true }).net (g.move m (.req none srv)) =
        { (h.net g).deqOut c m with m.swallow := update (h.net g).m.swallow m true }.move m
          (.req none srv) := by
      rw [Heap.net_move, Heap.net_modMsg]
      simp [ConnCols.set, MsgCols.set, Net.deqOut]
    refine After.last (After.modMsg (After.pure ⟨g.move m (.req none srv), .single ?_,
      Ghost.moved_move m _ g, rfl⟩))
    rw [he]
    exact .orphan c m srv hplace (by simpa using hd) hcl

/-- The loop of `client_close`. -/
lemma clientCloseMsgs_moves (ms : List MsgId) (hs : Sound (h.net g)) (hc : (h.net g).Client c)
    (hcl : c ∈ g.closing) (hp : g.pend = []) (hq : ms = (h.conn c).omsgq) :
    After (clientCloseMsgs c ms) (Reach Move (h.net g) fun _ h' g' => g.Moved g' ∧
      h'.conn = update h.conn c { h.conn c with omsgq := [] }) h := by
  induction ms generalizing h g with
  | nil =>
    refine After.pure (.here ⟨.refl g, ?_⟩)
    rw [hq]
    exact (update_eq_self c h.conn).symm
  | cons m ms ih =>
    refine After.follow (clientCloseMsg_moves hs hc hcl hp (by simp [← hq])) ?_
    rintro - h₁ g₁ hmoves ⟨hmoved, hconn⟩
    have hc₁ : (h₁.net g₁).Client c := by
      obtain ⟨p, ho⟩ := hc
      refine ⟨p, ?_⟩
      show (h₁.conn c).owner = _
      rw [hconn]
      simpa using ho
    obtain ⟨place, rfl⟩ := hmoved
    have hq₁ : ms = (h₁.conn c).omsgq := by
      rw [hconn]
      simp [← hq]
    refine (ih (Moves.sound hmoves hs) hc₁ hcl hp hq₁).mono fun _ h₂ hreach =>
      hreach.mono fun g₂ ⟨hmoved₂, hconn₂⟩ => ?_
    refine ⟨Ghost.Moved.trans ⟨place, rfl⟩ hmoved₂, ?_⟩
    rw [hconn₂, hconn]
    simp

/-- Nothing is left to do for a connection without an owner. -/
lemma leave_moves (ho : (h.conn c).owner = none) :
    Moves (h.net g) (h.net { g with due := g.due \ {c}, cold := g.cold \ {c} }) := by
  have hcalm : ServerMove (h.net g) (h.net { g with due := g.due \ {c} }) :=
    .calm c fun _ => .inr (.inl (Heap.not_client ho))
  have hsettle : Move (h.net { g with due := g.due \ {c} })
      (h.net { g with due := g.due \ {c}, cold := g.cold \ {c} }) :=
    .settle c fun hc => absurd hc (Heap.not_client ho)
  exact .tail (.single (.server hcalm)) hsettle

/-- A client connection whose queue is empty is put on the free list. -/
lemma client_leaves {p : ℕ} (hs : Sound (h.net g)) (ho : (h.conn c).owner = some (.pool p))
    (hq : (h.conn c).omsgq = []) (hr : (h.conn c).rmsg = none) :
    Moves (h.net g) ((((h.modConn c fun x => { x with owner := none }).modConn c fun x =>
      { x with sd := -1 }).connPut c).net { g with due := g.due \ {c}, cold := g.cold \ {c} }) := by
  obtain ⟨hfree, hlt⟩ := hs.inv.fresh_of_open (c := c) (by simp [Net.Open, ho])
  have hunref : Move (h.net g) ((h.modConn c fun x => { x with owner := none }).net g) := by
    have he : (h.modConn c fun x => { x with owner := none }).net g =
        { h.net g with c.owner := update (h.net g).c.owner c none } := by
      simp [ConnCols.set]
    rw [he]
    exact .unrefClient c p ho hq hr
  have hsd := setSd_moves (h := h.modConn c fun x => { x with owner := none }) (g := g)
    (c := c) (by simp)
  have hfresh : (((h.modConn c fun x => { x with owner := none }).modConn c fun x =>
      { x with sd := -1 }).net g).FreshConn c :=
    ⟨by rw [Heap.net_modConn, Heap.net_modConn]; simp [ConnCols.set], hfree, hlt⟩
  have hnone : ((((h.modConn c fun x => { x with owner := none }).modConn c fun x =>
      { x with sd := -1 }).connPut c).conn c).owner = none := by
    simp [Heap.connPut]
  refine .trans (.tail (.tail (.single hunref) (.server hsd)) (.server (connPut_moves hfresh))) ?_
  exact leave_moves hnone

/-- **`client_close`**: the requests of the client are released, or left to be swallowed.

**Proof sketch.** The client begins to close, so that nothing is said about its queue any more; the
loop over it puts the requests that are done and gives up the others, and an empty connection may be
unreferenced and freed. -/
theorem clientClose_moves (hs : Sound (h.net g)) (hp : g.pend = []) :
    After (clientClose c) (Reach Move (h.net g) fun _ h' g' =>
      g'.due = g.due \ {c} ∧ g'.cold = g.cold \ {c} ∧ g'.closing = insert c g.closing ∧
      g'.pend = [] ∧
        (h'.net g').c.owner = update (h.net g).c.owner c none) h := by
  unfold clientClose clientCloseStats
  refine After.getConn (After.ownerPool fun p ho => ?_)
  have hc : (h.net g).Client c := ⟨p, ho⟩
  have hopen : (h.net g).Open c := by simp [Net.Open, ho]
  have hsd := (hs.inv.addr.pool_client c hc).2
  rw [bind_assoc]
  refine After.statsPool (After.statsPool (After.ite (fun hneg => ?_) fun _ => ?_))
  · exact absurd hneg (not_lt.mpr hsd)
  have hbegin : Move (h.net g) (h.net { g with closing := insert c g.closing }) :=
    .beginClose c fun _ => hp
  have hs₀ := Moves.sound (.single hbegin) hs
  refine After.pay (.single hbegin) (After.follow (discardReq_moves hs₀ hopen) ?_)
  rintro - h₁ g₁ hmoves₁ ⟨⟨place₁, rfl⟩, hconn₁⟩
  have hs₁ := Moves.sound hmoves₁ hs₀
  have hc₁ :
      (h₁.net { { g with closing := insert c g.closing } with place := place₁ }).Client c := by
    refine ⟨p, ?_⟩
    show (h₁.conn c).owner = _
    rw [hconn₁]
    simpa using ho
  have hq₁ : (h.conn c).omsgq = (h₁.conn c).omsgq := by
    rw [hconn₁]
    simp
  refine After.follow (clientCloseMsgs_moves _ hs₁ hc₁ (Set.mem_insert c g.closing) hp hq₁) ?_
  rintro - h₂ g₂ hmoves₂ ⟨⟨place₂, rfl⟩, hconn₂⟩
  unfold clientUnref
  rw [bind_assoc]
  refine After.ownerPool fun p' ho' => After.modConn (After.modConn (After.last (After.modHeap
    (After.pure ⟨_, client_leaves (Moves.sound hmoves₂ hs₁) ho' ?_ ?_, rfl, rfl, rfl, hp, ?_⟩))))
  · rw [hconn₂]
    simp
  · rw [hconn₂, hconn₁]
    simp
  · rw [Heap.net_connPut, Heap.net_modConn, Heap.net_modConn]
    show (((ConnCols.of h₂.conn).set c _).set c _).owner = _
    rw [Heap.net_conn_update hconn₂, Heap.net_conn_update hconn₁]
    simp [ConnCols.set, ConnCols.of, Heap.net]

/-! ## `core_close` -/

/-- The connection is not registered any more, or `epoll_ctl` has failed. -/
lemma eventDelConn_moves (hc : (h.net g).Client c → c ∈ g.closing) :
    After (eventDelConn env c) (Reach Move (h.net g) fun _ h' g' => g' = g ∧
      (h'.net g').c.owner = (h.net g).c.owner ∧ (h'.conn c).client = (h.conn c).client) h := by
  unfold eventDelConn
  refine After.ask fun t => After.last (After.onlyIf (Q := fun _ h' => Moves (h.net g) (h'.net g) ∧
    (h'.net g).c.owner = (h.net g).c.owner ∧ (h'.conn c).client = (h.conn c).client)
    (fun _ => After.last (After.modConn (After.pure ?_))) (fun _ => ⟨.refl, rfl, rfl⟩) ?_)
  · have he : (h.modConn c fun x =>
        { x with sendActive := false, recvActive := false, evOut := false }).net g =
        { h.net g with
          c.sendActive := update (h.net g).c.sendActive c false
          c.evOut := update (h.net g).c.evOut c false } := by
      simp [ConnCols.set]
    refine ⟨?_, ?_, by simp⟩
    · rw [he]
      exact .single (.sleep c fun hcl => .inr (hc hcl))
    · rw [he]
  · rintro h' ⟨hmoves, howner, hclient⟩
    exact After.pure ⟨g, hmoves, rfl, howner, hclient⟩

/-- Connection `c` is closed: nothing about it is left to do, and no other connection has been
opened. -/
structure Closed (c : ConnId) (h h' : Heap) (g g' : Ghost) : Prop where
  due : g'.due ⊆ g.due \ {c}
  cold : g'.cold ⊆ g.cold \ {c}
  closing : g'.closing ⊆ insert c g.closing
  owner : (h'.net g').c.owner = update (h.net g).c.owner c none
  pend : g'.pend = []

/-- **`core_close`**.

**Proof sketch.** For a client the events are deleted first, which may lose a wakeup, but the client
is already closing.  A connection that is neither a client nor a server connection faults. -/
theorem coreClose_moves (hr : Ready (h.net g)) (hp : g.pend = []) :
    After (coreClose env c) (Reach Move (h.net g) fun _ h' g' => Closed c h h' g g') h := by
  unfold coreClose
  by_cases hc : (h.net g).Client c
  · have hbegin : Move (h.net g) (h.net { g with closing := insert c g.closing }) :=
      .beginClose c fun _ => hp
    refine After.pay (.single hbegin)
      (After.follow (eventDelConn_moves fun _ => Set.mem_insert c g.closing) ?_)
    rintro - h₁ g₁ hmoves₁ ⟨rfl, howner₁, hclient₁⟩
    have hclient : (h.conn c).client = true := (hr.inv.addr.pool_client c hc).1
    refine After.getConn ?_
    rw [hclient₁, if_pos hclient]
    have hs₁ := Moves.sound hmoves₁ (Moves.sound (.single hbegin) hr.toSound)
    refine (clientClose_moves hs₁ hp).mono fun _ h₂ hreach =>
      hreach.mono fun g₂ ⟨hdue, hcold, hclosing, hp₂, howner₂⟩ => ?_
    refine ⟨hdue.subset, hcold.subset, ?_, ?_, hp₂⟩
    · rw [hclosing]
      exact (Set.insert_eq_of_mem (Set.mem_insert c g.closing)).subset
    · rw [howner₂, howner₁]
      rfl
  · refine After.follow (eventDelConn_moves fun hcl => absurd hcl hc) ?_
    rintro - h₁ g₁ hmoves₁ ⟨rfl, howner₁, hclient₁⟩
    have hr₁ : Ready (h₁.net g₁) := by
      refine ⟨Moves.sound hmoves₁ hr.toSound, fun x hx => hr.closing x ?_⟩
      obtain ⟨p, hx⟩ := hx
      exact ⟨p, by rw [← howner₁]; exact hx⟩
    refine After.getConn (After.ite (fun _ => ?_) fun _ => ?_)
    · -- the connection is not a client connection, so this faults
      unfold clientClose
      refine After.getConn (After.ownerPool fun p ho => absurd ?_ hc)
      exact ⟨p, by rw [← howner₁]; exact ho⟩
    · refine (serverClose_moves hr₁).mono fun _ h₂ hreach => ?_
      obtain ⟨g₂, hmoves₂, hdue, hclosing, howner₂⟩ := hreach
      have hpend := (ServerMoves.keeps hmoves₂ hr₁.inv).pend
      have hnone : (h₂.conn c).owner = none := by
        have h := congrFun howner₂ c
        simpa using h
      refine ⟨_, (ServerMoves.moves hmoves₂).trans (leave_moves hnone),
        Set.sdiff_subset_sdiff_left hdue, Set.sdiff_subset_sdiff_left (ServerMoves.cold hmoves₂),
          hclosing, ?_, hpend.trans hp⟩
      rw [← howner₁]
      exact howner₂

end GfwProxy
