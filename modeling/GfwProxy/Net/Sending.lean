import GfwProxy.Net.Receiving
import GfwProxy.Proxy.Scatter

set_option autoImplicit false

/-!
# Sending requests as moves

The write path: what `msg_send` does on any connection, and the write handlers of a server
connection, which take the requests that are sent from one of its queues to the other.

## Main definitions

* `GfwProxy.SendMove` — the moves of the write path, which has a cursor in the queue.
* `GfwProxy.Net.Still` — no client has a cursor.

## Main results

* `GfwProxy.Moves.still` — outside the write path no client has a cursor.
* `GfwProxy.reqSendNext_moves`, `GfwProxy.reqSendDone_moves`.
-/

namespace GfwProxy

open Function

variable {env : Env} {n n' : Net} {h h' : Heap} {g g' : Ghost} {c s : ConnId} {m : MsgId}

/-! ## The cursor -/

/-- **The moves of the write path**: those of the other handlers, and those of the cursor of a
connection, which is the message that was gathered last. -/
inductive SendMove (n : Net) : Net → Prop
  | move {n' : Net} (h : Move n n') : SendMove n n'
  | cursor (c : ConnId) (x : Option MsgId) : SendMove n { n with c.smsg := update n.c.smsg c x }

/-- Sequences of moves of the write path. -/
abbrev SendMoves : Net → Net → Prop := Relation.ReflTransGen SendMove

/-- Moves are moves of sending. -/
lemma Moves.send (h : Moves n n') : SendMoves n n' :=
  Relation.ReflTransGen.mono (fun _ _ => SendMove.move) _ _ h

/-- The cursor of a send does not matter to the invariants. -/
lemma Sound.cursor (hs : Sound n) (c : ConnId) (x : Option MsgId) :
    Sound { n with c.smsg := update n.c.smsg c x } where
  inv := hs.inv.same ⟨rfl, rfl, rfl, rfl, rfl, rfl, rfl, rfl, rfl, rfl, rfl, rfl, rfl, rfl, rfl,
    fun _ => id, rfl, rfl, rfl⟩
  timed := hs.timed.same rfl rfl rfl rfl rfl id

/-- The moves of sending keep all the invariants. -/
lemma SendMoves.sound (h : SendMoves n n') (hs : Sound n) : Sound n' := by
  induction h with
  | refl => exact hs
  | tail _ hm ih =>
    cases hm with
    | move hm => exact Moves.sound (.single hm) ih
    | cursor c x => exact ih.cursor c x

/-- No client has a cursor. -/
def Net.Still (n : Net) : Prop := ∀ c, n.Client c → n.c.smsg c = none

/-- The owners and the cursors of the connections are the same. -/
lemma Net.Still.of_eq (hs : n.Still) (ho : n'.c.owner = n.c.owner) (he : n'.c.smsg = n.c.smsg) :
    n'.Still := by
  intro c hc
  rw [he]
  rw [Net.Client, ho] at hc
  exact hs c hc

/-- A connection is not open any more. -/
lemma Net.Still.drop (hs : n.Still) (ho : n'.c.owner = update n.c.owner c none)
    (he : n'.c.smsg = n.c.smsg) :
    n'.Still := by
  rintro x ⟨p, hp⟩
  rw [ho] at hp
  have hne : x ≠ c := by
    rintro rfl
    simp at hp
  rw [update_of_ne hne] at hp
  rw [he]
  exact hs x ⟨p, hp⟩

/-- A connection is opened. -/
lemma Net.Still.fresh {o : Option Owner} (hs : n.Still) (ho : n'.c.owner = update n.c.owner c o)
    (he : n'.c.smsg = update n.c.smsg c none) : n'.Still := by
  rintro x ⟨p, hp⟩
  rw [ho] at hp
  rw [he]
  rcases eq_or_ne x c with rfl | hne
  · exact update_self _ _ _
  · rw [update_of_ne hne] at hp ⊢
    exact hs x ⟨p, hp⟩

/-- A move of a server connection does not write to a client. -/
lemma ServerMove.still (hm : ServerMove n n') (hs : n.Still) : n'.Still := by
  cases hm with
  | openServer s p i hf => exact hs.fresh (c := s) rfl rfl
  | unrefServer s p i ho hi hq hr => exact hs.drop (c := s) rfl rfl
  | abandon s p i ho ha => exact hs.drop (c := s) rfl rfl
  | dropIn s m hm => exact hs.of_eq (by simp [Net.put, Net.deqIn]) (by simp [Net.put, Net.deqIn])
  | dropOut s m hm hs' =>
    exact hs.of_eq (by simp [Net.put, Net.deqOut]) (by simp [Net.put, Net.deqOut])
  | failIn s c m b hm hc =>
    exact hs.of_eq (by simp [Net.setDue, Net.fail, Net.finish, Net.move, Net.deqIn])
      (by simp [Net.setDue, Net.fail, Net.finish, Net.move, Net.deqIn])
  | failOut s c m b hm hc hs' =>
    exact hs.of_eq (by simp [Net.setDue, Net.fail, Net.finish, Net.move, Net.deqOut])
      (by simp [Net.setDue, Net.fail, Net.finish, Net.move, Net.deqOut])
  | _ => exact hs.of_eq rfl rfl

/-- One move does not write to a client. -/
lemma Move.still (hm : Move n n') (hs : n.Still) : n'.Still := by
  cases hm with
  | server hm => exact hm.still hs
  | openClient c p sd hc => exact hs.fresh (c := c) rfl rfl
  | unrefClient c p ho hq hr => exact hs.drop (c := c) rfl rfl
  | tmoDelete m => exact hs.of_eq (by simp) (by simp)
  | failFwd c m b hm hd hc =>
    exact hs.of_eq (by simp [Net.setDue, Net.fail, Net.finish])
      (by simp [Net.setDue, Net.fail, Net.finish])
  | respond s c p m rest b e hq hp hc hm hb hn =>
    exact hs.of_eq
      (by simp [Net.setDue, Net.fail, Net.finish, Net.move, Net.deqOut, Net.link, Net.emit])
      (by simp [Net.setDue, Net.fail, Net.finish, Net.move, Net.deqOut, Net.link, Net.emit])
  | swallowed s p rest hq hp =>
    exact hs.of_eq (by simp [Net.put, Net.finish, Net.deqOut])
      (by simp [Net.put, Net.finish, Net.deqOut])
  | _ => exact hs.of_eq rfl rfl

/-- **Outside the write path no client has a cursor.** -/
theorem Moves.still (h : Moves n n') (hs : n.Still) : n'.Still := by
  induction h with
  | refl => exact hs
  | tail _ hm ih => exact hm.still ih

/-! ## Computations of the write path -/

section Follow

variable {α β : Type} {R : α → Heap → Ghost → Prop} {S : β → Heap → Ghost → Prop}

/-- A computation outside the write path, in front of another one. -/
lemma After.followMove {x : Core α} {f : α → Core β} (hx : After x (Reach Move n R) h)
    (hf : ∀ a h' g', Moves n (h'.net g') → R a h' g' →
      After (f a) (Reach SendMove (h'.net g') S) h') : After (x >>= f) (Reach SendMove n S) h := by
  refine hx.call fun a h' hr => ?_
  obtain ⟨g', hm, hq⟩ := hr
  exact After.pay (Moves.send hm) (hf a h' g' hm hq)

/-- What is reached by moves is reached by moves of sending. -/
lemma Reach.send {a : α} (hr : Reach Move n R a h) : Reach SendMove n R a h := by
  obtain ⟨g', hm, hq⟩ := hr
  exact ⟨g', Moves.send hm, hq⟩

end Follow

/-- The cursor is set, on the view. -/
lemma Heap.net_cursor (x : Option MsgId) : (h.modConn c fun y => { y with smsg := x }).net g =
    { h.net g with c.smsg := update (h.net g).c.smsg c x } := by
  simp [ConnCols.set]

/-- The cursor of connection `c` is set. -/
lemma cursor_move (x : Option MsgId) :
    SendMove (h.net g) ((h.modConn c fun y => { y with smsg := x }).net g) := by
  rw [Heap.net_cursor]
  exact .cursor c x

/-! ## The write handlers of a server connection -/

/-- The view differs in the cursor of connection `s` and in the registrations only. -/
def Net.Flow (s : ConnId) (n n' : Net) : Prop :=
  ∃ x sendActive evOut,
    n' = { n with c.smsg := update n.c.smsg s x, c.sendActive := sendActive, c.evOut := evOut }

/-- Nothing has happened. -/
lemma Net.Flow.refl (s : ConnId) (n : Net) : n.Flow s n :=
  ⟨n.c.smsg s, n.c.sendActive, n.c.evOut, by simp⟩

/-- Flows compose. -/
lemma Net.Flow.trans {n₁ n₂ n₃ : Net} (h₁ : n₁.Flow s n₂) (h₂ : n₂.Flow s n₃) : n₁.Flow s n₃ := by
  obtain ⟨_, _, _, rfl⟩ := h₁
  obtain ⟨x, sendActive, evOut, rfl⟩ := h₂
  exact ⟨x, sendActive, evOut, by simp⟩

/-- The next request of the queue is in the queue. -/
lemma mem_of_tailqNext {m x : MsgId} {q : List MsgId} (h : tailqNext m q = some x) : x ∈ q := by
  induction q with
  | nil => cases h
  | cons y q ih =>
    rw [tailqNext] at h
    split at h
    · exact List.mem_cons_of_mem y (List.mem_of_mem_head? h)
    · exact List.mem_cons_of_mem y (ih h)

/-- The element behind the last one of a slice. -/
lemma tailqNext_slice {q Q : List MsgId} {m x : MsgId} (hn : Q.Nodup) (hq : q ++ [m] <:+: Q)
    (h : tailqNext m Q = some x) : q ++ [m] ++ [x] <:+: Q := by
  obtain ⟨a, b, rfl⟩ := hq
  have hm : m ∉ a ++ q := by
    intro hmem
    have hn' : ((a ++ q) ++ m :: b).Nodup := by simpa using hn
    exact (List.nodup_append.mp hn').2.2 m hmem m (by simp) rfl
  have hnext : tailqNext m (a ++ (q ++ [m]) ++ b) = b.head? := by
    rw [← tailqNext_append b hm]
    simp
  rw [hnext] at h
  obtain ⟨b', rfl⟩ := List.head?_eq_some_iff.mp h
  exact ⟨a, b', by simp⟩

/-- `event_del_out` on a connection that is not a client's. -/
lemma eventDelOut_moves (hc : ¬(h.net g).Client c) :
    After (eventDelOut env c)
      (Reach SendMove (h.net g) fun _ h' g' => g' = g ∧ (h.net g).Flow c (h'.net g) ∧
      (h'.conn c).sendReady = (h.conn c).sendReady) h := by
  unfold eventDelOut
  refine After.getConn (After.ite (fun _ => After.pure (.here ⟨rfl, .refl _ _, rfl⟩)) fun _ =>
    After.ask fun t => ?_)
  refine After.ite (fun _ => After.modConn ?_) fun _ => After.pure (.here ⟨rfl, .refl _ _, rfl⟩)
  have he : (h.modConn c fun x => { x with sendActive := false, evOut := false }).net g =
      { h.net g with
        c.sendActive := update (h.net g).c.sendActive c false
        c.evOut := update (h.net g).c.evOut c false } := by
    simp [ConnCols.set]
  refine After.pay₁ (.move (.sleep c fun h => absurd h hc)) he.symm
    (After.pure (.here ⟨rfl, ?_, by simp⟩))
  rw [he]
  exact ⟨(h.net g).c.smsg c, _, _, by rw [update_eq_self]⟩

/-- A server connection is no client. -/
lemma Net.Server.not_client (hs : n.Server s) : ¬n.Client s := fun hc => Net.Client.ne hc hs rfl

/-- A server connection is connected, which the view does not see. -/
lemma serverConnected_after (h : Heap) (g : Ghost) (s : ConnId) :
    After (serverConnected env s)
      (fun _ h' => h'.net g = h.net g ∧ (h'.conn s).sendReady = (h.conn s).sendReady) h := by
  unfold serverConnected postConnect
  refine After.ownerServer fun p i _ => After.statsServer (After.modConn (After.modConn ?_))
  refine After.last (After.callHook (After.pure ⟨?_, by simp⟩))
  rw [Heap.net_modConn_unseen rfl, Heap.net_modConn_unseen rfl]

/-- **`req_send_next`**: the next request of the queue.

**Proof sketch.** The cursor stands on the last request that was gathered, and these are next to
each other in the queue; so the one behind it extends them. -/
theorem reqSendNext_moves {q : List MsgId} (hi : Inv (h.net g)) (hs : (h.net g).Server s)
    (hq : q <:+: (h.conn s).imsgq) (hcur : ∀ m, q.getLast? = some m → (h.conn s).smsg = some m) :
    After (reqSendNext env s)
      (Reach SendMove (h.net g) fun o h' g' => g' = g ∧ (h.net g).Flow s (h'.net g) ∧
      (h'.conn s).sendReady = (h.conn s).sendReady ∧
      ∀ m, o = some m → (h'.conn s).smsg = some m ∧ q ++ [m] <:+: (h.conn s).imsgq) h := by
  unfold reqSendNext
  refine After.getConn (After.onlyIf (Q := fun _ h' => h'.net g = h.net g ∧
    (h'.conn s).sendReady = (h.conn s).sendReady) (fun _ => serverConnected_after h g s)
      (fun _ => ⟨rfl, rfl⟩) ?_)
  rintro h₁ ⟨he, hready⟩
  have himsgq : (h₁.conn s).imsgq = (h.conn s).imsgq := congrArg (fun n : Net => n.c.imsgq s) he
  have hsmsg : (h₁.conn s).smsg = (h.conn s).smsg := congrArg (fun n : Net => n.c.smsg s) he
  have hnodup : (h.conn s).imsgq.Nodup := hi.queues.imsgq_nodup s hs.isOpen
  rw [← he] at hs ⊢
  refine After.getConn ?_
  rw [himsgq, hsmsg]
  cases hfirst : (h.conn s).imsgq.head? with
  | none =>
    refine After.follow (eventDelOut_moves hs.not_client) ?_
    rintro ok h₂ g₂ - ⟨rfl, hflow, hready₂⟩
    refine After.onlyIf (Q := fun _ h₃ => h₃.net g₂ = h₂.net g₂ ∧
      (h₃.conn s).sendReady = (h₂.conn s).sendReady) (fun _ => ?_) (fun _ => ⟨rfl, rfl⟩) ?_
    · exact After.getErrno fun _ =>
        After.last (After.modConn (After.pure ⟨Heap.net_modConn_unseen rfl, by simp⟩))
    · rintro h₃ ⟨he₃, hready₃⟩
      refine After.pure ⟨g₂, he₃ ▸ .refl, rfl, he₃ ▸ hflow, ?_, by simp⟩
      rw [hready₃, hready₂, hready]
  | some first =>
    have hmem : first ∈ (h.conn s).imsgq := List.mem_of_mem_head? hfirst
    -- the request that is returned is behind those that were gathered
    have hnext : ∀ m, (h.conn s).smsg.elim (some first) (fun l => tailqNext l (h.conn s).imsgq) =
        some m →
        q ++ [m] <:+: (h.conn s).imsgq := by
      intro m hm
      rcases List.eq_nil_or_concat q with rfl | ⟨q', l, rfl⟩
      · have hmem' : m ∈ (h.conn s).imsgq := by
          cases hcursor : (h.conn s).smsg with
          | none =>
            rw [hcursor] at hm
            exact Option.some.inj hm ▸ hmem
          | some l =>
            rw [hcursor] at hm
            exact mem_of_tailqNext hm
        obtain ⟨a, b, hab⟩ := List.append_of_mem hmem'
        exact ⟨a, b, by simp [hab]⟩
      · rw [hcur l (by simp)] at hm
        rw [List.concat_eq_append] at hq ⊢
        exact tailqNext_slice hnodup hq hm
    refine After.modConn (After.pure
      ⟨g, .single (cursor_move _), rfl, ?_, ?_, fun m hm => ⟨?_, hnext m ?_⟩⟩)
    · exact ⟨_, _, _, Heap.net_cursor _⟩
    · simp [hready]
    · simpa using hm
    · rw [← hm]
      cases (h.conn s).smsg <;> rfl

/-- Request `m` goes from one queue of the connection to the other. -/
lemma Heap.net_sent (id : ℕ) :
    (((h.modConn s fun x => { x with sent := x.sent ++ [id] }).modConn s fun x =>
      { x with imsgq := x.imsgq.erase m }).modConn s fun x => { x with omsgq :=
  x.omsgq ++ [m] }).net g =
    { ((h.net g).deqIn s m).enqOut s m with
      c.sent := update (h.net g).c.sent s ((h.net g).c.sent s ++ [id]) } := by
  rw [Heap.net_modConn, Heap.net_modConn, Heap.net_modConn]
  simp [ConnCols.set, Net.deqIn, Net.enqOut]

/-- What the account of the requests sent leaves of server connection `s`. -/
structure SentFrom (s : ConnId) (h h' : Heap) (g g' : Ghost) : Prop where
  moved : g.Moved g'
  owner : (h'.net g').c.owner = (h.net g).c.owner
  smsg : (h'.net g').c.smsg = (h.net g).c.smsg
  lastShort : (h'.net g').c.lastShort = (h.net g).c.lastShort
  sendReady : (h'.conn s).sendReady = (h.conn s).sendReady

/-- Nothing has been sent. -/
lemma SentFrom.refl (s : ConnId) (h : Heap) (g : Ghost) : SentFrom s h h g g :=
  ⟨.refl g, rfl, rfl, rfl, rfl⟩

/-- Sends compose. -/
lemma SentFrom.trans {h₁ h₂ h₃ : Heap} {g₁ g₂ g₃ : Ghost} (h₁₂ : SentFrom s h₁ h₂ g₁ g₂)
    (h₂₃ : SentFrom s h₂ h₃ g₂ g₃) : SentFrom s h₁ h₃ g₁ g₃ :=
  ⟨h₁₂.moved.trans h₂₃.moved, h₂₃.owner.trans h₁₂.owner, h₂₃.smsg.trans h₁₂.smsg,
    h₂₃.lastShort.trans h₁₂.lastShort, h₂₃.sendReady.trans h₁₂.sendReady⟩

/-- **A request has been sent**: it waits for its response, or is released if it expects none.

**Proof sketch.** By the invariant a request without reply in the in-queue has no client, so it may
be released; any other is moved to the out-queue, and its id to the ids that were sent. -/
theorem finalize_server_moves (hs : Sound (h.net g)) (hc : (h.net g).Server s)
    (hm : m ∈ (h.conn s).imsgq) :
    After (finalize s m) (Reach Move (h.net g) fun _ h' g' => SentFrom s h h' g g' ∧
      (h'.conn s).imsgq = (h.conn s).imsgq.erase m) h := by
  have hclient : (h.conn s).client = false := hs.inv.addr.server_client s hc
  obtain ⟨cli, hplace⟩ := (hs.inv.queues.imsgq s hc.isOpen m).mp hm
  obtain ⟨-, -, -, hpeer, hnoreply, -⟩ := hs.inv.facts.srv m cli s false hplace
  unfold finalize noteSent
  simp only [bind_assoc]
  refine After.getMsg (After.getConn ?_)
  rw [hclient]
  cases hno : (h.msg m).noreply with
  | false =>
    refine After.onlyIf (Q := fun _ h' => h' = h.modConn s fun x =>
      { x with sent := x.sent ++ [(h.msg m).id] })
        (fun _ => After.last (After.modConn (After.pure rfl))) (fun h => by cases h) ?_
    rintro h₁ rfl
    unfold connSendDone reqSendDone reqServerDequeueImsgq reqServerEnqueueOmsgq
    simp only [bind_assoc]
    refine After.getConn (After.ite (fun hyes => ?_) fun _ => ?_)
    · simp [hclient] at hyes
    refine After.modConn (After.ownerServer fun p i _ =>
      After.statsServer (After.getMsg
        (After.statsServer (After.getMsg (After.ite (fun _ => ?_) fun hyes => ?_)))))
    · refine After.modConn (After.ownerServer fun p i _ =>
        After.statsServer (After.getMsg
          (After.last (After.statsServer
                  (After.pure ⟨g.move m (.req cli (some (s, true))), .single ?_,
                              ⟨⟨_, rfl⟩, ?_, ?_, ?_, ?_⟩, ?_⟩)))))
      · rw [Heap.net_move, Heap.net_sent]
        exact .sendDone s m cli hplace hno
      · rw [Heap.net_move, Heap.net_sent]
        rfl
      · rw [Heap.net_move, Heap.net_sent]
        rfl
      · rw [Heap.net_move, Heap.net_sent]
        rfl
      · simp
      · simp
    · simp [hno] at hyes
  | true =>
    refine After.onlyIf (Q := fun _ h' => h' = h) (fun h => by cases h) (fun _ => rfl) ?_
    rintro h₁ rfl
    obtain rfl : cli = none := (hnoreply hno).2
    unfold connSendDone reqSendDone reqServerDequeueImsgq
    simp only [bind_assoc]
    refine After.getConn (After.ite (fun hyes => ?_) fun _ => ?_)
    · rw [hclient] at hyes
      cases hyes
    refine After.modConn (After.ownerServer fun p i _ =>
      After.statsServer (After.getMsg
        (After.statsServer (After.getMsg (After.ite (fun hyes => ?_) fun _ => ?_)))))
    · simp [hno] at hyes
    · have hview : (h₁.modConn s fun x => { x with imsgq := x.imsgq.erase m }).net g =
          (h₁.net g).deqIn s m := by
        simp [ConnCols.set, Net.deqIn]
      have hpeer' : ((h₁.modConn s fun x => { x with imsgq := x.imsgq.erase m }).msg m).peer =
          none := hpeer
      have hput : ((h₁.modConn s fun x => { x with imsgq := x.imsgq.erase m }).reqPut m).net
          (g.move m .free) = (((h₁.net g).deqIn s m).tmoDelete m).put m := by
        rw [Heap.net_reqPut hpeer', hview]
      refine After.last (After.modHeap
        (After.pure ⟨g.move m .free, .single ?_, ⟨⟨_, rfl⟩, ?_, ?_, ?_, ?_⟩, ?_⟩))
      · rw [hput]
        exact .server (.dropIn s m hplace)
      · rw [hput]
        simp [Net.put, Net.deqIn]
      · rw [hput]
        simp [Net.put, Net.deqIn]
      · rw [hput]
        simp [Net.put, Net.deqIn]
      · rw [Heap.reqPut_conn]
        simp
      · rw [Heap.reqPut_conn]
        simp

/-! ## `msg_send_chain` -/

/-- What the view of server connection `s` keeps while its requests are gathered. -/
lemma Net.Flow.kept (hf : (h.net g).Flow s (h'.net g)) : (h'.net g).c.owner = (h.net g).c.owner ∧
    (h'.conn s).imsgq = (h.conn s).imsgq := by
  obtain ⟨_, _, _, he⟩ := hf
  refine ⟨by rw [he], ?_⟩
  have himsgq := congrArg (fun n : Net => n.c.imsgq s) he
  exact himsgq

/-- The first loop of `msg_send_chain` on a server connection. -/
lemma msgGather_server_moves {fuel : ℕ} {q : List MsgId} {iov : List (List UInt8)}
    (hs : Sound (h.net g)) (hc : (h.net g).Server s) (hq : q ++ [m] <:+: (h.conn s).imsgq)
    (hcur : (h.conn s).smsg = some m) :
    After (msgGather env s fuel m q iov) (Reach SendMove (h.net g) fun r h' g' => g' = g ∧
      (h.net g).Flow s (h'.net g) ∧ (h'.conn s).sendReady = (h.conn s).sendReady ∧
      r.1 <:+: (h.conn s).imsgq) h := by
  induction fuel generalizing h g q m iov with
  | zero => exact After.fault
  | succ fuel ih =>
    unfold msgGather
    refine After.getMsg (After.ite (fun _ => After.pure (.here ⟨rfl, .refl s _, rfl, hq⟩))
      fun _ => ?_)
    unfold connSendNext
    simp only [bind_assoc]
    refine After.getConn ?_
    rw [show (h.conn s).client = false from hs.inv.addr.server_client s hc]
    refine After.follow (reqSendNext_moves hs.inv hc hq ?_) ?_
    · intro x hx
      simp only [List.getLast?_append, List.getLast?_singleton, Option.some_or,
        Option.some.injEq] at hx
      rw [hcur, hx]
    rintro o h₁ g₁ hmoves₁ ⟨rfl, hflow₁, hready₁, hnext⟩
    obtain ⟨howner₁, hqueue₁⟩ := hflow₁.kept
    cases o with
    | none => exact After.pure (.here ⟨rfl, hflow₁, hready₁, hq⟩)
    | some next =>
      obtain ⟨hcur₁, hq₁⟩ := hnext next rfl
      have hc₁ : (h₁.net g₁).Server s := by rwa [Net.Server, howner₁]
      refine (ih (SendMoves.sound hmoves₁ hs) hc₁ (by rwa [hqueue₁]) hcur₁).mono
        fun r h₂ hreach => ?_
      obtain ⟨g₂, hmoves₂, rfl, hflow₂, hready₂, hq₂⟩ := hreach
      exact ⟨g₂, hmoves₂, rfl, hflow₁.trans hflow₂, hready₂.trans hready₁, hqueue₁ ▸ hq₂⟩

/-- The view differs in whether the last write of connection `c` was short. -/
def Net.Wrote (c : ConnId) (n n' : Net) : Prop :=
  ∃ b, n' = { n with c.lastShort := update n.c.lastShort c b }

/-- Nothing has been written. -/
lemma Net.Wrote.refl (c : ConnId) (n : Net) : n.Wrote c n :=
  ⟨n.c.lastShort c, by rw [update_eq_self]⟩

/-- A connection that was ready for writing and is not any more has been told so by a short
write. -/
def Heap.Shortened (c : ConnId) (status : Rstatus) (h h' : Heap) : Prop :=
  (h.conn c).sendReady = true → status ≠ .error → (h'.conn c).sendReady = false →
    (h'.conn c).lastShort = true

/-- The write of `msg_send_chain`. -/
lemma sendGathered_moves (hc : (h.net g).Client c → c ∈ g.cold) (iov : List (List UInt8)) :
    After (sendGathered env c iov) (Reach SendMove (h.net g) fun r h' g' => g' = g ∧
      (h.net g).Wrote c (h'.net g) ∧ h.Shortened c r.1 h') h := by
  have hpaid : ∀ {h' : Heap} {r : Rstatus × ℕ}, (h.net g).Wrote c (h'.net g) →
      h.Shortened c r.1 h' →
      Reach SendMove (h.net g) (fun r h' g' => g' = g ∧ (h.net g).Wrote c (h'.net g) ∧
        h.Shortened c r.1 h') r h' := by
    rintro h' r ⟨b, he⟩ hshort
    refine ⟨g, .single (.move ?_), rfl, ⟨b, he⟩, hshort⟩
    rw [he]
    exact .written c b hc
  unfold sendGathered
  refine After.ite (fun _ => ?_) fun _ => After.pure (.here ⟨rfl, .refl c _, fun hr _ hr' => ?_⟩)
  · unfold connSendv
    refine After.ask fun t => ?_
    cases env.writev t with
    | bytes k =>
      refine After.modConn (After.pure
        (hpaid ⟨decide (min k (nsend iov) < nsend iov), ?_⟩ fun hr _ hr' => ?_))
      · simp [ConnCols.set]
      · simpa [hr] using hr'
    | again =>
      refine After.modConn (After.pure (hpaid ⟨true, ?_⟩ fun hr _ hr' => ?_))
      · simp [ConnCols.set]
      · simp
    | failed =>
      refine After.modConn (After.call (R := fun _ h' => h'.net g = h.net g) ?_ ?_)
      · refine (setErrno_after _ g c).mono fun _ h' he => he.trans (Heap.net_modConn_unseen rfl)
      · rintro - h' he
        exact After.pure (hpaid (by rw [he]; exact .refl c _) fun _ hne => absurd rfl hne)
  · rw [hr] at hr'
    cases hr'

/-- The view differs in the log only. -/
def Net.Noted (n n' : Net) : Prop := ∃ log, n' = { n with a.log := log }

/-- What was written is noted. -/
lemma noteWritten_moves (h : Heap) (g : Ghost) (c : ConnId) (m : MsgId) (written : ℕ) (all : Bool) :
    After (noteWritten c m written all)
      (Reach Move (h.net g) fun _ h' g' => g' = g ∧ (h.net g).Noted (h'.net g) ∧
      (h'.conn c).sendReady = (h.conn c).sendReady) h := by
  unfold noteWritten
  refine After.getMsg (After.getConn (After.onlyIf (Q := fun _ h' => h'.net g = h.net g ∧
    (h'.conn c).sendReady = (h.conn c).sendReady) (fun _ => ?_) (fun _ => ⟨rfl, rfl⟩) ?_))
  · unfold noteStarted
    refine After.getMsg (After.deref fun p hp =>
      After.getMsg (After.modMsg (After.last (After.modConn (After.pure ⟨?_, by simp⟩)))))
    rw [Heap.net_modConn_unseen rfl, Heap.net_modMsg_unseen rfl]
  · rintro h₁ ⟨he, hready⟩
    refine After.last (After.onlyIf (Q := fun _ h' => h' = h₁ ∨ h' = h₁.emit (.cut c))
      (fun _ => After.last (After.emit (After.pure (.inr rfl)))) (fun _ => .inl rfl) ?_)
    rintro h₂ (rfl | rfl)
    · exact After.pure ⟨g, he ▸ .refl, rfl, ⟨_, he⟩, hready⟩
    · refine After.pure ⟨g, .single (.server ?_), rfl, ?_, hready⟩
      · rw [Heap.net_emit, he]
        exact .note (.cut c) rfl
      · rw [Heap.net_emit, he]
        exact ⟨_, rfl⟩

/-- The last loop of `msg_send_chain` on a server connection. -/
lemma msgSent_server_moves {k : ℕ} (ms : List MsgId) (hs : Sound (h.net g))
    (hc : (h.net g).Server s) (hp : g.pend = []) (hnodup : ms.Nodup) (hq : ms ⊆ (h.conn s).imsgq) :
    After (msgSent s k ms) (Reach Move (h.net g) fun _ h' g' => SentFrom s h h' g g') h := by
  induction ms generalizing h g k with
  | nil => exact After.pure (.here (.refl s h g))
  | cons m ms ih =>
    obtain ⟨hm, hms⟩ := List.cons_subset.mp hq
    obtain ⟨hnotin, hnodup'⟩ := List.nodup_cons.mp hnodup
    -- the loop goes on behind message `m`, which has left the queue or not
    have hrest : ∀ {k' : ℕ} {h₁ : Heap} {g₁ : Ghost}, Moves (h.net g) (h₁.net g₁) →
        SentFrom s h h₁ g g₁ → ms ⊆ (h₁.conn s).imsgq →
        After (msgSent s k' ms) (Reach Move (h₁.net g₁) fun _ h' g' => SentFrom s h h' g g')
          h₁ := by
      intro k' h₁ g₁ hmoves hsent hq₁
      have hc₁ : (h₁.net g₁).Server s := by rwa [Net.Server, hsent.owner]
      obtain ⟨place, hg₁⟩ := hsent.moved
      have hp₁ : g₁.pend = [] := by
        rw [hg₁]
        exact hp
      exact (ih (Moves.sound hmoves hs) hc₁ hp₁ hnodup' hq₁).mono fun _ h₂ hreach =>
        hreach.mono fun g₂ hsent₂ => hsent.trans hsent₂
    have hfinal : ∀ {b : Bool} {i : ℕ} {h₀ : Heap}, Moves (h.net g) (h₀.net g) →
        SentFrom s h h₀ g g → (h₀.conn s).imsgq = (h.conn s).imsgq →
        After (do onlyIf b (finalize s m); msgSent s i ms)
          (Reach Move (h₀.net g) fun _ h' g' => SentFrom s h h' g g') h₀ := by
      intro b i h₀ hmoves hsent hq₀
      cases b with
      | false => exact hrest hmoves hsent (hq₀ ▸ hms)
      | true =>
        have hc₀ : (h₀.net g).Server s := by rwa [Net.Server, hsent.owner]
        show After (finalize s m >>= fun _ => msgSent s i ms) _ h₀
        refine After.follow (finalize_server_moves (Moves.sound hmoves hs) hc₀ (by rwa [hq₀])) ?_
        rintro - h₁ g₁ hmoves₁ ⟨hsent₁, hq₁⟩
        refine hrest (hmoves.trans hmoves₁) (hsent.trans hsent₁) fun x hx => ?_
        have hne : x ≠ m := by
          rintro rfl
          exact hnotin hx
        rw [hq₁, hq₀]
        exact (List.mem_erase_of_ne hne).mpr (hms hx)
    unfold msgSent
    refine After.getMsg (After.ite (fun _ => ?_) fun _ => ?_)
    · have hthis := hfinal (b := decide ((h.msg m).mlen = 0)) (i := 0) .refl (.refl s h g) rfl
      exact hthis
    refine After.follow (noteWritten_moves h g s m _ _) ?_
    rintro - h₁ g₁ hmoves₁ ⟨rfl, ⟨log, he⟩, hready⟩
    refine After.modMsg ?_
    have hunseen : (h₁.modMsg m fun x =>
        { x with mhdr := (consumeMbufs k (h.msg m).mhdr).1 }).net g₁ = h₁.net g₁ :=
      Heap.net_modMsg_unseen rfl
    refine After.same hunseen (hfinal ?_ ⟨.refl g₁, ?_, ?_, ?_, hready⟩ ?_)
    · rw [hunseen]
      exact hmoves₁
    · rw [hunseen, he]
    · rw [hunseen, he]
    · rw [hunseen, he]
    · have himsgq := congrArg (fun n : Net => n.c.imsgq s) (hunseen.trans he)
      exact himsgq

/-- What the write path of connection `c` leaves of the connections. -/
structure Sent (c : ConnId) (h h' : Heap) (g g' : Ghost) : Prop where
  moved : g.Moved g'
  owner : (h'.net g').c.owner = (h.net g).c.owner
  smsg : ∀ x ≠ c, (h'.conn x).smsg = (h.conn x).smsg

/-- Nothing has been sent. -/
lemma Sent.refl (c : ConnId) (h : Heap) (g : Ghost) : Sent c h h g g :=
  ⟨.refl g, rfl, fun _ _ => rfl⟩

/-- Sends compose. -/
lemma Sent.trans {h₁ h₂ h₃ : Heap} {g₁ g₂ g₃ : Ghost} (h₁₂ : Sent c h₁ h₂ g₁ g₂)
    (h₂₃ : Sent c h₂ h₃ g₂ g₃) :
    Sent c h₁ h₃ g₁ g₃ :=
  ⟨h₁₂.moved.trans h₂₃.moved, h₂₃.owner.trans h₁₂.owner,
    fun x hx => (h₂₃.smsg x hx).trans (h₁₂.smsg x hx)⟩

/-- Sending does not split a request. -/
lemma Sent.pend (hs : Sent c h h' g g') (hp : g.pend = []) : g'.pend = [] := by
  obtain ⟨place, hg⟩ := hs.moved
  rw [hg]
  exact hp

/-- A send from a server connection is a send. -/
lemma SentFrom.sent (hs : SentFrom s h h' g g') : Sent s h h' g g' :=
  ⟨hs.moved, hs.owner, fun x _ => congrFun hs.smsg x⟩

/-- A flow is a send. -/
lemma Net.Flow.sent (hf : (h.net g).Flow c (h'.net g)) : Sent c h h' g g := by
  obtain ⟨_, _, _, he⟩ := hf
  refine ⟨.refl g, by rw [he], fun x hx => ?_⟩
  have hsmsg := congrArg (fun n : Net => n.c.smsg x) he
  exact hsmsg.trans (update_of_ne hx _ _)

/-- A write is a send. -/
lemma Net.Wrote.sent (hw : (h.net g).Wrote c (h'.net g)) : Sent c h h' g g := by
  obtain ⟨_, he⟩ := hw
  refine ⟨.refl g, by rw [he], fun x hx => ?_⟩
  have hsmsg := congrArg (fun n : Net => n.c.smsg x) he
  exact hsmsg

/-- The cursor is forgotten. -/
lemma Sent.cursor (h : Heap) (g : Ghost) (x : Option MsgId) :
    Sent c h (h.modConn c fun y => { y with smsg := x }) g g := by
  refine ⟨.refl g, by rw [Heap.net_cursor], fun y hy => ?_⟩
  simp [Heap.modConn, hy]

/-- **`msg_send_chain`** on a server connection. -/
theorem msgSendChain_server_moves (hs : Sound (h.net g)) (hc : (h.net g).Server s)
    (hp : g.pend = []) (hm : [m] <:+: (h.conn s).imsgq) (hcur : (h.conn s).smsg = some m) :
    After (msgSendChain env s m) (Reach SendMove (h.net g) fun _ h' g' => Sent s h h' g g') h := by
  unfold msgSendChain
  refine After.follow (msgGather_server_moves hs hc hm hcur) ?_
  rintro ⟨sendq, iov⟩ h₁ g₁ hmoves₁ ⟨rfl, hflow, -, hq⟩
  obtain ⟨howner₁, hqueue₁⟩ := hflow.kept
  refine After.modConn (After.pay (.single (cursor_move none)) ?_)
  have hcursor : Sent s h₁ (h₁.modConn s fun x => { x with smsg := none }) g₁ g₁ :=
    .cursor h₁ g₁ none
  have hmoves₂ := hmoves₁.tail (cursor_move (h := h₁) (g := g₁) (c := s) none)
  have hqueue₂ : ((h₁.modConn s fun x => { x with smsg := none }).conn s).imsgq =
      (h.conn s).imsgq := by
    simp [hqueue₁]
  generalize (h₁.modConn s fun x => { x with smsg := none }) = h₂ at hcursor hmoves₂ hqueue₂ ⊢
  have hc₂ : (h₂.net g₁).Server s := by rwa [Net.Server, hcursor.owner, howner₁]
  refine After.follow (sendGathered_moves (fun hcl => absurd hcl hc₂.not_client) iov) ?_
  rintro ⟨status, k⟩ h₃ g₃ hmoves₃ ⟨rfl, hwrote, -⟩
  have hsent₃ := hwrote.sent
  have hqueue₃ : (h₃.conn s).imsgq = (h.conn s).imsgq := by
    obtain ⟨_, he⟩ := hwrote
    have himsgq := congrArg (fun n : Net => n.c.imsgq s) he
    exact himsgq.trans hqueue₂
  have hs₃ := SendMoves.sound (hmoves₂.trans hmoves₃) hs
  have hc₃ : (h₃.net g₃).Server s := by rwa [Net.Server, hsent₃.owner]
  have hnodup : sendq.Nodup := hq.sublist.nodup (hs.inv.queues.imsgq_nodup s hc.isOpen)
  refine After.followMove (msgSent_server_moves sendq hs₃ hc₃ hp hnodup (hqueue₃ ▸ hq.subset)) ?_
  rintro - h₄ g₄ - hsent₄
  exact After.pure (.here (((hflow.sent.trans hcursor).trans hsent₃).trans hsent₄.sent))

/-- **`msg_send`** on a server connection. -/
theorem msgSendLoop_server_moves (fuel : ℕ) (hs : Sound (h.net g)) (hc : (h.net g).Server s)
    (hp : g.pend = []) :
    After (msgSendLoop env s fuel)
      (Reach SendMove (h.net g) fun _ h' g' => Sent s h h' g g') h := by
  induction fuel generalizing h g with
  | zero => exact After.fault
  | succ fuel ih =>
    unfold msgSendLoop connSendNext
    simp only [bind_assoc]
    refine After.getConn ?_
    rw [show (h.conn s).client = false from hs.inv.addr.server_client s hc]
    refine After.follow (reqSendNext_moves (q := []) hs.inv hc (List.nil_infix) (by simp)) ?_
    rintro o h₁ g₁ hmoves₁ ⟨rfl, hflow, -, hnext⟩
    have hsent₁ := hflow.sent
    obtain ⟨howner₁, hqueue₁⟩ := hflow.kept
    cases o with
    | none => exact After.pure (.here hsent₁)
    | some m =>
      obtain ⟨hcur, hm⟩ := hnext m rfl
      have hc₁ : (h₁.net g₁).Server s := by rwa [Net.Server, howner₁]
      have hs₁ := SendMoves.sound hmoves₁ hs
      refine After.follow (msgSendChain_server_moves hs₁ hc₁ hp (by rwa [hqueue₁]) hcur) ?_
      rintro status h₂ g₂ hmoves₂ hsent₂
      have hsent := hsent₁.trans hsent₂
      have hc₂ : (h₂.net g₂).Server s := by rwa [Net.Server, hsent₂.owner]
      refine After.ite (fun _ => After.pure (.here hsent)) fun _ =>
        After.getConn (After.ite (fun _ => ?_) fun _ => ?_)
      · exact (ih (SendMoves.sound hmoves₂ hs₁) hc₂ (hsent.pend hp)).mono fun _ h₃ hreach =>
          hreach.mono fun g₃ hsent₃ => hsent.trans hsent₃
      · exact After.pure (.here hsent)

end GfwProxy
