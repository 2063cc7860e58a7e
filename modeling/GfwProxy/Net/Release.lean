import GfwProxy.Net.Keeps
import GfwProxy.Net.Wake

set_option autoImplicit false

/-!
# Releasing messages

`msg_put`, `req_put` and `rsp_put` as moves, and the messages that `msg_get` returns.
-/

namespace GfwProxy

open Function

variable {env : Env} {n n' : Net} {h h' : Heap} {g g' : Ghost} {c : ConnId} {m : MsgId}

/-- The two invariants together. -/
structure Sound (n : Net) : Prop where
  inv : Inv n
  timed : Timed n

/-- The moves keep all the invariants. -/
lemma Moves.sound (h : Moves n n') (hs : Sound n) : Sound n' :=
  ⟨Moves.inv h hs.inv, Moves.timed h hs.inv hs.timed⟩

/-- One move, to a view that is written otherwise. -/
lemma Moves.one {n'' : Net} (h : Move n n') (he : n' = n'') : Moves n n'' := .single (he ▸ h)

/-- Only the places of messages differ. -/
def Ghost.Moved (g g' : Ghost) : Prop := ∃ place, g' = { g with place := place }

/-- No message has moved. -/
lemma Ghost.Moved.refl (g : Ghost) : g.Moved g := ⟨g.place, rfl⟩

/-- Movings of messages compose. -/
lemma Ghost.Moved.trans {g₁ g₂ g₃ : Ghost} (h₁ : g₁.Moved g₂) (h₂ : g₂.Moved g₃) : g₁.Moved g₃ := by
  obtain ⟨p₁, rfl⟩ := h₁
  obtain ⟨p₂, rfl⟩ := h₂
  exact ⟨p₂, rfl⟩

/-! ## The operations on the view -/

/-- What the view sees of a message. -/
def Msg.seen (x : Msg) : Msg :=
  { x with
    tmoKey := 0, mhdr := [], mlen := 0, keys := none, err := 0, request := false
    quit := false, noforward := false, fragment := {}, reply := {}, failure := false
    preCoalesce := {}, isError := false, started := false }

/-- What the view sees of a connection. -/
def Conn.seen (x : Conn) : Conn :=
  { x with
    err := 0, recvActive := false, recvReady := false, sendReady := false
    connecting := false, connected := false, eof := false, done := false, redis := false
    authenticated := false, out := [], started := [], posted := [] }

/-- A message is written to in fields that the view does not see. -/
lemma Heap.net_modMsg_unseen {f : Msg → Msg} (hf : (f (h.msg m)).seen = (h.msg m).seen) :
    (h.modMsg m f).net g = h.net g := by
  have hset : (MsgCols.of h.msg).set m (f (h.msg m)) = MsgCols.of h.msg := by
    calc (MsgCols.of h.msg).set m (f (h.msg m))
        = (MsgCols.of h.msg).set m (f (h.msg m)).seen := rfl
      _ = (MsgCols.of h.msg).set m (h.msg m) := by rw [hf]; rfl
      _ = MsgCols.of h.msg := by rw [← MsgCols.of_update, update_eq_self]
  rw [Heap.net_modMsg]
  exact congrArg (fun x => { h.net g with m := x }) hset

/-- A connection is written to in fields that the view does not see. -/
lemma Heap.net_modConn_unseen {f : Conn → Conn} (hf : (f (h.conn c)).seen = (h.conn c).seen) :
    (h.modConn c f).net g = h.net g := by
  have hset : (ConnCols.of h.conn).set c (f (h.conn c)) = ConnCols.of h.conn := by
    calc (ConnCols.of h.conn).set c (f (h.conn c))
        = (ConnCols.of h.conn).set c (f (h.conn c)).seen := rfl
      _ = (ConnCols.of h.conn).set c (h.conn c) := by rw [hf]; rfl
      _ = ConnCols.of h.conn := by rw [← ConnCols.of_update, update_eq_self]
  rw [Heap.net_modConn]
  exact congrArg (fun x => { h.net g with c := x }) hset

/-- All that the view sees of a connection that becomes `done` is the event. -/
lemma Heap.net_setDone (f : Closer) (c : ConnId) : (h.setDone f c).net g =
    (h.net g).emit (.done f c (h.conn c).client (h.conn c).eof (h.conn c).idle) := by
  rw [Heap.setDone, Heap.net_modConn_unseen rfl, Heap.net_emit]

/-- The event of a connection that becomes `done` is logged on the side. -/
lemma Heap.setDone_move (f : Closer) (c : ConnId) :
    ServerMove (h.net g) ((h.setDone f c).net g) := by
  rw [Heap.net_setDone]
  exact .note _ rfl

/-- The ghost when message `m` is put in place `x`. -/
def Ghost.move (m : MsgId) (x : Place) (g : Ghost) : Ghost := { g with place := update g.place m x }

/-- One message has moved. -/
lemma Ghost.moved_move (m : MsgId) (x : Place) (g : Ghost) : g.Moved (g.move m x) := ⟨_, rfl⟩

/-- A message is moved, on the view. -/
lemma Heap.net_move (x : Place) : h.net (g.move m x) = (h.net g).move m x := rfl

/-- A message is freed, on the view. -/
lemma Heap.net_msgPut : (h.msgPut m).net (g.move m .free) = (h.net g).put m := by
  have hm : ((h.emit (.release (h.msg m).id)).modMsg m fun x =>
        { x with mhdr := [], keys := none }).net g =
      (h.net g).emit (.release (h.msg m).id) :=
    Heap.net_modMsg_unseen rfl
  exact congrArg (fun n : Net => { n.move m .free with a.freeMsgq := m :: h.freeMsgq }) hm

/-- A message is taken out of the timer tree, on the view. -/
lemma Heap.net_tmoDelete : (h.tmoDelete m).net g = (h.net g).tmoDelete m := by
  unfold Heap.tmoDelete Net.tmoDelete
  split_ifs with ht ht' ht'
  · rfl
  · exact absurd ht ht'
  · exact absurd ht' ht
  · have hm : (h.modMsg m fun x => { x with tmoData := none }).net g =
        { h.net g with m.tmoData := update (h.net g).m.tmoData m none } := by
      simp [MsgCols.set]
    exact congrArg (fun n : Net => { n with a.tmoRbt := h.tmoRbt.erase m }) hm

/-- A response is taken from its request, on the view. -/
lemma Heap.net_unlink {r : MsgId} (hne : m ≠ r) :
    ((h.modMsg m fun x => { x with peer := none }).modMsg r fun x =>
        { x with peer := none }).net g =
      (h.net g).unlink m r := by
  rw [Heap.net_modMsg, Heap.net_modMsg]
  simp [MsgCols.set, Net.unlink, Heap.modMsg, hne.symm]

/-! ## Releasing -/

/-- A response that is linked to nothing is released. -/
lemma rspPut_moves (hm : g.place m = .hand) (hp : (h.msg m).peer = none)
    (ht : (h.msg m).tmoData = none) (hn : m ∉ g.pend) :
    Moves (h.net g) ((h.rspPut m).net (g.move m .free)) := by
  rw [Heap.rspPut, Heap.net_msgPut]
  exact .single (.put m hm hp ht hn)

/-- Releasing the response of a request changes no other message. -/
lemma Heap.putPeer_msg {x : MsgId} (hx : x ≠ m) (hr : (h.msg m).peer ≠ some x) :
    (h.putPeer m).msg x = h.msg x := by
  unfold Heap.putPeer
  cases hp : (h.msg m).peer with
  | none => rfl
  | some r =>
    have hxr : x ≠ r := by
      rintro rfl
      exact hr hp
    simp [Heap.rspPut, Heap.msgPut, Heap.modMsg, Heap.emit, hx, hxr]

/-- Releasing a request changes no other message but its response. -/
lemma Heap.reqPut_msg {x : MsgId} (hx : x ≠ m) (hr : (h.msg m).peer ≠ some x) :
    (h.reqPut m).msg x = h.msg x := by
  have htmo : ((h.putPeer m).tmoDelete m).msg x = (h.putPeer m).msg x := by
    unfold Heap.tmoDelete
    split
    · rfl
    · simp [Heap.modMsg, hx]
  have hput : (h.reqPut m).msg x = ((h.putPeer m).tmoDelete m).msg x := by
    simp [Heap.reqPut, Heap.msgPut, Heap.modMsg, Heap.emit, hx]
  rw [hput, htmo, Heap.putPeer_msg hx hr]

/-- The link of a request is broken, and its response is released. -/
lemma putPeer_moves {cli : Option ConnId} (hs : Sound (h.net g)) (hm : g.place m = .req cli none)
    (hu : g.place m = .hand ∨ (h.msg m).error = true ∨ (h.msg m).fragId ≠ 0 ∧
      (h.msg m).ferror = true) :
    ∃ g', Moves (h.net g) ((h.putPeer m).net g') ∧ g.Moved g' ∧ g'.place m = g.place m ∧
      ((h.putPeer m).msg m).peer = none ∧ ∀ x, g.place x ≠ .rsp m → g'.place x = g.place x := by
  unfold Heap.putPeer
  cases hpeer : (h.msg m).peer with
  | none => exact ⟨g, .refl, .refl g, rfl, hpeer, fun _ _ => rfl⟩
  | some r =>
    have hr : g.place r = .rsp m := hs.inv.facts.peer m cli r hm hpeer
    have hne : m ≠ r := by
      rintro rfl
      rw [hm] at hr
      cases hr
    have hrt : (h.msg r).tmoData = none :=
      hs.timed.untimed r (by simp [hr, Place.Untimed])
    have hrp : r ∉ g.pend := fun hmem => hs.inv.ne_of_pend hmem (m := r) (by simp [hr]) rfl
    have h₁ : Move (h.net g) ((((h.modMsg m fun x => { x with peer := none }).modMsg r fun x =>
        { x with peer := none })).net (g.move r .hand)) := by
      rw [Heap.net_move, Heap.net_unlink hne]
      exact .unlink m r hpeer hr hu
    have h₂ := rspPut_moves (m := r) (g := g.move r .hand)
      (h := (h.modMsg m fun x => { x with peer := none }).modMsg r fun x => { x with peer := none })
      (by simp [Ghost.move]) (by simp [Heap.modMsg]) (by simp [Heap.modMsg, hne.symm, hrt]) hrp
    refine ⟨_, (Relation.ReflTransGen.single h₁).trans h₂, ⟨_, rfl⟩, ?_, ?_, fun x hx => ?_⟩
    · simp [Ghost.move, hne]
    · simp [Heap.rspPut, Heap.msgPut, Heap.modMsg, Heap.emit, hne]
    · have hxr : x ≠ r := by
        rintro rfl
        exact hx hr
      simp [Ghost.move, hxr]

/-- **A request is released**, with its response. -/
theorem reqPut_moves (hs : Sound (h.net g)) (hm : g.place m = .hand) (hn : m ∉ g.pend) :
    ∃ g', Moves (h.net g) ((h.reqPut m).net g') ∧ g.Moved g' ∧ g'.place m = .free ∧
      ∀ x, x ≠ m → g.place x ≠ .rsp m → g'.place x = g.place x := by
  obtain ⟨g₁, hmoves₁, hmoved₁, hplace₁, hpeer₁, hother₁⟩ := putPeer_moves hs hm (.inl hm)
  have hn₁ : m ∉ g₁.pend := by
    obtain ⟨place, rfl⟩ := hmoved₁
    exact hn
  have h₂ : Move ((h.putPeer m).net g₁) (((h.putPeer m).tmoDelete m).net g₁) := by
    rw [Heap.net_tmoDelete]
    exact .tmoDelete m
  have h₃ : Move (((h.putPeer m).tmoDelete m).net g₁) ((h.reqPut m).net (g₁.move m .free)) := by
    rw [Heap.reqPut, Heap.net_msgPut, Heap.net_tmoDelete]
    exact .put m (by simpa using hplace₁.trans hm) (by simpa using hpeer₁) (by simp)
      (by simpa using hn₁)
  refine ⟨_, (hmoves₁.tail h₂).tail h₃,
    hmoved₁.trans (Ghost.moved_move m .free g₁), by simp [Ghost.move], fun x hx hr => ?_⟩
  simpa [Ghost.move, hx] using hother₁ x hr

/-! ## Allocating -/

/-- From `h` to `h'` nothing happens but that message `m` is allocated, in the hands of a
handler. -/
structure Allocated (h h' : Heap) (g g' : Ghost) : Prop where
  moved : g.Moved g'
  conn : h'.conn = h.conn
  fragId : h'.fragId = h.fragId
  msg : ∀ x, g.place x ≠ .free → h'.msg x = h.msg x ∧ g'.place x = g.place x

/-- The new message is written to. -/
lemma Allocated.write (ha : Allocated h h' g g') (hm : g.place m = .free) (f : Msg → Msg) :
    Allocated h (h'.modMsg m f) g g' := by
  refine { ha with msg := fun x hx => ?_ }
  have hne : x ≠ m := by
    rintro rfl
    exact hx hm
  simpa [Heap.modMsg, hne] using ha.msg x hx

/-- A message that is not in use is not to be forwarded. -/
lemma Inv.free_notMem_pend (hi : Inv n) (hm : n.g.place m = .free) : m ∉ n.g.pend :=
  fun h => hi.ne_of_pend h (m := m) (by simp [hm]) rfl

/-- `msg_get`'s first half: a message in the hands of the caller, with nothing in it. -/
lemma msgGet₀_moves (hs : Sound (h.net g)) :
    After (msgGet₀ env) (Reach Move (h.net g) fun o h' g' => Allocated h h' g g' ∧
      ∀ m, o = some m → g.place m = .free ∧ g'.place m = .hand ∧
        ∃ id, h'.msg m = { id := id, keys := some [] }) h := by
  unfold msgGet₀
  -- an address
  refine After.follow (R := fun o h' g' => g' = g ∧ h'.conn = h.conn ∧ h'.fragId = h.fragId ∧
    h'.msg = h.msg ∧ ∀ m, o = some m → (h'.net g).FreshMsg m) ?_ ?_
  · unfold msgAddr
    refine After.readHeap ?_
    cases hfree : h.freeMsgq with
    | cons m rest =>
      have hmove : Move (h.net g) ({ h with freeMsgq := rest }.net g) := .takeMsg m rest hfree
      refine After.modHeap (After.pure ⟨g, .single hmove, rfl, rfl, rfl, rfl, ?_⟩)
      rintro m' ⟨⟩
      have hnodup := hs.inv.addr.free_nodup
      have hmem := hs.inv.addr.free m
      simp only [Heap.net_statics, hfree, List.nodup_cons, List.mem_cons, true_or,
        forall_const] at hnodup hmem
      exact ⟨hmem.1, hnodup.1, hmem.2⟩
    | nil =>
      refine After.ask fun t => After.ite (fun _ => ?_) fun _ => ?_
      · have hmove : Move (h.net g) ({ h with nextMsg := h.nextMsg + 1 }.net g) := .growMsg hfree
        refine After.readHeap (After.modHeap
          (After.pure ⟨g, .single hmove, rfl, rfl, rfl, rfl, ?_⟩))
        rintro m' ⟨⟩
        refine ⟨?_, by simp [Heap.net, hfree], Nat.lt_succ_self _⟩
        by_contra hused
        exact absurd (hs.inv.addr.used _ hused) (lt_irrefl _)
      · exact After.pure (.here ⟨rfl, rfl, rfl, rfl, by simp⟩)
  rintro o h₁ g₁ - ⟨rfl, hconn, hfrag, hmsg, hfresh⟩
  have hmsg' : ∀ x, h₁.msg x = h.msg x := fun x => by rw [hmsg]
  cases o with
  | none => exact After.pure (.here ⟨⟨.refl _, hconn, hfrag, fun x _ => ⟨hmsg' x, rfl⟩⟩, by simp⟩)
  | some m =>
    obtain ⟨hplace, hnot, hlt⟩ := hfresh m rfl
    refine After.modHeap (After.ask fun t =>
      After.ite (fun _ => After.modHeap (After.pure ?_)) fun _ =>
      After.pure ?_)
    · refine ⟨g₁.move m .hand, .single ?_, ⟨⟨_, rfl⟩, hconn, hfrag, fun x hx => ?_⟩, ?_⟩
      · have he : (({ h₁ with msgId := h₁.msgId + 1 } : Heap).modMsg m fun _ =>
            { id := h₁.msgId + 1, keys := some [] }).net (g₁.move m .hand) =
            { h₁.net g₁ with
              m := (h₁.net g₁).m.set m { id := h₁.msgId + 1, keys := some [] }
              a.msgId := (h₁.net g₁).a.msgId + 1
              g.place := update (h₁.net g₁).g.place m .hand } := by
          rw [Heap.net_modMsg]
          rfl
        rw [he]
        exact .newMsg m _ ⟨hplace, hnot, hlt⟩ rfl (by simp [MsgCols.blank_iff, MsgCols.set])
      · have hne : x ≠ m := by
          rintro rfl
          exact hx hplace
        exact ⟨by simp [Heap.modMsg, hne, hmsg'], by simp [Ghost.move, hne]⟩
      · rintro m' ⟨⟩
        exact ⟨hplace, by simp [Ghost.move], h₁.msgId + 1, by simp [Heap.modMsg]⟩
    · exact ⟨g₁, .single .bumpMsg, ⟨.refl _, hconn, hfrag, fun x _ => ⟨hmsg' x, rfl⟩⟩, by simp⟩

/-- `msg_get`. -/
lemma msgGet_moves (hs : Sound (h.net g)) (c : ConnId) (request : Bool) :
    After (msgGet env c request) (Reach Move (h.net g) fun o h' g' => Allocated h h' g g' ∧
      ∀ m, o = some m → g.place m = .free ∧ g'.place m = .hand ∧ ∃ id, h'.msg m =
        { id := id, keys := some [], owner := some c, ownerGen := (h.conn c).gen,
          request := request })
      h := by
  unfold msgGet
  refine After.follow (msgGet₀_moves hs) ?_
  rintro o h₁ g₁ hmoves ⟨halloc, hm⟩
  cases o with
  | none => exact After.pure (.here ⟨halloc, by simp⟩)
  | some m =>
    obtain ⟨hfree, hhand, id, hmsg⟩ := hm m rfl
    have hp : m ∉ g₁.pend := by
      obtain ⟨place, hmoved⟩ := halloc.moved
      rw [hmoved]
      exact hs.inv.free_notMem_pend hfree
    refine After.getConn (After.modMsg (After.pure ?_))
    refine ⟨g₁, Moves.one (.setOwner m c hhand hp) (by simp [MsgCols.set]), ?_, ?_⟩
    · exact halloc.write hfree _
    · rintro m' ⟨⟩
      exact ⟨hfree, hhand, id, by simp [hmsg, halloc.conn]⟩

/-- `msg_get_error`. -/
lemma msgGetError_moves (hs : Sound (h.net g)) (redis : Bool) (err : ℤ) :
    After (msgGetError env redis err) (Reach Move (h.net g) fun o h' g' => Allocated h h' g g' ∧
      ∀ m, o = some m → g.place m = .free ∧ g'.place m = .hand ∧ ∃ id mhdr mlen, h'.msg m =
        { id := id, keys := some [], mhdr := mhdr, mlen := mlen, isError := true }) h := by
  unfold msgGetError
  refine After.follow (msgGet₀_moves hs) ?_
  rintro o h₁ g₁ hmoves ⟨halloc, hm⟩
  cases o with
  | none => exact After.pure (.here ⟨halloc, by simp⟩)
  | some m =>
    obtain ⟨hfree, hhand, id, hmsg⟩ := hm m rfl
    have hp : m ∉ g₁.pend := by
      obtain ⟨place, hmoved⟩ := halloc.moved
      rw [hmoved]
      exact hs.inv.free_notMem_pend hfree
    refine After.ask fun t => After.ite (fun _ => After.modMsg (After.pure ?_)) fun _ =>
      After.modHeap (After.pure ?_)
    · have he : (h₁.modMsg m fun x => { x with
          mhdr := [{ rest := errorText env redis err }], mlen := (errorText env redis err).length
          isError := true }).net g₁ = h₁.net g₁ := Heap.net_modMsg_unseen rfl
      refine ⟨g₁, he ▸ .refl, halloc.write hfree _, ?_⟩
      rintro m' ⟨⟩
      refine ⟨hfree, hhand, id, [{ rest := errorText env redis err }],
        (errorText env redis err).length, ?_⟩
      simp [hmsg]
    · refine ⟨g₁.move m .free, rspPut_moves hhand (by simp [hmsg]) (by simp [hmsg]) hp, ?_, by simp⟩
      refine ⟨halloc.moved.trans (Ghost.moved_move m .free g₁), halloc.conn, halloc.fragId,
        fun x hx => ?_⟩
      have hne : x ≠ m := by
        rintro rfl
        exact hx hfree
      simpa [Heap.msgPut, Heap.modMsg, Heap.emit, Ghost.move, hne] using halloc.msg x hx

end GfwProxy
