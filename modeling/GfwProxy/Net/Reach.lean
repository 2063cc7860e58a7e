import GfwProxy.Net.Timer
import GfwProxy.Proxy.After

set_option autoImplicit false

/-!
# The handlers make moves

How a computation on the objects is shown to be a sequence of moves on the view.

## Main definitions

* `GfwProxy.Reach M n Q` — moves `M` lead from the view `n` to a view of the objects, with `Q`.

## Design

A goal `After x (Reach M n Q) h` is a debt: the view `n` is what the moves so far have reached,
and `h` are the objects now.  `GfwProxy.After.pay` pays the debt with the moves that the
statements since then amount to.
-/

namespace GfwProxy

open Function

variable {α β : Type} {M : Net → Net → Prop} {n n' : Net} {h h' : Heap} {g g' : Ghost}

/-- Moves `M` lead from the view `n` to a view of the objects `h`, and `Q` holds there. -/
def Reach (M : Net → Net → Prop) (n : Net) (Q : α → Heap → Ghost → Prop) (a : α) (h : Heap) :
    Prop :=
  ∃ g, Relation.ReflTransGen M n (h.net g) ∧ Q a h g

variable {Q R : α → Heap → Ghost → Prop} {S : β → Heap → Ghost → Prop}

/-- The state is reached by no move. -/
lemma Reach.here {a : α} (hQ : Q a h g) : Reach M (h.net g) Q a h := ⟨g, .refl, hQ⟩

/-- What holds of the state reached may be weakened. -/
lemma Reach.mono {a : α} (hr : Reach M n R a h) (hQ : ∀ g, R a h g → Q a h g) :
    Reach M n Q a h := by
  obtain ⟨g, hm, hq⟩ := hr
  exact ⟨g, hm, hQ g hq⟩

/-- The moves that the statements so far amount to. -/
theorem After.pay {x : Core α} (hm : Relation.ReflTransGen M n (h.net g))
    (hx : After x (Reach M (h.net g) Q) h) : After x (Reach M n Q) h := by
  refine hx.mono fun a h' hr => ?_
  obtain ⟨g', hm', hq⟩ := hr
  exact ⟨g', hm.trans hm', hq⟩

/-- One move. -/
lemma After.pay₁ {x : Core α} (hm : M n n') (he : n' = h.net g)
    (hx : After x (Reach M (h.net g) Q) h) : After x (Reach M n Q) h :=
  After.pay (.single (he ▸ hm)) hx

/-- The view has not changed. -/
lemma After.same {x : Core α} (he : h'.net g = h.net g)
    (hx : After x (Reach M (h'.net g) Q) h') : After x (Reach M (h.net g) Q) h' := by
  rwa [← he]

/-- A computation that makes moves, in front of another one. -/
lemma After.follow {x : Core α} {f : α → Core β} (hx : After x (Reach M n R) h)
    (hf : ∀ a h' g', Relation.ReflTransGen M n (h'.net g') → R a h' g' →
      After (f a) (Reach M (h'.net g') S) h') : After (x >>= f) (Reach M n S) h := by
  refine hx.call fun a h' hr => ?_
  obtain ⟨g', hm, hq⟩ := hr
  exact After.pay hm (hf a h' g' hm hq)

/-- The same, where the moves are those of a server connection. -/
lemma After.followServer {x : Core α} {f : α → Core β} (hx : After x (Reach ServerMove n R) h)
    (hf : ∀ a h' g', ServerMoves n (h'.net g') → R a h' g' →
      After (f a) (Reach Move (h'.net g') S) h') : After (x >>= f) (Reach Move n S) h := by
  refine hx.call fun a h' hr => ?_
  obtain ⟨g', hm, hq⟩ := hr
  exact After.pay (ServerMoves.moves hm) (hf a h' g' hm hq)

/-! ## The view of changed objects -/

section Squares

variable (h g) (c : ConnId) (m : MsgId)

/-- The columns of an updated connection. -/
lemma ConnCols.of_update (f : ConnId → Conn) (x : Conn) :
    ConnCols.of (update f c x) = (ConnCols.of f).set c x := by
  have hf : ∀ {γ : Type} (p : Conn → γ),
      (fun y => p (update f c x y)) = update (fun y => p (f y)) c (p x) :=
    fun p => funext fun y => apply_update (fun _ => p) f c x y
  simp only [ConnCols.of, ConnCols.set, ConnCols.mk.injEq]
  exact ⟨hf _, hf _, hf _, hf _, hf _, hf _, hf _, hf _, hf _, hf _, hf _, hf _, hf _, hf _⟩

/-- The columns of an updated message. -/
lemma MsgCols.of_update (f : MsgId → Msg) (x : Msg) :
    MsgCols.of (update f m x) = (MsgCols.of f).set m x := by
  have hf : ∀ {γ : Type} (p : Msg → γ),
      (fun y => p (update f m x y)) = update (fun y => p (f y)) m (p x) :=
    fun p => funext fun y => apply_update (fun _ => p) f m x y
  simp only [MsgCols.of, MsgCols.set, MsgCols.mk.injEq]
  exact ⟨hf _, hf _, hf _, hf _, hf _, hf _, hf _, hf _, hf _, hf _, hf _, hf _, hf _,
    hf _, hf _, hf _, hf _⟩

/-- A change of one connection, on the view. -/
@[simp] lemma Heap.net_modConn (f : Conn → Conn) :
    (h.modConn c f).net g = { h.net g with c := (h.net g).c.set c (f (h.conn c)) } := by
  simp only [Heap.modConn, Heap.net, ConnCols.of_update]

/-- A change of one message, on the view. -/
@[simp] lemma Heap.net_modMsg (f : Msg → Msg) :
    (h.modMsg m f).net g = { h.net g with m := (h.net g).m.set m (f (h.msg m)) } := by
  simp only [Heap.modMsg, Heap.net, MsgCols.of_update]

/-- The fields of the view are those of the objects. -/
@[simp] lemma Heap.net_conn :
    (h.net g).c.owner c = (h.conn c).owner ∧
    (h.net g).c.sd c = (h.conn c).sd ∧
    (h.net g).c.imsgq c = (h.conn c).imsgq ∧
    (h.net g).c.omsgq c = (h.conn c).omsgq ∧
    (h.net g).c.rmsg c = (h.conn c).rmsg ∧
    (h.net g).c.smsg c = (h.conn c).smsg ∧
    (h.net g).c.client c = (h.conn c).client ∧
    (h.net g).c.sendActive c = (h.conn c).sendActive ∧
    (h.net g).c.evOut c = (h.conn c).evOut ∧
    (h.net g).c.lastShort c = (h.conn c).lastShort ∧
    (h.net g).c.gen c = (h.conn c).gen ∧
    (h.net g).c.nReq c = (h.conn c).nReq ∧
    (h.net g).c.sent c = (h.conn c).sent ∧
    (h.net g).c.answers c = (h.conn c).answers :=
  ⟨rfl, rfl, rfl, rfl, rfl, rfl, rfl, rfl, rfl, rfl, rfl, rfl, rfl, rfl⟩

/-- The columns of a message are its fields. -/
@[simp] lemma Heap.net_msg :
    (h.net g).m.id m = (h.msg m).id ∧
    (h.net g).m.peer m = (h.msg m).peer ∧
    (h.net g).m.owner m = (h.msg m).owner ∧
    (h.net g).m.tmoData m = (h.msg m).tmoData ∧
    (h.net g).m.fragOwner m = (h.msg m).fragOwner ∧
    (h.net g).m.nfrag m = (h.msg m).nfrag ∧
    (h.net g).m.nfragDone m = (h.msg m).nfragDone ∧
    (h.net g).m.fragId m = (h.msg m).fragId ∧
    (h.net g).m.error m = (h.msg m).error ∧
    (h.net g).m.ferror m = (h.msg m).ferror ∧
    (h.net g).m.noreply m = (h.msg m).noreply ∧
    (h.net g).m.done m = (h.msg m).done ∧
    (h.net g).m.fdone m = (h.msg m).fdone ∧
    (h.net g).m.swallow m = (h.msg m).swallow ∧
    (h.net g).m.ownerGen m = (h.msg m).ownerGen ∧
    (h.net g).m.counted m = (h.msg m).counted ∧
    (h.net g).m.reqNo m = (h.msg m).reqNo :=
  ⟨rfl, rfl, rfl, rfl, rfl, rfl, rfl, rfl, rfl, rfl, rfl, rfl, rfl, rfl, rfl, rfl, rfl⟩

/-- The rest of the view is read from the heap. -/
@[simp] lemma Heap.net_statics :
    (h.net g).a.freeConnq = h.freeConnq ∧
    (h.net g).a.nextConn = h.nextConn ∧
    (h.net g).a.freeMsgq = h.freeMsgq ∧
    (h.net g).a.nextMsg = h.nextMsg ∧
    (h.net g).a.msgId = h.msgId ∧
    (h.net g).a.fragId = h.fragId ∧
    (h.net g).a.tmoRbt = h.tmoRbt ∧
    (h.net g).a.sConnq = h.sConnq ∧
    (h.net g).a.log = h.log ∧
    (h.net g).g = g :=
  ⟨rfl, rfl, rfl, rfl, rfl, rfl, rfl, rfl, rfl, rfl⟩

/-- A field that is not changed. -/
@[simp] lemma Heap.net_conn_self :
    update (h.net g).c.owner c (h.conn c).owner = (h.net g).c.owner ∧
    update (h.net g).c.sd c (h.conn c).sd = (h.net g).c.sd ∧
    update (h.net g).c.imsgq c (h.conn c).imsgq = (h.net g).c.imsgq ∧
    update (h.net g).c.omsgq c (h.conn c).omsgq = (h.net g).c.omsgq ∧
    update (h.net g).c.rmsg c (h.conn c).rmsg = (h.net g).c.rmsg ∧
    update (h.net g).c.smsg c (h.conn c).smsg = (h.net g).c.smsg ∧
    update (h.net g).c.client c (h.conn c).client = (h.net g).c.client ∧
    update (h.net g).c.sendActive c (h.conn c).sendActive = (h.net g).c.sendActive ∧
    update (h.net g).c.evOut c (h.conn c).evOut = (h.net g).c.evOut ∧
    update (h.net g).c.lastShort c (h.conn c).lastShort = (h.net g).c.lastShort ∧
    update (h.net g).c.gen c (h.conn c).gen = (h.net g).c.gen ∧
    update (h.net g).c.nReq c (h.conn c).nReq = (h.net g).c.nReq ∧
    update (h.net g).c.sent c (h.conn c).sent = (h.net g).c.sent ∧
    update (h.net g).c.answers c (h.conn c).answers = (h.net g).c.answers := by
  refine ⟨?_, ?_, ?_, ?_, ?_, ?_, ?_, ?_, ?_, ?_, ?_, ?_, ?_, ?_⟩ <;> exact update_eq_self c _

/-- Writing to a column what it holds changes nothing. -/
@[simp] lemma Heap.net_msg_self :
    update (h.net g).m.id m (h.msg m).id = (h.net g).m.id ∧
    update (h.net g).m.peer m (h.msg m).peer = (h.net g).m.peer ∧
    update (h.net g).m.owner m (h.msg m).owner = (h.net g).m.owner ∧
    update (h.net g).m.tmoData m (h.msg m).tmoData = (h.net g).m.tmoData ∧
    update (h.net g).m.fragOwner m (h.msg m).fragOwner = (h.net g).m.fragOwner ∧
    update (h.net g).m.nfrag m (h.msg m).nfrag = (h.net g).m.nfrag ∧
    update (h.net g).m.nfragDone m (h.msg m).nfragDone = (h.net g).m.nfragDone ∧
    update (h.net g).m.fragId m (h.msg m).fragId = (h.net g).m.fragId ∧
    update (h.net g).m.error m (h.msg m).error = (h.net g).m.error ∧
    update (h.net g).m.ferror m (h.msg m).ferror = (h.net g).m.ferror ∧
    update (h.net g).m.noreply m (h.msg m).noreply = (h.net g).m.noreply ∧
    update (h.net g).m.done m (h.msg m).done = (h.net g).m.done ∧
    update (h.net g).m.fdone m (h.msg m).fdone = (h.net g).m.fdone ∧
    update (h.net g).m.swallow m (h.msg m).swallow = (h.net g).m.swallow ∧
    update (h.net g).m.ownerGen m (h.msg m).ownerGen = (h.net g).m.ownerGen ∧
    update (h.net g).m.counted m (h.msg m).counted = (h.net g).m.counted ∧
    update (h.net g).m.reqNo m (h.msg m).reqNo = (h.net g).m.reqNo := by
  refine ⟨?_, ?_, ?_, ?_, ?_, ?_, ?_, ?_, ?_, ?_, ?_, ?_, ?_, ?_, ?_, ?_, ?_⟩ <;>
    exact update_eq_self m _

/-- The connection that was changed. -/
@[simp] lemma Heap.modConn_same (f : Conn → Conn) : (h.modConn c f).conn c = f (h.conn c) := by
  simp [Heap.modConn]

/-- The message that was changed. -/
@[simp] lemma Heap.modMsg_same (f : Msg → Msg) : (h.modMsg m f).msg m = f (h.msg m) := by
  simp [Heap.modMsg]

/-- A change of a connection leaves the rest of the heap alone. -/
@[simp] lemma Heap.modConn_rest (f : Conn → Conn) :
    (h.modConn c f).msg = h.msg ∧
    (h.modConn c f).freeConnq = h.freeConnq ∧
    (h.modConn c f).nextConn = h.nextConn ∧
    (h.modConn c f).freeMsgq = h.freeMsgq ∧
    (h.modConn c f).nextMsg = h.nextMsg ∧
    (h.modConn c f).msgId = h.msgId ∧
    (h.modConn c f).fragId = h.fragId ∧
    (h.modConn c f).tmoRbt = h.tmoRbt ∧
    (h.modConn c f).sConnq = h.sConnq ∧
    (h.modConn c f).log = h.log :=
  ⟨rfl, rfl, rfl, rfl, rfl, rfl, rfl, rfl, rfl, rfl⟩

/-- A change of a message leaves the rest of the heap alone. -/
@[simp] lemma Heap.modMsg_rest (f : Msg → Msg) :
    (h.modMsg m f).conn = h.conn ∧
    (h.modMsg m f).freeConnq = h.freeConnq ∧
    (h.modMsg m f).nextConn = h.nextConn ∧
    (h.modMsg m f).freeMsgq = h.freeMsgq ∧
    (h.modMsg m f).nextMsg = h.nextMsg ∧
    (h.modMsg m f).msgId = h.msgId ∧
    (h.modMsg m f).fragId = h.fragId ∧
    (h.modMsg m f).tmoRbt = h.tmoRbt ∧
    (h.modMsg m f).sConnq = h.sConnq ∧
    (h.modMsg m f).log = h.log :=
  ⟨rfl, rfl, rfl, rfl, rfl, rfl, rfl, rfl, rfl, rfl⟩

/-- Logging leaves the rest of the heap alone. -/
@[simp] lemma Heap.emit_rest (e : Ev) :
    (h.emit e).conn = h.conn ∧ (h.emit e).msg = h.msg ∧ (h.emit e).log = e :: h.log ∧
    (h.emit e).freeConnq = h.freeConnq ∧
    (h.emit e).nextConn = h.nextConn ∧
    (h.emit e).freeMsgq = h.freeMsgq ∧
    (h.emit e).nextMsg = h.nextMsg ∧
    (h.emit e).msgId = h.msgId ∧
    (h.emit e).fragId = h.fragId ∧
    (h.emit e).tmoRbt = h.tmoRbt ∧
    (h.emit e).sConnq = h.sConnq :=
  ⟨rfl, rfl, rfl, rfl, rfl, rfl, rfl, rfl, rfl, rfl, rfl⟩

/-- An event is logged, on the view. -/
@[simp] lemma Heap.net_emit (e : Ev) : (h.emit e).net g = (h.net g).emit e := rfl

/-- The owner of a message is stale, on the view. -/
@[simp] lemma Heap.net_stale : (h.net g).stale m = h.stale m := rfl

end Squares

end GfwProxy
