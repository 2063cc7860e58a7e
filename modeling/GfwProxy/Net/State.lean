import Mathlib.Data.Set.Insert
import Mathlib.Tactic.MkIffOfInductiveProp
import Mathlib.Data.List.Nodup
import GfwProxy.Proxy.Loop

set_option autoImplicit false

/-!
# The proxy as a network of queues

An abstract view of the objects of the proxy: every field that the properties speak about is a
function of its own, and every message has a place.  What the handlers do to the objects is a
sequence of moves on this view (`GfwProxy.Move`), so an invariant needs to be shown for the moves
only.

## Main definitions

* `GfwProxy.Place` — where a message is: on the free list, being received, the response of a
  request, or a request in the queue of its client and in a queue of a server connection.
* `GfwProxy.Net` — the view; `GfwProxy.Heap.net` — the view of the objects.

## Design

The place of a message is not stored anywhere in the source.  It is part of the view only, as are
the sets of connections that a handler is busy with.
-/

namespace GfwProxy

/-- Where a message is.  A request in no queue is in the hands of a handler; a message that
belonged to an abandoned server connection is lost. -/
inductive Place
  | free
  | lost
  | reading (c : ConnId)
  | rsp (p : MsgId)
  | req (cli : Option ConnId) (srv : Option (ConnId × Bool))
  deriving DecidableEq

/-- In the hands of a handler. -/
abbrev Place.hand : Place := .req none none

/-- The fields of the connections. -/
structure ConnCols where
  owner : ConnId → Option Owner
  sd : ConnId → ℤ
  imsgq : ConnId → List MsgId
  omsgq : ConnId → List MsgId
  rmsg : ConnId → Option MsgId
  smsg : ConnId → Option MsgId
  client : ConnId → Bool
  sendActive : ConnId → Bool
  evOut : ConnId → Bool
  lastShort : ConnId → Bool
  gen : ConnId → ℕ
  nReq : ConnId → ℕ
  sent : ConnId → List ℕ
  answers : ConnId → List Answer

/-- The fields of the messages. -/
structure MsgCols where
  id : MsgId → ℕ
  peer : MsgId → Option MsgId
  owner : MsgId → Option ConnId
  tmoData : MsgId → Option ConnId
  fragOwner : MsgId → Option MsgId
  nfrag : MsgId → ℕ
  nfragDone : MsgId → ℕ
  fragId : MsgId → ℕ
  error : MsgId → Bool
  ferror : MsgId → Bool
  noreply : MsgId → Bool
  done : MsgId → Bool
  fdone : MsgId → Bool
  swallow : MsgId → Bool
  ownerGen : MsgId → ℕ
  counted : MsgId → ℕ
  reqNo : MsgId → ℕ

/-- Nothing has happened to message `m` yet. -/
@[mk_iff]
structure MsgCols.Blank (n : MsgCols) (m : MsgId) : Prop where
  peer : n.peer m = none
  tmoData : n.tmoData m = none
  nfragDone : n.nfragDone m = 0
  error : n.error m = false
  done : n.done m = false
  fdone : n.fdone m = false
  swallow : n.swallow m = false
  counted : n.counted m = 0

/-- The static variables. -/
structure Statics where
  freeConnq : List ConnId
  nextConn : ConnId
  freeMsgq : List MsgId
  nextMsg : MsgId
  msgId : ℕ
  fragId : ℕ
  tmoRbt : List MsgId
  sConnq : ℕ → ℕ → List ConnId
  log : List Ev

/-- What the view adds: the place of each message; the connections that are being closed; the
clients whose queue may begin with a request that is done although they do not wait for write
events; the connections whose write notification is being handled; the sub-messages that are still
to be forwarded. -/
structure Ghost where
  place : MsgId → Place
  closing : Set ConnId
  due : Set ConnId
  cold : Set ConnId
  pend : List MsgId

/-- The view. -/
structure Net where
  c : ConnCols
  m : MsgCols
  a : Statics
  g : Ghost

/-- The fields of a family of connections. -/
def ConnCols.of (f : ConnId → Conn) : ConnCols where
  owner c := (f c).owner
  sd c := (f c).sd
  imsgq c := (f c).imsgq
  omsgq c := (f c).omsgq
  rmsg c := (f c).rmsg
  smsg c := (f c).smsg
  client c := (f c).client
  sendActive c := (f c).sendActive
  evOut c := (f c).evOut
  lastShort c := (f c).lastShort
  gen c := (f c).gen
  nReq c := (f c).nReq
  sent c := (f c).sent
  answers c := (f c).answers

/-- The fields of a family of messages. -/
def MsgCols.of (f : MsgId → Msg) : MsgCols where
  id m := (f m).id
  peer m := (f m).peer
  owner m := (f m).owner
  tmoData m := (f m).tmoData
  fragOwner m := (f m).fragOwner
  nfrag m := (f m).nfrag
  nfragDone m := (f m).nfragDone
  fragId m := (f m).fragId
  error m := (f m).error
  ferror m := (f m).ferror
  noreply m := (f m).noreply
  done m := (f m).done
  fdone m := (f m).fdone
  swallow m := (f m).swallow
  ownerGen m := (f m).ownerGen
  counted m := (f m).counted
  reqNo m := (f m).reqNo

/-- The view of the objects. -/
def Heap.net (h : Heap) (g : Ghost) : Net where
  c := .of h.conn
  m := .of h.msg
  a :=
    { freeConnq := h.freeConnq, nextConn := h.nextConn, freeMsgq := h.freeMsgq
      nextMsg := h.nextMsg, msgId := h.msgId, fragId := h.fragId, tmoRbt := h.tmoRbt
      sConnq := h.sConnq, log := h.log }
  g := g

/-! ## Operations -/

namespace Net

/-- Log an event. -/
def emit (e : Ev) (n : Net) : Net := { n with a.log := e :: n.a.log }

/-- Put message `m` in its place. -/
def move (m : MsgId) (x : Place) (n : Net) : Net :=
  { n with g.place := Function.update n.g.place m x }

/-- Append `m` to the in queue of `s`. -/
def enqIn (s : ConnId) (m : MsgId) (n : Net) : Net :=
  { n with c.imsgq := Function.update n.c.imsgq s (n.c.imsgq s ++ [m]) }

/-- Take `m` out of the in queue of `s`. -/
def deqIn (s : ConnId) (m : MsgId) (n : Net) : Net :=
  { n with c.imsgq := Function.update n.c.imsgq s ((n.c.imsgq s).erase m) }

/-- Append `m` to the out queue of `c`. -/
def enqOut (c : ConnId) (m : MsgId) (n : Net) : Net :=
  { n with c.omsgq := Function.update n.c.omsgq c (n.c.omsgq c ++ [m]) }

/-- Take `m` out of the out queue of `c`. -/
def deqOut (c : ConnId) (m : MsgId) (n : Net) : Net :=
  { n with c.omsgq := Function.update n.c.omsgq c ((n.c.omsgq c).erase m) }

/-- Take `m` out of the timeout tree. -/
def tmoDelete (m : MsgId) (n : Net) : Net :=
  if n.m.tmoData m = none then n
  else
    { n with
      m.tmoData := Function.update n.m.tmoData m none
      a.tmoRbt := n.a.tmoRbt.erase m }

/-- Release `m`. -/
def put (m : MsgId) (n : Net) : Net :=
  { n with
    a.log := .release (n.m.id m) :: n.a.log
    a.freeMsgq := m :: n.a.freeMsgq
    g.place := Function.update n.g.place m .free }

/-- Link request `p` and response `r`. -/
def link (p r : MsgId) (n : Net) : Net :=
  { n with m.peer := Function.update (Function.update n.m.peer p (some r)) r (some p) }

/-- Break the link of request `p` and response `r`. -/
def unlink (p r : MsgId) (n : Net) : Net :=
  { n with m.peer := Function.update (Function.update n.m.peer p none) r none }

/-- Request `m` is done. -/
def finish (m : MsgId) (n : Net) : Net :=
  { n with m.done := Function.update n.m.done m true }

/-- Request `m` is in error, if `b`. -/
def fail (m : MsgId) (b : Bool) (n : Net) : Net :=
  { n with m.error := Function.update n.m.error m (n.m.error m || b) }

/-- Has the client connection that request `m` came from been closed? -/
def stale (m : MsgId) (n : Net) : Bool :=
  match n.m.owner m with
  | none => true
  | some c => n.c.gen c ≠ n.m.ownerGen m

/-- Count fragment `m` as done, if it is one; `b` tells whether its owner is released. -/
def count (m : MsgId) (b : Bool) (n : Net) : Net :=
  match n.m.fragOwner m with
  | none => n
  | some o =>
    { n with
      m.nfragDone := Function.update n.m.nfragDone o (n.m.nfragDone o + 1)
      m.counted := Function.update n.m.counted m (n.m.counted m + 1)
      a.log := .fragInc (n.m.id m) (n.stale m) b :: n.a.log }

/-- The queue of client `c` may begin with a request that is done. -/
def setDue (c : ConnId) (n : Net) : Net := { n with g.due := insert c n.g.due }

/-- Is `c` an open connection? -/
abbrev Open (n : Net) (c : ConnId) : Prop := n.c.owner c ≠ none

/-- Is `c` an open client connection? -/
abbrev Client (n : Net) (c : ConnId) : Prop := ∃ p, n.c.owner c = some (.pool p)

/-- Is `s` an open server connection? -/
abbrev Server (n : Net) (s : ConnId) : Prop := ∃ p i, n.c.owner s = some (.server p i)

/-- Did message `m` come from connection `c`, or is it meant for it? -/
abbrev Of (n : Net) (m : MsgId) (c : ConnId) : Prop :=
  n.m.owner m = some c ∧ n.m.ownerGen m = n.c.gen c

end Net

end GfwProxy
