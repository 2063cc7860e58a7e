import Mathlib.Logic.Relation
import GfwProxy.Net.State

set_option autoImplicit false

/-!
# The moves of the proxy

What a handler can do to the view `GfwProxy.Net`, one step at a time.  A move comes with what is
known where the handlers make it.

## Main definitions

* `GfwProxy.Move` — the moves.
* `GfwProxy.Moves` — sequences of moves.

## Design

Statements of the source that belong together for some property are one move: a request leaves
the queue of a server connection in the same move in which it is done, swallowed or linked to its
response.
-/

namespace GfwProxy

/-- Events that are logged on the side. -/
def Ev.isNote : Ev → Bool
  | .abandon _ => true
  | .fwdFail _ => true
  | .noWake _ => true
  | .idle _ => true
  | .cut _ => true
  | .done .. => true
  | _ => false

/-- The fields of message `m` become those of `x`. -/
def MsgCols.set (m : MsgId) (x : Msg) (n : MsgCols) : MsgCols where
  id := Function.update n.id m x.id
  peer := Function.update n.peer m x.peer
  owner := Function.update n.owner m x.owner
  tmoData := Function.update n.tmoData m x.tmoData
  fragOwner := Function.update n.fragOwner m x.fragOwner
  nfrag := Function.update n.nfrag m x.nfrag
  nfragDone := Function.update n.nfragDone m x.nfragDone
  fragId := Function.update n.fragId m x.fragId
  error := Function.update n.error m x.error
  ferror := Function.update n.ferror m x.ferror
  noreply := Function.update n.noreply m x.noreply
  done := Function.update n.done m x.done
  fdone := Function.update n.fdone m x.fdone
  swallow := Function.update n.swallow m x.swallow
  ownerGen := Function.update n.ownerGen m x.ownerGen
  counted := Function.update n.counted m x.counted
  reqNo := Function.update n.reqNo m x.reqNo

/-- The fields of connection `c` become those of `x`. -/
def ConnCols.set (c : ConnId) (x : Conn) (n : ConnCols) : ConnCols where
  owner := Function.update n.owner c x.owner
  sd := Function.update n.sd c x.sd
  imsgq := Function.update n.imsgq c x.imsgq
  omsgq := Function.update n.omsgq c x.omsgq
  rmsg := Function.update n.rmsg c x.rmsg
  smsg := Function.update n.smsg c x.smsg
  client := Function.update n.client c x.client
  sendActive := Function.update n.sendActive c x.sendActive
  evOut := Function.update n.evOut c x.evOut
  lastShort := Function.update n.lastShort c x.lastShort
  gen := Function.update n.gen c x.gen
  nReq := Function.update n.nReq c x.nReq
  sent := Function.update n.sent c x.sent
  answers := Function.update n.answers c x.answers

namespace Net

/-- The connection object `c` is neither open nor on the free list. -/
structure FreshConn (n : Net) (c : ConnId) : Prop where
  owner : n.c.owner c = none
  free : c ∉ n.a.freeConnq
  lt : c < n.a.nextConn

/-- The message object `m` is neither in use nor on the free list. -/
structure FreshMsg (n : Net) (m : MsgId) : Prop where
  place : n.g.place m = .free
  free : m ∉ n.a.freeMsgq
  lt : m < n.a.nextMsg

/-- A handler holds request `m` of client `c`, which has just been received. -/
structure Held (n : Net) (c : ConnId) (m : MsgId) : Prop where
  place : n.g.place m = .hand
  client : n.Client c
  closing : c ∉ n.g.closing
  of : n.Of m c
  blank : n.m.Blank m
  pend : n.g.pend = []
  nReq : n.m.reqNo m + 1 = n.c.nReq c
  last : ∀ y ∈ n.c.omsgq c, n.m.reqNo y < n.m.reqNo m

/-- The sub-messages `subs` of request `o` of client `c` are held as well. -/
structure Subs (n : Net) (c : ConnId) (o : MsgId) (subs : List MsgId) : Prop where
  nodup : subs.Nodup
  place : ∀ y ∈ subs, n.g.place y = .hand
  of : ∀ y ∈ subs, n.Of y c
  blank : ∀ y ∈ subs, n.m.Blank y
  noreply : ∀ y ∈ subs, n.m.noreply y = false
  fragOwner : ∀ y ∈ subs, n.m.fragOwner y = some o
  fragId : ∀ y ∈ subs, n.m.fragId y = n.m.fragId o
  reqNo : ∀ y ∈ subs, n.m.reqNo y = n.m.reqNo o

/-- Request `o` is the owner of a vector of fragments, and none of its sub-messages has been
forwarded. -/
structure Vector (n : Net) (c : ConnId) (o : MsgId) (subs : List MsgId) : Prop where
  held : n.Subs c o subs
  self : o ∉ subs
  fragOwner : n.m.fragOwner o = some o
  nfrag : n.m.nfrag o = subs.length
  fragId : n.m.fragId o ≠ 0
  fragId_le : n.m.fragId o ≤ n.a.fragId
  fresh : ∀ y ∈ n.c.omsgq c, n.m.fragId y ≠ n.m.fragId o

/-- `GfwProxy.Heap.fragRun` on the view. -/
def fragRun (n : Net) (q : List MsgId) (m : MsgId) : List MsgId :=
  let same : MsgId → Bool := fun x => n.m.fragId x = n.m.fragId m
  (tailqBefore m q).takeWhile same ++ (tailqAfter m q).takeWhile same

/-- `GfwProxy.Heap.isDone` on the view. -/
def isDone (n : Net) (q : List MsgId) (m : MsgId) : Bool :=
  n.m.done m && (n.m.fragId m = 0 || n.m.fdone m ||
    (n.m.nfrag m ≤ n.m.nfragDone m && (n.fragRun q m).all fun x => n.m.done x))

/-- The queue of client `c` begins with a request that is marked as done. -/
def HeadDone (n : Net) (c : ConnId) : Prop :=
  ∃ x, (n.c.omsgq c).head? = some x ∧ n.m.done x = true ∧
    (n.m.fragId x = 0 ∨ n.m.fdone x = true)

/-- All requests in the queue of client `c` that carry the fragment id of `m` are done. -/
def VectorDone (n : Net) (c : ConnId) (m : MsgId) : Prop :=
  n.m.done m = true ∧
    (n.m.fragId m ≠ 0 → ∀ y ∈ n.c.omsgq c, n.m.fragId y = n.m.fragId m → n.m.done y = true)

/-- The queues of connection `s` hold a request with a timer that is neither done nor in error. -/
def Armed (n : Net) (s : ConnId) : Prop :=
  ∃ m ∈ n.c.imsgq s ++ n.c.omsgq s,
    n.m.tmoData m ≠ none ∧ n.m.done m = false ∧ n.m.error m = false

/-- The place of a message once server connection `s` is abandoned. -/
def afterAbandon (s : ConnId) : Place → Place
  | .reading c => if c = s then .lost else .reading c
  | .req cli (some (s', b)) =>
    if s' = s then (if cli = none then .lost else .req cli none) else .req cli (some (s', b))
  | x => x

/-- Server connection `s` is not owned by server `i` of pool `p` any more. -/
def unrefServer (s : ConnId) (p i : ℕ) (n : Net) : Net :=
  { n with
    c.owner := Function.update n.c.owner s none
    a.sConnq := fun p' i' =>
      if p' = p ∧ i' = i then (n.a.sConnq p i).erase s else n.a.sConnq p' i' }

end Net

/-- **The moves of a server connection**: those that it takes to find one, to open it and to close
it. -/
inductive ServerMove (n : Net) : Net → Prop
  | note (e : Ev) (he : e.isNote = true) : ServerMove n (n.emit e)
  | touch (c : ConnId) (m : MsgId) (hm : n.stale m = false) :
      ServerMove n (n.emit (.touch c (n.m.id m) false))
  | wake (c : ConnId) :
      ServerMove n { n with
        c.sendActive := Function.update n.c.sendActive c true
        c.evOut := Function.update n.c.evOut c true }
  | calm (c : ConnId)
      (hc : n.c.sendActive c = false →
        (∃ c', .noWake c' ∈ n.a.log) ∨ ¬n.Client c ∨
          ∀ x, (n.c.omsgq c).head? = some x → n.isDone (n.c.omsgq c) x = false) :
      ServerMove n { n with g.due := n.g.due \ {c} }
  | fdone (c : ConnId) (m : MsgId) (hc : n.Client c) (hcl : c ∉ n.g.closing) (hm : m ∈ n.c.omsgq c)
      (hd : n.m.done m = true) (hf : n.m.fragId m ≠ 0) (hn : n.m.nfrag m ≤ n.m.nfragDone m)
      (hr : ∀ x ∈ n.fragRun (n.c.omsgq c) m, n.m.done x = true)
      (hp : n.g.pend = [] ∧ n.HeadDone c ∨ (n.c.omsgq c).head? = some m) :
      ServerMove n { n with
        m.fdone := fun x =>
          if x ∈ m :: n.fragRun (n.c.omsgq c) m then true else n.m.fdone x }
  | takeConn (c : ConnId) (rest : List ConnId) (hf : n.a.freeConnq = c :: rest) :
      ServerMove n { n with a.freeConnq := rest }
  | growConn (hf : n.a.freeConnq = []) : ServerMove n { n with a.nextConn := n.a.nextConn + 1 }
  | openServer (s : ConnId) (p i : ℕ) (hs : n.FreshConn s) :
      ServerMove n { n with
        c := n.c.set s { owner := some (.server p i), gen := n.c.gen s }
        a.sConnq := fun p' i' =>
          if p' = p ∧ i' = i then n.a.sConnq p i ++ [s] else n.a.sConnq p' i'
        g.closing := n.g.closing \ {s}
        g.due := n.g.due \ {s}
        g.cold := n.g.cold \ {s} }
  | setSd (s : ConnId) (v : ℤ) (hs : ¬n.Client s) :
      ServerMove n { n with c.sd := Function.update n.c.sd s v }
  | rotate (p i : ℕ) (s : ConnId) (rest : List ConnId) (hq : n.a.sConnq p i = s :: rest) :
      ServerMove n { n with
        a.sConnq := fun p' i' => if p' = p ∧ i' = i then rest ++ [s] else n.a.sConnq p' i' }
  | connPut (c : ConnId) (hc : n.FreshConn c) :
      ServerMove n { n with
        c.gen := Function.update n.c.gen c (n.c.gen c + 1)
        a.freeConnq := c :: n.a.freeConnq }
  | beginCloseServer (s : ConnId) (hs : n.Server s) :
      ServerMove n { n with g.closing := insert s n.g.closing }
  | unrefServer (s : ConnId) (p i : ℕ) (ho : n.c.owner s = some (.server p i))
      (hi : n.c.imsgq s = []) (hq : n.c.omsgq s = []) (hr : n.c.rmsg s = none) :
      ServerMove n (n.unrefServer s p i)
  | abandon (s : ConnId) (p i : ℕ) (ho : n.c.owner s = some (.server p i))
      (ha : n.Armed s → ∃ s', .abandon s' ∈ n.a.log) :
      ServerMove n { n.unrefServer s p i with g.place := fun m => Net.afterAbandon s (n.g.place m) }
  | dropIn (s : ConnId) (m : MsgId) (hm : n.g.place m = .req none (some (s, false))) :
      ServerMove n (((n.deqIn s m).tmoDelete m).put m)
  | dropOut (s : ConnId) (m : MsgId) (hm : n.g.place m = .req none (some (s, true)))
      (hs : s ∈ n.g.closing) :
      ServerMove n (((n.tmoDelete m).deqOut s m).put m)
  | failIn (s c : ConnId) (m : MsgId) (b : Bool)
      (hm : n.g.place m = .req (some c) (some (s, false))) (hc : c ∉ n.g.closing) :
      ServerMove n ((((((n.deqIn s m).move m (.req (some c) none)).finish m).count m b).fail m
        true).setDue c)
  | failOut (s c : ConnId) (m : MsgId) (b : Bool)
      (hm : n.g.place m = .req (some c) (some (s, true))) (hc : c ∉ n.g.closing)
      (hs : s ∈ n.g.closing) :
      ServerMove n (((((((n.tmoDelete m).deqOut s m).move m (.req (some c) none)).finish m).count m
        b).fail m true).setDue c)
  | discardRsp (s : ConnId) (m : MsgId) (hs : n.Server s) (hr : n.c.rmsg s = some m) :
      ServerMove n ({ n with c.rmsg := Function.update n.c.rmsg s none }.put m)

/-- **The moves.** -/
inductive Move (n : Net) : Net → Prop
  | server {n' : Net} (h : ServerMove n n') : Move n n'
  -- events and notifications
  | timerTouch (s : ConnId) (m : MsgId) (hs : n.Client s) (ht : n.m.tmoData m = some s)
      (hd : n.m.done m = false) (he : n.m.error m = false) :
      Move n (n.emit (.touch s (n.m.id m) (n.stale m)))
  | sleep (c : ConnId) (hc : n.Client c → n.c.omsgq c = [] ∨ c ∈ n.g.closing) :
      Move n { n with
        c.sendActive := Function.update n.c.sendActive c false
        c.evOut := Function.update n.c.evOut c false }
  | deliver (c : ConnId) :
      Move n { n with
        c.evOut := Function.update n.c.evOut c false
        g.cold := insert c n.g.cold }
  | edge (c : ConnId) :
      Move n { n with c.evOut := Function.update n.c.evOut c (n.c.evOut c || n.c.lastShort c) }
  | written (c : ConnId) (b : Bool) (hc : n.Client c → c ∈ n.g.cold) :
      Move n { n with c.lastShort := Function.update n.c.lastShort c b }
  | settle (c : ConnId)
      (hc : n.Client c → c ∉ n.g.closing → n.c.sendActive c = true → n.c.evOut c = false →
        n.c.lastShort c = false → ∃ c', .idle c' ∈ n.a.log) :
      Move n { n with g.cold := n.g.cold \ {c} }
  -- connections
  | openClient (c : ConnId) (p sd : ℕ) (hc : n.FreshConn c) :
      Move n { n with
        c := n.c.set c { owner := some (.pool p), client := true, gen := n.c.gen c, sd := sd }
        g.closing := n.g.closing \ {c}
        g.due := n.g.due \ {c}
        g.cold := n.g.cold \ {c} }
  | beginClose (c : ConnId) (hc : n.Client c → n.g.pend = []) :
      Move n { n with g.closing := insert c n.g.closing }
  | unrefClient (c : ConnId) (p : ℕ) (ho : n.c.owner c = some (.pool p))
      (hq : n.c.omsgq c = []) (hr : n.c.rmsg c = none) :
      Move n { n with c.owner := Function.update n.c.owner c none }
  -- messages
  | takeMsg (m : MsgId) (rest : List MsgId) (hf : n.a.freeMsgq = m :: rest) :
      Move n { n with a.freeMsgq := rest }
  | growMsg (hf : n.a.freeMsgq = []) : Move n { n with a.nextMsg := n.a.nextMsg + 1 }
  | bumpMsg : Move n { n with a.msgId := n.a.msgId + 1 }
  | newMsg (m : MsgId) (x : Msg) (hm : n.FreshMsg m) (hid : x.id = n.a.msgId + 1)
      (hx : (n.m.set m x).Blank m) :
      Move n { n with
        m := n.m.set m x
        a.msgId := n.a.msgId + 1
        g.place := Function.update n.g.place m .hand }
  | setOwner (m : MsgId) (c : ConnId) (hm : n.g.place m = .hand) (hp : m ∉ n.g.pend) :
      Move n { n with
        m.owner := Function.update n.m.owner m (some c)
        m.ownerGen := Function.update n.m.ownerGen m (n.c.gen c) }
  | setNoreply (m : MsgId) (c : ConnId) (b : Bool) (hm : n.g.place m = .reading c) :
      Move n { n with m.noreply := Function.update n.m.noreply m b }
  | number (c : ConnId) (m : MsgId) (hm : n.g.place m = .hand) (hp : n.g.pend = []) :
      Move n { n with
        m.reqNo := Function.update n.m.reqNo m (n.c.nReq c)
        c.nReq := Function.update n.c.nReq c (n.c.nReq c + 1) }
  | vector (m : MsgId) (k : ℕ) (hm : n.g.place m = .hand) (hp : n.g.pend = []) :
      Move n { n with
        m.fragId := Function.update n.m.fragId m (n.a.fragId + 1)
        m.fragOwner := Function.update n.m.fragOwner m (some m)
        m.nfrag := Function.update n.m.nfrag m k
        a.fragId := n.a.fragId + 1 }
  | read (c : ConnId) (m : MsgId) (hm : n.g.place m = .hand) (hp : m ∉ n.g.pend) (hc : n.Open c)
      (hr : n.c.rmsg c = none) (ho : n.Of m c) (hb : n.m.Blank m) (hf : n.m.fragOwner m = none)
      (hf' : n.m.fragId m = 0) :
      Move n ({ n with c.rmsg := Function.update n.c.rmsg c (some m) }.move m (.reading c))
  | unread (c : ConnId) (m : MsgId) (hc : n.Open c) (hr : n.c.rmsg c = some m) :
      Move n ({ n with c.rmsg := Function.update n.c.rmsg c none }.move m .hand)
  | put (m : MsgId) (hm : n.g.place m = .hand) (hp : n.m.peer m = none)
      (ht : n.m.tmoData m = none) (hn : m ∉ n.g.pend) : Move n (n.put m)
  | link (c : ConnId) (p r : MsgId) (hp : n.g.place p = .req (some c) none)
      (hd : n.m.done p = true) (hpp : n.m.peer p = none) (hr : n.g.place r = .hand)
      (hrp : n.m.peer r = none) (ht : n.m.tmoData r = none) (hn : r ∉ n.g.pend) :
      Move n ((n.link p r).move r (.rsp p))
  | unlink (p r : MsgId) (hp : n.m.peer p = some r) (hr : n.g.place r = .rsp p)
      (hu : n.g.place p = .hand ∨ n.m.error p = true ∨ n.m.fragId p ≠ 0 ∧ n.m.ferror p = true) :
      Move n ((n.unlink p r).move r .hand)
  | tmoDelete (m : MsgId) : Move n (n.tmoDelete m)
  | ferror (f : MsgId → Bool) (hf : ∀ x, n.m.ferror x = true → f x = true) :
      Move n { n with m.ferror := f }
  -- requests of a client
  | expect (c : ConnId) (m : MsgId) (hm : n.Held c m) (hr : n.m.noreply m = false)
      (hf : n.m.fragOwner m = none) (hf' : n.m.fragId m = 0) :
      Move n ((n.enqOut c m).move m (.req (some c) none))
  | expectSub (c : ConnId) (m : MsgId) (rest : List MsgId) (hp : n.g.pend = m :: rest)
      (hm : n.Of m c) (hc : n.Client c) :
      Move n ({ n.enqOut c m with g.pend := rest }.move m (.req (some c) none))
  | reply (c : ConnId) (m r : MsgId) (subs : List MsgId) (due : Set ConnId) (hm : n.Held c m)
      (hr : n.g.place r = .hand) (hrb : n.m.Blank r) (hmr : m ≠ r) (hrs : r ∉ subs)
      (hs : subs = [] ∧ n.m.fragOwner m = none ∧ n.m.fragId m = 0 ∨ n.Vector c m subs)
      (hdue : n.g.due ⊆ due) (hdue' : subs = [] → c ∈ due) :
      Move n ({ ((n.link m r).finish m).enqOut c m with g.pend := subs, g.due := due }
        |>.move m (.req (some c) none) |>.move r (.rsp m))
  | failReply (c : ConnId) (m : MsgId) (subs : List MsgId) (hm : n.Held c m)
      (hs : n.Vector c m subs) :
      Move n ({ ((n.enqOut c m).finish m).fail m true with g.pend := subs }.setDue c
        |>.move m (.req (some c) none))
  | failHand (m : MsgId) (hm : n.g.place m = .hand) (hp : m ∉ n.g.pend) :
      Move n ((n.finish m).fail m true)
  | failFwd (c : ConnId) (m : MsgId) (b : Bool) (hm : n.g.place m = .req (some c) none)
      (hd : n.m.done m = false) (hc : c ∉ n.g.closing) :
      Move n ((((n.finish m).count m b).fail m true).setDue c)
  | skipFwd (c : ConnId) (m : MsgId) (hm : n.g.place m = .req (some c) none)
      (hd : n.m.done m = false) (hc : c ∉ n.g.closing)
      (hf : n.m.fragOwner m ≠ none → ∃ i, .fwdFail i ∈ n.a.log) :
      Move n (((n.finish m).fail m true).setDue c)
  | leave (c : ConnId) (p : MsgId) (hp : n.g.place p = .req (some c) none)
      (hc : c ∈ n.g.closing ∨ n.g.pend = [] ∧ n.VectorDone c p ∧ n.HeadDone c) :
      Move n ((n.deqOut c p).move p .hand)
  | orphan (c : ConnId) (m : MsgId) (srv : Option (ConnId × Bool))
      (hm : n.g.place m = .req (some c) srv) (hd : n.m.done m = false) (hc : c ∈ n.g.closing) :
      Move n ({ n.deqOut c m with m.swallow := Function.update n.m.swallow m true }.move m
        (.req none srv))
  -- requests of a server connection
  | enqIn (s : ConnId) (m : MsgId) (cli : Option ConnId) (timed : Bool) (rbt : List MsgId)
      (hm : n.g.place m = .req cli none) (hs : n.Server s) (hb : n.m.Blank m)
      (hr : n.m.noreply m = true → cli = none ∧ timed = false)
      (hr' : n.m.noreply m = false → cli ≠ none) (hp : m ∉ n.g.pend)
      (hrbt : if timed then rbt.Perm (m :: n.a.tmoRbt) else rbt = n.a.tmoRbt) :
      Move n ({ n.enqIn s m with
          m.tmoData := if timed then Function.update n.m.tmoData m (some s) else n.m.tmoData
          a.tmoRbt := rbt }.move m (.req cli (some (s, false))))
  | sendDone (s : ConnId) (m : MsgId) (cli : Option ConnId)
      (hm : n.g.place m = .req cli (some (s, false))) (hr : n.m.noreply m = false) :
      Move n ({ (n.deqIn s m).enqOut s m with
          c.sent := Function.update n.c.sent s (n.c.sent s ++ [n.m.id m]) }.move m
        (.req cli (some (s, true))))
  | respond (s c : ConnId) (p m : MsgId) (rest : List MsgId) (b e : Bool)
      (hq : n.c.omsgq s = p :: rest) (hp : n.g.place p = .req (some c) (some (s, true)))
      (hc : c ∉ n.g.closing) (hm : n.g.place m = .hand) (hb : n.m.Blank m) (hn : m ∉ n.g.pend) :
      Move n ((({ (((((((n.emit (.link (n.m.id p) false)).tmoDelete p).deqOut s p).move p
            (.req (some c) none)).finish p).count p b).fail p e) with
          c.answers := Function.update n.c.answers s
            (n.c.answers s ++ [Answer.linked (n.m.id p)]) }.link p m).move m (.rsp p)).setDue c)
  | swallowed (s : ConnId) (p : MsgId) (rest : List MsgId) (hq : n.c.omsgq s = p :: rest)
      (hp : n.g.place p = .req none (some (s, true))) :
      Move n (({ ((n.tmoDelete p).deqOut s p).finish p with
          c.answers := Function.update n.c.answers s
            (n.c.answers s ++ [Answer.swallowed (n.m.id p)]) }).put p)
  | reject (s : ConnId) (a : Answer) (hs : s ∈ n.g.closing) :
      Move n { n with c.answers := Function.update n.c.answers s (n.c.answers s ++ [a]) }

/-- Sequences of moves of a server connection. -/
abbrev ServerMoves : Net → Net → Prop := Relation.ReflTransGen ServerMove

/-- Sequences of moves. -/
abbrev Moves : Net → Net → Prop := Relation.ReflTransGen Move

/-- The moves of a server connection are moves. -/
lemma ServerMoves.moves {n n' : Net} (h : ServerMoves n n') : Moves n n' :=
  Relation.ReflTransGen.mono (fun _ _ => Move.server) _ _ h

end GfwProxy
