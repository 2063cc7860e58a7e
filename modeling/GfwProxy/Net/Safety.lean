import GfwProxy.Net.Listing
import GfwProxy.Proxy.Connected

set_option autoImplicit false

/-!
# Safety of the proxy

What holds between two callbacks of the event loop, in every run of the proxy from its start: for
all inputs in any order, and all answers of the environment.  The parsers are assumed to split a
request only if it expects a reply, and the fragment callback to succeed (`GfwProxy.Env.Splits`).

## Main results

* `GfwProxy.Run.onePlace` — every message is in one place.
* `GfwProxy.Run.connectionsOwned` — every connection is on the free list or has an owner.
* `GfwProxy.Run.requestOwners` — a request in the queue of a server belongs to an open client,
  unless its response is dropped.
* `GfwProxy.Run.timersNamed` — the timer of an outstanding request names the connection that holds
  it.
* `GfwProxy.Run.queuesOrdered`, `GfwProxy.Run.fragmentsCounted` — the queue of a client.
* `GfwProxy.Run.responsesReady` — a request that is done has something to send.
* `GfwProxy.Run.clientsAwake` — no wakeup is lost.
* `GfwProxy.Run.responsesPaired` — requests and responses of a server connection are paired.
* `GfwProxy.Run.clientsIsolated` — nothing is done on behalf of a closed client.
* `GfwProxy.Run.releasedOnce` — a message is released once.
-/

namespace GfwProxy

open Function

variable {σ₀ σ : St} {h : Heap} {g : Ghost} {c s : ConnId} {m p r : MsgId}

/-! ## Runs -/

/-- Client connection `c` is open. -/
def Heap.ClientOpen (h : Heap) (c : ConnId) : Prop := ∃ p, (h.conn c).owner = some (.pool p)

/-- Server connection `s` is open. -/
def Heap.ServerOpen (h : Heap) (s : ConnId) : Prop := ∃ p i, (h.conn s).owner = some (.server p i)

/-- Message `m` is in a queue of connection `c`, or being received on it. -/
def Heap.Has (h : Heap) (c : ConnId) (m : MsgId) : Prop :=
  m ∈ (h.conn c).imsgq ∨ m ∈ (h.conn c).omsgq ∨ (h.conn c).rmsg = some m

/-- All invariants of the moves. -/
structure Settled (n : Net) : Prop extends AtRest n where
  paired : Paired n
  ids : Ids n
  isolated : Isolated n
  roused : Roused n
  notified : Notified n
  listed : Listed n

/-- **All invariants hold between two callbacks.**

**Proof sketch.** The run is a sequence of moves from the start (`Run.moves`), and each of the
invariants is kept by every move. -/
theorem Run.rest (h₀ : σ₀.Init) (hr : Run Env.Splits σ₀ σ) : ∃ g, Settled (σ.heap.net g) := by
  obtain ⟨g, hmoves, hrest⟩ := Run.moves h₀ hr
  have hs : Sound (({} : Heap).net .start) := atRest_start.toSound
  have hnone : ∀ {c : ConnId}, ¬(({} : Heap).net .start).Client c := by
    rintro c ⟨p, hp⟩
    cases hp
  refine ⟨g, hrest, SendMoves.paired hmoves hs ?_, SendMoves.ids hmoves hs ?_,
    SendMoves.isolated hmoves hs ?_, SendMoves.roused hmoves hs ?_, SendMoves.notified hmoves ?_,
      SendMoves.listed hmoves ?_⟩
  · rintro s ⟨p, i, ho⟩
    cases ho
  · constructor <;> simp [Heap.net, Ghost.start, Net.released, Net.linked]
  · constructor <;> simp [Heap.net]
  · exact fun c hc => absurd hc hnone
  · exact fun c hc => absurd hc hnone
  · intro s p i ho
    cases ho

/-- A proxy with a pool of one server, whose responses time out. -/
def oneTimed : St where
  pool := fun _ => { server := [{ name := [], weight := 1 }], timeout := 100 }

/-- `connect` returns EINPROGRESS, every message that is received is parsed as `p`, and `writev`
writes `k` bytes. -/
def Env.parses (p : Parsed) (k : ℕ) : Env where
  connect := fun _ => .inprogress
  recv := fun _ => .data 10 true
  parse := fun _ => .ok p 0
  writev := fun _ => .bytes k

/-- A request with one key. -/
def oneKey : Parsed := { mhdr := [{ rest := [1, 2] }], keys := [[1]] }

/-- A request with two keys, which is split into two. -/
def twoKeys : Parsed :=
  { oneKey with
    fragment := { subs := [{ keys := [[1]], mhdr := [{ rest := [1] }] },
      { keys := [[2]], mhdr := [{ rest := [2] }] }] } }

/-- A parser that returns such a message splits requests. -/
lemma Env.parses_splits {p : Parsed} (k : ℕ) (hok : p.fragment.ok = true) (hn : p.noreply = false) :
    (Env.parses p k).Splits := by
  rintro t q left ⟨⟩
  refine ⟨hok, fun h => ?_⟩
  rw [hn] at h
  cases h

/-- A client sends a request that is split into two, and the server answers the first fragment. -/
def scattered : List (Env × Input) :=
  [(.parses oneKey 2, .accept 0 5), (.parses twoKeys 2, .event 0 false true false),
    (.parses oneKey 2, .event 1 false false true), (.parses oneKey 2, .event 1 false true false)]

/-- The feed is a run. -/
lemma scattered_run : Run Env.Splits oneTimed (oneTimed.feed scattered) := by
  refine Run.feed .init (fun x hx => ?_) (by decide +kernel)
  simp only [scattered, List.mem_cons, List.not_mem_nil, or_false] at hx
  rcases hx with rfl | rfl | rfl | rfl <;> exact Env.parses_splits 2 rfl rfl

/-- A client sends two requests, which the server answers; the first response is written, and a
third request takes over the object of the first one. -/
def pipelined : List (Env × Input) :=
  [(.parses oneKey 2, .accept 0 5), (.parses oneKey 2, .event 0 false true false),
    (.parses oneKey 2, .event 0 false true false), (.parses oneKey 4, .event 1 false false true),
    (.parses oneKey 2, .event 1 false true false), (.parses oneKey 2, .event 1 false true false),
    (.parses oneKey 3, .event 0 false false true), (.parses oneKey 2, .event 0 false true false)]

/-- The feed is a run. -/
lemma pipelined_run : Run Env.Splits oneTimed (oneTimed.feed pipelined) := by
  refine Run.feed .init (fun x hx => ?_) (by decide +kernel)
  simp only [pipelined, List.mem_cons, List.not_mem_nil, or_false] at hx
  rcases hx with rfl | rfl | rfl | rfl | rfl | rfl | rfl | rfl <;> exact Env.parses_splits _ rfl rfl

/-! ## Places -/

/-- **Every message is in one place**: on the free list, in a queue of one client and one server, or
being received on one connection. -/
structure Heap.OnePlace (h : Heap) : Prop where
  freeMsgq_nodup : h.freeMsgq.Nodup
  imsgq_nodup : ∀ c, (h.conn c).owner ≠ none → (h.conn c).imsgq.Nodup
  omsgq_nodup : ∀ c, (h.conn c).owner ≠ none → (h.conn c).omsgq.Nodup
  free : ∀ m ∈ h.freeMsgq, ∀ c, (h.conn c).owner ≠ none → ¬h.Has c m
  client_imsgq : ∀ c, h.ClientOpen c → (h.conn c).imsgq = []
  client : ∀ c c' m, h.ClientOpen c → h.ClientOpen c' → h.Has c m → h.Has c' m → c = c'
  server : ∀ s s' m, h.ServerOpen s → h.ServerOpen s' → h.Has s m → h.Has s' m → s = s'
  apart : ∀ s m, h.ServerOpen s → m ∈ (h.conn s).imsgq → m ∉ (h.conn s).omsgq
  reading : ∀ c m, (h.conn c).owner ≠ none → (h.conn c).rmsg = some m →
    ∀ c', (h.conn c').owner ≠ none → h.Has c' m → c' = c ∧ m ∉ (h.conn c).imsgq ∧
    m ∉ (h.conn c).omsgq
  sending : ∀ s m, h.ServerOpen s → m ∈ (h.conn s).imsgq ∨ m ∈ (h.conn s).omsgq →
    (h.msg m).done = false ∧ (h.msg m).error = false ∧ (h.msg m).peer = none
  peer : ∀ c p r, h.ClientOpen c → p ∈ (h.conn c).omsgq → (h.msg p).peer = some r →
    (h.msg r).peer = some p ∧ r ∉ h.freeMsgq ∧ ∀ c', (h.conn c').owner ≠ none → ¬h.Has c' r

/-- Where a message of an open connection is. -/
lemma Heap.Has.place (hi : Inv (h.net g)) (ho : (h.conn c).owner ≠ none) (hm : h.Has c m) :
    g.place m = .reading c ∨ (h.ClientOpen c ∧ ∃ srv, g.place m = .req (some c) srv) ∨
      (h.ServerOpen c ∧ ∃ cli b, g.place m = .req cli (some (c, b))) := by
  have hopen : (h.net g).Open c := ho
  rcases hm with hm | hm | hm
  · obtain ⟨cli, hplace⟩ := (hi.queues.imsgq c hopen m).mp hm
    exact .inr (.inr ⟨(hi.facts.srv m cli c false hplace).1, cli, false, hplace⟩)
  · rcases hopen.cases with hc | hs
    · exact .inr (.inl ⟨hc, (hi.queues.omsgq_client c hc m).mp hm⟩)
    · obtain ⟨cli, hplace⟩ := (hi.queues.omsgq_server c hs m).mp hm
      exact .inr (.inr ⟨hs, cli, true, hplace⟩)
  · exact .inl ((hi.queues.rmsg c hopen m).mp hm)

/-- A message that a client connection has. -/
lemma Heap.Has.of_client (hi : Inv (h.net g)) (hc : h.ClientOpen c) (hm : h.Has c m) :
    g.place m = .reading c ∨ ∃ srv, g.place m = .req (some c) srv := by
  rcases hm.place hi (Net.Client.isOpen (n := h.net g) hc) with hp | ⟨-, hp⟩ | ⟨hs, -⟩
  · exact .inl hp
  · exact .inr hp
  · exact absurd rfl (Net.Client.ne (n := h.net g) hc hs)

/-- A message that a server connection has. -/
lemma Heap.Has.of_server (hi : Inv (h.net g)) (hs : h.ServerOpen s) (hm : h.Has s m) :
    g.place m = .reading s ∨ ∃ cli b, g.place m = .req cli (some (s, b)) := by
  rcases hm.place hi (Net.Server.isOpen (n := h.net g) hs) with hp | ⟨hc, -⟩ | ⟨-, hp⟩
  · exact .inl hp
  · exact absurd rfl (Net.Client.ne (n := h.net g) hc hs)
  · exact .inr hp

/-- By the invariant a message has one place, and the queues agree with the places. -/
lemma Inv.places (hi : Inv (h.net g)) : h.OnePlace where
  freeMsgq_nodup := hi.addr.free_nodup
  imsgq_nodup c hc := hi.queues.imsgq_nodup c hc
  omsgq_nodup c hc := hi.queues.omsgq_nodup c hc
  free m hm c hc hhas := by
    have hfree : g.place m = .free := (hi.addr.free m hm).1
    rcases hhas.place hi hc with hp | ⟨-, srv, hp⟩ | ⟨-, cli, b, hp⟩ <;> simp [hfree] at hp
  client_imsgq c hc := by
    refine List.eq_nil_iff_forall_not_mem.mpr fun m hm => ?_
    have hopen : (h.net g).Open c := Net.Client.isOpen (n := h.net g) hc
    obtain ⟨cli, hplace⟩ := (hi.queues.imsgq c hopen m).mp hm
    exact Net.Client.ne (n := h.net g) hc (hi.facts.srv m cli c false hplace).1 rfl
  client c c' m hc hc' hm hm' := by
    rcases hm.of_client hi hc with hp | ⟨srv, hp⟩
    · rcases hm'.of_client hi hc' with hp' | ⟨srv', hp'⟩
      · exact Place.reading.inj (hp.symm.trans hp')
      · cases hp.symm.trans hp'
    · rcases hm'.of_client hi hc' with hp' | ⟨srv', hp'⟩
      · cases hp.symm.trans hp'
      · exact Option.some.inj (Place.req.inj (hp.symm.trans hp')).1
  server s s' m hs hs' hm hm' := by
    rcases hm.of_server hi hs with hp | ⟨cli, b, hp⟩
    · rcases hm'.of_server hi hs' with hp' | ⟨cli', b', hp'⟩
      · exact Place.reading.inj (hp.symm.trans hp')
      · cases hp.symm.trans hp'
    · rcases hm'.of_server hi hs' with hp' | ⟨cli', b', hp'⟩
      · cases hp.symm.trans hp'
      · exact (Prod.mk.inj (Option.some.inj (Place.req.inj (hp.symm.trans hp')).2)).1
  apart s m hs hm hm' := by
    obtain ⟨cli, hp⟩ := (hi.queues.imsgq s (Net.Server.isOpen (n := h.net g) hs) m).mp hm
    obtain ⟨cli', hp'⟩ := (hi.queues.omsgq_server s hs m).mp hm'
    cases hp.symm.trans hp'
  reading c m hc hr c' hc' hm := by
    have hp : g.place m = .reading c := (hi.queues.rmsg c hc m).mp hr
    refine ⟨?_, fun hin => ?_, fun hout => ?_⟩
    · rcases hm.place hi hc' with hp' | ⟨-, srv, hp'⟩ | ⟨-, cli, b, hp'⟩
      · exact Place.reading.inj (hp'.symm.trans hp)
      · cases hp.symm.trans hp'
      · cases hp.symm.trans hp'
    · obtain ⟨cli, hp'⟩ := (hi.queues.imsgq c hc m).mp hin
      cases hp.symm.trans hp'
    · rcases Net.Open.cases (n := h.net g) (c := c) hc with hcl | hs
      · obtain ⟨srv, hp'⟩ := (hi.queues.omsgq_client c hcl m).mp hout
        cases hp.symm.trans hp'
      · obtain ⟨cli, hp'⟩ := (hi.queues.omsgq_server c hs m).mp hout
        cases hp.symm.trans hp'
  sending s m hs hm := by
    have hplace : ∃ cli b, g.place m = .req cli (some (s, b)) := by
      rcases hm with hm | hm
      · obtain ⟨cli, hp⟩ := (hi.queues.imsgq s (Net.Server.isOpen (n := h.net g) hs) m).mp hm
        exact ⟨cli, false, hp⟩
      · obtain ⟨cli, hp⟩ := (hi.queues.omsgq_server s hs m).mp hm
        exact ⟨cli, true, hp⟩
    obtain ⟨cli, b, hp⟩ := hplace
    obtain ⟨-, hd, he, hpeer, -⟩ := hi.facts.srv m cli s b hp
    exact ⟨hd, he, hpeer⟩
  peer c p r hc hp hpeer := by
    obtain ⟨srv, hplace⟩ := (hi.queues.omsgq_client c hc p).mp hp
    have hsrv : srv = none := by
      rcases srv with _ | ⟨s, b⟩
      · rfl
      · have hnone : (h.msg p).peer = none := (hi.facts.srv p (some c) s b hplace).2.2.2.1
        rw [hpeer] at hnone
        cases hnone
    subst hsrv
    have hr : g.place r = .rsp p := hi.facts.peer p (some c) r hplace hpeer
    refine ⟨(hi.facts.rsp r p hr).2.1, fun hmem => ?_, fun c' hc' hhas => ?_⟩
    · have hfree : g.place r = .free := (hi.addr.free r hmem).1
      simp [hr] at hfree
    · rcases hhas.place hi hc' with hp' | ⟨-, srv, hp'⟩ | ⟨-, cli, b, hp'⟩ <;> simp [hr] at hp'

/-- **Every message is in one place** between two callbacks. -/
theorem Run.onePlace (h₀ : σ₀.Init) (hr : Run Env.Splits σ₀ σ) : σ.heap.OnePlace := by
  obtain ⟨g, hs⟩ := Run.rest h₀ hr
  exact hs.inv.places

/-- The property of the run with a request that is split. -/
theorem scattered_onePlace : (oneTimed.feed scattered).heap.OnePlace :=
  Run.onePlace ⟨rfl⟩ scattered_run

/-! ## Connections -/

/-- **Every connection is on the free list or has an owner**, and the queue of a server lists its
open connections. -/
structure Heap.ConnectionsOwned (h : Heap) : Prop where
  freeConnq_nodup : h.freeConnq.Nodup
  free : ∀ c ∈ h.freeConnq, (h.conn c).owner = none
  sConnq_nodup : ∀ p i, (h.sConnq p i).Nodup
  sConnq : ∀ p i s, s ∈ h.sConnq p i ↔ (h.conn s).owner = some (.server p i)

/-- **Every connection is on the free list or has an owner** between two callbacks. -/
theorem Run.connectionsOwned (h₀ : σ₀.Init) (hr : Run Env.Splits σ₀ σ) :
    σ.heap.ConnectionsOwned := by
  obtain ⟨g, hs⟩ := Run.rest h₀ hr
  exact ⟨hs.inv.addr.cfree_nodup, fun c hc => (hs.inv.addr.cfree c hc).1, hs.inv.addr.connq_nodup,
    fun p i s => ⟨hs.inv.addr.connq p i s, hs.listed s p i⟩⟩

/-- The connections of that run. -/
theorem scattered_connectionsOwned : (oneTimed.feed scattered).heap.ConnectionsOwned :=
  Run.connectionsOwned ⟨rfl⟩ scattered_run

/-! ## Requests of a server connection -/

/-- Somebody waits for the response to request `m`: a client that is open, and still the one that
the request came from. -/
structure Heap.Awaited (h : Heap) (m : MsgId) (c : ConnId) : Prop where
  open_ : h.ClientOpen c
  owner : (h.msg m).owner = some c
  gen : (h.msg m).ownerGen = (h.conn c).gen
  mem : m ∈ (h.conn c).omsgq

/-- **A request in a queue of a server connection is awaited by its client**, unless its response is
to be dropped or none is expected; and a request that expects no response is never in the out
queue.

**Proof sketch.** The place of the request names the client that awaits it, if there is one, and the
facts about that place are the claim. -/
theorem Run.requestOwners (h₀ : σ₀.Init) (hr : Run Env.Splits σ₀ σ) (hs : σ.heap.ServerOpen s)
    (hm : m ∈ (σ.heap.conn s).imsgq ∨ m ∈ (σ.heap.conn s).omsgq) :
    ((σ.heap.msg m).swallow = true ∨ (σ.heap.msg m).noreply = true ∨ ∃ c, σ.heap.Awaited m c) ∧
      ((σ.heap.msg m).noreply = true → m ∉ (σ.heap.conn s).omsgq) := by
  obtain ⟨g, hset⟩ := Run.rest h₀ hr
  have hi := hset.inv
  have hplace : ∃ cli b, g.place m = .req cli (some (s, b)) := by
    rcases hm with hm | hm
    · obtain ⟨cli, hp⟩ := (hi.queues.imsgq s (Net.Server.isOpen (n := σ.heap.net g) hs) m).mp hm
      exact ⟨cli, false, hp⟩
    · obtain ⟨cli, hp⟩ := (hi.queues.omsgq_server s hs m).mp hm
      exact ⟨cli, true, hp⟩
  obtain ⟨cli, b, hp⟩ := hplace
  obtain ⟨-, -, -, -, hreply, hdrop⟩ := hi.facts.srv m cli s b hp
  constructor
  · cases cli with
    | none =>
      cases hn : (σ.heap.msg m).noreply with
      | true => exact .inr (.inl rfl)
      | false => exact .inl (hdrop hn rfl)
    | some c =>
      obtain ⟨hc, ho, -⟩ := hi.facts.cli m c _ hp
      exact .inr (.inr ⟨c, hc, ho.1, ho.2, (hi.queues.omsgq_client c hc m).mpr ⟨_, hp⟩⟩)
  · intro hn hout
    obtain ⟨cli', hp'⟩ := (hi.queues.omsgq_server s hs m).mp hout
    have hb : b = false := (hreply hn).1
    have heq := (Place.req.inj (hp.symm.trans hp')).2
    rw [hb] at heq
    cases heq

/-- The second fragment waits in the out-queue of the server. -/
theorem scattered_requestOwners :
    (((oneTimed.feed scattered).heap.msg 2).swallow = true ∨
      ((oneTimed.feed scattered).heap.msg 2).noreply = true ∨
        ∃ c, (oneTimed.feed scattered).heap.Awaited 2 c) ∧
      (((oneTimed.feed scattered).heap.msg 2).noreply = true →
        2 ∉ ((oneTimed.feed scattered).heap.conn 1).omsgq) :=
  Run.requestOwners (s := 1) ⟨rfl⟩ scattered_run ⟨0, 0, by decide +kernel⟩
    (.inr (by decide +kernel))

/-! ## Timers -/

/-- **The timeout tree**: a message is in it once, exactly while it has a timer, and never on the
free list. -/
structure Heap.TimersNamed (h : Heap) : Prop where
  nodup : h.tmoRbt.Nodup
  mem : ∀ m, m ∈ h.tmoRbt ↔ (h.msg m).tmoData ≠ none
  free : ∀ m ∈ h.freeMsgq, m ∉ h.tmoRbt
  holder : (∀ s, .abandon s ∉ h.log) → ∀ m ∈ h.tmoRbt, (h.msg m).done = false →
    (h.msg m).error = false → ∃ s, (h.msg m).tmoData = some s ∧ h.ServerOpen s ∧
    (m ∈ (h.conn s).imsgq ∨ m ∈ (h.conn s).omsgq)

/-- **The timer of a request that is neither done nor in error names the server connection that
holds it**, until `server_close` leaves a connection with such requests.

**Proof sketch.** By the invariant of the timers, the timer of a request that is queued names the
connection of its place. -/
theorem Run.timersNamed (h₀ : σ₀.Init) (hr : Run Env.Splits σ₀ σ) : σ.heap.TimersNamed := by
  obtain ⟨g, hs⟩ := Run.rest h₀ hr
  have ht := hs.timed
  refine ⟨ht.nodup, ht.mem, fun m hm hmem => ?_, fun hab m hm hd he => ?_⟩
  · have hfree : g.place m = .free := (hs.inv.addr.free m hm).1
    refine (ht.mem m).mp hmem (ht.untimed m ?_)
    show (g.place m).Untimed
    rw [hfree]
    trivial
  · obtain ⟨s, hdata⟩ := Option.ne_none_iff_exists'.mp ((ht.mem m).mp hm)
    rcases ht.queued m s hdata hd he with ⟨cli, b, hp⟩ | ⟨s', hs'⟩
    · have hserver := (hs.inv.facts.srv m cli s b hp).1
      refine ⟨s, hdata, hserver, ?_⟩
      cases b with
      | false => exact .inl ((hs.inv.queues.imsgq s hserver.isOpen m).mpr ⟨cli, hp⟩)
      | true => exact .inr ((hs.inv.queues.omsgq_server s hserver m).mpr ⟨cli, hp⟩)
    · exact absurd hs' (hab s')

/-- Only the second fragment has a timer. -/
theorem scattered_timersNamed :
    (oneTimed.feed scattered).heap.TimersNamed ∧ (oneTimed.feed scattered).heap.tmoRbt = [2] :=
  ⟨Run.timersNamed ⟨rfl⟩ scattered_run, by decide +kernel⟩

/-! ## The queue of a client -/

/-- Between two callbacks no sub-message is still to be forwarded, so the queue of a client holds
whole vectors. -/
lemma Settled.vec (hs : Settled (h.net g)) (hc : h.ClientOpen c) :
    Vec (h.net g).m (h.conn c).omsgq [] (h.conn c).nReq h.fragId (h.net g).Lost := by
  have hvec := hs.inv.vec c hc (hs.closing c hc)
  rwa [hs.pend] at hvec

/-- The requests next to a request that carry its fragment id. -/
lemma Heap.mem_fragRun {q : List MsgId} {x y : MsgId} (hn : q.Nodup) (hx : x ∈ q)
    (hy : y ∈ h.fragRun q x) :
    y ∈ q ∧ y ≠ x ∧ (h.msg y).fragId = (h.msg x).fragId := by
  obtain ⟨a, b, rfl, ha⟩ := List.eq_append_cons_of_mem hx
  obtain ⟨hbefore, hafter⟩ := tailq_split (b := b) ha
  have hb : x ∉ b := (List.nodup_cons.mp (List.nodup_append.mp hn).2.1).1
  simp only [Heap.fragRun, hbefore, hafter, List.mem_append] at hy
  rcases hy with hy | hy
  · have hya : y ∈ a := List.mem_reverse.mp ((List.takeWhile_prefix _).mem hy)
    refine ⟨List.mem_append_left _ hya, fun he => ha (he ▸ hya), ?_⟩
    simpa using List.mem_takeWhile_imp hy
  · have hyb : y ∈ b := (List.takeWhile_prefix _).mem hy
    refine ⟨List.mem_append_right _ (List.mem_cons_of_mem _ hyb), fun he => hb (he ▸ hyb), ?_⟩
    simpa using List.mem_takeWhile_imp hy

/-- **The queue of a client is in the order in which its requests were received**, and what
`req_done` and `req_error` find next to a fragment are the other fragments of its vector. -/
structure Heap.QueueOrdered (h : Heap) (c : ConnId) : Prop where
  sorted : (h.conn c).omsgq.Pairwise fun x y => (h.msg x).reqNo ≤ (h.msg y).reqNo
  plain : ∀ x ∈ (h.conn c).omsgq, (h.msg x).fragId = 0 →
    ∀ y ∈ (h.conn c).omsgq, (h.msg y).reqNo = (h.msg x).reqNo → y = x
  run : ∀ x ∈ (h.conn c).omsgq, (h.msg x).fragId ≠ 0 → ∀ y, y ∈ h.fragRun (h.conn c).omsgq x ↔
    y ∈ (h.conn c).omsgq ∧ y ≠ x ∧ (h.msg y).fragId = (h.msg x).fragId
  vector : ∀ x ∈ (h.conn c).omsgq, ∀ y ∈ (h.conn c).omsgq, (h.msg x).fragId = (h.msg y).fragId →
    (h.msg x).fragId ≠ 0 → (h.msg x).reqNo = (h.msg y).reqNo ∧
    (h.msg x).fragOwner = (h.msg y).fragOwner
  owner : ∀ y ∈ (h.conn c).omsgq, (h.msg y).done = false → ∀ o, (h.msg y).fragOwner = some o →
    o ∈ (h.conn c).omsgq ∧ (h.msg o).fragId = (h.msg y).fragId ∧ (h.msg o).done = true

/-- **The queue of an open client is ordered** between two callbacks. -/
theorem Run.queuesOrdered (h₀ : σ₀.Init) (hr : Run Env.Splits σ₀ σ) (hc : σ.heap.ClientOpen c) :
    σ.heap.QueueOrdered c := by
  obtain ⟨g, hs⟩ := Run.rest h₀ hr
  have hv := hs.vec hc
  have hn := hs.inv.queues.omsgq_nodup c (Net.Client.isOpen (n := σ.heap.net g) hc)
  refine ⟨hv.sorted, fun x hx hf y hy he => ?_,
    fun x hx hf y => ⟨Heap.mem_fragRun hn hx, ?_⟩, hv.vec, fun y hy hd o ho => ?_⟩
  · exact ((hv.same x hx y hy he.symm).2 hf).symm
  · rintro ⟨hy, hne, he⟩
    rcases hv.mem_run hx hn hf hy he with rfl | hrun | hrun
    · exact absurd rfl hne
    · exact List.mem_append_left _ hrun
    · exact List.mem_append_right _ hrun
  · obtain ⟨hoq, hoo, he⟩ := hv.owner y hy hd o ho
    exact ⟨hoq, he, hv.head_done o hoq hoo⟩

/-- The request and its two fragments are in the queue of the client. -/
theorem scattered_queuesOrdered :
    (oneTimed.feed scattered).heap.QueueOrdered 0 ∧
    ((oneTimed.feed scattered).heap.conn 0).omsgq = [0, 1, 2] :=
  ⟨Run.queuesOrdered ⟨rfl⟩ scattered_run ⟨0, by decide +kernel⟩, by decide +kernel⟩

/-- Fragment `y` of request `o` is not done. -/
def Heap.undone (h : Heap) (o y : MsgId) : Bool := !(h.msg y).done && (h.msg y).fragOwner = some o

/-- **The owner of a vector counts its fragments that are done**: exactly, unless one has failed in
`req_forward` without being counted. -/
structure Heap.FragmentsCounted (h : Heap) (c : ConnId) (o : MsgId) : Prop where
  le : (h.msg o).nfragDone + (h.conn c).omsgq.countP (h.undone o) ≤ (h.msg o).nfrag
  exact : (∀ i, .fwdFail i ∉ h.log) →
    (h.msg o).nfragDone + (h.conn c).omsgq.countP (h.undone o) = (h.msg o).nfrag
  verdict : (∀ i, .fwdFail i ∉ h.log) → (h.isDone (h.conn c).omsgq o = true ↔
    ∀ y ∈ (h.conn c).omsgq, (h.msg y).fragOwner = some o → (h.msg y).done = true)

/-- **The fragments of a vector are counted** between two callbacks.

**Proof sketch.** The counter and the fragments that are not done add up to the number of fragments,
by the invariant of vectors.  The fragments next to the owner are all of them, so the verdict of
`req_done` is whether none is left. -/
theorem Run.fragmentsCounted (h₀ : σ₀.Init) (hr : Run Env.Splits σ₀ σ)
    (hc : σ.heap.ClientOpen c) {o : MsgId} (ho : o ∈ (σ.heap.conn c).omsgq)
    (hoo : (σ.heap.msg o).fragOwner = some o) : σ.heap.FragmentsCounted c o := by
  obtain ⟨g, hs⟩ := Run.rest h₀ hr
  have hv := hs.vec hc
  have hn := hs.inv.queues.omsgq_nodup c (Net.Client.isOpen (n := σ.heap.net g) hc)
  have hle : (σ.heap.msg o).nfragDone + (σ.heap.conn c).omsgq.countP (σ.heap.undone o) ≤
      (σ.heap.msg o).nfrag :=
    (Nat.le_add_right _ _).trans (hv.count o ho hoo)
  have hzero : (σ.heap.conn c).omsgq.countP (σ.heap.undone o) = 0 ↔
      ∀ y ∈ (σ.heap.conn c).omsgq, (σ.heap.msg y).fragOwner = some o →
      (σ.heap.msg y).done = true := by
    rw [List.countP_eq_zero]
    refine forall₂_congr fun y _ => ?_
    cases hd : (σ.heap.msg y).done <;> simp [Heap.undone, hd]
  have hexact : (∀ i, .fwdFail i ∉ σ.heap.log) →
      (σ.heap.msg o).nfragDone + (σ.heap.conn c).omsgq.countP
      (σ.heap.undone o) = (σ.heap.msg o).nfrag :=
    fun hlost => hv.exact (fun ⟨i, hmem⟩ => hlost i hmem) o ho hoo
  refine ⟨hle, hexact, fun hlost => ?_⟩
  have hcount := hexact hlost
  have hfrag : (σ.heap.msg o).fragId ≠ 0 := fun h => by
    have hnone : (σ.heap.msg o).fragOwner = none := (hv.plain o ho).mpr h
    rw [hoo] at hnone
    cases hnone
  have hdone : (σ.heap.msg o).done = true := hv.head_done o ho hoo
  rw [← hzero]
  constructor
  · intro h
    simp only [Heap.isDone, hdone, hfrag, Bool.true_and, Bool.or_eq_true, Bool.and_eq_true,
      decide_eq_true_eq, decide_false, Bool.false_or] at h
    rcases h with hmark | ⟨hn', -⟩
    · refine hzero.mpr fun y hy hf => ?_
      by_contra hd
      rw [Bool.not_eq_true] at hd
      have he := (hv.owner y hy hd o hf).2.2
      have hd' : (σ.heap.msg y).done = true := hv.marked o ho hmark hfrag y hy he.symm
      rw [hd] at hd'
      cases hd'
    · omega
  · intro h
    have hall : (σ.heap.fragRun (σ.heap.conn c).omsgq o).all (fun y => (σ.heap.msg y).done) =
        true := by
      refine List.all_eq_true.mpr fun y hy => ?_
      obtain ⟨hyq, -, he⟩ := Heap.mem_fragRun hn ho hy
      have howner : (σ.heap.msg y).fragOwner = (σ.heap.msg o).fragOwner :=
        (hv.vec y hyq o ho he (he.trans_ne hfrag)).2
      exact hzero.mp h y hyq (howner.trans hoo)
    have hn' : (σ.heap.msg o).nfrag ≤ (σ.heap.msg o).nfragDone := by omega
    simp [Heap.isDone, hdone, hn', hall]

/-- One of the two fragments is done. -/
theorem scattered_fragmentsCounted :
    (oneTimed.feed scattered).heap.FragmentsCounted 0 0 ∧
    ((oneTimed.feed scattered).heap.msg 0).nfragDone = 1 :=
  ⟨Run.fragmentsCounted ⟨rfl⟩ scattered_run ⟨0, by decide +kernel⟩ (by decide +kernel)
    (by decide +kernel), by decide +kernel⟩

/-! ## Answers to a client -/

/-- **A request that is done has something to send**: it is in error, or its vector is marked
`ferror`, or it is linked to its response.

**Proof sketch.** A request that is done has left the server connections, so the invariant of
answered requests says what there is to send. -/
theorem Run.responsesReady (h₀ : σ₀.Init) (hr : Run Env.Splits σ₀ σ) (hc : σ.heap.ClientOpen c)
    (hp : p ∈ (σ.heap.conn c).omsgq) (hd : (σ.heap.msg p).done = true) :
    (σ.heap.msg p).error = true ∨ (σ.heap.msg p).fragId ≠ 0 ∧ (σ.heap.msg p).ferror = true ∨
      ∃ r, (σ.heap.msg p).peer = some r ∧ (σ.heap.msg r).peer = some p := by
  obtain ⟨g, hs⟩ := Run.rest h₀ hr
  obtain ⟨srv, hplace⟩ := (hs.inv.queues.omsgq_client c hc p).mp hp
  have hsrv : srv = none := by
    rcases srv with _ | ⟨s, b⟩
    · rfl
    · have hd' : (σ.heap.msg p).done = false := (hs.inv.facts.srv p (some c) s b hplace).2.1
      rw [hd] at hd'
      cases hd'
  subst hsrv
  rcases hs.answered p c ⟨hplace, hs.closing c hc, hd⟩ with he | he | hpeer
  · exact .inl he
  · exact .inr (.inl he)
  · obtain ⟨r, hr'⟩ := Option.ne_none_iff_exists'.mp hpeer
    have hrp := hs.inv.facts.peer p (some c) r hplace hr'
    exact .inr (.inr ⟨r, hr', (hs.inv.facts.rsp r p hrp).2.1⟩)

/-- The first fragment is linked to its response. -/
theorem scattered_responsesReady :
    ((oneTimed.feed scattered).heap.msg 1).error = true ∨
      ((oneTimed.feed scattered).heap.msg 1).fragId ≠ 0 ∧
      ((oneTimed.feed scattered).heap.msg 1).ferror = true ∨
      ∃ r, ((oneTimed.feed scattered).heap.msg 1).peer = some r ∧
        ((oneTimed.feed scattered).heap.msg r).peer = some 1 :=
  Run.responsesReady (c := 0) ⟨rfl⟩ scattered_run ⟨0, by decide +kernel⟩ (by decide +kernel)
    (by decide +kernel)

/-- **No wakeup is lost.**  A client whose next response is ready is registered for write events,
and a write notification is pending or its socket was full at the last write, unless a registration
has failed or a notification has been consumed by a queue whose head was not done.

**Proof sketch.** Between two callbacks nobody is due and nobody has just consumed a notification,
so the invariants of wakeups hold without their exceptions. -/
theorem Run.clientsAwake (h₀ : σ₀.Init) (hr : Run Env.Splits σ₀ σ) (hc : σ.heap.ClientOpen c)
    (hno : ∀ c, .noWake c ∉ σ.heap.log) (hidle : ∀ c, .idle c ∉ σ.heap.log)
    (hhead : (σ.heap.conn c).omsgq.head? = some m)
    (hd : σ.heap.isDone (σ.heap.conn c).omsgq m = true) : (σ.heap.conn c).sendActive = true ∧
    ((σ.heap.conn c).evOut = true ∨ (σ.heap.conn c).lastShort = true) := by
  obtain ⟨g, hs⟩ := Run.rest h₀ hr
  have hcl := hs.closing c hc
  have hact : (σ.heap.conn c).sendActive = true := by
    refine (hs.roused c hc hcl ?_ ⟨m, hhead, hd⟩).resolve_right fun ⟨c', h⟩ => hno c' h
    rw [hs.due]
    exact Set.notMem_empty _
  refine ⟨hact, (hs.notified c hc hcl ?_ hact).resolve_right fun ⟨c', h⟩ => hidle c' h⟩
  rw [hs.cold]
  exact Set.notMem_empty _

/-- What is not in the log, if nothing was logged on the side. -/
lemma not_mem_of_quiet {log : List Ev} (h : (log.any Ev.isNote) = false) {e : Ev}
    (he : e.isNote = true) : e ∉ log :=
  fun hmem => List.any_eq_false.mp h e hmem he

/-- The first response is written, and the socket is full. -/
theorem pipelined_clientsAwake :
    ((oneTimed.feed pipelined).heap.conn 0).sendActive = true ∧
      (((oneTimed.feed pipelined).heap.conn 0).evOut = true ∨
        ((oneTimed.feed pipelined).heap.conn 0).lastShort = true) := by
  have hlog : ((oneTimed.feed pipelined).heap.log.any Ev.isNote) = false := by decide +kernel
  refine Run.clientsAwake (m := 1) ⟨rfl⟩ pipelined_run ⟨0, by decide +kernel⟩
    (fun _ => not_mem_of_quiet hlog rfl) (fun _ => not_mem_of_quiet hlog rfl) (by decide +kernel)
    (by decide +kernel)

/-! ## Responses of a server connection -/

/-- **Requests and responses of an open server connection are paired**: the response received as the
`k`-th one was matched with the request sent as the `k`-th one, and the requests that have no
response yet are those in the out queue, in the same order.

**Proof sketch.** The ids that were sent are those that were answered followed by those in the
out-queue. -/
theorem Run.responsesPaired (h₀ : σ₀.Init) (hr : Run Env.Splits σ₀ σ) (hs : σ.heap.ServerOpen s) :
    (σ.heap.conn s).answers.map Answer.request =
        ((σ.heap.conn s).sent.take (σ.heap.conn s).answers.length).map some ∧
      (σ.heap.conn s).omsgq.map (fun m => (σ.heap.msg m).id) =
        (σ.heap.conn s).sent.drop (σ.heap.conn s).answers.length := by
  obtain ⟨g, hset⟩ := Run.rest h₀ hr
  have hpair : (σ.heap.conn s).sent.map some = (σ.heap.conn s).answers.map Answer.request ++
      (σ.heap.conn s).omsgq.map fun m => some (σ.heap.msg m).id :=
    hset.paired s hs (hset.shut s (Net.Server.isOpen (n := σ.heap.net g) hs))
  have hlen : ((σ.heap.conn s).answers.map Answer.request).length =
      (σ.heap.conn s).answers.length := List.length_map _
  constructor
  · rw [List.map_take, hpair, List.take_left' hlen]
  · refine List.map_injective_iff.mpr (Option.some_injective _) ?_
    rw [List.map_drop, hpair, List.drop_left' hlen, List.map_map]
    rfl

/-- One response was received, for the first of the two requests sent. -/
theorem scattered_responsesPaired :
    ((oneTimed.feed scattered).heap.conn 1).answers.map Answer.request =
        (((oneTimed.feed scattered).heap.conn 1).sent.take
          ((oneTimed.feed scattered).heap.conn 1).answers.length).map
          some ∧
      ((oneTimed.feed scattered).heap.conn 1).omsgq.map
        (fun m => ((oneTimed.feed scattered).heap.msg m).id) =
        ((oneTimed.feed scattered).heap.conn 1).sent.drop
          ((oneTimed.feed scattered).heap.conn 1).answers.length :=
  Run.responsesPaired ⟨rfl⟩ scattered_run ⟨0, 0, by decide +kernel⟩

/-! ## Closed clients -/

/-- **Nothing is done on behalf of a client that is gone**: none of its requests is linked to a
response or counted as a fragment, and a client connection is touched for it only once a server
connection has been abandoned. -/
theorem Run.clientsIsolated (h₀ : σ₀.Init) (hr : Run Env.Splits σ₀ σ) :
    (∀ i, .link i true ∉ σ.heap.log) ∧ (∀ i b, .fragInc i true b ∉ σ.heap.log) ∧
      ∀ c i, .touch c i true ∈ σ.heap.log → ∃ s, .abandon s ∈ σ.heap.log := by
  obtain ⟨g, hs⟩ := Run.rest h₀ hr
  exact ⟨hs.isolated.link, hs.isolated.fragInc, hs.isolated.touch⟩

/-- Objects are reused in this run. -/
theorem pipelined_clientsIsolated :
    (∀ i, .link i true ∉ (oneTimed.feed pipelined).heap.log) ∧
      (∀ i b, .fragInc i true b ∉ (oneTimed.feed pipelined).heap.log) ∧
      ∀ c i, .touch c i true ∈ (oneTimed.feed pipelined).heap.log → ∃ s,
      .abandon s ∈ (oneTimed.feed pipelined).heap.log :=
  Run.clientsIsolated ⟨rfl⟩ pipelined_run

/-- **A message is released once, and a request is linked to a response once**: the ids in the log
are distinct, and no message of an open connection has been released. -/
theorem Run.releasedOnce (h₀ : σ₀.Init) (hr : Run Env.Splits σ₀ σ) :
    (σ.heap.log.filterMap Ev.released).Nodup ∧ (σ.heap.log.filterMap Ev.linked).Nodup ∧
      ∀ c m, (σ.heap.conn c).owner ≠ none → σ.heap.Has c m →
        (σ.heap.msg m).id ∉ σ.heap.log.filterMap Ev.released ∧
        ∀ c' m', (σ.heap.conn c').owner ≠ none → σ.heap.Has c' m' →
        (σ.heap.msg m').id = (σ.heap.msg m).id → m' = m := by
  obtain ⟨g, hs⟩ := Run.rest h₀ hr
  have hlive : ∀ c m, (σ.heap.conn c).owner ≠ none → σ.heap.Has c m → (σ.heap.net g).Live m := by
    intro c m hc hm hfree
    have hfree' : g.place m = .free := hfree
    rcases hm.place hs.inv hc with hp | ⟨-, srv, hp⟩ | ⟨-, cli, b, hp⟩ <;> simp [hfree'] at hp
  refine ⟨hs.ids.released_once, hs.ids.linked_once,
    fun c m hc hm => ⟨fun hmem => ?_, fun c' m' hc' hm' he => ?_⟩⟩
  · exact (hs.ids.released _ hmem).2 m (hlive c m hc hm) rfl
  · exact hs.ids.inj m' m (hlive c' m' hc' hm') (hlive c m hc hm) he

/-- The request and the response that were released first had ids 1 and 3. -/
theorem pipelined_releasedOnce :
    ((oneTimed.feed pipelined).heap.log.filterMap Ev.released).Nodup ∧
      (oneTimed.feed pipelined).heap.log.filterMap Ev.released = [1, 3] :=
  ⟨(Run.releasedOnce ⟨rfl⟩ pipelined_run).1, by decide +kernel⟩

end GfwProxy
