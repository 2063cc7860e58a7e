import GfwProxy.Proxy.After

set_option autoImplicit false

/-!
# Closing a server connection

What `server_close` leaves of a connection whose socket is open.

## Main definitions

* `GfwProxy.ServerClosed` — the connection is closed: its requests are failed or released, the
  metrics of its server are adjusted, and it is back on the free list.

## Main results

* `GfwProxy.serverClose_open` — `server_close` never closes a connection whose socket is open.

## Design

`server_close` drains the queues only if `sd` is not positive; with an open socket it takes the
exit that is meant for a connection without one.
-/

namespace GfwProxy

/-- The requests that `server_close` is to release: those whose client is gone, and those that are
not sent and expect no reply. -/
def Heap.dropped (h : Heap) (s : ConnId) : List MsgId :=
  (h.conn s).imsgq.filter (fun m => (h.msg m).swallow || (h.msg m).noreply) ++
    (h.conn s).omsgq.filter (fun m => (h.msg m).swallow)

/-- The requests that `server_close` is to fail. -/
def Heap.failed (h : Heap) (s : ConnId) : List MsgId :=
  (h.conn s).imsgq.filter (fun m => !((h.msg m).swallow || (h.msg m).noreply)) ++
    (h.conn s).omsgq.filter (fun m => !(h.msg m).swallow)

/-- The length of all requests of a list. -/
def Heap.bytes (h : Heap) (q : List MsgId) : ℤ := (q.map fun m => ((h.msg m).mlen : ℤ)).sum

/-- From `σ` to `σ'`, connection `s` to server `i` of pool `p` has been closed. -/
structure ServerClosed (σ σ' : St) (s : ConnId) (p i : ℕ) : Prop where
  imsgq : (σ'.heap.conn s).imsgq = []
  omsgq : (σ'.heap.conn s).omsgq = []
  rmsg : (σ'.heap.conn s).rmsg = none
  failed : ∀ m ∈ σ.heap.failed s, (σ'.heap.msg m).done = true ∧ (σ'.heap.msg m).error = true ∧
    (σ'.heap.msg m).err = (σ.heap.conn s).err
  counted : ∀ o, (σ'.heap.msg o).nfragDone = (σ.heap.msg o).nfragDone +
    (σ.heap.failed s).countP fun m => (σ.heap.msg m).fragOwner = some o
  released : ∀ m ∈ σ.heap.dropped s,
    σ'.heap.freeMsgq.count m = σ.heap.freeMsgq.count m + 1
  inQueue : σ'.serverStat p i .inQueue =
    σ.serverStat p i .inQueue - (σ.heap.conn s).imsgq.length
  inQueueBytes : σ'.serverStat p i .inQueueBytes =
    σ.serverStat p i .inQueueBytes - σ.heap.bytes (σ.heap.conn s).imsgq
  outQueue : σ'.serverStat p i .outQueue =
    σ.serverStat p i .outQueue - (σ.heap.conn s).omsgq.length
  outQueueBytes : σ'.serverStat p i .outQueueBytes =
    σ.serverStat p i .outQueueBytes - σ.heap.bytes (σ.heap.conn s).omsgq
  sd : (σ'.heap.conn s).sd = -1
  owner : (σ'.heap.conn s).owner = none
  put : σ'.heap.freeConnq = s :: σ.heap.freeConnq

variable {env : Env} {h : Heap} {s : ConnId}

/-! ## The exit for an open socket -/

/-- `server_failure` does not touch the objects. -/
lemma serverFailureOf_heap (p i : ℕ) :
    After (serverFailureOf env p i) (fun _ h' => h' = h) h := by
  unfold serverFailureOf
  refine After.ask fun _ => After.ask fun _ => After.ask fun _ => After.runPool fun r => ?_
  cases r with
  | none => exact After.pure rfl
  | some now =>
    refine After.statsServerSetTs (After.last (After.statsPool ?_))
    exact After.pure rfl

/-- `server_close_stats` does not touch the objects. -/
lemma serverCloseStats_heap (p i : ℕ) (err : ℤ) (eof connected : Bool) :
    After (serverCloseStats p i err eof connected) (fun _ h' => h' = h) h := by
  have hstat : ∀ name val, After (statsServer p i name val) (fun _ h' => h' = h) h :=
    fun _ _ => After.last (After.statsServer (After.pure rfl))
  unfold serverCloseStats
  refine After.onlyIf (fun _ => hstat _ _) (fun _ => rfl) ?_
  rintro h' rfl
  exact After.ite (fun _ => hstat _ _) fun _ => After.ite (fun _ => hstat _ _) fun _ => hstat _ _

/-- With an open socket, `server_close` leaves the socket as it is. -/
lemma serverClose_sd (hs : 0 < (h.conn s).sd) :
    After (serverClose env s) (fun _ h' => (h'.conn s).sd = (h.conn s).sd) h := by
  unfold serverClose
  refine After.getConn (After.ownerServer fun p i _ => ?_)
  refine After.skip (serverCloseStats_heap _ _ _ _ _) fun _ => After.modConn ?_
  refine After.ite (fun _ => ?_) fun hle => absurd hs hle
  refine After.readHeap (After.onlyIf (Q := fun _ h' => h'.conn = _) (fun _ => ?_)
    (fun _ => rfl) ?_)
  · exact After.last (After.emit (After.pure rfl))
  intro h₁ hconn
  refine After.skip (serverFailureOf_heap _ _) fun _ => ?_
  refine After.call (R := fun _ h' => (h'.conn s).sd = (h.conn s).sd) ?_ fun _ h₂ hsd =>
    After.last (After.modHeap (After.pure ?_))
  · unfold serverUnref
    refine After.ownerServer fun _ _ _ => After.modConn (After.last (After.modHeap (After.pure ?_)))
    simp [Heap.setConnq, Heap.modConn, hconn]
  · simpa [Heap.connPut, Heap.modConn] using hsd

/-- **`server_close` never closes a connection whose socket is open**: it leaves the socket open.

**Proof sketch.** The first exit only takes the connection from its server and puts it on the free
list. -/
theorem serverClose_open (env : Env) (σ : St) (s : ConnId) (p i : ℕ)
    (hs : 0 < (σ.heap.conn s).sd) :
    ¬∃ σ', serverClose env s σ = .ok ((), σ') ∧ ServerClosed σ σ' s p i := by
  rintro ⟨σ', hr, hclosed⟩
  have hsd := (serverClose_sd hs).elim rfl hr
  have hclosed := hclosed.sd
  omega

/-- A server connection with socket 5 and one request to send, which client 1 waits for. -/
def busyServer : St where
  heap :=
    { conn := fun c =>
        if c = 0 then { owner := some (.server 0 0), sd := 5, imsgq := [0], err := etimedout }
        else if c = 1 then { owner := some (.pool 0), sd := 6, omsgq := [0], client := true }
        else {}
      msg := fun _ => { id := 1, owner := some 1, keys := some [[7]], request := true }
      nextConn := 2, nextMsg := 1, msgId := 1
      sConnq := fun p i => if p = 0 ∧ i = 0 then [0] else [] }
  pool := fun _ => { server := [{ name := [], weight := 1 }], timeout := 100 }

/-- The state before the close has a request in the queue of the server. -/
theorem busyServer_serverClose_open :
    ¬∃ σ', serverClose {} 0 busyServer = .ok ((), σ') ∧ ServerClosed busyServer σ' 0 0 0 :=
  serverClose_open {} busyServer 0 0 0 (by decide)

/-- The request stays in the queue of the connection object, which is back on the free list. -/
theorem not_forall_serverClosed :
    ¬∀ (env : Env) (σ : St) (s : ConnId) (p i : ℕ),
      (σ.heap.conn s).owner = some (.server p i) → 0 < (σ.heap.conn s).sd →
      ∃ σ', serverClose env s σ = .ok ((), σ') ∧ ServerClosed σ σ' s p i := by
  intro h
  obtain ⟨σ', hr, hclosed⟩ := h {} busyServer 0 0 0 (by decide) (by decide)
  have himsgq : (serverClose {} 0 busyServer).map (fun r => (r.2.heap.conn 0).imsgq) = .ok [0] := by
    rfl
  rw [hr] at himsgq
  have hnil := hclosed.imsgq
  simp [Except.map, hnil] at himsgq

end GfwProxy
