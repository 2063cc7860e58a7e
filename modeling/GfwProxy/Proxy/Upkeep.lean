import GfwProxy.Proxy.Quiet

set_option autoImplicit false

/-!
# Invariants of the event loop

What every input maintains, if the functions that open, write to and close connections and the read
handlers maintain it.  Everything in between is quiet (`GfwProxy.Quiet`).

## Main definitions

* `GfwProxy.Upkeep` — what is to be shown of an invariant.

## Main results

* `GfwProxy.Upkeep.step` — every input maintains the invariant.
* `GfwProxy.Run.upkeep` — it holds in every run.
-/

namespace GfwProxy

open Exec

/-- What is to be shown of an invariant `I` of the part `π` of the state, with the answers `env` of
the environment. -/
structure Upkeep {γ : Type} (env : Env) (π : St → γ) (I : γ → Prop) : Prop where
  accept : ∀ p sd, Maintains π I (proxyAccept env p sd)
  preconnect : ∀ p i, Maintains π I (serverEachPreconnect env p i)
  recvNext : ∀ c alloc, Maintains π I (connRecvNext env c alloc)
  recvDone : ∀ c m nmsg, Maintains π I (connRecvDone env c m nmsg)
  send : ∀ c, Maintains π I (msgSend env c)
  clientClose : ∀ c, Maintains π I (clientClose c)
  serverClose : ∀ s, Maintains π I (serverClose env s)

variable {γ : Type} {env : Env} {π : St → γ} [Part π] {I : γ → Prop}

section Requests

/-- Forwarding a request maintains what `server_pool_conn` maintains. -/
lemma maintains_reqForward (hconn : ∀ p key, Maintains π I (serverPoolConn env p key)) (c : ConnId)
    (m : MsgId) : Maintains π I (reqForward env c m) := by
  unfold reqForward
  refine .skip (Quiet.getMsg m) fun msg => ?_
  refine .skip (Quiet.onlyIf _ (.expectReply c m)) fun _ => ?_
  refine .skip (Quiet.firstKey m) fun key => .skip (Quiet.ownerPool c) fun p => ?_
  refine .bind (hconn p key) fun r => ?_
  cases r with
  | none =>
    exact .skip (Quiet.countFragment m) fun _ => (Quiet.reqForwardError c m).maintains
  | some s =>
    refine .skip (Quiet.waitOut s) fun ok => .ite (Quiet.reqForwardFailed c s m).maintains ?_
    refine .skip (Quiet.ensureAuth s) fun ok => .ite (Quiet.reqForwardFailed c s m).maintains ?_
    exact .skip (Quiet.reqServerEnqueueImsgq s m) fun _ => (Quiet.reqForwardStats s m).maintains

/-- The same for the requests of a list. -/
lemma maintains_reqForwards (hconn : ∀ p key, Maintains π I (serverPoolConn env p key))
    (c : ConnId) (ms : List MsgId) : Maintains π I (reqForwards env c ms) := by
  induction ms with
  | nil => exact .pure _
  | cons m ms ih => exact .bind (maintains_reqForward hconn c m) fun _ => ih

/-- The same for `req_recv_done`. -/
lemma maintains_reqRecvDone (hconn : ∀ p key, Maintains π I (serverPoolConn env p key))
    (c : ConnId) (m : MsgId) (nmsg : Option MsgId) :
    Maintains π I (reqRecvDone env c m nmsg) := by
  unfold reqRecvDone
  refine .skip (Quiet.modConn c fun _ => ⟨rfl, rfl⟩) fun _ => ?_
  refine .skip (Quiet.reqFilter c m) fun filtered => .ite (.pure _) ?_
  refine .skip (Quiet.numberReq c m) fun _ => .skip (Quiet.getMsg m) fun msg => ?_
  refine .ite (Quiet.reqReply c m).maintains (.skip (Quiet.fragmentCb c m) fun subs => ?_)
  refine .skip (Quiet.onlyIf _ (.reqRecvError c m _)) fun _ => ?_
  refine .ite (maintains_reqForward hconn c m) (.skip (Quiet.reqMakeReply c m) fun ok => ?_)
  exact .skip (Quiet.onlyIf _ (.reqRecvError c m _)) fun _ => maintains_reqForwards hconn c subs

end Requests

namespace Upkeep

variable (hup : Upkeep env π I)

include hup

/-! ## Receiving -/

/-- `msg_parsed` hands the message to the handler, with what is behind it. -/
lemma msgParsed (c : ConnId) (m : MsgId) (left : ℕ) :
    Maintains π I (msgParsed env c m left) := by
  unfold GfwProxy.msgParsed msgSplit
  refine .ite (.bind (hup.recvDone c m none) fun _ => .pure _) ?_
  refine .skip (Quiet.ask _) fun ok => .ite ?_ (.pure _)
  refine .skip (Quiet.getMsg m) fun msg => .skip (Quiet.deref _) fun o => ?_
  refine .skip (Quiet.msgGet o _) fun r => ?_
  cases r with
  | none => exact .pure _
  | some nmsg =>
    exact .skip (Quiet.modMsg nmsg _) fun _ => .bind (hup.recvDone c m _) fun _ => .pure _

/-- What `msg_parse` does with the result of the parser. -/
lemma msgResult (c : ConnId) (m : MsgId) (r : Parse) : Maintains π I (msgResult env c m r) := by
  cases r with
  | ok p left => exact .skip (Quiet.modMsg m _) fun _ => hup.msgParsed c m left
  | repair => exact .skip (Quiet.ask _) fun ok => .ite (.pure _) (.pure _)
  | again => exact .pure _
  | failed => exact .skip (Quiet.setErrno c) fun _ => .pure _

/-- `msg_parse`. -/
lemma msgParse (c : ConnId) (m : MsgId) : Maintains π I (msgParse env c m) := by
  unfold GfwProxy.msgParse
  refine .skip (Quiet.getMsg m) fun msg => .ite ?_ ?_
  · exact .bind (hup.recvDone c m none) fun _ => .pure _
  · refine .skip (Quiet.ask _) fun r => .bind (hup.msgResult c m r) fun status => ?_
    exact .skip (Quiet.getConn c) fun conn => .pure _

/-- The parse loop, by induction on the number of rounds. -/
lemma msgParseLoop (c : ConnId) (fuel : ℕ) (m : MsgId) :
    Maintains π I (msgParseLoop env c fuel m) := by
  induction fuel generalizing m with
  | zero => exact (Quiet.fault _).maintains
  | succ fuel ih =>
    unfold GfwProxy.msgParseLoop
    refine .bind (hup.msgParse c m) fun status => .ite (.pure _) ?_
    refine .bind (hup.recvNext c false) fun r => ?_
    cases r with
    | none => exact .pure _
    | some nmsg => exact .ite (.pure _) (ih nmsg)

/-- `msg_recv_chain`. -/
lemma msgRecvChain (c : ConnId) (m : MsgId) : Maintains π I (msgRecvChain env c m) := by
  unfold GfwProxy.msgRecvChain
  refine .skip (Quiet.ask _) fun ok => .ite (.skip (Quiet.connRecv c) fun r => ?_) (.pure _)
  obtain ⟨status, n⟩ := r
  cases status with
  | ok => exact .skip (Quiet.modMsg m _) fun _ => hup.msgParseLoop c _ m
  | eagain => exact .pure _
  | error => exact .pure _
  | enomem => exact .pure _

/-- The loop of `msg_recv`, by induction on the number of rounds. -/
lemma msgRecvLoop (c : ConnId) (fuel : ℕ) : Maintains π I (msgRecvLoop env c fuel) := by
  induction fuel with
  | zero => exact (Quiet.fault _).maintains
  | succ fuel ih =>
    unfold GfwProxy.msgRecvLoop
    refine .bind (hup.recvNext c true) fun r => ?_
    cases r with
    | none => exact .pure _
    | some m =>
      refine .bind (hup.msgRecvChain c m) fun status => .ite (.pure _) ?_
      exact .skip (Quiet.getConn c) fun conn => .ite ih (.pure _)

/-- `msg_recv`. -/
lemma msgRecv (c : ConnId) : Maintains π I (msgRecv env c) :=
  .skip (Quiet.modConn c fun _ => ⟨rfl, rfl⟩) fun _ => hup.msgRecvLoop c env.fuel

/-! ## The event loop -/

/-- `core_close`. -/
lemma coreClose (c : ConnId) : Maintains π I (coreClose env c) := by
  unfold GfwProxy.coreClose
  refine .skip (Quiet.eventDelConn c) fun _ => .skip (Quiet.getConn c) fun conn => ?_
  exact .ite (hup.clientClose c) (hup.serverClose c)

/-- The write half of `core_core`. -/
lemma coreSend (c : ConnId) : Maintains π I (coreSend env c) :=
  .bind (hup.send c) fun status =>
    .skip (Quiet.mustClose c status) fun _ => .ite (hup.coreClose c) (.pure _)

/-- `core_core`. -/
lemma coreCore (c : ConnId) (err read write : Bool) :
    Maintains π I (coreCore env c err read write) := by
  have hsend : Maintains π I (onlyIf write (GfwProxy.coreSend env c)) :=
    .ite (hup.coreSend c) (.pure _)
  unfold GfwProxy.coreCore
  refine .skip (Quiet.getConn c) fun conn => .ite (.pure _) (.ite ?_ (.ite ?_ hsend))
  · exact .skip (Quiet.ask _) fun e =>
      .skip (Quiet.modConn c fun _ => ⟨rfl, rfl⟩) fun _ => hup.coreClose c
  · refine .bind (hup.msgRecv c) fun status => ?_
    exact .skip (Quiet.mustClose c status) fun _ => .ite (hup.coreClose c) hsend

/-- The loop of `core_timeout`, by induction on the number of rounds. -/
lemma coreTimeoutLoop (fuel : ℕ) : Maintains π I (coreTimeoutLoop env fuel) := by
  induction fuel with
  | zero => exact (Quiet.fault _).maintains
  | succ fuel ih =>
    unfold GfwProxy.coreTimeoutLoop
    refine .skip (Quiet.readHeap _) fun r => ?_
    cases r with
    | none => exact (Quiet.setTimeout _).maintains
    | some m =>
      refine .skip (Quiet.getMsg m) fun msg => .ite ?_ ?_
      · exact .skip (Quiet.tmoDelete m) fun _ => ih
      refine .skip (Quiet.deref _) fun s => .skip (Quiet.ask _) fun now => ?_
      refine .ite (Quiet.setTimeout _).maintains (.skip (Quiet.tmoDelete m) fun _ => ?_)
      refine .skip (Quiet.getConn s) fun conn => ?_
      refine .skip (Quiet.onlyIf _ (.touch s m)) fun _ => ?_
      refine .skip (Quiet.modConn s fun _ => ⟨rfl, rfl⟩) fun _ => ?_
      exact .bind (hup.coreClose s) fun _ => ih

/-- **Every input maintains the invariant.** -/
theorem step (input : Input) : Maintains π I (step env input) := by
  cases input with
  | accept p sd => exact hup.accept p sd
  | event c err read write =>
    exact .skip (Quiet.onlyIf _ (.deliver c)) fun _ => hup.coreCore c err read write
  | timeout => exact .skip (Quiet.readHeap _) fun n => hup.coreTimeoutLoop _
  | writable c => exact (Quiet.becomeWritable c).maintains
  | preconnect p i => exact hup.preconnect p i

end Upkeep

/-- **The invariant holds in every run**, by induction on the run. -/
theorem Run.upkeep {P : Env → Prop} {σ₀ σ : St} (hup : ∀ env, P env → Upkeep env π I)
    (h₀ : I (π σ₀)) (hr : Run P σ₀ σ) : I (π σ) := by
  induction hr with
  | init => exact h₀
  | @step σ σ' hr env henv input h ih =>
    have hstart : π σ.start = π σ := Part.rest σ σ.start rfl fun _ _ => rfl
    exact ((hup env henv).step input _ ih).elim hstart h

end GfwProxy
