import GfwProxy.Proxy.Connect
import GfwProxy.Proxy.Upkeep

set_option autoImplicit false

/-!
# Connected server connections

The gauge `server_connections` counts the connections of a server that are connected, and the hook
`post_connect` is to be called on each of them before a request is sent.  `server_connected`
(`gf_server.c`) does both when a write event reports that the connection is established;
`server_connect` does neither when `connect` succeeds at once, and `server_close` undoes the first
whichever of the two has connected the connection.

## Main definitions

* `GfwProxy.St.Accounted` — the gauge of a server is the number of its connected connections, and
  the hook was called exactly once on each of these, before any byte was written.

## Main results

* `GfwProxy.connSendNext_entry` — before a request is sent, the hook has been called.
* `GfwProxy.Run.accounted` — every server is accounted for in every run in which `connect` never
  succeeds at once.
-/

namespace GfwProxy

open Exec

/-- The gauge of server `i` of pool `p` is the number of its connections that are connected; on
each of these `post_connect` was called exactly once, before any byte was written, and on the
others neither has happened. -/
structure St.Accounted (σ : St) (p i : ℕ) : Prop where
  gauge : σ.serverStat p i .serverConnections =
    (σ.heap.sConnq p i).countP fun s => (σ.heap.conn s).connected
  posted : ∀ s ∈ σ.heap.sConnq p i, (σ.heap.conn s).connected = true → (σ.heap.conn s).posted = [0]
  closed : ∀ s ∈ σ.heap.sConnq p i, (σ.heap.conn s).connected = false →
    (σ.heap.conn s).posted = [] ∧ (σ.heap.conn s).out = []

section Functions

open Ledger

variable {env : Env} {l : Ledger} {p i : ℕ} {c s : ConnId}

/-! ## Client connections -/

/-- `client_close` keeps the invariant. -/
lemma clientClose_maintains (c : ConnId) : Maintains St.ledger Ledger.Ok (clientClose c) := by
  intro l hl
  have hunref : ∀ (l' : Ledger) (p : ℕ), (l'.link c).owner = some (.pool p) → Entry (clientUnref c)
      (fun _ l'' => l'' = l'.setLink c { l'.link c with owner := none }) l' := by
    intro l' p ho
    unfold clientUnref
    refine Entry.ownerPool fun p' _ => Entry.last ?_
    exact Entry.modConn (fun x => { x with owner := none }) (fun _ => rfl) (Entry.pure rfl)
  have hstats : ∀ p eof, Quiet St.ledger (clientCloseStats p eof) := fun p eof =>
    .bind (.statsPool p _ _) fun _ => .statsPool p _ _
  unfold clientClose
  refine Entry.getConn fun conn _ => Entry.ownerPool fun p ho => Entry.skip (hstats p _) fun _ => ?_
  have hrelease : ∀ x : Link, x.owner = none →
      Ledger.Ok { l.setLink c x with free := c :: l.free } := by
    intro x hx
    exact hl.release (by simp [ho]) (fun p' i' => by simp [ho]) hx
  refine Entry.ite (fun _ => ?_) fun _ => ?_
  · refine Entry.call (hunref l p ho) ?_
    rintro _ _ rfl
    refine (connPut_entry c).mono ?_
    rintro _ _ rfl
    exact hrelease _ rfl
  · refine Entry.skip (.discardReq c _) fun _ => Entry.skip (.clientCloseMsgs c _) fun _ => ?_
    refine Entry.call (hunref l p ho) ?_
    rintro _ _ rfl
    refine Entry.modConn (fun x => { x with sd := -1 }) (fun _ => rfl) ((connPut_entry c).mono ?_)
    rintro _ _ rfl
    rw [setLink_setLink]
    refine hrelease _ ?_
    exact congrArg Link.owner setLink_link

/-- `conn_get` for a client takes a connection that no server has. -/
lemma connGetClient_entry (p : ℕ) (redis : Bool) (hl : l.Ok) :
    Entry (connGetClient env p redis) (fun r l' => match r with
      | none => l'.Ok
      | some c => l'.Ok ∧ l'.Taken c ∧ ∀ p' i', (l'.link c).owner ≠ some (.server p' i')) l := by
  unfold connGetClient clientRef
  refine Entry.call (connGet₀_entry hl) fun r l₁ hr => ?_
  cases r with
  | none => exact Entry.pure hr
  | some c =>
    obtain ⟨hl₁, htaken, hlink⟩ := hr
    have ho : ∀ p' i', (l₁.link c).owner ≠ some (.server p' i') := by
      intro p' i'
      simp [hlink, Conn.link]
    refine Entry.modConn (fun x => { x with client := true }) (fun _ => rfl) ?_
    refine Entry.skip (.modHeap fun _ => ⟨rfl, rfl, rfl, rfl, rfl⟩) fun _ => ?_
    refine Entry.modConn (fun x => { x with owner := some (.pool p) }) (fun _ => rfl)
      (Entry.pure ?_)
    rw [setLink_setLink]
    refine ⟨hl₁.setLink htaken.free htaken.next ho fun p' i' => by simp,
      ⟨htaken.free, htaken.next⟩, ?_⟩
    intro p' i'
    rw [setLink_link]
    simp

/-- `proxy_accept` keeps the invariant. -/
lemma proxyAccept_maintains (p sd : ℕ) : Maintains St.ledger Ledger.Ok (proxyAccept env p sd) := by
  intro l hl
  unfold proxyAccept
  refine Entry.skip (.readHeap _) fun n => Entry.ite (fun _ => Entry.pure hl) fun _ => ?_
  refine Entry.skip (.getPool p) fun pool => Entry.call (connGetClient_entry p _ hl)
    fun r l₁ hr => ?_
  cases r with
  | none => exact Entry.pure hr
  | some c =>
    obtain ⟨hl₁, htaken, ho⟩ := hr
    refine Entry.modConn (fun x => { x with sd := sd }) (fun _ => rfl) ?_
    refine Entry.skip (.statsPool p _ _) fun _ => Entry.skip (.ask _) fun ok => ?_
    have hset : (l₁.setLink c { l₁.link c with sd := sd }).Ok :=
      hl₁.setLink htaken.free htaken.next ho ho
    refine Entry.ite (fun _ => clientClose_maintains c _ hset) fun _ => ?_
    refine Entry.skip (.eventAddConn c) fun ok => Entry.ite (fun _ => ?_) fun _ => Entry.pure hset
    exact clientClose_maintains c _ hset

/-! ## Sending -/

/-- If a server owns connection `c`, it is connected. -/
def Ledger.Ready (c : ConnId) (l : Ledger) : Prop :=
  ∀ p i, c ∈ l.connq p i → (l.link c).connected = true

/-- A client connection is owned by no server. -/
lemma Ledger.Ok.ready_of_client (hl : l.Ok) (hc : (l.link c).client = true) : l.Ready c := by
  intro p i hmem
  have hclient := (hl.link p i c hmem).client
  rw [hc] at hclient
  cases hclient

/-- `server_connected` counts the connection and calls the hook, before any byte is written. -/
lemma serverConnected_entry (hl : l.Ok) (hc : (l.link s).connecting = true) :
    Entry (serverConnected env s) (fun _ l' => l'.Ok ∧ l'.Ready s) l := by
  unfold serverConnected postConnect
  refine Entry.ownerServer fun p i ho => Entry.gauge ?_
  have hs := (hl.owner p i s).mpr ho
  have hold := hl.link p i s hs
  have hconnected : (l.link s).connected = false := by
    have h := hold.connecting
    rw [hc] at h
    simpa using h.symm
  refine Entry.modConn (fun x => { x with connecting := false, connected := true })
    (fun _ => rfl) ?_
  refine Entry.modConn (fun x => { x with posted := x.posted ++ [x.out.length] }) (fun _ => rfl) ?_
  refine (Quiet.callHook _).post fun _ => ?_
  rw [setLink_setLink, setLink_link]
  have hposted : (l.link s).posted = [] := by
    rw [hold.posted, hconnected]
    rfl
  have hout := hold.out hconnected
  refine ⟨hl.update (g := (l.setGauge p i (l.gauge p i + 1)).gauge) hs ?_
    (fun c _ y hy => hy) ?_ ?_ ?_, ?_⟩
  · exact ho
  · constructor
    case sd => exact hold.sd
    case client => exact hold.client
    case connecting => rfl
    case posted => simp [Ledger.setGauge, hposted, hout]
    case out =>
      intro h
      cases h
  · simp [Ledger.setGauge, hconnected]
  · intro p' i' hne
    simp [Ledger.setGauge, hne]
  · intro p' i' _
    exact congrArg Link.connected setLink_link

/-- Before a request is sent, `server_connected` has been called on the connection. -/
theorem connSendNext_entry (c : ConnId) (hl : l.Ok) :
    Entry (connSendNext env c) (fun _ l' => l'.Ok ∧ l'.Ready c) l := by
  unfold connSendNext
  refine Entry.getConn fun conn hconn => Entry.ite (fun hclient => ?_) fun hclient => ?_
  · refine (Quiet.rspSendNext c).post fun _ => ⟨hl, hl.ready_of_client ?_⟩
    exact (congrArg Link.client hconn).symm.trans hclient
  unfold reqSendNext
  refine Entry.getConn fun conn' hconn' => ?_
  have hconnecting : conn'.connecting = (l.link c).connecting := congrArg Link.connecting hconn'
  refine Entry.call (R := fun _ l' => l'.Ok ∧ l'.Ready c) ?connected fun _ l' hl' => ?send
  case connected =>
    rw [hconnecting]
    cases hc : (l.link c).connecting with
    | true => exact serverConnected_entry hl hc
    | false =>
      refine Entry.pure ⟨hl, fun p i hmem => ?_⟩
      have hold := (hl.link p i c hmem).connecting
      rw [hc] at hold
      simpa using hold.symm
  case send =>
    refine Entry.skip (.getConn c) fun conn => ?_
    cases conn.imsgq.head? with
    | none =>
      exact Entry.skip (.eventDelOut c) fun ok =>
        Entry.skip (.onlyIf _ (.setErrno c)) fun _ => Entry.pure hl'
    | some first => exact Entry.skip (.modConn c fun _ => ⟨rfl, rfl⟩) fun _ => Entry.pure hl'

/-- `conn_sendv` on a connection that is ready keeps the invariant. -/
lemma connSendv_maintains (c : ConnId) (iov : List (List UInt8)) :
    Maintains St.ledger (fun l => l.Ok ∧ l.Ready c) (connSendv env c iov) := by
  rintro l ⟨hl, hready⟩
  unfold connSendv
  refine Entry.ask fun t => ?_
  cases env.writev t with
  | again => exact Entry.skip (.modConn c fun _ => ⟨rfl, rfl⟩) fun _ => Entry.pure ⟨hl, hready⟩
  | failed =>
    exact Entry.skip (.modConn c fun _ => ⟨rfl, rfl⟩) fun _ => Entry.skip (.setErrno c) fun _ =>
      Entry.pure ⟨hl, hready⟩
  | bytes n =>
    refine Entry.modConn (fun x => { x with out := x.out ++ iov.flatten.take (min n (nsend iov)) })
      (fun _ => rfl) (Entry.pure ⟨?_, ?_⟩)
    · refine hl.touch rfl rfl fun p i hmem => ?_
      refine { hl.link p i c hmem with out := fun hnot => ?_ }
      rw [hready p i hmem] at hnot
      cases hnot
    · intro p i hmem
      rw [setLink_link]
      exact hready p i hmem

/-- The loop of `msg_send_chain` does not leave the connection less ready. -/
lemma msgGather_maintains (c : ConnId) (fuel : ℕ) (m : MsgId) (sendq : List MsgId)
    (iov : List (List UInt8)) :
    Maintains St.ledger (fun l => l.Ok ∧ l.Ready c) (msgGather env c fuel m sendq iov) := by
  induction fuel generalizing m sendq iov with
  | zero => exact (Quiet.fault _).maintains
  | succ fuel ih =>
    unfold msgGather
    refine .skip (Quiet.getMsg m) fun msg => .ite (.pure _) (.bind ?_ fun r => ?_)
    · exact fun l hl => connSendNext_entry c hl.1
    · cases r with
      | none => exact .pure _
      | some next => exact ih next _ _

/-- `msg_send_chain` on a connection that is ready keeps the invariant. -/
lemma msgSendChain_maintains (c : ConnId) (m : MsgId) :
    Maintains St.ledger (fun l => l.Ok ∧ l.Ready c) (msgSendChain env c m) := by
  unfold msgSendChain sendGathered
  refine .bind (msgGather_maintains c _ m _ _) fun g => ?_
  refine .skip (Quiet.modConn c fun _ => ⟨rfl, rfl⟩) fun _ => ?_
  refine .bind (.ite (connSendv_maintains c g.2) (.pure _)) fun r => ?_
  exact .skip (Quiet.msgSent c r.2 g.1) fun _ => .pure _

/-- `msg_send` asks whether the connection is connected, so the invariant is kept. -/
lemma msgSend_maintains (c : ConnId) : Maintains St.ledger Ledger.Ok (msgSend env c) := by
  have hloop : ∀ fuel, Maintains St.ledger Ledger.Ok (msgSendLoop env c fuel) := by
    intro fuel
    induction fuel with
    | zero => exact (Quiet.fault _).maintains
    | succ fuel ih =>
      intro l hl
      unfold msgSendLoop
      refine Entry.call (connSendNext_entry c hl) fun r l₁ hl₁ => ?_
      cases r with
      | none => exact Entry.pure hl₁.1
      | some m =>
        refine Entry.call (msgSendChain_maintains c m l₁ hl₁) fun status l₂ hl₂ => ?_
        refine Entry.ite (fun _ => Entry.pure hl₂.1) fun _ => Entry.skip (.getConn c) fun conn => ?_
        exact Entry.ite (fun _ => ih l₂ hl₂.1) fun _ => Entry.pure hl₂.1
  unfold msgSend
  exact .skip (Quiet.modConn c fun _ => ⟨rfl, rfl⟩) fun _ => hloop _

/-! ## The event loop -/

/-- **The ledger is kept up** by everything the event loop calls. -/
theorem ledger_upkeep (henv : env.Deferred) : Upkeep env St.ledger Ledger.Ok where
  accept := proxyAccept_maintains
  preconnect := serverEachPreconnect_maintains henv
  recvNext c alloc := (Quiet.connRecvNext c alloc).maintains
  recvDone c m nmsg := by
    unfold connRecvDone
    refine .skip (Quiet.getConn c) fun conn => .ite ?_ (Quiet.rspRecvDone c m nmsg).maintains
    exact maintains_reqRecvDone (serverPoolConn_maintains henv) c m nmsg
  send := msgSend_maintains
  clientClose := clientClose_maintains
  serverClose _ _ hl := serverClose_ok env (hl.mono fun _ _ _ _ hx _ => hx)

end Functions

/-! ## Main result -/

section Run

variable {σ₀ σ : St} {p i : ℕ}

/-- The ledger of a proxy that has not opened a connection yet. -/
lemma St.Init.ledger_ok (h₀ : σ₀.Init) (hgauge : ∀ p i, σ₀.serverStat p i .serverConnections = 0) :
    σ₀.ledger.Ok := by
  have hheap := h₀.heap
  constructor
  case gauge =>
    intro p i
    rw [Ledger.count]
    simp [St.ledger, hgauge, hheap]
  all_goals simp [St.ledger, hheap, Conn.link]

/-- The ledger is right in every run. -/
lemma Run.ledger_ok (h₀ : σ₀.ledger.Ok) (hr : Run Env.Deferred σ₀ σ) : σ.ledger.Ok :=
  hr.upkeep (fun _ henv => ledger_upkeep henv) h₀

/-- **Connected server connections are accounted for** in every run in which `connect` never
succeeds at once: the gauge of every server is the number of its connections that are connected, and
`post_connect` was called on each of these exactly once, before any byte was written to it.

**Proof sketch.** An open connection is either being connected or connected (`Link.Ok`), so
`req_send_next` calls `server_connected` on it before it returns the first request, and never again
(`connSendNext_entry`); `server_close` takes back the count exactly if the flag is set
(`serverClose_ok`).  Everything else leaves the ledger as it is. -/
theorem Run.accounted (h₀ : σ₀.Init) (hgauge : ∀ p i, σ₀.serverStat p i .serverConnections = 0)
    (hr : Run Env.Deferred σ₀ σ) : σ.Accounted p i := by
  have hl := hr.ledger_ok (h₀.ledger_ok hgauge)
  constructor
  case gauge => exact hl.gauge p i
  case posted =>
    intro s hs hc
    have hposted := (hl.link p i s hs).posted
    rw [show (σ.ledger.link s).connected = true from hc] at hposted
    exact hposted
  case closed =>
    intro s hs hc
    have hposted := (hl.link p i s hs).posted
    rw [show (σ.ledger.link s).connected = false from hc] at hposted
    exact ⟨hposted, (hl.link p i s hs).out hc⟩

/-- The state that a computation leaves, if it returns. -/
def after (x : Core Unit) (σ : St) : St :=
  match x σ with
  | .ok r => r.2
  | .error _ => σ

/-- A computation that returns ends in the state after it. -/
lemma eq_after {x : Core Unit} {σ : St} (h : (x σ).isOk = true) : x σ = .ok ((), after x σ) := by
  unfold after
  cases hx : x σ with
  | error e =>
    rw [hx] at h
    cases h
  | ok r => rfl

/-- The state after the inputs `is`, each with its environment. -/
def St.feed (σ : St) : List (Env × Input) → St
  | [] => σ
  | (env, i) :: is => (after (step env i) σ.start).feed is

/-- Every step of the inputs `is` returns. -/
def St.feeds (σ : St) : List (Env × Input) → Bool
  | [] => true
  | (env, i) :: is => (step env i σ.start).isOk && (after (step env i) σ.start).feeds is

/-- Inputs whose steps all return extend a run. -/
lemma Run.feed {P : Env → Prop} {is : List (Env × Input)} (hr : Run P σ₀ σ)
    (henv : ∀ x ∈ is, P x.1) (hok : σ.feeds is = true) : Run P σ₀ (σ.feed is) := by
  induction is generalizing σ with
  | nil => exact hr
  | cons x is ih =>
    obtain ⟨hfirst, hrest⟩ := Bool.and_eq_true_iff.mp hok
    have hx := henv x List.mem_cons_self
    exact ih (.step hr x.1 hx x.2 (eq_after hfirst))
      (fun y hy => henv y (List.mem_cons_of_mem _ hy)) hrest

/-- A proxy with a pool of one server. -/
def oneServer : St where
  pool := fun _ => { server := [{ name := [], weight := 1 }] }

/-- `connect` returns EINPROGRESS, and a write event reports that the connection is established. -/
theorem oneServer_accounted :
    let env : Env := { connect := fun _ => .inprogress }
    let σ₁ := after (step env (.preconnect 0 0)) oneServer.start
    let σ₂ := after (step env (.event 0 false false true)) σ₁.start
    σ₂.Accounted 0 0 ∧ σ₂.serverStat 0 0 .serverConnections = 1 := by
  intro env σ₁ σ₂
  have henv : env.Deferred := fun t => ⟨nofun, show (3 : ℤ) ≠ 0 by decide⟩
  have hrun₁ : Run Env.Deferred oneServer σ₁ :=
    .step .init env henv (.preconnect 0 0) (eq_after (by decide +kernel))
  have hrun₂ : Run Env.Deferred oneServer σ₂ :=
    .step hrun₁ env henv (.event 0 false false true) (eq_after (by decide +kernel))
  exact ⟨Run.accounted ⟨rfl⟩ (fun _ _ => rfl) hrun₂, by decide +kernel⟩

/-- `connect` succeeds at once, and the connection is closed: the gauge is negative. -/
theorem not_forall_accounted :
    ¬∀ σ₀ σ : St, σ₀.Init → (∀ p i, σ₀.serverStat p i .serverConnections = 0) →
      Run (fun _ => True) σ₀ σ → ∀ p i, σ.Accounted p i := by
  intro h
  let σ₁ := after (step {} (.preconnect 0 0)) oneServer.start
  let σ₂ := after (step {} (.event 0 true false false)) σ₁.start
  have hrun₁ : Run (fun _ => True) oneServer σ₁ :=
    .step .init {} trivial (.preconnect 0 0) (eq_after (by decide +kernel))
  have hrun₂ : Run (fun _ => True) oneServer σ₂ :=
    .step hrun₁ {} trivial (.event 0 true false false) (eq_after (by decide +kernel))
  have hgauge := (h oneServer σ₂ ⟨rfl⟩ (fun _ _ => rfl) hrun₂ 0 0).gauge
  have hnegative : σ₂.serverStat 0 0 .serverConnections = -1 := by decide +kernel
  omega

end Run

end GfwProxy
