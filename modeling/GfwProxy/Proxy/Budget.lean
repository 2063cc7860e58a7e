import Mathlib.Data.Finset.Card
import GfwProxy.Proxy.After

set_option autoImplicit false

/-!
# The descriptor budget

`core_calc_connections` (`gf_core.c`) computes at startup how many client connections leave enough
descriptors for the servers, and `proxy_accept` (`gf_proxy.c`) holds on to that number.

## Main definitions

* `GfwProxy.maxNsconn`, `GfwProxy.maxNcconn` — the sums of the startup code, in `uint32_t`.
* `GfwProxy.Heap.clients` — the client connections in use.
* `GfwProxy.ClientRun` — the states that accepting and closing client connections leads to.

## Main results

* `GfwProxy.ClientRun.budget_iff` — the budget holds in every state exactly if the servers, the
  listeners and the reserved descriptors fit into the limit on their own.

## Design

Startup leaves the connections that it makes in advance in place, so a run starts from any objects
without a client connection.
-/

namespace GfwProxy

/-! ## Startup -/

/-- `RESERVED_FDS`. -/
def reservedFds : ℕ := 32

/-- Difference of two `uint32_t`. -/
def sub32 (a b : ℕ) : ℕ := u32 (a + (2 ^ 32 - u32 b))

/-- `server_pool_each_calc_connections`. -/
def serverPoolEachCalcConnections (maxNsconn : ℕ) (sp : ServerPool) : ℕ :=
  let maxNsconn := u32 (maxNsconn + u32 (sp.serverConnections * u32 sp.server.length))
  -- pool listening socket
  u32 (maxNsconn + 1)

/-- `max_nsconn` as `server_pool_init` computes it. -/
def maxNsconn (pools : List ServerPool) : ℕ := pools.foldl serverPoolEachCalcConnections 0

/-- `max_ncconn` as `core_calc_connections` computes it from the soft limit. -/
def maxNcconn (pools : List ServerPool) (maxNfd : ℕ) : ℕ :=
  sub32 (sub32 maxNfd (maxNsconn pools)) reservedFds

/-- What `conf_validate_pool` accepts: an `int` that is positive, and some servers. -/
def PoolsAccepted (pools : List ServerPool) : Prop :=
  pools ≠ [] ∧ ∀ sp ∈ pools, 0 < sp.serverConnections ∧ sp.serverConnections < 2 ^ 31 ∧
    sp.server ≠ []

/-- The true total of `server_connections` over all servers. -/
def serverTotal (pools : List ServerPool) : ℕ :=
  (pools.map fun sp => sp.serverConnections * sp.server.length).sum

/-- The sum that startup computes is the true one modulo `2 ^ 32`. -/
lemma maxNsconn_eq (pools : List ServerPool) :
    maxNsconn pools = u32 (serverTotal pools + pools.length) := by
  have hfold : ∀ (pools : List ServerPool) (n : ℕ),
      pools.foldl serverPoolEachCalcConnections (u32 n) =
        u32 (n + (serverTotal pools + pools.length)) := by
    intro pools
    induction pools with
    | nil => intro n; rfl
    | cons sp pools ih =>
      intro n
      have hsp : serverPoolEachCalcConnections (u32 n) sp =
          u32 (n + (sp.serverConnections * sp.server.length + 1)) := by
        simp only [serverPoolEachCalcConnections, u32, Nat.mod_add_mod, Nat.add_mod_mod,
          Nat.mul_mod_mod]
        rw [Nat.add_assoc]
      rw [List.foldl_cons, hsp, ih]
      simp only [serverTotal, List.map_cons, List.sum_cons, List.length_cons]
      congr 1
      omega
  exact (hfold pools 0).trans (by rw [Nat.zero_add])

/-- If the servers leave room below the limit, no sum or difference wraps. -/
lemma maxNcconn_eq {pools : List ServerPool} {limit : ℕ} (hlimit : limit < 2 ^ 32)
    (hroom : serverTotal pools + pools.length + reservedFds ≤ limit) :
    maxNcconn pools limit = limit - (serverTotal pools + pools.length + reservedFds) := by
  unfold maxNcconn sub32
  rw [maxNsconn_eq]
  unfold u32 reservedFds at *
  omega

/-! ## Client connections -/

/-- The client connections in use. -/
def Heap.clients (h : Heap) : Finset ConnId :=
  (Finset.range h.nextConn).filter fun c => (h.conn c).client = true ∧ c ∉ h.freeConnq

/-- The free list holds connections that exist, once each, and `ncurr_cconn` counts the client
connections. -/
structure Heap.Counted (h : Heap) : Prop where
  nodup : h.freeConnq.Nodup
  exist : ∀ c ∈ h.freeConnq, c < h.nextConn
  count : h.clients.card = h.ncurrCconn

/-- The states that accepting and closing client connections leads to from `σ₀`, with any answers of
the environment. -/
inductive ClientRun (maxNcconn : ℕ) (σ₀ : St) : St → Prop
  | init : ClientRun maxNcconn σ₀ σ₀
  | accept {σ σ' : St} (hr : ClientRun maxNcconn σ₀ σ) (env : Env)
      (henv : env.maxNcconn = maxNcconn) (p sd : ℕ) (h : proxyAccept env p sd σ = .ok ((), σ')) :
      ClientRun maxNcconn σ₀ σ'
  | close {σ σ' : St} (hr : ClientRun maxNcconn σ₀ σ) (c : ConnId) (hc : c ∈ σ.heap.clients)
      (h : clientClose c σ = .ok ((), σ')) : ClientRun maxNcconn σ₀ σ'

variable {env : Env} {h h' h'' : Heap} {c : ConnId}

/-- From `h` to `h'`, no connection has been taken into use or released. -/
structure SameConns (h h' : Heap) : Prop where
  client : ∀ c, (h'.conn c).client = (h.conn c).client
  freeConnq : h'.freeConnq = h.freeConnq
  nextConn : h'.nextConn = h.nextConn
  ncurrCconn : h'.ncurrCconn = h.ncurrCconn

/-- Nothing has changed. -/
lemma SameConns.refl (h : Heap) : SameConns h h := ⟨fun _ => rfl, rfl, rfl, rfl⟩

/-- Changes that keep the connections compose. -/
lemma SameConns.trans (hx : SameConns h h') (hy : SameConns h' h'') : SameConns h h'' :=
  ⟨fun c => (hy.client c).trans (hx.client c), hy.freeConnq.trans hx.freeConnq,
    hy.nextConn.trans hx.nextConn, hy.ncurrCconn.trans hx.ncurrCconn⟩

/-- A change of a connection that keeps its kind. -/
lemma SameConns.modConn {f : Conn → Conn} (hf : ∀ x, (f x).client = x.client) :
    SameConns h (h.modConn c f) := by
  refine ⟨fun x => ?_, rfl, rfl, rfl⟩
  rcases eq_or_ne x c with rfl | hne
  · simp [Heap.modConn, hf]
  · simp [Heap.modConn, hne]

/-- The clients are the same. -/
lemma SameConns.clients (hs : SameConns h h') : h'.clients = h.clients := by
  unfold Heap.clients
  simp only [hs.client, hs.freeConnq, hs.nextConn]

/-- The counter of clients is right still. -/
lemma SameConns.counted (hs : SameConns h h') (hc : h.Counted) : h'.Counted := by
  refine ⟨?_, ?_, ?_⟩
  · rw [hs.freeConnq]
    exact hc.nodup
  · rw [hs.freeConnq, hs.nextConn]
    exact hc.exist
  · rw [hs.clients, hs.ncurrCconn]
    exact hc.count

/-- Releasing a request touches no connection. -/
lemma SameConns.reqPut (m : MsgId) : SameConns h (h.reqPut m) := by
  have hput : ∀ (h : Heap) (m : MsgId), SameConns h (h.msgPut m) :=
    fun h m => ⟨fun _ => rfl, rfl, rfl, rfl⟩
  have hpeer : SameConns h (h.putPeer m) := by
    unfold Heap.putPeer
    split
    · exact SameConns.refl h
    · exact ⟨fun _ => rfl, rfl, rfl, rfl⟩
  have htmo : ∀ h : Heap, SameConns h (h.tmoDelete m) := by
    intro h
    unfold Heap.tmoDelete
    split
    · exact SameConns.refl h
    · exact ⟨fun _ => rfl, rfl, rfl, rfl⟩
  exact (hpeer.trans (htmo _)).trans (hput _ m)

/-! ## Closing -/

/-- From `h` to `h'`, connection `c` has been released. -/
structure Released (c : ConnId) (h h' : Heap) : Prop where
  client : ∀ x, (h'.conn x).client = (h.conn x).client
  freeConnq : h'.freeConnq = c :: h.freeConnq
  nextConn : h'.nextConn = h.nextConn
  ncurrCconn : h'.ncurrCconn = if (h.conn c).client then h.ncurrCconn - 1 else h.ncurrCconn

/-- `conn_put` releases the connection. -/
lemma Released.connPut (c : ConnId) (h : Heap) : Released c h (h.connPut c) := by
  have hs : SameConns h (h.modConn c fun x => { x with gen := x.gen + 1 }) :=
    SameConns.modConn fun _ => rfl
  exact ⟨hs.client, rfl, rfl, rfl⟩

/-- What the connections do not change in may come before a release. -/
lemma SameConns.released (hs : SameConns h h') (hr : Released c h' h'') : Released c h h'' := by
  refine ⟨fun x => (hr.client x).trans (hs.client x), ?_, hr.nextConn.trans hs.nextConn, ?_⟩
  · rw [hr.freeConnq, hs.freeConnq]
  · rw [hr.ncurrCconn, hs.client, hs.ncurrCconn]

/-- The loop over the requests of a client that closes keeps the connections. -/
lemma clientCloseMsgs_same (c : ConnId) (q : List MsgId) :
    After (clientCloseMsgs c q) (fun _ h' => SameConns h h') h := by
  induction q generalizing h with
  | nil => exact After.pure (SameConns.refl h)
  | cons m q ih =>
    refine After.call (R := fun _ h' => SameConns h h') ?_ fun _ h₁ hs₁ =>
      ih.mono fun _ _ hs₂ => hs₁.trans hs₂
    unfold clientCloseMsg reqClientDequeueOmsgq
    have hs : SameConns h (h.modConn c fun x => { x with omsgq := x.omsgq.erase m }) :=
      SameConns.modConn fun _ => rfl
    refine After.modConn (After.getMsg (After.ite (fun _ => ?_) fun _ => ?_))
    · exact After.last (After.modHeap (After.pure (hs.trans (SameConns.reqPut m))))
    · exact After.last (After.modMsg (After.pure (hs.trans ⟨fun _ => rfl, rfl, rfl, rfl⟩)))

/-- `client_close` releases the connection and no other. -/
lemma clientClose_released (c : ConnId) :
    After (clientClose c) (fun _ h' => Released c h h') h := by
  have hunref : ∀ h : Heap, After (clientUnref c) (fun _ h' => SameConns h h') h := by
    intro h
    unfold clientUnref
    refine After.ownerPool fun _ _ => After.last (After.modConn (After.pure ?_))
    exact SameConns.modConn fun _ => rfl
  unfold clientClose clientCloseStats
  simp only [bind_assoc]
  refine After.getConn (After.ownerPool fun p _ => After.statsPool (After.statsPool ?_))
  refine After.ite (fun _ => ?_) fun _ => ?_
  · refine After.call (hunref h) fun _ h₁ hs => ?_
    exact After.last (After.modHeap (After.pure (hs.released (Released.connPut c h₁))))
  · refine After.call (R := fun _ h' => SameConns h h') ?_ fun _ h₁ hs₁ => ?_
    · unfold discardReq
      split
      · exact After.pure (SameConns.refl h)
      · have hs : SameConns h (h.modConn c fun x => { x with rmsg := none }) :=
          SameConns.modConn fun _ => rfl
        refine After.modConn (After.last (After.modHeap (After.pure ?_)))
        exact hs.trans (SameConns.reqPut _)
    refine After.call (clientCloseMsgs_same c _) fun _ h₂ hs₂ => ?_
    refine After.call (hunref h₂) fun _ h₃ hs₃ => ?_
    refine After.modConn (After.last (After.modHeap (After.pure ?_)))
    have hs₄ : SameConns h₃ (h₃.modConn c fun x => { x with sd := -1 }) :=
      SameConns.modConn fun _ => rfl
    exact (((hs₁.trans hs₂).trans hs₃).trans hs₄).released (Released.connPut c _)

/-- Closing a client connection that is in use takes it away. -/
lemma Released.clients (hr : Released c h h') (hc : c ∈ h.clients) (hcount : h.Counted) :
    h'.clients = h.clients.erase c ∧ h'.Counted := by
  have hmem := hc
  simp only [Heap.clients, Finset.mem_filter, Finset.mem_range] at hmem
  obtain ⟨hlt, hclient, hfree⟩ := hmem
  have heq : h'.clients = h.clients.erase c := by
    ext x
    simp only [Heap.clients, hr.client, hr.freeConnq, hr.nextConn, Finset.mem_filter,
      Finset.mem_range, Finset.mem_erase, List.mem_cons, not_or]
    tauto
  refine ⟨heq, ?_, ?_, ?_⟩
  · rw [hr.freeConnq]
    exact List.nodup_cons.mpr ⟨hfree, hcount.nodup⟩
  · rw [hr.freeConnq, hr.nextConn]
    intro x hx
    rcases List.mem_cons.mp hx with rfl | hx
    · exact hlt
    · exact hcount.exist x hx
  · rw [heq, Finset.card_erase_of_mem hc, hr.ncurrCconn, if_pos hclient, hcount.count]

/-! ## Accepting -/

/-- From `h` to `h'`, the connection object `c` has been taken from the free list, or made. -/
structure Taken (c : ConnId) (h h' : Heap) : Prop where
  fresh : c ∉ h.clients
  exist : c < h'.nextConn
  free : c ∉ h'.freeConnq
  conn : h'.conn = h.conn
  ncurrCconn : h'.ncurrCconn = h.ncurrCconn
  nodup : h'.freeConnq.Nodup
  below : ∀ x ∈ h'.freeConnq, x < h'.nextConn
  other : ∀ x ≠ c, (x < h'.nextConn ∧ x ∉ h'.freeConnq) ↔ (x < h.nextConn ∧ x ∉ h.freeConnq)

/-- From `h` to `h'`, the client connection `c` has been taken into use. -/
structure Accepted (c : ConnId) (h h' : Heap) : Prop where
  fresh : c ∉ h.clients
  clients : h'.clients = insert c h.clients
  counted : h'.Counted

/-- `_conn_get` takes the first connection from the free list, or makes a new one. -/
lemma connAddr_taken (hc : h.Counted) :
    After (connAddr env) (fun r h' => match r with
      | none => h' = h
      | some c => Taken c h h') h := by
  unfold connAddr
  refine After.readHeap ?_
  cases hfree : h.freeConnq with
  | cons c rest =>
    have hnodup := hc.nodup
    have hexist := hc.exist
    rw [hfree] at hnodup hexist
    obtain ⟨hcrest, hnodup⟩ := List.nodup_cons.mp hnodup
    refine After.modHeap (After.pure ?_)
    refine ⟨?_, hexist c (by simp), hcrest, rfl, rfl, hnodup, ?_, ?_⟩
    · simp [Heap.clients, hfree]
    · exact fun x hx => hexist x (List.mem_cons_of_mem c hx)
    · intro x hx
      rw [hfree, List.mem_cons, not_or]
      exact ⟨fun hm => ⟨hm.1, hx, hm.2⟩, fun hm => ⟨hm.1, hm.2.2⟩⟩
  | nil =>
    refine After.ask fun _ => After.ite (fun _ => ?_) fun _ => After.pure rfl
    refine After.readHeap (After.modHeap (After.pure ?_))
    refine ⟨?_, Nat.lt_succ_self _, ?_, rfl, rfl, hc.nodup, ?_, ?_⟩
    · simp [Heap.clients]
    · simp [hfree]
    · simp [hfree]
    · intro x hx
      simp only [hfree, List.not_mem_nil, not_false_eq_true, and_true]
      exact ⟨fun hlt => lt_of_le_of_ne (Nat.lt_succ_iff.mp hlt) hx, Nat.lt_succ_of_lt⟩

/-- A connection that is taken and made one of a client, and counted, is accepted. -/
lemma Taken.accepted (ht : Taken c h h') (hc : h.Counted) (hclient : (h''.conn c).client = true)
    (hother : ∀ x ≠ c, (h''.conn x).client = (h'.conn x).client)
    (hfree : h''.freeConnq = h'.freeConnq) (hnext : h''.nextConn = h'.nextConn)
    (hcurr : h''.ncurrCconn = h'.ncurrCconn + 1) : Accepted c h h'' := by
  have hclients : h''.clients = insert c h.clients := by
    ext x
    simp only [Heap.clients, Finset.mem_filter, Finset.mem_range, Finset.mem_insert, hfree, hnext]
    rcases eq_or_ne x c with rfl | hne
    · simp [hclient, ht.exist, ht.free]
    · have hiff := ht.other x hne
      rw [hother x hne, ht.conn]
      tauto
  refine ⟨ht.fresh, hclients, ?_, ?_, ?_⟩
  · rw [hfree]
    exact ht.nodup
  · rw [hfree, hnext]
    exact ht.below
  · rw [hclients, Finset.card_insert_of_notMem ht.fresh, hc.count, hcurr, ht.ncurrCconn]

/-- `conn_get` for a client. -/
lemma connGetClient_accepted (p : ℕ) (redis : Bool) (hc : h.Counted) :
    After (connGetClient env p redis) (fun r h' => match r with
      | none => SameConns h h'
      | some c => Accepted c h h') h := by
  unfold connGetClient connGet₀
  simp only [bind_assoc]
  refine After.call (connAddr_taken hc) ?_
  rintro (_ | c) h₁ ht
  · obtain rfl : h₁ = h := ht
    exact After.pure (SameConns.refl h₁)
  · simp only [bind_assoc, pure_bind]
    unfold clientRef
    refine After.modConn (After.modConn (After.modHeap (After.modConn (After.pure ?_))))
    refine Taken.accepted ht hc ?_ ?_ rfl rfl rfl
    · simp [Heap.modConn]
    · intro x hx
      simp [Heap.modConn, hx]

/-- What the connections do not change in may come behind an accept. -/
lemma Accepted.same (ha : Accepted c h h') (hs : SameConns h' h'') : Accepted c h h'' :=
  ⟨ha.fresh, hs.clients.trans ha.clients, hs.counted ha.counted⟩

/-- Closing a connection that has just been accepted. -/
lemma Accepted.close (ha : Accepted c h h') (hr : Released c h' h'') :
    h''.clients = h.clients ∧ h''.Counted := by
  have hmem : c ∈ h'.clients := by
    rw [ha.clients]
    exact Finset.mem_insert_self c _
  obtain ⟨hclients, hcounted⟩ := hr.clients hmem ha.counted
  refine ⟨?_, hcounted⟩
  rw [hclients, ha.clients, Finset.erase_insert ha.fresh]

/-- `proxy_accept` takes at most one client connection into use, and none at the limit. -/
lemma proxyAccept_clients (p sd : ℕ) (hc : h.Counted) :
    After (proxyAccept env p sd) (fun _ h' => h'.Counted ∧
      (h'.clients = h.clients ∨ h.clients.card < env.maxNcconn ∧ ∃ c,
        h'.clients = insert c h.clients))
      h := by
  unfold proxyAccept
  refine After.readHeap (After.ite (fun _ => After.pure ⟨hc, .inl rfl⟩) fun hlimit => ?_)
  have hroom : h.clients.card < env.maxNcconn := by
    rw [hc.count]
    omega
  refine After.getPool fun pool => After.call (connGetClient_accepted p _ hc) ?_
  rintro (_ | c) h₁ ha
  · exact After.pure ⟨ha.counted hc, .inl ha.clients⟩
  have ha₁ : Accepted c h (h₁.modConn c fun x => { x with sd := sd }) :=
    ha.same (SameConns.modConn fun _ => rfl)
  have hclose : ∀ h₂, Accepted c h h₂ → After (clientClose c) (fun _ h' => h'.Counted ∧
      (h'.clients = h.clients ∨ h.clients.card < env.maxNcconn ∧
        ∃ c, h'.clients = insert c h.clients)) h₂ := by
    intro h₂ ha₂
    refine (clientClose_released c).mono fun _ h₃ hr => ?_
    obtain ⟨hclients, hcounted⟩ := ha₂.close hr
    exact ⟨hcounted, .inl hclients⟩
  refine After.modConn (After.statsPool (After.ask fun _ => ?_))
  refine After.ite (fun _ => hclose _ ha₁) fun _ => ?_
  refine After.call (R := fun _ h' => Accepted c h h') ?_ fun ok h₂ ha₂ => ?_
  · unfold eventAddConn
    refine After.ask fun _ => After.ite (fun _ => ?_) fun _ => After.pure ha₁
    exact After.modConn (After.pure (ha₁.same (SameConns.modConn fun _ => rfl)))
  · refine After.ite (fun _ => hclose _ ha₂) fun _ => After.pure ?_
    exact ⟨ha₂.counted, .inr ⟨hroom, c, ha₂.clients⟩⟩

/-! ## Main results -/

variable {pools : List ServerPool} {limit : ℕ} {σ₀ σ : St}

/-- **The number of client connections never exceeds the maximum.** -/
theorem ClientRun.card_le {maxNcconn : ℕ} (h₀ : σ₀.heap.Counted) (hnone : σ₀.heap.clients = ∅)
    (hr : ClientRun maxNcconn σ₀ σ) : σ.heap.Counted ∧ σ.heap.clients.card ≤ maxNcconn := by
  induction hr with
  | init => exact ⟨h₀, by simp [hnone]⟩
  | @accept σ₁ σ₂ _ env henv p sd h ih =>
    obtain ⟨hc, hle⟩ := ih
    obtain ⟨hc', heq | ⟨hlt, c, heq⟩⟩ := (proxyAccept_clients p sd hc).elim rfl h
    · exact ⟨hc', by rwa [heq]⟩
    · refine ⟨hc', ?_⟩
      have hcard := Finset.card_insert_le c σ₁.heap.clients
      rw [← heq] at hcard
      omega
  | close _ c hmem h ih =>
    obtain ⟨hc, hle⟩ := ih
    obtain ⟨heq, hc'⟩ := ((clientClose_released c).elim rfl h).clients hmem hc
    refine ⟨hc', ?_⟩
    rw [heq]
    exact (Finset.card_erase_le).trans hle

/-- **The descriptor budget.**  For any pools and any limit that fits into `uint32_t`, the client
connections, the servers' connections, the listeners and the reserved descriptors stay within the
limit in every state if and only if all but the client connections do.

**Proof sketch.** Then nothing wraps and `max_ncconn` is what is left of the limit
(`maxNcconn_eq`), which no run exceeds (`ClientRun.card_le`).  The first state has no client
connection. -/
theorem ClientRun.budget_iff (hlimit : limit < 2 ^ 32) (h₀ : σ₀.heap.Counted)
    (hnone : σ₀.heap.clients = ∅) :
    (∀ σ, ClientRun (maxNcconn pools limit) σ₀ σ →
      σ.heap.clients.card + serverTotal pools + pools.length + reservedFds ≤ limit) ↔
    serverTotal pools + pools.length + reservedFds ≤ limit := by
  constructor
  · intro h
    have hinit := h σ₀ .init
    rw [hnone, Finset.card_empty] at hinit
    omega
  · intro hroom σ hr
    have hle := (hr.card_le h₀ hnone).2
    rw [maxNcconn_eq hlimit hroom] at hle
    omega

/-- A pool of two servers, with `n` connections to each. -/
def twoServers (n : ℕ) : ServerPool where
  server := [{ name := [97], weight := 1 }, { name := [98], weight := 1 }]
  serverConnections := n

/-- The configuration has two servers, and 1024 descriptors are allowed. -/
theorem twoServers_budget_iff :
    (∀ σ, ClientRun (maxNcconn [twoServers 10] 1024) {} σ →
      σ.heap.clients.card + serverTotal [twoServers 10] + 1 + reservedFds ≤ 1024) ↔
    serverTotal [twoServers 10] + 1 + reservedFds ≤ 1024 :=
  @ClientRun.budget_iff [twoServers 10] 1024 {} (by decide)
    ⟨by simp, by simp, by simp [Heap.clients]⟩ (by simp [Heap.clients])

/-- With 1000 connections to each server and a limit of 1024 descriptors, `max_ncconn` wraps. -/
theorem not_forall_budget :
    ¬∀ (pools : List ServerPool) (limit : ℕ), PoolsAccepted pools → limit < 2 ^ 32 →
      ∀ σ, ClientRun (maxNcconn pools limit) {} σ →
        σ.heap.clients.card + serverTotal pools + pools.length + reservedFds ≤ limit := by
  intro h
  have haccepted : PoolsAccepted [twoServers 1000] := by
    refine ⟨by simp, fun sp hsp => ?_⟩
    obtain rfl := List.mem_singleton.mp hsp
    exact ⟨by decide, by decide, by simp [twoServers]⟩
  have hover := h [twoServers 1000] 1024 haccepted (by decide) {} .init
  have htotal : serverTotal [twoServers 1000] = 2000 := by decide
  rw [htotal] at hover
  omega

end GfwProxy
