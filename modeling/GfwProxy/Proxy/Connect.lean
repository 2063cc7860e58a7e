import GfwProxy.Proxy.Quiet

set_option autoImplicit false

/-!
# Opening and closing server connections

What `server_conn`, `server_connect` and `server_close` (`gf_server.c`) write to the ledger, as long
as `connect` does not succeed at once.

## Main definitions

* `GfwProxy.Entry` — what holds of the ledger when a computation returns.
* `GfwProxy.Env.Deferred` — `connect` never succeeds at once.

## Main results

* `GfwProxy.serverClose_ok` — `server_close` keeps the invariant, whatever holds of the connection
  that it closes.
* `GfwProxy.serverPoolConn_maintains`, `GfwProxy.serverEachPreconnect_maintains` — what opens a
  connection keeps the invariant.

## Design

There is one rule for each statement in front of a continuation that writes the ledger; a quiet
statement is skipped.
-/

namespace GfwProxy

open Exec

/-- `connect` never succeeds at once, and no socket is descriptor 0. -/
def Env.Deferred (env : Env) : Prop := ∀ t, env.connect t ≠ .ok ∧ env.socket t ≠ 0

/-! ## Statements that write the ledger -/

/-- If `x` returns, started with the ledger `l`, then `Q` holds of its value and of the ledger that
it leaves. -/
abbrev Entry {α : Type} (x : Core α) (Q : α → Ledger → Prop) (l : Ledger) : Prop :=
  Post St.ledger x Q l

namespace Entry

variable {α β : Type} {Q R : α → Ledger → Prop} {S : β → Ledger → Prop} {l : Ledger}

/-- A pure computation makes no entry. -/
protected lemma pure {a : α} (hQ : Q a l) : Entry (pure a) Q l := Post.pure hQ

/-- A postcondition may be weakened. -/
protected lemma mono {x : Core α} (hx : Entry x R l) (hQ : ∀ a l', R a l' → Q a l') : Entry x Q l :=
  Post.mono hx hQ

/-- The rule of composition. -/
protected lemma call {x : Core α} {f : α → Core β} (hx : Entry x R l)
    (hf : ∀ a l', R a l' → Entry (f a) S l') : Entry (x >>= f) S l :=
  Post.call hx hf

/-- A quiet computation is passed over. -/
protected lemma skip {x : Core α} {f : α → Core β} (hx : Quiet St.ledger x)
    (hf : ∀ a, Entry (f a) S l) :
    Entry (x >>= f) S l :=
  Post.skip hx hf

/-- A computation at the end is one followed by nothing. -/
protected lemma last {x : Core α} (hx : Entry (x >>= Pure.pure) Q l) : Entry x Q l := by
  rwa [bind_pure] at hx

/-- The rule of the conditional. -/
protected lemma ite {p : Prop} [Decidable p] {x y : Core α} (ht : p → Entry x Q l)
    (hf : ¬p → Entry y Q l) : Entry (if p then x else y) Q l :=
  Post.ite ht hf

/-- Of a connection that is read, the ledger knows the link. -/
protected lemma getConn {c : ConnId} {k : Conn → Core β}
    (hk : ∀ conn : Conn, conn.link = l.link c → Entry (k conn) S l) :
    Entry (getConn c >>= k) S l := by
  refine Post.run (fun σ => σ.heap.conn c) id (fun _ => rfl) ?_
  rintro σ rfl
  exact hk _ rfl

/-- A change of a connection. -/
protected lemma modConn {c : ConnId} {f : Conn → Conn} {k : Unit → Core β} (g : Link → Link)
    (hf : ∀ x, (f x).link = g x.link) (hk : Entry (k ()) S (l.setLink c (g (l.link c)))) :
    Entry (modConn c f >>= k) S l := by
  refine Post.run (fun _ => ()) (fun σ => { σ with heap := σ.heap.modConn c f }) (fun _ => rfl) ?_
  rintro σ rfl
  have hset : St.ledger { σ with heap := σ.heap.modConn c f } =
      σ.ledger.setLink c (g (σ.ledger.link c)) := by
    ext1
    case link =>
      funext x
      rcases eq_or_ne x c with rfl | hne
      · simpa [St.ledger, Heap.modConn] using hf (σ.heap.conn x)
      · simp [St.ledger, Heap.modConn, Ledger.setLink, hne]
    all_goals rfl
  rw [hset]
  exact hk

/-- A change of the lists of connections. -/
protected lemma modHeap {f : Heap → Heap} {k : Unit → Core β} (g : Ledger → Ledger)
    (hf : ∀ σ : St, St.ledger { σ with heap := f σ.heap } = g σ.ledger)
    (hk : Entry (k ()) S (g l)) : Entry (modHeap f >>= k) S l := by
  refine Post.run (fun _ => ()) (fun σ => { σ with heap := f σ.heap }) (fun _ => rfl) ?_
  rintro σ rfl
  rw [hf]
  exact hk

/-- The heap that is read belongs to a state with this ledger. -/
protected lemma readHeap {f : Heap → α} {k : α → Core β}
    (hk : ∀ σ : St, σ.ledger = l → Entry (k (f σ.heap)) S l) : Entry (readHeap f >>= k) S l := by
  refine Post.run (fun σ => f σ.heap) id (fun _ => rfl) ?_
  rintro σ rfl
  exact hk σ rfl

/-- An answer of the environment may be anything. -/
protected lemma ask {f : ℕ → α} {k : α → Core β} (hk : ∀ t, Entry (k (f t)) S l) :
    Entry (ask f >>= k) S l := by
  refine Post.run (fun σ => f σ.tick) (fun σ => { σ with tick := σ.tick + 1 }) (fun _ => rfl) ?_
  rintro σ rfl
  exact hk σ.tick

/-- A change of the gauge. -/
protected lemma gauge {p i : ℕ} {v : ℤ} {k : Unit → Core β}
    (hk : Entry (k ()) S (l.setGauge p i (l.gauge p i + v))) :
    Entry (statsServer p i .serverConnections v >>= k) S l := by
  refine Post.run (fun _ => ()) _ (fun _ => rfl) ?_
  rintro σ rfl
  have hset : (σ.setServerStat p i .serverConnections
      (σ.serverStat p i .serverConnections + v)).ledger =
        σ.ledger.setGauge p i (σ.ledger.gauge p i + v) := by
    ext1
    case gauge =>
      funext p' i'
      rcases eq_or_ne p' p with rfl | hp
      · rcases eq_or_ne i' i with rfl | hi
        · simp [St.ledger, St.setServerStat, Ledger.setGauge]
        · simp [St.ledger, St.setServerStat, Ledger.setGauge, hi]
      · simp [St.ledger, St.setServerStat, Ledger.setGauge, hp]
    all_goals rfl
  rw [hset]
  exact hk

/-- Behind the cast of an owner to a server, the ledger has the connection as one of a server. -/
protected lemma ownerServer {s : ConnId} {k : ℕ × ℕ → Core β}
    (hk : ∀ p i, (l.link s).owner = some (.server p i) → Entry (k (p, i)) S l) :
    Entry (ownerServer s >>= k) S l := by
  refine Entry.call (R := fun r l' => l' = l ∧ (l.link s).owner = some (.server r.1 r.2)) ?_ ?_
  · refine Entry.getConn fun conn hconn => ?_
    split
    case h_1 p i ho => exact Entry.pure ⟨rfl, hconn ▸ ho⟩
    case h_2 =>
      rintro σ - a σ' ⟨⟩
  · rintro ⟨p, i⟩ l' ⟨rfl, ho⟩
    exact hk p i ho

/-- Behind the cast of an owner to a pool, the ledger has the connection as one of a client. -/
protected lemma ownerPool {c : ConnId} {k : ℕ → Core β}
    (hk : ∀ p, (l.link c).owner = some (.pool p) → Entry (k p) S l) :
    Entry (ownerPool c >>= k) S l := by
  refine Entry.call (R := fun p l' => l' = l ∧ (l.link c).owner = some (.pool p)) ?_ ?_
  · refine Entry.getConn fun conn hconn => ?_
    split
    case h_1 p ho => exact Entry.pure ⟨rfl, hconn ▸ ho⟩
    case h_2 =>
      rintro σ - a σ' ⟨⟩
  · rintro p l' ⟨rfl, ho⟩
    exact hk p ho

end Entry

/-! ## Closing a connection -/

section Functions

open Ledger

variable {env : Env} {l : Ledger} {p i : ℕ} {c s : ConnId}

/-- `server_close_stats` decrements the gauge, if the connection was connected. -/
lemma serverCloseStats_entry (err : ℤ) (eof connected : Bool) :
    Entry (serverCloseStats p i err eof connected)
      (fun _ l' => l' = l.setGauge p i (l.gauge p i - if connected then 1 else 0)) l := by
  have hquiet : Quiet St.ledger (do
      if eof then statsServer p i .serverEof 1
      else if err = etimedout then statsServer p i .serverTimedout 1
      else statsServer p i .serverErr 1) :=
    .ite (.statsServer p i .serverEof nofun 1) (.ite (.statsServer p i .serverTimedout nofun 1)
      (.statsServer p i .serverErr nofun 1))
  unfold serverCloseStats
  cases connected with
  | true => exact Entry.gauge (hquiet.post fun _ => rfl)
  | false =>
    refine Entry.skip (.pure ()) fun _ => hquiet.post fun _ => ?_
    ext1
    case gauge =>
      funext p' i'
      simp only [Ledger.setGauge, Bool.false_eq_true, if_false, sub_zero]
      split
      case isTrue h =>
        obtain ⟨rfl, rfl⟩ := h
        rfl
      case isFalse => rfl
    all_goals rfl

/-- `server_unref` takes the connection from its server. -/
lemma serverUnref_entry (ho : (l.link s).owner = some (.server p i)) :
    Entry (serverUnref s) (fun _ l' => l' =
      (l.setLink s { l.link s with owner := none }).setConnq p i ((l.connq p i).erase s)) l := by
  unfold serverUnref
  refine Entry.ownerServer fun p' i' ho' => ?_
  rw [ho] at ho'
  obtain ⟨rfl, rfl⟩ := Owner.server.inj (Option.some.inj ho')
  refine Entry.modConn (fun x => { x with owner := none }) (fun _ => rfl) (Entry.last ?_)
  exact Entry.modHeap (fun l => l.setConnq p i ((l.connq p i).erase s)) (fun _ => rfl)
    (Entry.pure rfl)

/-- `conn_put` puts a connection on the free list. -/
lemma connPut_ledger (c : ConnId) (σ : St) :
    St.ledger { σ with heap := σ.heap.connPut c } =
      { σ.ledger with free := c :: σ.ledger.free } := by
  ext1
  case link =>
    funext x
    rcases eq_or_ne x c with rfl | hne
    · simp [St.ledger, Heap.connPut, Heap.modConn, Conn.link]
    · simp [St.ledger, Heap.connPut, Heap.modConn, hne]
  all_goals rfl

/-- `conn_put`. -/
lemma connPut_entry (c : ConnId) :
    Entry (modHeap (Heap.connPut c)) (fun _ l' => l' = { l with free := c :: l.free }) l :=
  Entry.last (Entry.modHeap (fun l => { l with free := c :: l.free }) (connPut_ledger c)
    (Entry.pure rfl))

/-- `server_close` takes a connection out of the gauge if it was counted, whatever holds of it. -/
theorem serverClose_ok (env : Env) (hl : l.Good fun c x => c ≠ s → x.Ok) :
    Entry (serverClose env s) (fun _ l' => l'.Ok) l := by
  unfold serverClose
  refine Entry.getConn fun conn hconn => Entry.ownerServer fun p i ho => ?_
  have hconnected : conn.connected = (l.link s).connected := congrArg Link.connected hconn
  refine Entry.call (serverCloseStats_entry conn.err conn.eof conn.connected) ?_
  rintro _ _ rfl
  rw [hconnected]
  refine Entry.modConn (fun x => { x with connected := false }) (fun _ => rfl) ?_
  -- in both branches the connection leaves its server and is released
  have hremove : ∀ x : Link, x.owner = none → Ledger.Ok
      { ((l.setGauge p i (l.gauge p i - if (l.link s).connected then 1 else 0)).setLink s
          x).setConnq p i ((l.connq p i).erase s) with
        free := s :: l.free } := by
    intro x hx
    refine hl.remove (g := (l.setGauge p i _).gauge) ho hx (fun c hne y hy => hy hne) ?_ ?_
    · simp [Ledger.setGauge]
    · intro p' i' hne
      simp [Ledger.setGauge, hne]
  refine Entry.ite (fun _ => ?_) fun _ => ?_
  · refine Entry.skip (.readHeap _) fun armed => Entry.skip (.onlyIf _ (.emit _ rfl)) fun _ => ?_
    refine Entry.skip (.serverFailureOf p i) fun _ => ?_
    refine Entry.call (@serverUnref_entry _ p i s ?_) ?_
    · rw [setLink_link]
      exact ho
    rintro _ _ rfl
    refine (connPut_entry s).mono ?_
    rintro _ _ rfl
    rw [setLink_setLink]
    exact hremove _ rfl
  · refine Entry.skip (.serverCloseMsgs s false _) fun _ => ?_
    refine Entry.skip (.serverCloseMsgs s true _) fun _ => Entry.skip (.discardRsp s _) fun _ => ?_
    refine Entry.skip (.serverFailureOf p i) fun _ => ?_
    refine Entry.call (@serverUnref_entry _ p i s ?_) ?_
    · rw [setLink_link]
      exact ho
    rintro _ _ rfl
    refine Entry.modConn (fun x => { x with sd := -1 }) (fun _ => rfl) ((connPut_entry s).mono ?_)
    rintro _ _ rfl
    rw [setConnq_setLink, setLink_setLink, setLink_setLink]
    refine hremove _ ?_
    exact congrArg Link.owner setLink_link

/-! ## Opening a connection -/

variable {P : ConnId → Link → Prop}

/-- `_conn_get` returns a connection without an owner, with all fields reset. -/
lemma connGet₀_entry (hl : l.Good P) :
    Entry (connGet₀ env) (fun r l' => match r with
      | none => l'.Good P
      | some c => l'.Good P ∧ l'.Taken c ∧ l'.link c = ({} : Conn).link) l := by
  have haddr : Entry (connAddr env) (fun r l' => match r with
      | none => l'.Good P
      | some c => l'.Good P ∧ l'.Taken c ∧ (l'.link c).owner = none) l := by
    unfold connAddr
    refine Entry.readHeap fun σ hσ => ?_
    split
    case h_1 c rest hfree =>
      have hpop := hl.pop ((congrArg Ledger.free hσ).symm.trans hfree)
      refine Entry.modHeap (fun l => { l with free := rest }) (fun _ => rfl) (Entry.pure ?_)
      exact ⟨hpop.1, ⟨hpop.2.1, hpop.2.2.1⟩, hpop.2.2.2⟩
    case h_2 =>
      refine Entry.ask fun t => Entry.ite (fun _ => ?_) fun _ => Entry.pure hl
      refine Entry.readHeap fun σ' hσ' => ?_
      have hnext : σ'.heap.nextConn = l.next := congrArg Ledger.next hσ'
      have hgrow := hl.grow
      rw [hnext]
      refine Entry.modHeap (fun l' => { l' with next := l.next + 1 }) (fun _ => rfl) (Entry.pure ?_)
      exact ⟨hgrow.1, ⟨hgrow.2.1, Nat.lt_succ_self _⟩, hgrow.2.2⟩
  refine Entry.call haddr fun r l₁ hr => ?_
  cases r with
  | none => exact Entry.pure hr
  | some c =>
    obtain ⟨hl₁, htaken, ho⟩ := hr
    refine Entry.modConn (fun _ => ({} : Conn).link) (fun _ => rfl) (Entry.pure ?_)
    refine ⟨hl₁.setLink htaken.free htaken.next (fun p i => ?_) nofun,
      ⟨htaken.free, htaken.next⟩, ?_⟩
    · simp [ho]
    · exact setLink_link

/-- `conn_get` for a server adds an unopened connection. -/
lemma connGetServer_entry (p i : ℕ) (redis : Bool) (hl : l.Ok) :
    Entry (connGetServer env p i redis) (fun r l' => match r with
      | none => l'.Ok
      | some s => s ∈ l'.connq p i ∧ l'.Good fun c x => x.Ok ∨ c = s ∧ x.New) l := by
  unfold connGetServer serverRef
  refine Entry.call (connGet₀_entry hl) fun r l₁ hr => ?_
  cases r with
  | none => exact Entry.pure hr
  | some s =>
    obtain ⟨hl₁, htaken, hlink⟩ := hr
    simp only [bind_assoc]
    refine Entry.modConn (fun x => { x with client := false }) (fun _ => rfl) ?_
    refine Entry.skip (.ask _) fun ok => Entry.skip (.onlyIf _ (.resolveFailed s)) fun _ => ?_
    refine Entry.modHeap (fun l => l.setConnq p i (l.connq p i ++ [s])) (fun _ => rfl) ?_
    refine Entry.modConn (fun x => { x with owner := some (.server p i) }) (fun _ => rfl)
      (Entry.pure ?_)
    refine ⟨by simp [setConnq_setLink], ?_⟩
    rw [setConnq_setLink, setLink_setLink]
    have hnew : Link.New { l₁.link s with owner := some (.server p i), client := false } := by
      rw [hlink]
      exact ⟨rfl, rfl, rfl, rfl, rfl, rfl⟩
    have hweak : l₁.Good fun c x => x.Ok ∨ c = s ∧ x.New := hl₁.mono fun _ _ c _ hx => .inl hx
    have ho : (l₁.link s).owner = none := congrArg Link.owner hlink
    have hjoin := hweak.join htaken.free htaken.next ho (x := { l₁.link s with
      owner := some (.server p i), client := false }) rfl hnew.connected (.inr ⟨rfl, hnew⟩)
    simpa only [setConnq_link, setLink_link, setLink_connq] using hjoin

/-- `server_conn` returns an open connection or a new one. -/
lemma serverConn_entry (p i : ℕ) (hl : l.Ok) :
    Entry (serverConn env p i) (fun r l' => match r with
      | none => l'.Ok
      | some s => s ∈ l'.connq p i ∧ l'.Good fun c x => x.Ok ∨ c = s ∧ x.New) l := by
  unfold serverConn
  refine Entry.skip (.getPool p) fun pool => Entry.readHeap fun σ hσ => ?_
  refine Entry.ite (fun _ => connGetServer_entry p i _ hl) fun _ => ?_
  have hq : σ.heap.sConnq p i = l.connq p i := congrFun (congrFun (congrArg Ledger.connq hσ) p) i
  split
  case h_1 =>
    rintro σ' - a σ'' ⟨⟩
  case h_2 s rest hs =>
    refine Entry.modHeap (Ledger.setConnq p i (rest ++ [s])) (fun _ => rfl) (Entry.pure ?_)
    have hperm : (rest ++ [s]).Perm (l.connq p i) := by
      rw [← hq, hs]
      exact List.perm_append_singleton s rest
    refine ⟨?_, (hl.reorder hperm).mono fun _ _ c _ hx => .inl hx⟩
    simp

/-- `server_connect` opens a new connection: it is being connected, unless it failed. -/
lemma serverConnect_entry (henv : env.Deferred) (hs : s ∈ l.connq p i)
    (hl : l.Good fun c x => x.Ok ∨ c = s ∧ x.New) :
    Entry (serverConnect env s) (fun ok l' => if ok then l'.Ok else l'.Good fun c x => c ≠ s → x.Ok)
      l := by
  have hothers : l.Good fun c x => c ≠ s → x.Ok :=
    hl.mono fun _ _ c _ hx hne => hx.resolve_right fun h => hne h.1
  have hfailed : ∀ {l' : Ledger}, (l'.Good fun c x => c ≠ s → x.Ok) → Entry (connectFailed env s)
      (fun ok l' => if ok then l'.Ok else l'.Good fun c x => c ≠ s → x.Ok) l' := by
    intro l' hl'
    unfold connectFailed
    exact Entry.skip .getErrno fun e => Entry.skip (.modConn s fun _ => ⟨rfl, rfl⟩) fun _ =>
      Entry.pure hl'
  unfold serverConnect
  refine Entry.getConn fun conn hconn => Entry.ite (fun _ => Entry.pure hothers) fun _ => ?_
  have hsd : conn.sd = (l.link s).sd := congrArg Link.sd hconn
  rw [hsd]
  refine Entry.ite (fun hpos => Entry.pure ?_) fun hpos => ?_
  · refine hl.mono fun _ _ c _ hx => hx.resolve_right ?_
    rintro ⟨rfl, hnew⟩
    rw [hnew.sd] at hpos
    exact absurd hpos (by decide)
  -- the connection is new
  have hnew : (l.link s).New := by
    rcases hl.link p i s hs with hok | ⟨-, hnew⟩
    · exact absurd hok.sd hpos
    · exact hnew
  have ho := (hl.owner p i s).mp hs
  refine Entry.ask fun t => Entry.modConn (fun x => { x with sd := env.socket t }) (fun _ => rfl) ?_
  have hopen : Ledger.Good (fun c x => c ≠ s → x.Ok)
      (l.setLink s { l.link s with sd := env.socket t }) := by
    refine hothers.update (g := l.gauge) hs ho (fun c hne y hy => hy) ?_ rfl fun _ _ _ => rfl
    exact fun hne => absurd rfl hne
  refine Entry.ite (fun _ => hfailed hopen) fun hnonneg => ?_
  refine Entry.ask fun _ => Entry.ite (fun _ => hfailed hopen) fun _ => ?_
  refine Entry.skip (.eventAddConn s) fun ok => Entry.ite (fun _ => hfailed hopen) fun _ => ?_
  refine Entry.ask fun t' => ?_
  cases hc : env.connect t' with
  | ok => exact absurd hc (henv t').1
  | failed => exact hfailed hopen
  | inprogress =>
    refine Entry.modConn (fun x => { x with connecting := true }) (fun _ => rfl) (Entry.pure ?_)
    rw [setLink_setLink, setLink_link]
    refine hl.update (g := l.gauge) hs ho
      (fun c hne y hy => hy.resolve_right fun h => hne h.1) ?_ rfl fun _ _ _ => rfl
    refine ⟨?_, hnew.client, by simp [hnew.connected], by simp [hnew.connected, hnew.posted],
      fun _ => hnew.out⟩
    exact lt_of_le_of_ne (not_lt.mp hnonneg) (henv t).2.symm

/-- **`server_pool_conn` keeps the invariant**, whatever the connection attempt answers.  A failure
leaves the new connection unconnected, and `server_close` takes it off the books it was put on. -/
theorem serverPoolConn_maintains (henv : env.Deferred) (p : ℕ) (key : List UInt8) :
    Maintains St.ledger Ledger.Ok (serverPoolConn env p key) := by
  intro l hl
  unfold serverPoolConn
  refine Entry.skip (.ask _) fun _ => Entry.skip (.ask _) fun _ => Entry.skip (.ask _) fun _ => ?_
  refine Entry.skip (.runPool p _) fun gate => Entry.ite (fun _ => Entry.pure hl) fun _ => ?_
  refine Entry.skip (.serverPoolServer p key) fun i => ?_
  refine Entry.call (serverConn_entry p i hl) fun r l₁ hr => ?_
  cases r with
  | none => exact Entry.pure hr
  | some s =>
    refine Entry.call (serverConnect_entry henv hr.1 hr.2) fun ok l₂ hok => ?_
    cases ok with
    | true => exact Entry.pure hok
    | false => exact Entry.call (serverClose_ok env hok) fun _ l₃ hl₃ => Entry.pure hl₃

/-- The loop of `server_pool_preconnect` keeps the invariant. -/
theorem serverEachPreconnect_maintains (henv : env.Deferred) (p i : ℕ) :
    Maintains St.ledger Ledger.Ok (serverEachPreconnect env p i) := by
  intro l hl
  unfold serverEachPreconnect
  refine Entry.call (serverConn_entry p i hl) fun r l₁ hr => ?_
  cases r with
  | none => exact Entry.pure hr
  | some s =>
    refine Entry.call (serverConnect_entry henv hr.1 hr.2) fun ok l₂ hok => ?_
    cases ok with
    | true => exact Entry.pure hok
    | false => exact serverClose_ok env hok

end Functions

end GfwProxy
