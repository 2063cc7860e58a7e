import GfwProxy.Net.Closing

set_option autoImplicit false

/-!
# Finding a server connection

`server_pool_conn` as moves: a connection is taken from the queue of the server or opened, and
closed again if that fails.

## Main definitions

* `GfwProxy.Net.Calmer` — nothing more is due, and nothing more is being closed.

## Main results

* `GfwProxy.serverConn_moves`, `GfwProxy.serverConnect_moves`, `GfwProxy.serverPoolConn_moves`.
-/

namespace GfwProxy

open Function

variable {env : Env} {n n' : Net} {h h' : Heap} {g g' : Ghost} {c s : ConnId} {m : MsgId} {p i : ℕ}

/-- Nothing more is due in `n'` than in `n`, no more open connections are being closed, and no
client has been accepted. -/
structure Net.Calmer (n n' : Net) : Prop where
  due : n'.g.due ⊆ n.g.due
  shut : ∀ x, n'.Open x → x ∈ n'.g.closing → n.Open x ∧ x ∈ n.g.closing
  client : ∀ x, n'.Client x → n.Client x

/-- Nothing happens. -/
lemma Net.Calmer.refl (n : Net) : n.Calmer n :=
  ⟨subset_rfl, fun _ ho hc => ⟨ho, hc⟩, fun _ hc => hc⟩

/-- One thing after the other. -/
lemma Net.Calmer.trans {n₁ n₂ n₃ : Net} (h₁ : n₁.Calmer n₂) (h₂ : n₂.Calmer n₃) : n₁.Calmer n₃ where
  due := h₂.due.trans h₁.due
  shut x ho hc := by
    obtain ⟨ho', hc'⟩ := h₂.shut x ho hc
    exact h₁.shut x ho' hc'
  client x hc := h₁.client x (h₂.client x hc)

/-- The connections and what is due are as before. -/
lemma Net.Calmer.of_eq (ho : n'.c.owner = n.c.owner) (hc : n'.g.closing = n.g.closing)
    (hd : n'.g.due ⊆ n.g.due) : n.Calmer n' :=
  ⟨hd, fun x hx hx' => ⟨by rwa [Net.Open, ← ho], hc ▸ hx'⟩, fun x hx => by rwa [Net.Client, ← ho]⟩

/-- The handlers can go on behind that. -/
lemma Net.Calmer.ready (hc : n.Calmer n') (hr : Ready n) (hs : Sound n') : Ready n' := by
  refine ⟨hs, fun x hx hxc => ?_⟩
  obtain ⟨p, ho⟩ := hx
  exact hr.closing x (hc.client x ⟨p, ho⟩) (hc.shut x (by simp [Net.Open, ho]) hxc).2

/-- Flags change, and no further client is to be woken. -/
lemma Net.Flags.calmer (hf : n.Flags n') (hd : n'.g.due ⊆ n.g.due) : n.Calmer n' := by
  obtain ⟨_, _, _, _, _, rfl⟩ := hf
  exact .of_eq rfl rfl hd

/-- A connection is written twice. -/
@[simp] lemma ConnCols.set_set (n : ConnCols) (c : ConnId) (x y : Conn) :
    (n.set c x).set c y = n.set c y := by
  simp [ConnCols.set]

/-! ## Opening -/

/-- An address for a connection. -/
lemma connAddr_moves (hi : Inv (h.net g)) :
    After (connAddr env) (Reach ServerMove (h.net g) fun o h' g' => g' = g ∧ h'.conn = h.conn ∧
      ∀ s, o = some s → (h'.net g').FreshConn s) h := by
  unfold connAddr
  refine After.readHeap ?_
  cases hfree : h.freeConnq with
  | cons s rest =>
    have hmove : ServerMove (h.net g) ({ h with freeConnq := rest }.net g) := .takeConn s rest hfree
    refine After.modHeap (After.pure ⟨g, .single hmove, rfl, rfl, ?_⟩)
    rintro s' ⟨⟩
    have hnodup := hi.addr.cfree_nodup
    have hmem := hi.addr.cfree s
    simp only [Heap.net_statics, hfree, List.nodup_cons, List.mem_cons, true_or,
      forall_const] at hnodup hmem
    exact ⟨hmem.1, hnodup.1, hmem.2⟩
  | nil =>
    refine After.ask fun t => After.ite (fun _ => ?_) fun _ => ?_
    · have hmove : ServerMove (h.net g) ({ h with nextConn := h.nextConn + 1 }.net g) :=
        .growConn hfree
      refine After.readHeap (After.modHeap (After.pure ⟨g, .single hmove, rfl, rfl, ?_⟩))
      rintro s' ⟨⟩
      refine ⟨?_, by simp [Heap.net, hfree], Nat.lt_succ_self _⟩
      by_contra hopen
      exact absurd (hi.addr.cused _ hopen) (lt_irrefl _)
    · exact After.pure (.here ⟨rfl, rfl, by simp⟩)

/-- Connection object `s` has been reset, and is otherwise as it was. -/
def Heap.New (h : Heap) (s : ConnId) (h' : Heap) : Prop :=
  ∃ x : Conn, x.seen = { gen := (h.conn s).gen } ∧ h' = { h with conn := update h.conn s x }

/-- A connection object is new once its fields are reset. -/
lemma Heap.New.reset (h : Heap) (s : ConnId) : h.New s (h.modConn s fun x => { gen := x.gen }) :=
  ⟨_, rfl, rfl⟩

/-- A new connection is changed in fields that the view does not have. -/
lemma Heap.New.mod (hn : h.New s h') (f : Conn → Conn)
    (hf : (f (h'.conn s)).seen = (h'.conn s).seen) :
    h.New s (h'.modConn s f) := by
  obtain ⟨x, hx, rfl⟩ := hn
  refine ⟨f x, ?_, ?_⟩
  · simpa [hx] using hf
  · simp [Heap.modConn]

/-- A new connection that is marked `done`, with an error, is new after that has been logged. -/
lemma Heap.New.resolveFailed (hn : h.New s h') : ∃ f client eof idle,
    (h.emit (.done f s client eof idle)).New s
      ((h'.modConn s fun x => { x with err := gfError }).setDone .serverRef s) := by
  obtain ⟨x, hx, rfl⟩ := hn
  refine ⟨.serverRef, x.client, x.eof, x.idle, { x with err := gfError, done := true }, hx, ?_⟩
  simp [Heap.setDone, Heap.modConn, Heap.emit, Conn.idle]

/-- The end of `server_ref`: connection `s`, which is new, becomes one of server `i` of pool `p`. -/
lemma joinServer_moves {n : Net} {h₁ h₂ : Heap} {g₁ : Ghost}
    (hmoves : Relation.ReflTransGen ServerMove n (h₁.net g₁)) (hconn : h₁.conn = h.conn)
    (hfresh : (h₁.net g₁).FreshConn s) (hnew : h₁.New s h₂) :
    After (do
        modHeap fun h => h.setConnq p i (h.sConnq p i ++ [s])
        modConn s fun x => { x with owner := some (.server p i) }
        return some s)
      (Reach ServerMove n fun o h' g' => (h.net g₁).Calmer (h'.net g') ∧
        ∀ s, o = some s → (h'.conn s).owner = some (.server p i)) h₂ := by
  obtain ⟨x, hseen, rfl⟩ := hnew
  let g₂ : Ghost := { g₁ with
    closing := g₁.closing \ {s}, due := g₁.due \ {s}, cold := g₁.cold \ {s} }
  have hset : ConnCols.of (update h₁.conn s { x with owner := some (.server p i) }) =
      (ConnCols.of h₁.conn).set s { owner := some (.server p i), gen := (h₁.conn s).gen } := by
    have hx : { x with owner := some (.server p i) }.seen =
        { owner := some (.server p i), gen := (h₁.conn s).gen } := by
      calc { x with owner := some (.server p i) }.seen
          = { x.seen with owner := some (.server p i) } := rfl
        _ = { owner := some (.server p i), gen := (h₁.conn s).gen } := by rw [hseen]
    rw [ConnCols.of_update, ← hx]
    rfl
  have he : (({ h₁ with conn := update h₁.conn s x }.setConnq p i (h₁.sConnq p i ++ [s])).modConn s
      fun x => { x with owner := some (.server p i) }).net g₂ =
      { h₁.net g₁ with
        c := (h₁.net g₁).c.set s { owner := some (.server p i), gen := (h₁.net g₁).c.gen s }
        a.sConnq := fun p' i' =>
          if p' = p ∧ i' = i then (h₁.net g₁).a.sConnq p i ++ [s] else (h₁.net g₁).a.sConnq p' i'
        g := g₂ } := by
    simp only [Heap.modConn, Heap.setConnq, update_self, update_idem, Heap.net, hset]
    rfl
  refine After.modHeap (After.modConn (After.pure ⟨g₂, ?_, ⟨Set.sdiff_subset, ?_, ?_⟩, ?_⟩))
  · rw [he]
    exact hmoves.tail (.openServer s p i hfresh)
  · rintro y hy ⟨hyc, hne⟩
    rw [he] at hy
    refine ⟨?_, hyc⟩
    have hys : y ≠ s := hne
    simpa [Net.Open, ConnCols.set, hys, hconn] using hy
  · rintro y ⟨p', hy⟩
    rw [he] at hy
    rcases eq_or_ne y s with rfl | hys
    · simp [ConnCols.set] at hy
    · exact ⟨p', by simpa [ConnCols.set, hys, hconn] using hy⟩
  · rintro s' ⟨⟩
    simp

/-- `conn_get` for a connection to server `i` of pool `p`. -/
lemma connGetServer_moves (hi : Inv (h.net g)) (redis : Bool) :
    After (connGetServer env p i redis) (Reach ServerMove (h.net g) fun o h' g' =>
      (h.net g).Calmer (h'.net g') ∧ ∀ s, o = some s → (h'.conn s).owner = some (.server p i))
      h := by
  unfold connGetServer connGet₀
  rw [bind_assoc]
  refine After.follow (connAddr_moves hi) ?_
  rintro o h₁ g₁ - ⟨rfl, hconn, hfresh⟩
  have hcalmer : (h.net g₁).Calmer (h₁.net g₁) := .of_eq (by simp [Heap.net, hconn]) rfl subset_rfl
  cases o with
  | none => exact After.pure (.here ⟨hcalmer, by simp⟩)
  | some s =>
    have hfresh := hfresh s rfl
    rw [bind_assoc]
    refine After.modConn ?_
    rw [pure_bind]
    refine After.modConn ?_
    -- all that the view sees of the object is that it is new
    have hnew : h₁.New s (((h₁.modConn s fun x => { gen := x.gen }).modConn s fun x =>
        { x with redis := redis, client := false })) :=
      (Heap.New.reset h₁ s).mod _ (by simp [Conn.seen])
    generalize (h₁.modConn s fun x => { gen := x.gen }).modConn s (fun x =>
      { x with redis := redis, client := false }) = h₂ at hnew ⊢
    unfold serverRef
    simp only [bind_assoc]
    refine After.ask fun t => ?_
    cases env.resolve t with
    | true => exact joinServer_moves .refl hconn hfresh hnew
    | false =>
      -- the connection is marked `done`
      obtain ⟨f, client, eof, idle, hdone⟩ := hnew.resolveFailed
      have hnote : ServerMove (h₁.net g₁) ((h₁.emit (.done f s client eof idle)).net g₁) :=
        .note _ rfl
      refine After.call (R := fun _ h₃ => (h₁.emit (.done f s client eof idle)).New s h₃)
        (After.modConn (After.last (After.modHeap (After.pure hdone)))) fun _ h₃ hnew₃ => ?_
      exact joinServer_moves (.single hnote) hconn
        ⟨hfresh.owner, hfresh.free, hfresh.lt⟩ hnew₃

/-- **`server_conn`**. -/
theorem serverConn_moves (hi : Inv (h.net g)) :
    After (serverConn env p i) (Reach ServerMove (h.net g) fun o h' g' =>
      (h.net g).Calmer (h'.net g') ∧ ∀ s, o = some s → (h'.conn s).owner = some (.server p i))
      h := by
  unfold serverConn
  refine After.getPool fun pool => After.readHeap
    (After.ite (fun _ => connGetServer_moves hi _) fun _ => ?_)
  cases hq : h.sConnq p i with
  | nil => exact After.fault
  | cons s rest =>
    have hmove : ServerMove (h.net g) ((h.setConnq p i (rest ++ [s])).net g) :=
      .rotate p i s rest hq
    refine After.modHeap (After.pure ⟨g, .single hmove, .of_eq rfl rfl subset_rfl, ?_⟩)
    rintro s' ⟨⟩
    have hmem : s ∈ h.sConnq p i := by simp [hq]
    exact hi.addr.connq p i s hmem

/-- From `h` to `h'`, nothing but notifications and sockets has changed. -/
def Net.Socket (n n' : Net) : Prop :=
  ∃ sd sendActive evOut, n' = { n with c.sd := sd, c.sendActive := sendActive, c.evOut := evOut }

/-- Nothing happens to the socket. -/
lemma Net.Socket.refl (n : Net) : n.Socket n := ⟨_, _, _, rfl⟩

/-- One thing after the other happens to the socket. -/
lemma Net.Socket.trans {n₁ n₂ n₃ : Net} (h₁ : n₁.Socket n₂) (h₂ : n₂.Socket n₃) : n₁.Socket n₃ := by
  obtain ⟨_, _, _, rfl⟩ := h₁
  obtain ⟨_, _, _, rfl⟩ := h₂
  exact ⟨_, _, _, rfl⟩

/-- `event_add_conn`. -/
lemma eventAddConn_moves (h : Heap) (g : Ghost) (c : ConnId) :
    After (eventAddConn env c) (Reach ServerMove (h.net g) fun _ h' g' =>
      g' = g ∧ (h.net g).Socket (h'.net g)) h := by
  unfold eventAddConn
  refine After.ask fun t => After.ite (fun _ => After.modConn ?_) fun _ =>
    After.pure (.here ⟨rfl, .refl _⟩)
  have he : (h.modConn c fun x =>
      { x with sendActive := true, recvActive := true, evOut := true }).net g =
      { h.net g with
        c.sendActive := update (h.net g).c.sendActive c true
        c.evOut := update (h.net g).c.evOut c true } := by
    simp [ConnCols.set]
  refine After.pay₁ (.wake c) he.symm (After.pure (.here ⟨rfl, ?_⟩))
  rw [he]
  exact ⟨_, _, _, rfl⟩

/-- A connection fails; the view does not see the error. -/
lemma connectFailed_after (h : Heap) (g : Ghost) (s : ConnId) :
    After (connectFailed env s) (fun _ h' => h'.net g = h.net g) h :=
  After.getErrno fun _ => After.modConn (After.pure (Heap.net_modConn_unseen rfl))

/-- **`server_connect`**.

**Proof sketch.** The socket, the registration and the flags of the connection change, in this
order, and each failure only sets its error. -/
theorem serverConnect_moves (hs : (h.net g).Server s) :
    After (serverConnect env s) (Reach ServerMove (h.net g) fun _ h' g' =>
      g' = g ∧ (h.net g).Socket (h'.net g)) h := by
  have hfail : ∀ {n : Net} {h₁ : Heap}, n.Socket (h₁.net g) →
      After (connectFailed env s)
      (Reach ServerMove (h₁.net g) fun _ h' g' => g' = g ∧ n.Socket (h'.net g)) h₁ := by
    intro n h₁ hsock
    refine (connectFailed_after h₁ g s).mono fun _ h₂ he => ⟨g, ?_, rfl, ?_⟩
    · rw [he]
    · rwa [he]
  unfold serverConnect
  refine After.getConn (After.ite (fun _ => After.pure (.here ⟨rfl, .refl _⟩)) fun _ => ?_)
  refine After.ite (fun _ => After.pure (.here ⟨rfl, .refl _⟩)) fun _ => After.ask fun t =>
    After.modConn ?_
  have he : (h.modConn s fun x => { x with sd := env.socket t }).net g =
      { h.net g with c.sd := update (h.net g).c.sd s (env.socket t) } := by
    simp [ConnCols.set]
  have hsd : ServerMove (h.net g) ((h.modConn s fun x => { x with sd := env.socket t }).net g) := by
    rw [he]
    exact .setSd s _ fun hc => hc.ne hs rfl
  have hsock : (h.net g).Socket ((h.modConn s fun x => { x with sd := env.socket t }).net g) := by
    rw [he]
    exact ⟨_, _, _, rfl⟩
  refine After.pay (.single hsd) ?_
  generalize h.modConn s (fun x => { x with sd := env.socket t }) = h₁ at hsock ⊢
  refine After.ite (fun _ => hfail hsock) fun _ => After.ask fun _ =>
    After.ite (fun _ => hfail hsock) fun _ => ?_
  refine After.follow (eventAddConn_moves h₁ g s) ?_
  rintro ok h₂ g₂ - ⟨rfl, hsock₂⟩
  have hsock' := hsock.trans hsock₂
  refine After.ite (fun _ => hfail hsock') fun _ => After.ask fun _ => ?_
  split
  · have he₂ : (h₂.modConn s fun x => { x with connecting := true }).net g₂ = h₂.net g₂ :=
      Heap.net_modConn_unseen rfl
    exact After.modConn (After.same he₂ (After.pure (.here ⟨rfl, he₂ ▸ hsock'⟩)))
  · exact hfail hsock'
  · have he₂ : (h₂.modConn s fun x => { x with connected := true }).net g₂ = h₂.net g₂ :=
      Heap.net_modConn_unseen rfl
    exact After.modConn (After.same he₂ (After.pure (.here ⟨rfl, he₂ ▸ hsock'⟩)))

/-- The choice of a server leaves the objects alone. -/
lemma serverPoolServer_after (key : List UInt8) :
    After (serverPoolServer env p key) (fun _ h' => h' = h) h := by
  unfold serverPoolServer
  refine After.getPool fun pool => After.ask fun rnd => ?_
  split
  · exact After.fault
  · exact After.ite (fun _ => After.pure rfl) fun _ => After.fault

/-- A server connection is closed: what is due stays so at most, and nothing else is being
closed. -/
lemma serverClose_calmer (hr : Ready (h.net g)) :
    After (serverClose env s)
      (Reach ServerMove (h.net g) fun _ h' g' => (h.net g).Calmer (h'.net g')) h := by
  refine (serverClose_moves hr).mono fun _ h' hreach =>
    hreach.mono fun g' ⟨hdue, hclosing, howner⟩ => ?_
  have hne : ∀ x, (h'.net g').c.owner x ≠ none → x ≠ s ∧
      (h'.net g').c.owner x = (h.net g).c.owner x := by
    intro x hx
    rw [howner] at hx ⊢
    have hxs : x ≠ s := by
      rintro rfl
      simp at hx
    exact ⟨hxs, update_of_ne hxs _ _⟩
  refine ⟨hdue, fun x hx hxc => ?_, fun x hx => ?_⟩
  · obtain ⟨hxs, ho⟩ := hne x hx
    exact ⟨by rwa [Net.Open, ← ho], (hclosing hxc).resolve_left hxs⟩
  · obtain ⟨p, hp⟩ := hx
    obtain ⟨-, ho⟩ := hne x (by rw [hp]; exact Option.some_ne_none _)
    exact ⟨p, ho ▸ hp⟩

/-- What happens to a socket is calm. -/
lemma Net.Socket.calmer (hs : n.Socket n') : n.Calmer n' := by
  obtain ⟨_, _, _, rfl⟩ := hs
  exact .of_eq rfl rfl subset_rfl

/-- **`server_pool_conn`**: a connection to the server of the key, or none.

**Proof sketch.** The pool names a server, `serverConn_moves` gives a connection to it, and
`serverConnect_moves` connects it; if that fails the connection is closed. -/
theorem serverPoolConn_moves (hr : Ready (h.net g)) (key : List UInt8) :
    After (serverPoolConn env p key) (Reach ServerMove (h.net g) fun o h' g' =>
      (h.net g).Calmer (h'.net g') ∧ ∀ s, o = some s → (h'.net g').Server s) h := by
  unfold serverPoolConn
  refine After.ask fun _ => After.ask fun _ => After.ask fun _ => After.runPool fun gate => ?_
  refine After.ite (fun _ => After.pure (.here ⟨.refl _, by simp⟩)) fun _ => ?_
  refine After.skip (serverPoolServer_after key) fun i => ?_
  refine After.follow (serverConn_moves hr.inv) ?_
  rintro o h₁ g₁ hmoves₁ ⟨hcalmer₁, howner₁⟩
  have hr₁ := ServerMoves.ready hmoves₁ hr
  cases o with
  | none => exact After.pure (.here ⟨hcalmer₁, by simp⟩)
  | some s =>
    have hs₁ : (h₁.net g₁).Server s := ⟨p, i, howner₁ s rfl⟩
    refine After.follow (serverConnect_moves hs₁) ?_
    rintro ok h₂ g₂ hmoves₂ ⟨rfl, hsock⟩
    have hcalmer₂ := hcalmer₁.trans hsock.calmer
    refine After.ite (fun _ => ?_) fun _ => ?_
    · refine After.pure (.here ⟨hcalmer₂, ?_⟩)
      rintro s' ⟨⟩
      obtain ⟨_, _, _, hview⟩ := hsock
      rw [hview]
      exact hs₁
    · refine After.follow (serverClose_calmer (ServerMoves.ready hmoves₂ hr₁)) ?_
      rintro - h₃ g₃ - hcalmer₃
      exact After.pure (.here ⟨hcalmer₂.trans hcalmer₃, by simp⟩)

/-- **`server_each_preconnect`**. -/
theorem serverEachPreconnect_moves (hr : Ready (h.net g)) :
    After (serverEachPreconnect env p i) (Reach ServerMove (h.net g) fun _ h' g' =>
      (h.net g).Calmer (h'.net g')) h := by
  unfold serverEachPreconnect
  refine After.follow (serverConn_moves hr.inv) ?_
  rintro o h₁ g₁ hmoves₁ ⟨hcalmer₁, howner₁⟩
  have hr₁ := ServerMoves.ready hmoves₁ hr
  cases o with
  | none => exact After.pure (.here hcalmer₁)
  | some s =>
    refine After.follow (serverConnect_moves ⟨p, i, howner₁ s rfl⟩) ?_
    rintro ok h₂ g₂ hmoves₂ ⟨rfl, hsock⟩
    have hcalmer₂ := hcalmer₁.trans hsock.calmer
    refine After.ite (fun _ => After.pure (.here hcalmer₂)) fun _ => ?_
    refine (serverClose_calmer (ServerMoves.ready hmoves₂ hr₁)).mono fun _ h₃ hreach => ?_
    exact hreach.mono fun _ hcalmer₃ => hcalmer₂.trans hcalmer₃

end GfwProxy
