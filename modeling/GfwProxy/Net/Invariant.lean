import GfwProxy.Net.Vec

set_option autoImplicit false

/-!
# The invariant of the moves

## Main definitions

* `GfwProxy.Inv` — the invariant.

## Main results

* `GfwProxy.Move.inv`, `GfwProxy.Moves.inv` — the moves keep the invariant.
-/

namespace GfwProxy

open Function

/-- Sub-message `y` of request `o` of client `c` is still to be forwarded. -/
structure Net.Pending (n : Net) (y : MsgId) (c : ConnId) (o : MsgId) : Prop where
  client : n.Client c
  closing : c ∉ n.g.closing
  place : n.g.place y = .hand
  of : n.Of y c
  blank : n.m.Blank y
  noreply : n.m.noreply y = false
  mem : o ∈ n.c.omsgq c
  fragOwner : n.m.fragOwner y = some o
  self : n.m.fragOwner o = some o
  fragId : n.m.fragId y = n.m.fragId o
  ne : n.m.fragId o ≠ 0
  reqNo : n.m.reqNo y = n.m.reqNo o
  last : n.m.reqNo y + 1 = n.c.nReq c
  unmarked : ∀ x ∈ n.c.omsgq c, n.m.fragId x = n.m.fragId y → n.m.fdone x = false

/-- A fragment has failed without being counted. -/
def Net.Lost (n : Net) : Prop := ∃ i, .fwdFail i ∈ n.a.log

/-- **The invariant.** -/
structure Inv (n : Net) : Prop where
  addr : Addresses n
  queues : Queues n
  facts : Facts n
  vec : ∀ c, n.Client c → c ∉ n.g.closing →
    Vec n.m (n.c.omsgq c) n.g.pend (n.c.nReq c) n.a.fragId n.Lost
  pend : ∀ y ∈ n.g.pend, ∃ c o, n.Pending y c o
  pend_nodup : n.g.pend.Nodup

/-! ## Frames -/

/-- Two views differ in what the invariant does not speak about. -/
structure Net.Same (n n' : Net) : Prop where
  owner : n'.c.owner = n.c.owner
  sd : n'.c.sd = n.c.sd
  imsgq : n'.c.imsgq = n.c.imsgq
  omsgq : n'.c.omsgq = n.c.omsgq
  rmsg : n'.c.rmsg = n.c.rmsg
  client : n'.c.client = n.c.client
  gen : n'.c.gen = n.c.gen
  nReq : n'.c.nReq = n.c.nReq
  msgs : n'.m = n.m
  freeConnq : n'.a.freeConnq = n.a.freeConnq
  nextConn : n'.a.nextConn = n.a.nextConn
  freeMsgq : n'.a.freeMsgq = n.a.freeMsgq
  nextMsg : n'.a.nextMsg = n.a.nextMsg
  fragId : n'.a.fragId = n.a.fragId
  sConnq : n'.a.sConnq = n.a.sConnq
  log : ∀ i, .fwdFail i ∈ n.a.log → .fwdFail i ∈ n'.a.log
  place : n'.g.place = n.g.place
  closing : n'.g.closing = n.g.closing
  pend : n'.g.pend = n.g.pend

variable {n n' : Net}

/-- The invariant does not speak about the other columns. -/
lemma Inv.same (hi : Inv n) (h : n.Same n') : Inv n' := by
  obtain ⟨c, m, a, g⟩ := n
  obtain ⟨c', m', a', g'⟩ := n'
  obtain ⟨o, sd, iq, oq, rm, sm, cl, sa, eo, ls, ge, nr, se, an⟩ := c
  obtain ⟨o', sd', iq', oq', rm', sm', cl', sa', eo', ls', ge', nr', se', an'⟩ := c'
  obtain ⟨fc, nc, fm, nm, mi, fi, tr, sc, lo⟩ := a
  obtain ⟨fc', nc', fm', nm', mi', fi', tr', sc', lo'⟩ := a'
  obtain ⟨pl, cs, du, co, pe⟩ := g
  obtain ⟨pl', cs', du', co', pe'⟩ := g'
  obtain ⟨h1, h2, h3, h4, h5, h6, h7, h8, h9, h10, h11, h12, h13, h14, h15, hlog, h17, h18, h19⟩ :=
    h
  dsimp only at h1 h2 h3 h4 h5 h6 h7 h8 h9 h10 h11 h12 h13 h14 h15 h17 h18 h19
  subst h1 h2 h3 h4 h5 h6 h7 h8 h9 h10 h11 h12 h13 h14 h15 h17 h18 h19
  constructor
  case addr =>
    obtain ⟨⟩ := hi.addr
    constructor <;> assumption
  case queues =>
    obtain ⟨⟩ := hi.queues
    constructor <;> assumption
  case facts =>
    obtain ⟨⟩ := hi.facts
    constructor <;> assumption
  case vec =>
    intro c hc hcl
    exact (hi.vec c hc hcl).congr (fun _ _ => ⟨rfl, rfl, rfl, rfl, rfl, rfl, rfl⟩)
      (fun _ _ => rfl) le_rfl fun ⟨i, hl⟩ => ⟨i, hlog i hl⟩
  case pend =>
    intro y hy
    obtain ⟨c, o, h⟩ := hi.pend y hy
    obtain ⟨⟩ := h
    refine ⟨c, o, ?_⟩
    constructor <;> assumption
  case pend_nodup => exact hi.pend_nodup

/-- A sub-message that is still to be forwarded has not changed. -/
structure Net.SameSub (n n' : Net) (y : MsgId) : Prop where
  place : n'.g.place y = n.g.place y
  owner : n'.m.owner y = n.m.owner y
  ownerGen : n'.m.ownerGen y = n.m.ownerGen y
  blank : n.m.Blank y → n'.m.Blank y
  noreply : n'.m.noreply y = n.m.noreply y
  fragOwner : n'.m.fragOwner y = n.m.fragOwner y
  fragId : n'.m.fragId y = n.m.fragId y
  reqNo : n'.m.reqNo y = n.m.reqNo y

/-- Client `c` is open as before, with the same requests in its queue. -/
structure Net.SameClient (n n' : Net) (c : ConnId) : Prop where
  client : n'.Client c
  closing : c ∉ n'.g.closing
  omsgq : n'.c.omsgq c = n.c.omsgq c
  nReq : n'.c.nReq c = n.c.nReq c
  gen : n'.c.gen c = n.c.gen c

/-- A pending sub-message stays pending when its client, the order of the requests ahead of it and
the sub-message itself have not changed. -/
lemma Net.Pending.frame {y : MsgId} {c : ConnId} {o : MsgId} (hp : n.Pending y c o)
    (hc : n.SameClient n' c) (hm : ∀ x ∈ n.c.omsgq c, n.m.SameOrder n'.m x)
    (hy : n.SameSub n' y) : n'.Pending y c o where
  client := hc.client
  closing := hc.closing
  place := hy.place.trans hp.place
  of := ⟨hy.owner.trans hp.of.1, by rw [hy.ownerGen, hc.gen, hp.of.2]⟩
  blank := hy.blank hp.blank
  noreply := hy.noreply.trans hp.noreply
  mem := by rw [hc.omsgq]; exact hp.mem
  fragOwner := hy.fragOwner.trans hp.fragOwner
  self := (hm o hp.mem).fragOwner.trans hp.self
  fragId := by rw [hy.fragId, (hm o hp.mem).fragId, hp.fragId]
  ne := by rw [(hm o hp.mem).fragId]; exact hp.ne
  reqNo := by rw [hy.reqNo, (hm o hp.mem).reqNo, hp.reqNo]
  last := by rw [hy.reqNo, hc.nReq, hp.last]
  unmarked := by
    intro x hx he
    rw [hc.omsgq] at hx
    rw [(hm x hx).fragId, hy.fragId] at he
    rw [(hm x hx).fdone]
    exact hp.unmarked x hx he

/-- The queues of the clients and the requests in them are the same. -/
lemma Inv.frame (hi : Inv n) (ha : Addresses n') (hq : Queues n') (hf : Facts n')
    (hc : ∀ c, n'.Client c → c ∉ n'.g.closing →
      n.Client c ∧ c ∉ n.g.closing ∧ n'.c.omsgq c = n.c.omsgq c ∧ n'.c.nReq c = n.c.nReq c)
    (hm : ∀ c, n.Client c → ∀ x ∈ n.c.omsgq c, n.m.SameVec n'.m x)
    (hpend : n'.g.pend = n.g.pend) (hsub : ∀ y ∈ n.g.pend, n.SameSub n' y)
    (hback : ∀ y ∈ n.g.pend, ∀ c o, n.Pending y c o → n.SameClient n' c)
    (hlim : n.a.fragId ≤ n'.a.fragId) (hlog : n.Lost → n'.Lost) : Inv n' := by
  refine ⟨ha, hq, hf, fun c hc' hcl => ?_, fun y hy => ?_, by rw [hpend]; exact hi.pend_nodup⟩
  · obtain ⟨hclient, hclosing, homsgq, hnReq⟩ := hc c hc' hcl
    rw [homsgq, hnReq, hpend]
    exact (hi.vec c hclient hclosing).congr (hm c hclient) (fun y hy => (hsub y hy).fragOwner)
      hlim hlog
  · rw [hpend] at hy
    obtain ⟨c, o, hp⟩ := hi.pend y hy
    exact ⟨c, o, hp.frame (hback y hy c o hp) (fun x hx => (hm c hp.client x hx).order) (hsub y hy)⟩

/-! ## Where a message is -/

section Where

variable (hi : Inv n) {m : MsgId} {c : ConnId}

include hi

/-- A request that is not in the queue of a client differs from those that are. -/
lemma Inv.ne_of_mem {x : MsgId} (hc : n.Client c) (hx : x ∈ n.c.omsgq c)
    (hm : ∀ srv, n.g.place m ≠ .req (some c) srv) : x ≠ m := by
  rintro rfl
  obtain ⟨srv, h⟩ := (hi.queues.omsgq_client c hc x).mp hx
  exact hm srv h

/-- A message whose place is not in the hands of a handler is not to be forwarded. -/
lemma Inv.ne_of_pend {y : MsgId} (hy : y ∈ n.g.pend) (hm : n.g.place m ≠ .hand) : y ≠ m := by
  rintro rfl
  obtain ⟨c, o, hp⟩ := hi.pend y hy
  exact hm hp.place

end Where

/-- Only message `m`, which is in no queue of a client, is changed. -/
lemma Inv.frame_msg (hi : Inv n) (ha : Addresses n') (hq : Queues n') (hf : Facts n') (m : MsgId)
    (hm : ∀ c srv, n.g.place m ≠ .req (some c) srv) (hmp : m ∉ n.g.pend)
    (hc : ∀ c, n.c.owner c = n'.c.owner c)
    (hco : ∀ c, n.Client c → n'.c.omsgq c = n.c.omsgq c)
    (hcr : ∀ c, n'.c.nReq c = n.c.nReq c) (hcg : n'.c.gen = n.c.gen)
    (hv : ∀ x, x ≠ m → n.m.SameVec n'.m x) (hs : ∀ y ∈ n.g.pend, y ≠ m → n.SameSub n' y)
    (hcl : n'.g.closing = n.g.closing) (hpend : n'.g.pend = n.g.pend)
    (hlim : n.a.fragId ≤ n'.a.fragId) (hlog : n.Lost → n'.Lost) : Inv n' := by
  have hclient : ∀ c, n'.Client c ↔ n.Client c := by
    intro c
    simp [Net.Client, hc c]
  refine hi.frame ha hq hf (fun c hc' hcl' => ?_) (fun c hc' x hx => ?_) hpend
    (fun y hy => hs y hy ?_) (fun y _ c o hp => ?_) hlim hlog
  · have h := (hclient c).mp hc'
    exact ⟨h, by rwa [hcl] at hcl', hco c h, hcr c⟩
  · exact hv x (hi.ne_of_mem hc' hx (hm c))
  · rintro rfl
    exact hmp hy
  · exact ⟨(hclient c).mpr hp.client, by rw [hcl]; exact hp.closing, hco c hp.client, hcr c,
      by rw [hcg]⟩

/-! ## Moves of messages -/

/-- The addresses are read from the free lists, the lists of server connections, the kind of the
connections and the places. -/
lemma Addresses.congr (h : Addresses n) (hf : n'.a.freeMsgq = n.a.freeMsgq)
    (hm : n'.a.nextMsg = n.a.nextMsg) (hcf : n'.a.freeConnq = n.a.freeConnq)
    (hcm : n'.a.nextConn = n.a.nextConn) (hq : n'.a.sConnq = n.a.sConnq)
    (ho : n'.c.owner = n.c.owner) (hc : n'.c.client = n.c.client) (hsd : n'.c.sd = n.c.sd)
    (hp : n'.g.place = n.g.place) : Addresses n' := by
  constructor <;> simp only [Net.Open, Net.Client, Net.Server, hf, hm, hcf, hcm, hq, ho,
    hc, hsd, hp]
  · exact h.free_nodup
  · exact h.free
  · exact h.used
  · exact h.cfree_nodup
  · exact h.cfree
  · exact h.cused
  · exact h.connq_nodup
  · exact h.connq
  · exact h.pool_client
  · exact h.server_client

/-- The queues are read from four columns and the places. -/
lemma Queues.congr (h : Queues n) (ho : n'.c.owner = n.c.owner) (hi : n'.c.imsgq = n.c.imsgq)
    (hq : n'.c.omsgq = n.c.omsgq) (hr : n'.c.rmsg = n.c.rmsg) (hp : n'.g.place = n.g.place) :
    Queues n' := by
  constructor <;> simp only [Net.Open, Net.Client, Net.Server, ho, hi, hq, hr, hp]
  · exact h.imsgq_nodup
  · exact h.omsgq_nodup
  · exact h.imsgq
  · exact h.omsgq_server
  · exact h.omsgq_client
  · exact h.rmsg

/-- The facts about single messages are read from the messages, their places and the incarnations of
the owners. -/
lemma Facts.congr (h : Facts n) (ho : n'.c.owner = n.c.owner) (hg : n'.c.gen = n.c.gen)
    (hm : n'.m = n.m) (hp : n'.g.place = n.g.place) : Facts n' := by
  constructor <;> simp only [Net.Open, Net.Client, Net.Server, Net.Of, ho, hg, hm, hp]
  · exact h.reading
  · exact h.cli
  · exact h.srv
  · exact h.rsp
  · exact h.peer

/-- A new message gets its place. -/
lemma Addresses.alloc (h : Addresses n) {m : MsgId} (hm : n.FreshMsg m) {x : Place} :
    Addresses (n.move m x) := by
  refine { h with free := ?free, used := ?used }
  case free =>
    intro y hy
    have hne : y ≠ m := fun he => hm.free (he ▸ hy)
    simpa [Net.move, hne] using h.free y hy
  case used =>
    intro y hy
    rcases eq_or_ne y m with rfl | hne
    · exact hm.lt
    · exact h.used y (by simpa [Net.move, hne] using hy)

section Messages

variable (hi : Inv n) {m : MsgId} {c : ConnId}

include hi

/-- A change of the free lists or counters keeps the invariant when it keeps the addresses. -/
lemma Inv.addresses {a : Statics} (ha : Addresses { n with a := a })
    (hlim : n.a.fragId = a.fragId) (hlog : n.a.log = a.log) : Inv { n with a := a } := by
  refine hi.frame ha (hi.queues.congr rfl rfl rfl rfl rfl) (hi.facts.congr rfl rfl rfl rfl)
    (fun c hc hcl => ⟨hc, hcl, rfl, rfl⟩) (fun _ _ _ _ => ⟨rfl, rfl, rfl, rfl, rfl, rfl, rfl⟩) rfl
    (fun _ _ => ⟨rfl, rfl, rfl, id, rfl, rfl, rfl, rfl⟩)
    (fun _ _ c o hp => ⟨hp.client, hp.closing, rfl, rfl, rfl⟩) hlim.le ?_
  rintro ⟨i, h⟩
  exact ⟨i, by simpa only [hlog] using h⟩

/-- A message is taken off the free list. -/
lemma Inv.takeMsg {rest : List MsgId} (hf : n.a.freeMsgq = m :: rest) :
    Inv { n with a.freeMsgq := rest } := by
  refine hi.addresses ?_ rfl rfl
  have hnodup := hi.addr.free_nodup
  have hfree := hi.addr.free
  rw [hf] at hnodup hfree
  exact { hi.addr with
    free_nodup := (List.nodup_cons.mp hnodup).2
    free := fun y hy => hfree y (List.mem_cons_of_mem _ hy) }

/-- A message is allocated. -/
lemma Inv.growMsg : Inv { n with a.nextMsg := n.a.nextMsg + 1 } := by
  refine hi.addresses ?_ rfl rfl
  exact { hi.addr with
    free := fun y hy => ⟨(hi.addr.free y hy).1, Nat.lt_succ_of_lt (hi.addr.free y hy).2⟩
    used := fun y hy => Nat.lt_succ_of_lt (hi.addr.used y hy) }

/-- A connection is taken off the free list. -/
lemma Inv.takeConn {rest : List ConnId} (hf : n.a.freeConnq = c :: rest) :
    Inv { n with a.freeConnq := rest } := by
  refine hi.addresses ?_ rfl rfl
  have hnodup := hi.addr.cfree_nodup
  have hfree := hi.addr.cfree
  rw [hf] at hnodup hfree
  exact { hi.addr with
    cfree_nodup := (List.nodup_cons.mp hnodup).2
    cfree := fun y hy => hfree y (List.mem_cons_of_mem _ hy) }

/-- A connection is allocated. -/
lemma Inv.growConn : Inv { n with a.nextConn := n.a.nextConn + 1 } := by
  refine hi.addresses ?_ rfl rfl
  exact { hi.addr with
    cfree := fun y hy => ⟨(hi.addr.cfree y hy).1, Nat.lt_succ_of_lt (hi.addr.cfree y hy).2⟩
    cused := fun y hy => Nat.lt_succ_of_lt (hi.addr.cused y hy) }

/-- The connections of a server are rotated. -/
lemma Inv.rotate {p i : ℕ} {s : ConnId} {rest : List ConnId} (hq : n.a.sConnq p i = s :: rest) :
    Inv { n with
      a.sConnq := fun p' i' => if p' = p ∧ i' = i then rest ++ [s] else n.a.sConnq p' i' } := by
  refine hi.addresses ?_ rfl rfl
  refine { hi.addr with connq_nodup := fun p' i' => ?_, connq := fun p' i' x hx => ?_ }
  · have hnodup := hi.addr.connq_nodup p i
    rw [hq] at hnodup
    simp only
    split
    · exact (List.perm_append_singleton s rest).nodup_iff.mpr hnodup
    · exact hi.addr.connq_nodup p' i'
  · simp only at hx
    split at hx
    · rename_i h
      obtain ⟨rfl, rfl⟩ := h
      refine hi.addr.connq p' i' x ?_
      rw [hq]
      exact (List.perm_append_singleton s rest).mem_iff.mp hx
    · exact hi.addr.connq p' i' x hx

/-- Message `m`, which is in no queue, is written to. -/
lemma Inv.write {f : MsgCols} {a : Statics} (hf : Facts { n with m := f, a := a })
    (hm : ∀ c srv, n.g.place m ≠ .req (some c) srv) (hmp : m ∉ n.g.pend)
    (ha : Addresses { n with a := a })
    (hv : ∀ x, x ≠ m → n.m.SameVec f x)
    (hs : ∀ y ∈ n.g.pend, y ≠ m → n.SameSub { n with m := f, a := a } y)
    (hlim : n.a.fragId ≤ a.fragId) (hlog : n.a.log = a.log) : Inv { n with m := f, a := a } := by
  refine hi.frame_msg (ha.congr rfl rfl rfl rfl rfl rfl rfl rfl rfl)
    (hi.queues.congr rfl rfl rfl rfl rfl) hf m hm hmp (fun _ => rfl) (fun _ _ => rfl)
    (fun _ => rfl) rfl hv hs rfl rfl hlim ?_
  rintro ⟨i, h⟩
  exact ⟨i, by simpa only [hlog] using h⟩

/-- A fresh message is initialised and taken in hand. -/
lemma Inv.newMsg {x : Msg} (hm : n.FreshMsg m) (hx : (n.m.set m x).Blank m) :
    Inv { n with
      m := n.m.set m x
      a.msgId := n.a.msgId + 1
      g.place := update n.g.place m .hand } := by
  have hmp : m ∉ n.g.pend := fun h => (hi.ne_of_pend h (m := m) (by simp [hm.place])) rfl
  refine hi.frame_msg ((hi.addr.alloc hm (x := .hand)).congr rfl rfl rfl rfl rfl rfl rfl rfl rfl)
    ((hi.queues.move (m := m) (x := .hand) (by simp [hm.place, Place.Idle])
      (by simp [Place.Idle])).congr rfl rfl rfl rfl rfl)
    ((hi.facts.newMsg hm.place hx).congr rfl rfl rfl rfl) m (by simp [hm.place]) hmp (fun _ => rfl)
    (fun _ _ => rfl) (fun _ => rfl) rfl (fun y hy => ?_) (fun y _ hy => ?_) rfl rfl le_rfl id
  · constructor <;> simp [MsgCols.set, hy]
  · constructor <;> simp [MsgCols.set, MsgCols.blank_iff, hy]

/-- A message in hand gets its owner. -/
lemma Inv.setOwner (hm : n.g.place m = .hand) (hp : m ∉ n.g.pend) :
    Inv { n with
      m.owner := update n.m.owner m (some c)
      m.ownerGen := update n.m.ownerGen m (n.c.gen c) } := by
  refine hi.write (m := m) ?_ (by simp [hm]) hp hi.addr (fun x _ => ?_) (fun y _ hy => ?_)
    le_rfl rfl
  · refine hi.facts.hand (m := m) (f := fun x => { x with
      owner := update x.owner m (some c), ownerGen := update x.ownerGen m (n.c.gen c) })
      hm (fun y hy => ?_) rfl rfl ⟨rfl, rfl⟩ ⟨rfl, rfl, rfl, rfl, rfl⟩
    simp [hy]
  · exact ⟨rfl, rfl, rfl, rfl, rfl, rfl, rfl⟩
  · constructor <;> simp [MsgCols.blank_iff, hy]

/-- A request that is being read is marked as one without reply. -/
lemma Inv.setNoreply (hm : n.g.place m = .reading c) (b : Bool) :
    Inv { n with m.noreply := update n.m.noreply m b } := by
  have hmp : m ∉ n.g.pend := fun h => (hi.ne_of_pend h (m := m) (by simp [hm])) rfl
  refine hi.write (m := m) (hi.facts.setNoreply hm b) (by simp [hm]) hmp hi.addr (fun x _ => ?_)
    (fun y _ hy => ?_) le_rfl rfl
  · exact ⟨rfl, rfl, rfl, rfl, rfl, rfl, rfl⟩
  · constructor <;> simp [MsgCols.blank_iff, hy]

/-- A request in hand gets a new vector id and is its own owner in it. -/
lemma Inv.vector {k : ℕ} (hm : n.g.place m = .hand) (hp : n.g.pend = []) :
    Inv { n with
      m.fragId := update n.m.fragId m (n.a.fragId + 1)
      m.fragOwner := update n.m.fragOwner m (some m)
      m.nfrag := update n.m.nfrag m k
      a.fragId := n.a.fragId + 1 } := by
  refine hi.write (m := m) ?_ (by simp [hm]) (by simp [hp])
    (hi.addr.congr rfl rfl rfl rfl rfl rfl rfl rfl rfl) (fun x hx => ?_)
    (by simp [hp]) (Nat.le_succ _) rfl
  · refine (hi.facts.hand (m := m) (f := fun x => { x with
      fragId := update x.fragId m (n.a.fragId + 1), fragOwner := update x.fragOwner m (some m)
      nfrag := update x.nfrag m k })
      hm (fun y hy => ?_) rfl rfl ⟨rfl, rfl⟩ ⟨rfl, rfl, rfl, rfl, rfl⟩).congr rfl rfl rfl rfl
    simp [hy]
  · constructor <;> simp [hx]

/-- A request in hand gets the next number of its client. -/
lemma Inv.number (hm : n.g.place m = .hand) (hp : n.g.pend = []) :
    Inv { n with
      m.reqNo := update n.m.reqNo m (n.c.nReq c)
      c.nReq := update n.c.nReq c (n.c.nReq c + 1) } := by
  have hw : Inv { n with m.reqNo := update n.m.reqNo m (n.c.nReq c) } := by
    refine hi.write (m := m) ?_ (by simp [hm]) (by simp [hp])
      (hi.addr.congr rfl rfl rfl rfl rfl rfl rfl rfl rfl) (fun x hx => ?_)
      (by simp [hp]) le_rfl rfl
    · exact hi.facts.hand (m := m) (f := fun x => { x with
        reqNo := update x.reqNo m (n.c.nReq c) })
        hm (fun y hy => ⟨rfl, rfl, rfl, rfl⟩) rfl rfl ⟨rfl, rfl⟩ ⟨rfl, rfl, rfl, rfl, rfl⟩
    · constructor <;> simp [hx]
  refine ⟨hw.addr.congr rfl rfl rfl rfl rfl rfl rfl rfl rfl, hw.queues.congr rfl rfl rfl rfl rfl,
    hw.facts.congr rfl rfl rfl rfl, fun c' hc hcl => ?_, by simp [hp], hw.pend_nodup⟩
  refine (hw.vec c' hc hcl).received ?_
  rcases eq_or_ne c' c with rfl | hne
  · simp
  · simp [hne]

/-- A message in hand becomes the one the connection reads into. -/
lemma Inv.read (hm : n.g.place m = .hand) (hp : m ∉ n.g.pend) (hc : n.Open c)
    (hr : n.c.rmsg c = none) (ho : n.Of m c) (hb : n.m.Blank m) (hf : n.m.fragOwner m = none)
    (hf' : n.m.fragId m = 0) :
    Inv ({ n with c.rmsg := update n.c.rmsg c (some m) }.move m (.reading c)) := by
  refine hi.frame_msg ((hi.addr.move m (by simp [hm])).congr rfl rfl rfl rfl rfl rfl rfl
      rfl rfl) (hi.queues.read hc hr hm)
    ((hi.facts.read hm hc ho hb hf hf').congr rfl rfl rfl rfl) m (by simp [hm]) hp (fun _ => rfl)
    (fun _ _ => rfl) (fun _ => rfl) rfl (fun x _ => ⟨rfl, rfl, rfl, rfl, rfl, rfl, rfl⟩)
    (fun y _ hy => ?_) rfl rfl le_rfl id
  constructor <;> simp [Net.move, hy]

/-- The message the connection reads into is taken in hand. -/
lemma Inv.unread (hc : n.Open c) (hr : n.c.rmsg c = some m) :
    Inv ({ n with c.rmsg := update n.c.rmsg c none }.move m .hand) := by
  have hm := (hi.queues.rmsg c hc m).mp hr
  have hmp : m ∉ n.g.pend := fun h => (hi.ne_of_pend h (m := m) (by simp [hm])) rfl
  refine hi.frame_msg ((hi.addr.move m (by simp [hm])).congr rfl rfl rfl rfl rfl rfl rfl
      rfl rfl) (hi.queues.unread hc hr)
    ((hi.facts.unread hm).congr rfl rfl rfl rfl) m (by simp [hm]) hmp (fun _ => rfl)
    (fun _ _ => rfl) (fun _ => rfl) rfl (fun x _ => ⟨rfl, rfl, rfl, rfl, rfl, rfl, rfl⟩)
    (fun y _ hy => ?_) rfl rfl le_rfl id
  constructor <;> simp [Net.move, hy]

/-- A message in hand is freed. -/
lemma Inv.put (hm : n.g.place m = .hand) (hp : n.m.peer m = none) (hn : m ∉ n.g.pend) :
    Inv (n.put m) := by
  refine hi.frame_msg (hi.addr.put m (by simp [hm]))
    ((hi.queues.move (m := m) (x := .free) (by simp [hm, Place.Idle])
      (by simp [Place.Idle])).congr rfl rfl rfl rfl rfl)
    ((hi.facts.free hm hp).congr rfl rfl rfl rfl) m (by simp [hm]) hn (fun _ => rfl)
    (fun _ _ => rfl) (fun _ => rfl) rfl (fun x _ => ⟨rfl, rfl, rfl, rfl, rfl, rfl, rfl⟩)
    (fun y _ hy => ?_) rfl rfl le_rfl ?_
  · constructor <;> simp [Net.put, hy]
  · rintro ⟨i, h⟩
    exact ⟨i, List.mem_cons_of_mem _ h⟩

/-- A response in hand becomes the peer of a request without one. -/
lemma Inv.link {p r : MsgId} {cli : Option ConnId} (hp : n.g.place p = .req cli none)
    (hpp : n.m.peer p = none) (hr : n.g.place r = .hand) (hrp : n.m.peer r = none) (hne : p ≠ r)
    (hn : r ∉ n.g.pend) (hn' : p ∉ n.g.pend) : Inv ((n.link p r).move r (.rsp p)) := by
  refine hi.frame_msg ((hi.addr.move r (by simp [hr])).congr rfl rfl rfl rfl rfl rfl rfl
      rfl rfl)
    ((hi.queues.move (m := r) (x := .rsp p) (by simp [hr, Place.Idle])
      (by simp [Place.Idle])).congr rfl rfl rfl rfl rfl)
    (hi.facts.link hp hpp hr hrp hne) r (by simp [hr]) hn (fun _ => rfl)
    (fun _ _ => rfl) (fun _ => rfl) rfl (fun x _ => ⟨rfl, rfl, rfl, rfl, rfl, rfl, rfl⟩)
    (fun y hy' hy => ?_) rfl rfl le_rfl id
  have hyp : y ≠ p := fun he => hn' (he ▸ hy')
  constructor <;> simp [Net.move, Net.link, MsgCols.blank_iff, hy, hyp]

/-- A response is taken from its request. -/
lemma Inv.unlink {p r : MsgId} (hp : n.m.peer p = some r) (hr : n.g.place r = .rsp p) :
    Inv ((n.unlink p r).move r .hand) := by
  have hrp : r ∉ n.g.pend := fun h => (hi.ne_of_pend h (m := r) (by simp [hr])) rfl
  refine hi.frame_msg ((hi.addr.move r (by simp [hr])).congr rfl rfl rfl rfl rfl rfl rfl
      rfl rfl)
    ((hi.queues.move (m := r) (x := .hand) (by simp [hr, Place.Idle])
      (by simp [Place.Idle])).congr rfl rfl rfl rfl rfl)
    (hi.facts.unlink hp hr) r (by simp [hr]) hrp (fun _ => rfl)
    (fun _ _ => rfl) (fun _ => rfl) rfl (fun x _ => ⟨rfl, rfl, rfl, rfl, rfl, rfl, rfl⟩)
    (fun y hy' hy => ?_) rfl rfl le_rfl id
  have hyp : y ≠ p := by
    rintro rfl
    obtain ⟨c, o, hpend⟩ := hi.pend y hy'
    simp [hpend.blank.peer] at hp
  constructor <;> simp [Net.move, Net.unlink, MsgCols.blank_iff, hy, hyp]

/-- The timers do not matter to the invariant. -/
lemma Inv.tmoDelete (m : MsgId) : Inv (n.tmoDelete m) := by
  have hfacts := hi.facts.tmoDelete m
  unfold Net.tmoDelete at hfacts ⊢
  split
  · exact hi
  · rename_i ht
    rw [if_neg ht] at hfacts
    refine hi.frame (hi.addr.congr rfl rfl rfl rfl rfl rfl rfl rfl rfl)
      (hi.queues.congr rfl rfl rfl rfl rfl) hfacts (fun c hc hcl => ⟨hc, hcl, rfl, rfl⟩)
      (fun _ _ _ _ => ⟨rfl, rfl, rfl, rfl, rfl, rfl, rfl⟩) rfl
      (fun y _ => ⟨rfl, rfl, rfl, fun hb => { hb with tmoData := ?_ }, rfl, rfl, rfl, rfl⟩)
      (fun _ _ c o hp => ⟨hp.client, hp.closing, rfl, rfl, rfl⟩) le_rfl id
    rcases eq_or_ne y m with rfl | hne
    · simp
    · simpa [hne] using hb.tmoData

/-- Marking fragments in error keeps the invariant. -/
lemma Inv.setFerror (f : MsgId → Bool) : Inv { n with m.ferror := f } := by
  have hfacts : Facts { n with m.ferror := f } := by
    refine ⟨fun y c hy => ?_, hi.facts.cli, hi.facts.srv, hi.facts.rsp, hi.facts.peer⟩
    obtain ⟨hopen, hof, hb, hfrag⟩ := hi.facts.reading y c hy
    exact ⟨hopen, hof, { hb with }, hfrag⟩
  exact hi.frame (hi.addr.congr rfl rfl rfl rfl rfl rfl rfl rfl rfl)
    (hi.queues.congr rfl rfl rfl rfl rfl) hfacts (fun c hc hcl => ⟨hc, hcl, rfl, rfl⟩)
    (fun _ _ _ _ => ⟨rfl, rfl, rfl, rfl, rfl, rfl, rfl⟩) rfl
    (fun _ _ => ⟨rfl, rfl, rfl, fun hb => { hb with }, rfl, rfl, rfl, rfl⟩)
    (fun _ _ c o hp => ⟨hp.client, hp.closing, rfl, rfl, rfl⟩) le_rfl id

/-- A request in hand is finished in error. -/
lemma Inv.failHand (hm : n.g.place m = .hand) (hp : m ∉ n.g.pend) :
    Inv ((n.finish m).fail m true) := by
  have hfinish := hi.facts.finish (m := m) hm
  refine hi.frame_msg (hi.addr.congr rfl rfl rfl rfl rfl rfl rfl rfl rfl)
    (hi.queues.congr rfl rfl rfl rfl rfl) (hfinish.fail hm true) m (by simp [hm]) hp
    (fun _ => rfl) (fun _ _ => rfl) (fun _ => rfl) rfl (fun x hx => ?_) (fun y _ hy => ?_) rfl rfl
    le_rfl id
  · constructor <;> simp [Net.finish, Net.fail, hx]
  · constructor <;> simp [Net.finish, Net.fail, MsgCols.blank_iff, hy]

end Messages

end GfwProxy
