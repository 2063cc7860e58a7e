import GfwProxy.Net.Invariant

set_option autoImplicit false

/-!
# Connections and the requests of clients

The invariant is kept when a connection is opened, closed or given up, and when a request enters the
queue of its client.

## Main results

* `GfwProxy.Inv.openClient`, `GfwProxy.Inv.openServer`, `GfwProxy.Inv.beginClose`,
  `GfwProxy.Inv.unrefClient`, `GfwProxy.Inv.unrefServer`, `GfwProxy.Inv.abandon` — connections.
* `GfwProxy.Inv.expect`, `GfwProxy.Inv.expectSub`, `GfwProxy.Inv.reply`, `GfwProxy.Inv.failReply` —
  requests.
-/

namespace GfwProxy

open Function

variable {n n' : Net}

/-! ## Moves of connections -/

section Connections

variable (hi : Inv n) {c s : ConnId}

include hi

/-- A fresh connection is opened and, of a server, listed. -/
lemma Inv.openConn {x : Conn} {q : ℕ → ℕ → List ConnId} (hc : n.FreshConn c)
    (hnodup : ∀ p i, (q p i).Nodup)
    (hsub : ∀ p i, ∀ y ∈ q p i, y ∈ n.a.sConnq p i ∨ y = c ∧ x.owner = some (.server p i))
    (hpool : ∀ p, x.owner = some (.pool p) → x.client = true ∧ 0 ≤ x.sd)
    (hserver : ∀ p i, x.owner = some (.server p i) → x.client = false)
    (hx : x.imsgq = [] ∧ x.omsgq = [] ∧ x.rmsg = none) :
    Inv { n with
      c := n.c.set c x
      a.sConnq := q
      g.closing := n.g.closing \ {c}
      g.due := n.g.due \ {c}
      g.cold := n.g.cold \ {c} } := by
  refine ⟨hi.addr.openConn c hc hnodup hsub hpool hserver rfl,
    (hi.queues.openConn hc.owner hi.facts hx.1 hx.2.1 hx.2.2).congr rfl rfl rfl rfl rfl,
    (hi.facts.setConn hc.owner x).congr rfl rfl rfl rfl, fun c' hc' hcl => ?_, fun y hy => ?_,
    hi.pend_nodup⟩
  · rcases eq_or_ne c' c with rfl | hne
    · simpa [ConnCols.set, hx.2.1] using Vec.nil
    · have hclient : n.Client c' := by simpa [Net.Client, ConnCols.set, hne] using hc'
      have hclosing : c' ∉ n.g.closing := fun h => hcl ⟨h, hne⟩
      simpa [ConnCols.set, Net.Lost, hne] using hi.vec c' hclient hclosing
  · obtain ⟨c', o, hp⟩ := hi.pend y hy
    have hne : c' ≠ c := by
      rintro rfl
      obtain ⟨p, hp⟩ := hp.client
      simp [hc.owner] at hp
    refine ⟨c', o, hp.frame ⟨?_, fun h => hp.closing h.1, ?_, ?_, ?_⟩
      (fun _ _ => ⟨rfl, rfl, rfl, rfl⟩) ⟨rfl, rfl, rfl, id, rfl, rfl, rfl, rfl⟩⟩
    · simpa [Net.Client, ConnCols.set, hne] using hp.client
    · simp [ConnCols.set, hne]
    · simp [ConnCols.set, hne]
    · simp [ConnCols.set, hne]

/-- A client connection is opened. -/
lemma Inv.openClient {p sd : ℕ} (hc : n.FreshConn c) :
    Inv { n with
      c := n.c.set c { owner := some (.pool p), client := true, gen := n.c.gen c, sd := sd }
      g.closing := n.g.closing \ {c}
      g.due := n.g.due \ {c}
      g.cold := n.g.cold \ {c} } := by
  refine hi.openConn (q := n.a.sConnq) hc hi.addr.connq_nodup (fun p i y hy => .inl hy) ?_ ?_
    ⟨rfl, rfl, rfl⟩
  · intro p' _
    exact ⟨rfl, by simp⟩
  · intro p' i h
    simp at h

/-- A connection to a server is opened. -/
lemma Inv.openServer {p i : ℕ} (hs : n.FreshConn s) :
    Inv { n with
      c := n.c.set s { owner := some (.server p i), gen := n.c.gen s }
      a.sConnq := fun p' i' =>
        if p' = p ∧ i' = i then n.a.sConnq p i ++ [s] else n.a.sConnq p' i'
      g.closing := n.g.closing \ {s}
      g.due := n.g.due \ {s}
      g.cold := n.g.cold \ {s} } := by
  have hnot : s ∉ n.a.sConnq p i := by
    intro hmem
    have := hi.addr.connq p i s hmem
    simp [hs.owner] at this
  refine hi.openConn hs (fun p' i' => ?_) (fun p' i' y hy => ?_) ?_ ?_ ⟨rfl, rfl, rfl⟩
  · split
    · refine List.nodup_append.mpr ⟨hi.addr.connq_nodup p i, List.nodup_singleton s, ?_⟩
      rintro x hx y hy rfl
      exact hnot (List.mem_singleton.mp hy ▸ hx)
    · exact hi.addr.connq_nodup p' i'
  · split at hy
    · rename_i h
      obtain ⟨rfl, rfl⟩ := h
      rcases List.mem_append.mp hy with hy | hy
      · exact .inl hy
      · exact .inr ⟨List.mem_singleton.mp hy, rfl⟩
    · exact .inl hy
  · intro p' h
    simp at h
  · intro p' i' _
    rfl

/-- Connection `c`, which no place speaks of, stops being open. -/
lemma Inv.unref {q : ℕ → ℕ → List ConnId} (hc : ∀ m, ¬(n.g.place m).Refers c)
    (hpend : ∀ y ∈ n.g.pend, ∀ o, ¬n.Pending y c o) (hnodup : ∀ p i, (q p i).Nodup)
    (hsub : ∀ p i, ∀ x ∈ q p i, x ∈ n.a.sConnq p i ∧ x ≠ c) :
    Inv { n with c.owner := update n.c.owner c none, a.sConnq := q } := by
  refine hi.frame (hi.addr.unref c hnodup hsub) (hi.queues.unref.congr rfl rfl rfl rfl rfl)
    ((hi.facts.unref hc).congr rfl rfl rfl rfl) (fun c' hc' hcl => ?_)
    (fun _ _ _ _ => ⟨rfl, rfl, rfl, rfl, rfl, rfl, rfl⟩) rfl
    (fun _ _ => ⟨rfl, rfl, rfl, id, rfl, rfl, rfl, rfl⟩) (fun y hy c' o hp => ?_) le_rfl id
  · have hne : c' ≠ c := by
      rintro rfl
      obtain ⟨p, hp⟩ := hc'
      simp at hp
    exact ⟨by simpa [Net.Client, hne] using hc', hcl, rfl, rfl⟩
  · have hne : c' ≠ c := by
      rintro rfl
      exact hpend y hy o hp
    exact ⟨by simpa [Net.Client, hne] using hp.client, hp.closing, rfl, rfl, rfl⟩

/-- A client connection that holds nothing is unreferenced. -/
lemma Inv.unrefClient {p : ℕ} (ho : n.c.owner c = some (.pool p)) (hq : n.c.omsgq c = [])
    (hr : n.c.rmsg c = none) : Inv { n with c.owner := update n.c.owner c none } := by
  refine hi.unref (q := n.a.sConnq)
    (hi.queues.empty (.inl ⟨⟨p, ho⟩, hq⟩) hr hi.facts) (fun y hy o hp => ?_) hi.addr.connq_nodup
    fun p' i x hx => ⟨hx, ?_⟩
  · have hmem := hp.mem
    simp [hq] at hmem
  · rintro rfl
    have := hi.addr.connq p' i x hx
    simp [ho] at this

/-- The list of a server without one of its connections. -/
lemma Inv.sConnq_erase {p i : ℕ} (ho : n.c.owner s = some (.server p i)) :
    (∀ p' i', (if p' = p ∧ i' = i then (n.a.sConnq p i).erase s else n.a.sConnq p' i').Nodup) ∧
    ∀ p' i', ∀ x ∈ (if p' = p ∧ i' = i then (n.a.sConnq p i).erase s else n.a.sConnq p' i'),
      x ∈ n.a.sConnq p' i' ∧ x ≠ s := by
  have hnodup := hi.addr.connq_nodup
  constructor
  · intro p' i'
    split
    · exact (hnodup p i).erase s
    · exact hnodup p' i'
  · intro p' i' x hx
    split at hx
    · rename_i h
      obtain ⟨rfl, rfl⟩ := h
      obtain ⟨hne, hmem⟩ := (hnodup p' i').mem_erase_iff.mp hx
      exact ⟨hmem, hne⟩
    · rename_i h
      refine ⟨hx, ?_⟩
      rintro rfl
      have := hi.addr.connq p' i' x hx
      rw [ho] at this
      simp only [Option.some.injEq, Owner.server.injEq] at this
      exact h ⟨this.1.symm, this.2.symm⟩

/-- A server connection that holds nothing is unreferenced. -/
lemma Inv.unrefServer {p i : ℕ} (ho : n.c.owner s = some (.server p i)) (hq : n.c.imsgq s = [])
    (hq' : n.c.omsgq s = []) (hr : n.c.rmsg s = none) : Inv (n.unrefServer s p i) := by
  obtain ⟨hnodup, hsub⟩ := hi.sConnq_erase ho
  refine hi.unref (hi.queues.empty (.inr ⟨⟨p, i, ho⟩, hq, hq'⟩) hr hi.facts) (fun y hy o hp => ?_)
    hnodup hsub
  obtain ⟨p', hp'⟩ := hp.client
  simp [ho] at hp'

/-- A server connection is unreferenced while it holds requests; they are lost. -/
lemma Inv.abandon {p i : ℕ} (ho : n.c.owner s = some (.server p i)) :
    Inv { n.unrefServer s p i with g.place := fun m => Net.afterAbandon s (n.g.place m) } := by
  obtain ⟨hnodup, hsub⟩ := hi.sConnq_erase ho
  have hs : n.Server s := ⟨p, i, ho⟩
  have haddr := hi.addr.unref s hnodup hsub
  refine hi.frame ?_ ((hi.queues.abandon (s := s)).congr rfl rfl rfl rfl rfl)
    ((hi.facts.abandon hs).congr rfl rfl rfl rfl) (fun c hc hcl => ?_)
    (fun _ _ _ _ => ⟨rfl, rfl, rfl, rfl, rfl, rfl, rfl⟩) rfl (fun y hy => ?_)
    (fun y hy c o hp => ?_) le_rfl id
  · refine { haddr with
      free := fun m hm => ⟨Net.afterAbandon_free.mpr (haddr.free m hm).1, (haddr.free m hm).2⟩
      used := fun m hm => haddr.used m fun h => hm (Net.afterAbandon_free.mpr h) }
  · have hne : c ≠ s := by
      rintro rfl
      obtain ⟨p', hp'⟩ := hc
      simp [Net.unrefServer] at hp'
    exact ⟨by simpa [Net.Client, Net.unrefServer, hne] using hc, hcl, rfl, rfl⟩
  · obtain ⟨c, o, hp⟩ := hi.pend y hy
    exact ⟨by simp [hp.place, Net.afterAbandon], rfl, rfl, id, rfl, rfl, rfl, rfl⟩
  · have hne : c ≠ s := by
      rintro rfl
      obtain ⟨p', hp'⟩ := hp.client
      simp [ho] at hp'
    exact ⟨by simpa [Net.Client, Net.unrefServer, hne] using hp.client, hp.closing, rfl, rfl, rfl⟩

/-- A connection is freed. -/
lemma Inv.connPut (hc : n.FreshConn c) :
    Inv { n with
      c.gen := update n.c.gen c (n.c.gen c + 1)
      a.freeConnq := c :: n.a.freeConnq } := by
  have hnot := hi.facts.not_refers hc.owner
  have hfacts : Facts { n with
      c.gen := update n.c.gen c (n.c.gen c + 1), a.freeConnq := c :: n.a.freeConnq } := by
    constructor
    case reading =>
      intro y c' hy
      change n.g.place y = _ at hy
      have hne : c' ≠ c := fun he => hnot y (by simp [hy, Place.Refers, he])
      simpa [Net.Of, hne] using hi.facts.reading y c' hy
    case cli =>
      intro y c' srv hy
      change n.g.place y = _ at hy
      have hne : c' ≠ c := fun he => hnot y (by simp [hy, Place.Refers, he])
      simpa [Net.Of, Net.Client, hne] using hi.facts.cli y c' srv hy
    case srv => exact hi.facts.srv
    case rsp => exact hi.facts.rsp
    case peer => exact hi.facts.peer
  refine hi.frame ?_ (hi.queues.congr rfl rfl rfl rfl rfl) hfacts
    (fun c hc hcl => ⟨hc, hcl, rfl, rfl⟩) (fun _ _ _ _ => ⟨rfl, rfl, rfl, rfl, rfl, rfl, rfl⟩) rfl
    (fun _ _ => ⟨rfl, rfl, rfl, id, rfl, rfl, rfl, rfl⟩) (fun y hy c' o hp => ?_) le_rfl id
  · refine { hi.addr with cfree_nodup := ?_, cfree := ?_ }
    · exact List.nodup_cons.mpr ⟨hc.free, hi.addr.cfree_nodup⟩
    · intro x hx
      rcases List.mem_cons.mp hx with rfl | hx
      · exact ⟨hc.owner, hc.lt⟩
      · exact hi.addr.cfree x hx
  · have hne : c' ≠ c := by
      rintro rfl
      obtain ⟨p, hp⟩ := hp.client
      simp [hc.owner] at hp
    exact ⟨hp.client, hp.closing, rfl, rfl, by simp [hne]⟩

/-- The descriptor of a connection that is no client is changed. -/
lemma Inv.setSd {v : ℤ} (hs : ¬n.Client s) : Inv { n with c.sd := update n.c.sd s v } := by
  refine hi.frame ?_ (hi.queues.congr rfl rfl rfl rfl rfl) (hi.facts.congr rfl rfl rfl rfl)
    (fun c hc hcl => ⟨hc, hcl, rfl, rfl⟩) (fun _ _ _ _ => ⟨rfl, rfl, rfl, rfl, rfl, rfl, rfl⟩) rfl
    (fun _ _ => ⟨rfl, rfl, rfl, id, rfl, rfl, rfl, rfl⟩)
    (fun _ _ c o hp => ⟨hp.client, hp.closing, rfl, rfl, rfl⟩) le_rfl id
  refine { hi.addr with pool_client := fun c hc => ?_ }
  have hne : c ≠ s := by
    rintro rfl
    exact hs hc
  simpa [hne] using hi.addr.pool_client c hc

/-- A connection begins to close. -/
lemma Inv.beginClose (hc : n.Client c → n.g.pend = []) :
    Inv { n with g.closing := insert c n.g.closing } := by
  refine hi.frame (hi.addr.congr rfl rfl rfl rfl rfl rfl rfl rfl rfl)
    (hi.queues.congr rfl rfl rfl rfl rfl) (hi.facts.congr rfl rfl rfl rfl)
    (fun c hc hcl => ⟨hc, fun h => hcl (Set.mem_insert_of_mem _ h), rfl, rfl⟩)
    (fun _ _ _ _ => ⟨rfl, rfl, rfl, rfl, rfl, rfl, rfl⟩) rfl
    (fun _ _ => ⟨rfl, rfl, rfl, id, rfl, rfl, rfl, rfl⟩)
    (fun y hy c' o hp => ⟨hp.client, ?_, rfl, rfl, rfl⟩) le_rfl id
  intro h
  rcases Set.mem_insert_iff.mp h with rfl | h
  · simp [hc hp.client] at hy
  · exact hp.closing h

end Connections

/-! ## Moves of requests -/

section Requests

variable (hi : Inv n) {m : MsgId} {c s : ConnId} {cli : Option ConnId}

include hi

/-- A request that is held enters the queue of its client; its sub-messages are to be
forwarded. -/
lemma Inv.enter (subs : List MsgId) (hm : n.g.place m = .hand) (hc : n.Client c)
    (hcl : c ∉ n.g.closing) (hof : n.Of m c) (hsw : n.m.swallow m = false) (hp : n.g.pend = [])
    (hlast : ∀ y ∈ n.c.omsgq c, n.m.reqNo y < n.m.reqNo m) (hreq : n.m.reqNo m + 1 = n.c.nReq c)
    (hs : subs = [] ∧ n.m.fragOwner m = none ∧ n.m.fragId m = 0 ∨
      n.Vector c m subs ∧ n.m.done m = true ∧ n.m.fdone m = false ∧ n.m.nfragDone m = 0) :
    Inv ({ n.enqOut c m with g.pend := subs }.move m (.req (some c) none)) := by
  have hmq : ∀ c', n.Client c' → m ∉ n.c.omsgq c' :=
    fun c' hc' h => hi.ne_of_mem hc' h (m := m) (by simp [hm]) rfl
  have hvec : ∀ c', n.Client c' → c' ∉ n.g.closing →
      Vec n.m (n.c.omsgq c') [] (n.c.nReq c') n.a.fragId n.Lost := by
    intro c' hc' hcl'
    have := hi.vec c' hc' hcl'
    rwa [hp] at this
  refine ⟨(hi.addr.move m (by simp [hm])).congr rfl rfl rfl rfl rfl rfl rfl rfl rfl,
    (hi.queues.expect hm hc).congr rfl rfl rfl rfl rfl,
    (hi.facts.expect hm hc hof hsw).congr rfl rfl rfl rfl, fun c' hc' hcl' => ?_,
      fun y hy => ?_, ?_⟩
  · rcases eq_or_ne c' c with rfl | hne
    · have hlt : n.m.reqNo m < n.c.nReq c' := by omega
      simp only [Net.move, Net.enqOut, update_self]
      rcases hs with ⟨rfl, hf, hf'⟩ | ⟨hv, hd, hfd, hzero⟩
      · exact (hvec c' hc hcl).append hlast hlt hf hf'
      · exact (hvec c' hc hcl).append_owner (hmq c' hc) hlast hlt hv.fragOwner hv.fragId
          hv.fragId_le hv.fresh hd hfd hzero hv.nfrag hv.held.fragOwner
    · simp only [Net.move, Net.enqOut, update_of_ne hne]
      refine (hvec c' hc' hcl').set_pend fun o ho => ?_
      rcases hs with ⟨rfl, -⟩ | ⟨hv, -⟩
      · rfl
      · refine List.countP_eq_zero.mpr fun y hy h => ?_
        rw [MsgCols.FragOf, hv.held.fragOwner y hy] at h
        exact hmq c' hc' (Option.some.inj (of_decide_eq_true h) ▸ ho)
  · rcases hs with ⟨rfl, -⟩ | ⟨hv, hd, hfd, -⟩
    · simp [Net.move] at hy
    · change y ∈ subs at hy
      have hym : y ≠ m := fun he => hv.self (he ▸ hy)
      refine ⟨c, m, ?_⟩
      constructor
      case client => exact hc
      case closing => exact hcl
      case place => simpa [Net.move, Net.enqOut, hym] using hv.held.place y hy
      case of => exact hv.held.of y hy
      case blank => exact hv.held.blank y hy
      case noreply => exact hv.held.noreply y hy
      case mem => simp [Net.move, Net.enqOut]
      case fragOwner => exact hv.held.fragOwner y hy
      case self => exact hv.fragOwner
      case fragId => exact hv.held.fragId y hy
      case ne => exact hv.fragId
      case reqNo => exact hv.held.reqNo y hy
      case last => exact (congrArg (· + 1) (hv.held.reqNo y hy)).trans hreq
      case unmarked =>
        intro x hx he
        change x ∈ update n.c.omsgq c _ c at hx
        change n.m.fragId x = n.m.fragId y at he
        rw [hv.held.fragId y hy] at he
        rw [update_self, List.mem_append, List.mem_singleton] at hx
        rcases hx with hx | rfl
        · exact absurd he (hv.fresh x hx)
        · exact hfd
  · rcases hs with ⟨rfl, -⟩ | ⟨hv, -⟩
    · exact List.nodup_nil
    · exact hv.held.nodup

/-- A request held by its client is put into its out-queue and forwarded. -/
lemma Inv.expect (hm : n.Held c m) (hf : n.m.fragOwner m = none) (hf' : n.m.fragId m = 0) :
    Inv ((n.enqOut c m).move m (.req (some c) none)) := by
  have h := hi.enter [] hm.place hm.client hm.closing hm.of hm.blank.swallow hm.pend
    hm.last hm.nReq (.inl ⟨rfl, hf, hf'⟩)
  refine h.same ⟨rfl, rfl, rfl, rfl, rfl, rfl, rfl, rfl, rfl, rfl, rfl, rfl, rfl, rfl, rfl,
    fun _ => id, rfl, rfl, ?_⟩
  exact hm.pend

/-- A request in hand is done. -/
lemma Inv.finish (hm : n.g.place m = .hand) (hp : m ∉ n.g.pend) : Inv (n.finish m) := by
  refine hi.frame_msg (hi.addr.congr rfl rfl rfl rfl rfl rfl rfl rfl rfl)
    (hi.queues.congr rfl rfl rfl rfl rfl) (hi.facts.finish hm) m (by simp [hm]) hp
    (fun _ => rfl) (fun _ _ => rfl) (fun _ => rfl) rfl (fun x hx => ?_) (fun y _ hy => ?_) rfl rfl
    le_rfl id
  · constructor <;> simp [Net.finish, hx]
  · constructor <;> simp [Net.finish, MsgCols.blank_iff, hy]

/-- A request is answered by the proxy itself; its vector, if any, is still to be forwarded. -/
lemma Inv.reply {r : MsgId} {subs : List MsgId} (hm : n.Held c m)
    (hr : n.g.place r = .hand) (hrb : n.m.Blank r) (hmr : m ≠ r) (hrs : r ∉ subs)
    (hs : subs = [] ∧ n.m.fragOwner m = none ∧ n.m.fragId m = 0 ∨ n.Vector c m subs)
    (due : Set ConnId) :
    Inv ({ ((n.link m r).finish m).enqOut c m with g.pend := subs, g.due := due }
      |>.move m (.req (some c) none) |>.move r (.rsp m)) := by
  have hl := hi.link hm.place hm.blank.peer hr hrb.peer hmr (by simp [hm.pend]) (by simp [hm.pend])
  have hmplace : ((n.link m r).move r (.rsp m)).g.place m = .hand := by
    simpa [Net.move, Net.link, hmr] using hm.place
  have hf := hl.finish hmplace (by simp [Net.move, Net.link, hm.pend])
  have he := hf.enter subs hmplace hm.client hm.closing hm.of hm.blank.swallow hm.pend
    hm.last hm.nReq ?_
  · refine he.same ⟨rfl, rfl, rfl, rfl, rfl, rfl, rfl, rfl, rfl, rfl, rfl, rfl, rfl, rfl, rfl,
      fun _ => id, ?_, rfl, rfl⟩
    exact update_comm hmr _ _ _
  · rcases hs with hs | hv
    · exact .inl hs
    · refine .inr ⟨⟨⟨hv.held.nodup, fun y hy => ?_, hv.held.of, fun y hy => ?_, hv.held.noreply,
        hv.held.fragOwner, hv.held.fragId, hv.held.reqNo⟩, hv.self, hv.fragOwner, hv.nfrag,
        hv.fragId, hv.fragId_le, hv.fresh⟩, by simp [Net.finish], hm.blank.fdone,
        hm.blank.nfragDone⟩
      · have hyr : y ≠ r := fun he => hrs (he ▸ hy)
        simpa [Net.finish, Net.move, Net.link, hyr] using hv.held.place y hy
      · have hyr : y ≠ r := fun he => hrs (he ▸ hy)
        have hym : y ≠ m := fun he => hv.self (he ▸ hy)
        simpa [Net.finish, Net.move, Net.link, MsgCols.blank_iff, hyr, hym] using
          hv.held.blank y hy

/-- The forwarding of a vector has failed before its first sub-message. -/
lemma Inv.failReply {subs : List MsgId} (hm : n.Held c m) (hv : n.Vector c m subs) :
    Inv ({ ((n.enqOut c m).finish m).fail m true with g.pend := subs }.setDue c
      |>.move m (.req (some c) none)) := by
  have hf := hi.failHand hm.place (by simp [hm.pend])
  have he := hf.enter subs hm.place hm.client hm.closing hm.of hm.blank.swallow hm.pend
    hm.last hm.nReq ?_
  · exact he.same ⟨rfl, rfl, rfl, rfl, rfl, rfl, rfl, rfl, rfl, rfl, rfl, rfl, rfl, rfl, rfl,
      fun _ => id, rfl, rfl, rfl⟩
  · refine .inr ⟨⟨⟨hv.held.nodup, hv.held.place, hv.held.of, fun y hy => ?_, hv.held.noreply,
      hv.held.fragOwner, hv.held.fragId, hv.held.reqNo⟩, hv.self, hv.fragOwner, hv.nfrag,
      hv.fragId, hv.fragId_le, hv.fresh⟩, by simp [Net.finish, Net.fail], hm.blank.fdone,
      hm.blank.nfragDone⟩
    have hym : y ≠ m := fun he => hv.self (he ▸ hy)
    simpa [Net.finish, Net.fail, MsgCols.blank_iff, hym] using hv.held.blank y hy

/-- The next sub-message is put into the out-queue of the client and forwarded. -/
lemma Inv.expectSub {rest : List MsgId} (hp : n.g.pend = m :: rest) (hm : n.Of m c)
    (hc : n.Client c) :
    Inv ({ n.enqOut c m with g.pend := rest }.move m (.req (some c) none)) := by
  obtain ⟨c', o, hpend⟩ := hi.pend m (by simp [hp])
  have hcc : c' = c := by
    have := hpend.of.1.symm.trans hm.1
    exact Option.some.inj this
  subst hcc
  have hnodup := hi.pend_nodup
  rw [hp, List.nodup_cons] at hnodup
  have hmq : ∀ c', n.Client c' → m ∉ n.c.omsgq c' :=
    fun c' hc' h => hi.ne_of_mem hc' h (m := m) (by simp [hpend.place]) rfl
  refine ⟨(hi.addr.move m (by simp [hpend.place])).congr rfl rfl rfl rfl rfl rfl rfl rfl
      rfl, (hi.queues.expect hpend.place hc).congr rfl rfl rfl rfl rfl,
    (hi.facts.expect hpend.place hc hm hpend.blank.swallow).congr rfl rfl rfl rfl,
    fun c hc' hcl => ?_, fun y hy => ?_, hnodup.2⟩
  · have hv := hi.vec c hc' hcl
    rw [hp] at hv
    rcases eq_or_ne c c' with rfl | hne
    · simp only [Net.move, Net.enqOut, update_self]
      exact hv.append_sub (hmq c hc) hpend.mem hpend.self hpend.fragOwner hpend.fragId hpend.ne
        hpend.reqNo hpend.last hpend.blank.done hpend.blank.fdone hpend.unmarked
    · simp only [Net.move, Net.enqOut, update_of_ne hne]
      refine hv.set_pend fun o' ho' => ?_
      rw [List.countP_cons_of_neg]
      rw [MsgCols.FragOf, hpend.fragOwner]
      simp only [Option.some.injEq, decide_eq_true_eq]
      rintro rfl
      obtain ⟨srv, h⟩ := (hi.queues.omsgq_client c hc' o).mp ho'
      obtain ⟨srv', h'⟩ := (hi.queues.omsgq_client c' hc o).mp hpend.mem
      rw [h] at h'
      simp only [Place.req.injEq, Option.some.injEq] at h'
      exact hne h'.1
  · change y ∈ rest at hy
    have hym : y ≠ m := fun he => hnodup.1 (he ▸ hy)
    obtain ⟨c, o', hpy⟩ := hi.pend y (by simp [hp, hy])
    refine ⟨c, o', ?_⟩
    have hsub : ∀ x ∈ n.c.omsgq c,
        x ∈ update n.c.omsgq c' (n.c.omsgq c' ++ [m]) c := by
      intro x hx
      rcases eq_or_ne c c' with rfl | hne
      · simp [hx]
      · simpa [hne] using hx
    exact
      { client := hpy.client, closing := hpy.closing, of := hpy.of, blank := hpy.blank
        noreply := hpy.noreply, fragOwner := hpy.fragOwner, self := hpy.self
        fragId := hpy.fragId, ne := hpy.ne, reqNo := hpy.reqNo, last := hpy.last
        place := by simpa [Net.move, Net.enqOut, hym] using hpy.place
        mem := hsub o' hpy.mem
        unmarked := by
          intro x hx he
          change x ∈ update n.c.omsgq c' (n.c.omsgq c' ++ [m]) c at hx
          rcases eq_or_ne c c' with rfl | hne
          · rw [update_self, List.mem_append, List.mem_singleton] at hx
            rcases hx with hx | rfl
            · exact hpy.unmarked x hx he
            · exact hpend.blank.fdone
          · rw [update_of_ne hne] at hx
            exact hpy.unmarked x hx he }

end Requests
end GfwProxy
