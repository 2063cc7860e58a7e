import GfwProxy.Net.Step

set_option autoImplicit false

/-!
# What the moves of a server connection keep

While a server connection is looked for, opened or closed, the clients and the messages that have
nothing to do with a server connection stay as they are.

## Main definitions

* `GfwProxy.Net.Away` — a place away from the server connections.
* `GfwProxy.Net.Keeps` — what is kept.

## Main results

* `GfwProxy.ServerMoves.keeps` — the moves of a server connection keep it.
-/

namespace GfwProxy

open Function

variable {n n' : Net} {c s : ConnId} {m : MsgId}

/-- A message in this place has nothing to do with a server connection. -/
def Net.Away (n : Net) : Place → Prop
  | .req _ none => True
  | .rsp _ => True
  | .reading c => n.Client c
  | _ => False

/-- Being away from a client is read from the owners. -/
lemma Net.Away.congr (ho : n'.c.owner = n.c.owner) (x : Place) : n'.Away x ↔ n.Away x := by
  cases x with
  | reading c => simp only [Net.Away, Net.Client, ho]
  | req cli srv => cases srv <;> exact .rfl
  | _ => exact .rfl

/-- Message `m` is as it was, but for the marks and the count of its fragments. -/
structure Net.SameMsg (n n' : Net) (m : MsgId) : Prop where
  place : n'.g.place m = n.g.place m
  id : n'.m.id m = n.m.id m
  peer : n'.m.peer m = n.m.peer m
  owner : n'.m.owner m = n.m.owner m
  tmoData : n'.m.tmoData m = n.m.tmoData m
  fragOwner : n'.m.fragOwner m = n.m.fragOwner m
  nfrag : n'.m.nfrag m = n.m.nfrag m
  fragId : n'.m.fragId m = n.m.fragId m
  error : n'.m.error m = n.m.error m
  noreply : n'.m.noreply m = n.m.noreply m
  done : n'.m.done m = n.m.done m
  swallow : n'.m.swallow m = n.m.swallow m
  ownerGen : n'.m.ownerGen m = n.m.ownerGen m
  counted : n'.m.counted m = n.m.counted m
  reqNo : n'.m.reqNo m = n.m.reqNo m
  nfragDone : n.m.fragOwner m ≠ some m → n'.m.nfragDone m = n.m.nfragDone m
  fdone : n.m.done m = false → n'.m.fdone m = n.m.fdone m

/-- Client `c` is as it was. -/
structure Net.SameConn (n n' : Net) (c : ConnId) : Prop where
  owner : n'.c.owner c = n.c.owner c
  omsgq : n'.c.omsgq c = n.c.omsgq c
  rmsg : n'.c.rmsg c = n.c.rmsg c
  nReq : n'.c.nReq c = n.c.nReq c
  gen : n'.c.gen c = n.c.gen c
  closing : c ∈ n'.g.closing ↔ c ∈ n.g.closing
  cold : c ∈ n'.g.cold ↔ c ∈ n.g.cold

/-- What the moves of a server connection keep: the clients, and the messages that have nothing to
do with a server connection. -/
structure Net.Keeps (n n' : Net) : Prop where
  client : ∀ c, n.Client c → n.SameConn n' c
  back : ∀ c, n'.Client c → n.Client c
  msg : ∀ m, n.Away (n.g.place m) → n.SameMsg n' m
  pend : n'.g.pend = n.g.pend
  fragId : n'.a.fragId = n.a.fragId

/-- A message whose columns and place have not changed is the same. -/
lemma Net.SameMsg.of_eq (hm : n'.m = n.m) (hp : n'.g.place m = n.g.place m) : n.SameMsg n' m := by
  constructor <;> simp [hm, hp]

/-- Nothing has happened. -/
lemma Net.Keeps.refl (n : Net) : n.Keeps n :=
  ⟨fun _ _ => ⟨rfl, rfl, rfl, rfl, rfl, .rfl, .rfl⟩, fun _ h => h,
    fun _ _ => .of_eq rfl rfl, rfl, rfl⟩

/-- A message that is away from the server connections stays so. -/
lemma Net.Away.keep {n₁ n₂ : Net} (h₁ : n₁.Keeps n₂) {m : MsgId} (hm : n₁.Away (n₁.g.place m)) :
    n₂.Away (n₂.g.place m) := by
  rw [(h₁.msg m hm).place]
  cases hp : n₁.g.place m with
  | reading c =>
    rw [hp] at hm
    obtain ⟨p, ho⟩ := hm
    exact ⟨p, ((h₁.client c ⟨p, ho⟩).owner).trans ho⟩
  | req cli srv =>
    rw [hp] at hm
    cases srv with
    | none => trivial
    | some x => exact hm
  | rsp p => trivial
  | _ =>
    rw [hp] at hm
    exact hm

/-- Steps that keep compose. -/
lemma Net.Keeps.trans {n₁ n₂ n₃ : Net} (h₁ : n₁.Keeps n₂) (h₂ : n₂.Keeps n₃) : n₁.Keeps n₃ where
  client c hc := by
    have hc' := h₁.client c hc
    have hc'' := h₂.client c (by
      obtain ⟨p, ho⟩ := hc
      exact ⟨p, hc'.owner.trans ho⟩)
    exact ⟨hc''.owner.trans hc'.owner, hc''.omsgq.trans hc'.omsgq, hc''.rmsg.trans hc'.rmsg,
      hc''.nReq.trans hc'.nReq, hc''.gen.trans hc'.gen, hc''.closing.trans hc'.closing,
      hc''.cold.trans hc'.cold⟩
  back c hc := h₁.back c (h₂.back c hc)
  msg m hm := by
    have h := h₁.msg m hm
    have h' := h₂.msg m (Net.Away.keep h₁ hm)
    exact ⟨h'.place.trans h.place, h'.id.trans h.id, h'.peer.trans h.peer, h'.owner.trans h.owner,
      h'.tmoData.trans h.tmoData, h'.fragOwner.trans h.fragOwner, h'.nfrag.trans h.nfrag,
      h'.fragId.trans h.fragId, h'.error.trans h.error, h'.noreply.trans h.noreply,
        h'.done.trans h.done,
      h'.swallow.trans h.swallow, h'.ownerGen.trans h.ownerGen, h'.counted.trans h.counted,
      h'.reqNo.trans h.reqNo,
      fun hf => (h'.nfragDone (by rwa [h.fragOwner])).trans (h.nfragDone hf),
      fun hd => (h'.fdone (by rwa [h.done])).trans (h.fdone hd)⟩
  pend := h₂.pend.trans h₁.pend
  fragId := h₂.fragId.trans h₁.fragId

/-- A client is no server connection. -/
lemma Net.Client.ne (hc : n.Client c) (hs : n.Server s) : c ≠ s := by
  rintro rfl
  obtain ⟨p, ho⟩ := hc
  obtain ⟨p', i, ho'⟩ := hs
  rw [ho] at ho'
  cases ho'

/-- A request in a queue of a server connection is not away from it. -/
lemma Net.Away.ne {x : MsgId} {cli : Option ConnId} {b : Bool} (hm : n.Away (n.g.place m))
    (hx : n.g.place x = .req cli (some (s, b))) : m ≠ x := by
  rintro rfl
  rw [hx] at hm
  exact hm

/-- The owner of a fragment that is counted is not a message that owns no fragments. -/
lemma Inv.fragOwner_ne {x : MsgId} {srv : Option (ConnId × Bool)} (hi : Inv n)
    (hx : n.g.place x = .req (some c) srv) (hd : n.m.done x = false) (hcl : c ∉ n.g.closing)
    (hm : n.m.fragOwner m ≠ some m) : n.m.fragOwner x ≠ some m := by
  intro ho
  have hc := (hi.facts.cli x c srv hx).1
  have hmem := (hi.queues.omsgq_client c hc x).mpr ⟨srv, hx⟩
  exact hm ((hi.vec c hc hcl).owner x hmem hd m ho).2.1

/-! ## One operation -/

/-- The timers do not change the owner of a vector. -/
@[simp] lemma Net.tmoDelete_fragOwner (n : Net) (m : MsgId) :
    (n.tmoDelete m).m.fragOwner = n.m.fragOwner := by
  unfold Net.tmoDelete
  split <;> rfl

/-- Taking a request out of an in-queue keeps what is away. -/
lemma Net.Keeps.deqIn (n : Net) (s : ConnId) (x : MsgId) : n.Keeps (n.deqIn s x) :=
  ⟨fun _ _ => ⟨rfl, rfl, rfl, rfl, rfl, .rfl, .rfl⟩, fun _ h => h,
    fun _ _ => .of_eq rfl rfl, rfl, rfl⟩

/-- Taking a request out of the out-queue of a server keeps what is away. -/
lemma Net.Keeps.deqOut (hs : n.Server s) (x : MsgId) : n.Keeps (n.deqOut s x) := by
  refine ⟨fun c hc => ⟨rfl, ?_, rfl, rfl, rfl, .rfl, .rfl⟩, fun _ h => h,
    fun _ _ => .of_eq rfl rfl, rfl, rfl⟩
  simp [Net.deqOut, hc.ne hs]

/-- The timer of a message that is not away is taken out. -/
lemma Net.Keeps.tmoDelete {x : MsgId} (hx : ¬n.Away (n.g.place x)) : n.Keeps (n.tmoDelete x) := by
  unfold Net.tmoDelete
  split_ifs with ht
  · exact .refl n
  refine ⟨fun _ _ => ⟨rfl, rfl, rfl, rfl, rfl, .rfl, .rfl⟩, fun _ h => h, fun m hm => ?_, rfl, rfl⟩
  have hne : m ≠ x := by
    rintro rfl
    exact hx hm
  constructor <;> simp [hne]

/-- A message that is not away is freed. -/
lemma Net.Keeps.put {x : MsgId} (hx : ¬n.Away (n.g.place x)) : n.Keeps (n.put x) := by
  refine ⟨fun _ _ => ⟨rfl, rfl, rfl, rfl, rfl, .rfl, .rfl⟩, fun _ h => h,
    fun m hm => .of_eq rfl ?_, rfl, rfl⟩
  have hne : m ≠ x := by
    rintro rfl
    exact hx hm
  simp [Net.put, hne]

/-- A request that is in a queue of a server connection fails. -/
lemma Net.Keeps.fail {x : MsgId} {place : MsgId → Place} (b e : Bool) (hx : ¬n.Away (n.g.place x))
    (hplace : ∀ m, m ≠ x → place m = n.g.place m)
    (ho : ∀ m, n.m.fragOwner m ≠ some m → n.m.fragOwner x ≠ some m) :
    n.Keeps (((({ n with g.place := place }.finish x).count x b).fail x e).setDue c) := by
  have hne : ∀ m, n.Away (n.g.place m) → m ≠ x := by
    rintro m hm rfl
    exact hx hm
  constructor
  case client =>
    intro c' hc'
    constructor <;> simp [Net.setDue, Net.fail, Net.finish]
  case back =>
    intro c' hc'
    simpa [Net.Client, Net.setDue, Net.fail, Net.finish] using hc'
  case msg =>
    intro m hm
    have hm' := hne m hm
    cases hf : n.m.fragOwner x with
    | none =>
      constructor <;> simp [Net.setDue, Net.fail, Net.finish, Net.count, hf, hm', hplace m hm']
    | some o =>
      have hom : n.m.fragOwner m ≠ some m → m ≠ o := by
        rintro h rfl
        exact ho m h hf
      constructor <;>
        simp +contextual [Net.setDue, Net.fail, Net.finish, Net.count, hf, hm', hom, hplace m hm']
  case pend => simp [Net.setDue, Net.fail, Net.finish]
  case fragId => cases hf : n.m.fragOwner x <;>
    simp [Net.setDue, Net.fail, Net.finish, Net.count, hf]

/-! ## One move -/

/-- A request in a queue of a server connection is not away. -/
lemma Net.not_away_of_queued {x : MsgId} {cli : Option ConnId} {srv : ConnId × Bool}
    (hx : n.g.place x = .req cli (some srv)) : ¬n.Away (n.g.place x) := by
  rw [hx]
  exact id

/-- Requests that are done are marked. -/
lemma Net.Keeps.mark {q : List MsgId} (hq : ∀ x ∈ q, n.m.done x = true) :
    n.Keeps { n with m.fdone := fun x => if x ∈ q then true else n.m.fdone x } := by
  refine ⟨fun c _ => ⟨rfl, rfl, rfl, rfl, rfl, .rfl, .rfl⟩, fun _ h => h, fun m _ => ?_, rfl, rfl⟩
  constructor <;> try rfl
  · exact fun _ => rfl
  · intro hm
    refine if_neg fun hmem => ?_
    rw [hq m hmem] at hm
    cases hm

/-- A connection that is not open goes to the free list. -/
lemma Net.Keeps.connPut (hc : n.FreshConn c) :
    n.Keeps { n with
      c.gen := update n.c.gen c (n.c.gen c + 1)
      a.freeConnq := c :: n.a.freeConnq } := by
  refine ⟨fun c' hc' => ⟨rfl, rfl, rfl, rfl, ?_, .rfl, .rfl⟩, fun _ h => h,
    fun m _ => .of_eq rfl rfl, rfl, rfl⟩
  have hne : c' ≠ c := by
    rintro rfl
    obtain ⟨p, ho⟩ := hc'
    rw [hc.owner] at ho
    cases ho
  simp [hne]

/-- A request that waits for a server is released. -/
lemma Net.Keeps.dropIn (hm : n.g.place m = .req none (some (s, false))) :
    n.Keeps (((n.deqIn s m).tmoDelete m).put m) := by
  have haway := Net.not_away_of_queued hm
  have h₁ := (Net.Keeps.deqIn n s m).trans (Net.Keeps.tmoDelete (x := m) haway)
  refine h₁.trans (Net.Keeps.put ?_)
  simp only [Net.tmoDelete_place]
  rw [Net.Away.congr (n := n) (by rw [Net.tmoDelete_conn]; rfl)]
  exact haway

/-- A request leaves the out-queue of its server connection. -/
lemma Net.Keeps.leaves (hs : n.Server s) (hm : ¬n.Away (n.g.place m)) :
    n.Keeps ((n.tmoDelete m).deqOut s m) ∧
      ¬((n.tmoDelete m).deqOut s m).Away (((n.tmoDelete m).deqOut s m).g.place m) := by
  constructor
  · exact (Net.Keeps.tmoDelete hm).trans (Net.Keeps.deqOut (by simpa [Net.Server] using hs) m)
  · simp only [Net.deqOut, Net.tmoDelete_place]
    rw [Net.Away.congr (n := n) (by simp)]
    exact hm

/-- A request that has been sent to a server is released. -/
lemma Net.Keeps.dropOut (hi : Inv n) (hm : n.g.place m = .req none (some (s, true))) :
    n.Keeps (((n.tmoDelete m).deqOut s m).put m) := by
  obtain ⟨hkeeps, haway⟩ :=
    Net.Keeps.leaves (hi.facts.srv m none s true hm).1 (Net.not_away_of_queued hm)
  exact hkeeps.trans (Net.Keeps.put haway)

/-- A request that waits for a server fails. -/
lemma Net.Keeps.failIn (hi : Inv n) (b : Bool) (hm : n.g.place m = .req (some c) (some (s, false)))
    (hc : c ∉ n.g.closing) :
    n.Keeps ((((((n.deqIn s m).move m (.req (some c) none)).finish m).count m b).fail m
      true).setDue c) := by
  have hd := (hi.facts.srv m (some c) s false hm).2.1
  have h₁ := Net.Keeps.deqIn n s m
  exact h₁.trans (Net.Keeps.fail b true (Net.not_away_of_queued hm)
    (fun x hx => update_of_ne hx _ _) fun x hx => hi.fragOwner_ne hm hd hc hx)

/-- A request that has been sent to a server fails. -/
lemma Net.Keeps.failOut (hi : Inv n) (b : Bool) (hm : n.g.place m = .req (some c) (some (s, true)))
    (hc : c ∉ n.g.closing) :
    n.Keeps (((((((n.tmoDelete m).deqOut s m).move m (.req (some c) none)).finish m).count m
      b).fail m true).setDue c) := by
  obtain ⟨hs, hd, -⟩ := hi.facts.srv m (some c) s true hm
  obtain ⟨hkeeps, haway⟩ := Net.Keeps.leaves hs (Net.not_away_of_queued hm)
  refine hkeeps.trans (Net.Keeps.fail b true haway (fun x hx => update_of_ne hx _ _) fun x hx => ?_)
  simp only [Net.deqOut, Net.tmoDelete_fragOwner] at hx ⊢
  exact hi.fragOwner_ne hm hd hc hx

/-- A response that is being received is discarded. -/
lemma Net.Keeps.discardRsp (hi : Inv n) (hs : n.Server s) (hr : n.c.rmsg s = some m) :
    n.Keeps ({ n with c.rmsg := update n.c.rmsg s none }.put m) := by
  have ho : n.Open s := by
    obtain ⟨p, i, ho⟩ := hs
    simp [Net.Open, ho]
  have haway : ¬n.Away (n.g.place m) := by
    rw [(hi.queues.rmsg s ho m).mp hr]
    exact fun hc => Net.Client.ne hc hs rfl
  have h₁ : n.Keeps { n with c.rmsg := update n.c.rmsg s none } := by
    refine ⟨fun c hc => ⟨rfl, rfl, ?_, rfl, rfl, .rfl, .rfl⟩, fun _ h => h,
      fun _ _ => .of_eq rfl rfl, rfl, rfl⟩
    simp [hc.ne hs]
  exact h₁.trans (Net.Keeps.put haway)

/-- A server connection is opened. -/
lemma Net.Keeps.openServer (p i : ℕ) (hs : n.FreshConn s) :
    n.Keeps { n with
      c := n.c.set s { owner := some (.server p i), gen := n.c.gen s }
      a.sConnq := fun p' i' =>
        if p' = p ∧ i' = i then n.a.sConnq p i ++ [s] else n.a.sConnq p' i'
      g.closing := n.g.closing \ {s}
      g.due := n.g.due \ {s}
      g.cold := n.g.cold \ {s} } := by
  have hne : ∀ c, n.Client c → c ≠ s := by
    rintro c ⟨p, ho⟩ rfl
    rw [hs.owner] at ho
    cases ho
  refine ⟨fun c hc => ?_, fun c hc => ?_, fun m _ => .of_eq rfl rfl, rfl, rfl⟩
  · have hcs := hne c hc
    constructor <;> simp [ConnCols.set, hcs]
  · obtain ⟨p', ho⟩ := hc
    rcases eq_or_ne c s with rfl | hcs
    · simp [ConnCols.set] at ho
    · exact ⟨p', by simpa [ConnCols.set, hcs] using ho⟩

/-- A server connection is not open any more. -/
lemma Net.Keeps.unrefServer (p i : ℕ) (hs : n.Server s) : n.Keeps (n.unrefServer s p i) := by
  refine ⟨fun c hc => ⟨?_, rfl, rfl, rfl, rfl, .rfl, .rfl⟩, fun c hc => ?_,
    fun m _ => .of_eq rfl rfl, rfl, rfl⟩
  · simp [Net.unrefServer, hc.ne hs]
  · obtain ⟨p', ho⟩ := hc
    rcases eq_or_ne c s with rfl | hcs
    · simp [Net.unrefServer] at ho
    · exact ⟨p', by simpa [Net.unrefServer, hcs] using ho⟩

/-- It is given up with the messages in its queues, which are not away. -/
lemma Net.Keeps.abandon (p i : ℕ) (hs : n.Server s) :
    n.Keeps { n.unrefServer s p i with
      g.place := fun m => Net.afterAbandon s (n.g.place m) } := by
  have h₁ := Net.Keeps.unrefServer p i hs
  refine ⟨fun c hc => ⟨(h₁.client c hc).owner, rfl, rfl, rfl, rfl, .rfl, .rfl⟩, h₁.back,
    fun m hm => .of_eq rfl ?_, rfl, rfl⟩
  show Net.afterAbandon s (n.g.place m) = n.g.place m
  cases hp : n.g.place m with
  | reading c =>
    rw [hp] at hm
    exact if_neg (Net.Client.ne hm hs)
  | req cli srv =>
    rw [hp] at hm
    cases srv with
    | none => rfl
    | some x => exact hm.elim
  | _ => rfl

/-- **A move of a server connection keeps what is away from it.** -/
lemma ServerMove.keeps (hm : ServerMove n n') (hi : Inv n) : n.Keeps n' := by
  cases hm with
  | note | touch | wake | calm | takeConn | growConn | rotate | setSd =>
    exact ⟨fun c _ => ⟨rfl, rfl, rfl, rfl, rfl, .rfl, .rfl⟩, fun _ h => h,
      fun m _ => .of_eq rfl rfl, rfl, rfl⟩
  | fdone c x hc hcl hx hd hf hn hr hp => exact .mark (List.forall_mem_cons.mpr ⟨hd, hr⟩)
  | connPut c hc => exact .connPut hc
  | dropIn s x hx => exact .dropIn hx
  | dropOut s x hx hcl => exact .dropOut hi hx
  | failIn s c x b hx hcl => exact .failIn hi b hx hcl
  | failOut s c x b hx hcl hs => exact .failOut hi b hx hcl
  | discardRsp s x hs hr => exact .discardRsp hi hs hr
  | openServer s p i hs => exact .openServer p i hs
  | beginCloseServer s hs =>
    refine ⟨fun c hc => ⟨rfl, rfl, rfl, rfl, rfl, ?_, .rfl⟩, fun _ h => h,
      fun m _ => .of_eq rfl rfl, rfl, rfl⟩
    simp [hc.ne hs]
  | unrefServer s p i ho hi hq hr => exact .unrefServer p i ⟨p, i, ho⟩
  | abandon s p i ho ha => exact .abandon p i ⟨p, i, ho⟩

/-- No notification begins to be handled. -/
lemma ServerMoves.cold (hm : ServerMoves n n') : n'.g.cold ⊆ n.g.cold := by
  induction hm with
  | refl => exact subset_rfl
  | tail _ hm ih =>
    refine Set.Subset.trans ?_ ih
    cases hm with
    | openServer s p i hs => exact Set.sdiff_subset
    | failIn s c m b hm hc => simp [Net.setDue, Net.fail, Net.finish, Net.move, Net.deqIn]
    | failOut s c m b hm hc hs => simp [Net.setDue, Net.fail, Net.finish, Net.move, Net.deqOut]
    | dropIn s m hm => simp [Net.put, Net.deqIn]
    | dropOut s m hm hs => simp [Net.put, Net.deqOut]
    | _ => exact subset_rfl

/-- A run of such moves keeps it as well. -/
theorem ServerMoves.keeps (hm : ServerMoves n n') (hi : Inv n) : n.Keeps n' := by
  induction hm with
  | refl => exact .refl n
  | tail hmoves hm ih => exact ih.trans (hm.keeps (Moves.inv (ServerMoves.moves hmoves) hi))

end GfwProxy
