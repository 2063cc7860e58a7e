import GfwProxy.Net.Settle

set_option autoImplicit false

/-!
# Requests in the queues of server connections

The invariant is kept when a request enters the queues of a server connection, moves from one to the
other, and leaves them.

## Main results

* `GfwProxy.Inv.enqIn`, `GfwProxy.Inv.sendDone` — a request is queued, and sent.
* `GfwProxy.Inv.dropIn`, `GfwProxy.Inv.dropOut`, `GfwProxy.Inv.swallowed` — it is released.
-/

namespace GfwProxy

open Function

variable {n n' : Net}

section Server

variable (hi : Inv n) {m p : MsgId} {c s : ConnId} {cli : Option ConnId}

include hi

/-- Message `m` changes its place in the queues of the servers. -/
lemma Inv.frame_queue (ha : Addresses n') (hq : Queues n') (hf : Facts n') (m : MsgId)
    (hmp : m ∉ n.g.pend) (hc : ∀ c, n'.c.owner c = n.c.owner c)
    (hco : ∀ c, n.Client c → n'.c.omsgq c = n.c.omsgq c)
    (hcr : ∀ c, n'.c.nReq c = n.c.nReq c) (hcg : n'.c.gen = n.c.gen)
    (hv : ∀ x, n.m.SameVec n'.m x) (hs : ∀ y ∈ n.g.pend, y ≠ m → n.SameSub n' y)
    (hcl : n'.g.closing = n.g.closing) (hpend : n'.g.pend = n.g.pend)
    (hlim : n.a.fragId ≤ n'.a.fragId) (hlog : n.Lost → n'.Lost) : Inv n' := by
  have hclient : ∀ c, n'.Client c ↔ n.Client c := by
    intro c
    simp [Net.Client, hc c]
  refine hi.frame ha hq hf (fun c hc' hcl' => ?_) (fun c hc' x hx => hv x) hpend
    (fun y hy => hs y hy ?_) (fun y _ c o hp => ?_) hlim hlog
  · have h := (hclient c).mp hc'
    exact ⟨h, by rwa [hcl] at hcl', hco c h, hcr c⟩
  · rintro rfl
    exact hmp hy
  · exact ⟨(hclient c).mpr hp.client, by rw [hcl]; exact hp.closing, hco c hp.client, hcr c,
      by rw [hcg]⟩

omit hi in
/-- The queue of a client is not changed with that of a server. -/
lemma client_ne_of_server (hs : n.Server s) (hc : n.Client c) : c ≠ s := by
  rintro rfl
  obtain ⟨p, i, hs⟩ := hs
  obtain ⟨p', hc⟩ := hc
  simp [hs] at hc

/-- A request without server is put into the in-queue of a server connection. -/
lemma Inv.enqIn {timed : Bool} {rbt : List MsgId} (hm : n.g.place m = .req cli none)
    (hs : n.Server s) (hb : n.m.Blank m) (hr : n.m.noreply m = true → cli = none)
    (hr' : n.m.noreply m = false → cli ≠ none) (hp : m ∉ n.g.pend) :
    Inv ({ n.enqIn s m with
        m.tmoData := if timed then update n.m.tmoData m (some s) else n.m.tmoData
        a.tmoRbt := rbt }.move m (.req cli (some (s, false)))) := by
  have hf := hi.facts.enqIn hm hs hb hr hr'
  refine hi.frame_queue
    ((hi.addr.move m (by simp [hm])).congr rfl rfl rfl rfl rfl rfl rfl rfl rfl)
    ((hi.queues.enqIn hm hs).congr rfl rfl rfl rfl rfl) ?_ m hp (fun _ => rfl) (fun _ _ => rfl)
    (fun _ => rfl) rfl (fun _ => ⟨rfl, rfl, rfl, rfl, rfl, rfl, rfl⟩) (fun y _ hy => ?_) rfl rfl
    le_rfl id
  · cases timed with
    | false => exact hf.congr rfl rfl rfl rfl
    | true =>
      refine ⟨fun y c hy => ?_, hf.cli, hf.srv, hf.rsp, hf.peer⟩
      have hne : y ≠ m := by
        rintro rfl
        simp [Net.move] at hy
      obtain ⟨hopen, hof, hblank, hfrag⟩ := hf.reading y c hy
      refine ⟨hopen, hof, { hblank with tmoData := ?_ }, hfrag⟩
      simpa [Net.move, Net.enqIn, hne] using hblank.tmoData
  · cases timed <;> constructor <;> simp [Net.move, Net.enqIn, MsgCols.blank_iff, hy]

/-- A request leaves the in queue of a server connection. -/
lemma Inv.deqIn (hm : n.g.place m = .req cli (some (s, false))) :
    Inv ((n.deqIn s m).move m (.req cli none)) := by
  have hmp : m ∉ n.g.pend := fun h => hi.ne_of_pend h (by simp [hm]) rfl
  refine hi.frame_queue
    ((hi.addr.move m (by simp [hm])).congr rfl rfl rfl rfl rfl rfl rfl rfl rfl)
    (hi.queues.deqIn hm) ((hi.facts.settled hm).congr rfl rfl rfl rfl) m hmp (fun _ => rfl)
    (fun _ _ => rfl) (fun _ => rfl) rfl (fun _ => ⟨rfl, rfl, rfl, rfl, rfl, rfl, rfl⟩)
    (fun y _ hy => ?_) rfl rfl le_rfl id
  constructor <;> simp [Net.move, Net.deqIn, hy]

/-- A request leaves the out queue of a server connection. -/
lemma Inv.deqOut (hm : n.g.place m = .req cli (some (s, true))) :
    Inv ((n.deqOut s m).move m (.req cli none)) := by
  have hs := (hi.facts.srv m cli s true hm).1
  have hmp : m ∉ n.g.pend := fun h => hi.ne_of_pend h (by simp [hm]) rfl
  refine hi.frame_queue
    ((hi.addr.move m (by simp [hm])).congr rfl rfl rfl rfl rfl rfl rfl rfl rfl)
    (hi.queues.deqOut hm hs) ((hi.facts.settled hm).congr rfl rfl rfl rfl) m hmp (fun _ => rfl)
    (fun c hc => ?_) (fun _ => rfl) rfl (fun _ => ⟨rfl, rfl, rfl, rfl, rfl, rfl, rfl⟩)
    (fun y _ hy => ?_) rfl rfl le_rfl id
  · simp [Net.move, Net.deqOut, client_ne_of_server hs hc]
  · constructor <;> simp [Net.move, Net.deqOut, hy]

/-- A request has been sent, and waits for its response. -/
lemma Inv.sendDone (hm : n.g.place m = .req cli (some (s, false)))
    (hr : n.m.noreply m = false) :
    Inv ({ (n.deqIn s m).enqOut s m with
        c.sent := update n.c.sent s (n.c.sent s ++ [n.m.id m]) }.move m
      (.req cli (some (s, true)))) := by
  have hs := (hi.facts.srv m cli s false hm).1
  have hmp : m ∉ n.g.pend := fun h => hi.ne_of_pend h (by simp [hm]) rfl
  have hplace : ((n.deqIn s m).move m (.req cli none)).g.place m = .req cli none := by
    simp [Net.move]
  have hq := (hi.queues.deqIn hm).enqOut hplace hs
  refine hi.frame_queue
    ((hi.addr.move m (by simp [hm])).congr rfl rfl rfl rfl rfl rfl rfl rfl rfl)
    (hq.congr rfl rfl rfl rfl ?_) ((hi.facts.sent hm hr).congr rfl rfl rfl rfl) m hmp (fun _ => rfl)
    (fun c hc => ?_) (fun _ => rfl) rfl (fun _ => ⟨rfl, rfl, rfl, rfl, rfl, rfl, rfl⟩)
    (fun y _ hy => ?_) rfl rfl le_rfl id
  · simp [Net.move, Net.enqOut, Net.deqIn]
  · simp [Net.move, Net.enqOut, Net.deqIn, client_ne_of_server hs hc]
  · constructor <;> simp [Net.move, Net.enqOut, Net.deqIn, hy]

end Server

/-! ## The places in composite moves -/

/-- Freeing a message forgets its place. -/
@[simp] lemma Net.put_move (n : Net) (m : MsgId) (x : Place) : (n.move m x).put m = n.put m := by
  simp [Net.put, Net.move]

/-- Moving a message and taking one out of the tree commute. -/
lemma Net.tmoDelete_move (n : Net) (y m : MsgId) (x : Place) :
    (n.move m x).tmoDelete y = (n.tmoDelete y).move m x := by
  by_cases h : n.m.tmoData y = none <;> simp [Net.tmoDelete, Net.move, h]

/-- The timers do not move messages. -/
@[simp] lemma Net.tmoDelete_place (n : Net) (m : MsgId) : (n.tmoDelete m).g = n.g := by
  unfold Net.tmoDelete
  split <;> rfl

/-- The timers do not change connections. -/
@[simp] lemma Net.tmoDelete_conn (n : Net) (m : MsgId) : (n.tmoDelete m).c = n.c := by
  unfold Net.tmoDelete
  split <;> rfl

/-- The timers do not change peers. -/
@[simp] lemma Net.tmoDelete_peer (n : Net) (m : MsgId) : (n.tmoDelete m).m.peer = n.m.peer := by
  unfold Net.tmoDelete
  split <;> rfl

/-- The timers do not change `done`. -/
@[simp] lemma Net.tmoDelete_done (n : Net) (m : MsgId) : (n.tmoDelete m).m.done = n.m.done := by
  unfold Net.tmoDelete
  split <;> rfl

section Composite

variable (hi : Inv n) {m p : MsgId} {c s : ConnId} {cli : Option ConnId}

include hi

omit hi in
/-- A message has its place whatever the timers are. -/
lemma Net.place_tmoDelete {x : Place} (hm : n.g.place m = x) :
    (n.tmoDelete m).g.place m = x := by
  simpa using hm

/-- A request that has not been sent and that no client waits for is freed. -/
lemma Inv.dropIn (hm : n.g.place m = .req none (some (s, false))) :
    Inv (((n.deqIn s m).tmoDelete m).put m) := by
  have hpeer := (hi.facts.srv m none s false hm).2.2.2.1
  have hmp : m ∉ n.g.pend := fun h => hi.ne_of_pend h (by simp [hm]) rfl
  have h := (hi.deqIn hm).tmoDelete m
  have hput := h.put (m := m) (by simp [Net.move]) (by simpa [Net.move, Net.deqIn] using hpeer)
    (by simpa [Net.move, Net.deqIn] using hmp)
  rwa [Net.tmoDelete_move, Net.put_move] at hput

/-- A request that has been sent and that no client waits for is freed. -/
lemma Inv.dropOut (hm : n.g.place m = .req none (some (s, true))) :
    Inv (((n.tmoDelete m).deqOut s m).put m) := by
  have hpeer := (hi.facts.srv m none s true hm).2.2.2.1
  have hmp : m ∉ n.g.pend := fun h => hi.ne_of_pend h (by simp [hm]) rfl
  have h := (hi.tmoDelete m).deqOut (Net.place_tmoDelete hm)
  have hput := h.put (m := m) (by simp [Net.move]) (by simpa [Net.move, Net.deqOut] using hpeer)
    (by simpa [Net.move, Net.deqOut] using hmp)
  rwa [Net.put_move] at hput

/-- The response to a request that no client waits for is dropped. -/
lemma Inv.swallowed (hp : n.g.place p = .req none (some (s, true))) (a : ConnId → List Answer) :
    Inv (({ ((n.tmoDelete p).deqOut s p).finish p with c.answers := a }).put p) := by
  have hpeer := (hi.facts.srv p none s true hp).2.2.2.1
  have hmp : p ∉ n.g.pend := fun h => hi.ne_of_pend h (by simp [hp]) rfl
  have h := ((hi.tmoDelete p).deqOut (Net.place_tmoDelete hp)).finish
    (m := p) (by simp [Net.move]) (by simpa [Net.move, Net.deqOut] using hmp)
  have hput := h.put (m := p) (by simp [Net.finish, Net.move])
    (by simpa [Net.finish, Net.move, Net.deqOut] using hpeer)
    (by simpa [Net.finish, Net.move, Net.deqOut] using hmp)
  refine hput.same ⟨rfl, rfl, rfl, rfl, rfl, rfl, rfl, rfl, rfl, rfl, rfl, rfl, rfl, rfl, rfl,
    fun _ => id, ?_, rfl, rfl⟩
  simp [Net.put, Net.finish, Net.move, Net.deqOut]

end Composite

end GfwProxy
