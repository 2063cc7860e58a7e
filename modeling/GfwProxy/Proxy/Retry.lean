import GfwProxy.Proxy.After
import GfwProxy.Proxy.Response

set_option autoImplicit false

/-!
# The error reply to a fragmented request

`rsp_make_error` (`gf_response.c`) takes the error of the reply from the fragments, which leave the
queue of the client while it reads them.  `rsp_send_next` calls it whenever it comes to the request,
and a write that does not get to the reply makes it come to the request again.

## Main definitions

* `GfwProxy.Retry.Pending` — a request with its fragments in the queue, waiting for its error reply.
* `GfwProxy.Retry.Run` — the reply is chosen any number of times before its first byte is written.
* `GfwProxy.Retry.ReplyOk` — what the reply has to be, and what has become of the fragments.

## Main results

* `GfwProxy.Retry.Run.reply` — the reply of each choice.
* `GfwProxy.Retry.Run.replyOk_iff` — the reply is right exactly if it is chosen for the first time,
  or if its error has the same text as no error.

## Design

Between two choices the rest of the proxy may do anything that does not concern the request, its
fragments and their ids.  `GfwProxy.Retry.again_frame` shows that the rest of `msg_send_chain` is of
this kind when `writev` returns `EAGAIN`.
-/

namespace GfwProxy.Retry

/-- The first error among the requests `ms`, or `err` if that is one. -/
def firstErr (h : Heap) : List MsgId → ℤ → ℤ
  | [], err => err
  | m :: ms, err => firstErr h ms (if err = 0 ∧ (h.msg m).err ≠ 0 then (h.msg m).err else err)

/-- Request `o` with the fragments `frags` in the queue of client `c`, in error.  The fragments of
the vector had the ids `ids`, which no other message has. -/
structure Pending (c : ConnId) (o : MsgId) (frags : List MsgId) (ids : List ℕ) (h : Heap) :
    Prop where
  nodup : (h.conn c).omsgq.Nodup
  queue : ∃ before after, (h.conn c).omsgq = before ++ o :: (frags ++ after) ∧
    ∀ x ∈ after.head?, (h.msg x).fragId ≠ (h.msg o).fragId
  fragId : (h.msg o).fragId ≠ 0
  vector : ∀ f ∈ frags, (h.msg f).fragId = (h.msg o).fragId
  error : (h.msg o).error = true ∨ (h.msg o).ferror = true ∨ ∃ f ∈ frags, (h.msg f).error = true
  peers : ∀ x ∈ o :: frags, ∀ r ∈ (h.msg x).peer, r ∉ o :: frags ∧ (h.msg r).id ∉ ids
  others : ∀ x ∈ (h.conn c).omsgq, x ∉ frags → (h.msg x).id ∉ ids
  notFree : o ∉ h.freeMsgq
  allocated : o < h.nextMsg
  msgId : ∀ i ∈ ids, i ≤ h.msgId

/-- From `h` to `h'`, the errors of the fragments, the number of releases of their ids, and the
protocol of the client have not changed. -/
structure SameVector (c : ConnId) (frags : List MsgId) (ids : List ℕ) (h h' : Heap) : Prop where
  err : ∀ f ∈ frags, (h'.msg f).err = (h.msg f).err
  id : ∀ f ∈ frags, (h'.msg f).id = (h.msg f).id
  released : ∀ i ∈ ids, h'.log.count (.release i) = h.log.count (.release i)
  redis : (h'.conn c).redis = (h.conn c).redis

/-- `rsp_send_next` comes to request `o`: nothing is being sent and it is the head of the queue, or
it is behind the request whose response is being sent. -/
def CursorAt (c : ConnId) (o : MsgId) (h : Heap) : Prop :=
  ((h.conn c).smsg = none ∧ (h.conn c).omsgq.head? = some o) ∨
    ∃ r p, (h.conn c).smsg = some r ∧ (h.msg r).peer = some p ∧
    tailqNext p (h.conn c).omsgq = some o

/-- A request with fragments of which one has failed with an error, before its reply is chosen. -/
structure Start (c : ConnId) (o : MsgId) (fs : List MsgId) (h : Heap) : Prop where
  pending : Pending c o fs (fs.map fun f => (h.msg f).id) h
  nodup : (fs.map fun f => (h.msg f).id).Nodup
  failed : ∃ f ∈ fs, (h.msg f).error = true ∧ (h.msg f).err ≠ 0
  released : ∀ f ∈ fs, (Ev.release (h.msg f).id) ∉ h.log

/-- The fragments that are left after `k` choices. -/
def left (fs : List MsgId) (k : ℕ) : List MsgId := if k = 0 then fs else []

/-- The states in which the reply to the request that waits in `h₀` has been chosen `k` times, and
no byte of it is written. -/
inductive Run (c : ConnId) (o : MsgId) (fs : List MsgId) (h₀ : Heap) : ℕ → Heap → Prop
  | start (h : Start c o fs h₀) : Run c o fs h₀ 0 h₀
  /-- anything that does not concern the request -/
  | other {k : ℕ} {h h' : Heap} (hr : Run c o fs h₀ k h)
      (hp : Pending c o (left fs k) (fs.map fun f => (h₀.msg f).id) h')
      (hs : SameVector c (left fs k) (fs.map fun f => (h₀.msg f).id) h h') : Run c o fs h₀ k h'
  /-- a choice, of which no byte will be written -/
  | again {k : ℕ} {σ σ' : St} {env : Env} {r : MsgId} (hr : Run c o fs h₀ k σ.heap)
      (hc : CursorAt c o σ.heap) (h : rspSendNext env c σ = .ok (some r, σ')) :
      Run c o fs h₀ (k + 1) σ'.heap

/-- Response `r` is the error reply to `o` with the error of the first failed fragment; the
fragments have left the queue and are released once, and `o` is in the queue. -/
structure ReplyOk (env : Env) (c : ConnId) (o : MsgId) (fs : List MsgId) (h₀ h : Heap) (r : MsgId) :
    Prop where
  peer : (h.msg r).peer = some o
  text : (h.msg r).mhdr = [{ rest := errorText env (h₀.conn c).redis (firstErr h₀ fs 0) }]
  gone : ∀ f ∈ fs, ∀ x ∈ (h.conn c).omsgq, (h.msg x).id ≠ (h₀.msg f).id
  once : ∀ f ∈ fs, h.log.count (.release (h₀.msg f).id) = 1
  queued : o ∈ (h.conn c).omsgq

/-! ## What the verdicts change -/

/-- From `h` to `h'` only the marks of the verdicts and the bytes of messages have changed. -/
structure Alike (h h' : Heap) : Prop where
  conn : h'.conn = h.conn
  freeMsgq : h'.freeMsgq = h.freeMsgq
  nextMsg : h'.nextMsg = h.nextMsg
  msgId : h'.msgId = h.msgId
  log : h'.log = h.log
  id : ∀ x, (h'.msg x).id = (h.msg x).id
  fragId : ∀ x, (h'.msg x).fragId = (h.msg x).fragId
  peer : ∀ x, (h'.msg x).peer = (h.msg x).peer
  err : ∀ x, (h'.msg x).err = (h.msg x).err
  error : ∀ x, (h'.msg x).error = (h.msg x).error
  ferror : ∀ x, (h.msg x).ferror = true → (h'.msg x).ferror = true

section Verdicts

variable {env : Env} {c : ConnId} {o m : MsgId} {frags : List MsgId} {ids : List ℕ}
  {h h' h'' : Heap}

/-- Nothing has changed. -/
lemma Alike.refl (h : Heap) : Alike h h :=
  ⟨rfl, rfl, rfl, rfl, rfl, fun _ => rfl, fun _ => rfl, fun _ => rfl, fun _ => rfl, fun _ => rfl,
    fun _ h => h⟩

/-- Likeness is transitive. -/
lemma Alike.trans (ha : Alike h h') (hb : Alike h' h'') : Alike h h'' where
  conn := hb.conn.trans ha.conn
  freeMsgq := hb.freeMsgq.trans ha.freeMsgq
  nextMsg := hb.nextMsg.trans ha.nextMsg
  msgId := hb.msgId.trans ha.msgId
  log := hb.log.trans ha.log
  id x := (hb.id x).trans (ha.id x)
  fragId x := (hb.fragId x).trans (ha.fragId x)
  peer x := (hb.peer x).trans (ha.peer x)
  err x := (hb.err x).trans (ha.err x)
  error x := (hb.error x).trans (ha.error x)
  ferror x hx := hb.ferror x (ha.ferror x hx)

/-- An update of messages that changes marks and bytes only. -/
lemma Alike.modMsgs (xs : List MsgId) {f : MsgId → Msg → Msg}
    (hf : ∀ y x, (f y x).id = x.id ∧ (f y x).fragId = x.fragId ∧ (f y x).peer = x.peer ∧
      (f y x).err = x.err ∧ (f y x).error = x.error ∧ (x.ferror = true → (f y x).ferror = true)) :
    Alike h (h.modMsgs xs f) := by
  have hmsg : ∀ x, (h.modMsgs xs f).msg x = if x ∈ xs then f x (h.msg x) else h.msg x :=
    fun _ => rfl
  have hx : ∀ x, ((h.modMsgs xs f).msg x).id = (h.msg x).id ∧
      ((h.modMsgs xs f).msg x).fragId = (h.msg x).fragId ∧
      ((h.modMsgs xs f).msg x).peer = (h.msg x).peer ∧
      ((h.modMsgs xs f).msg x).err = (h.msg x).err ∧
      ((h.modMsgs xs f).msg x).error = (h.msg x).error ∧
      ((h.msg x).ferror = true → ((h.modMsgs xs f).msg x).ferror = true) := by
    intro x
    rw [hmsg]
    split_ifs
    · exact hf x (h.msg x)
    · exact ⟨rfl, rfl, rfl, rfl, rfl, fun h => h⟩
  exact ⟨rfl, rfl, rfl, rfl, rfl, fun x => (hx x).1, fun x => (hx x).2.1, fun x => (hx x).2.2.1,
    fun x => (hx x).2.2.2.1, fun x => (hx x).2.2.2.2.1, fun x => (hx x).2.2.2.2.2⟩

/-- Marking a vector as done keeps likeness. -/
lemma Alike.fdone (xs : List MsgId) : Alike h (h.modMsgs xs fun _ x => { x with fdone := true }) :=
  Alike.modMsgs xs fun _ _ => ⟨rfl, rfl, rfl, rfl, rfl, fun hx => hx⟩

/-- Marking a vector as being in error keeps likeness. -/
lemma Alike.ferror_true (xs : List MsgId) :
    Alike h (h.modMsgs xs fun _ x => { x with ferror := true }) :=
  Alike.modMsgs xs fun _ _ => ⟨rfl, rfl, rfl, rfl, rfl, fun _ => rfl⟩

/-- The callback of the protocol writes to the mbufs only. -/
lemma Alike.postCoalesce (xs : List MsgId) (bytes : MsgId → List Mbuf) :
    Alike h (h.postCoalesce xs bytes) :=
  Alike.modMsgs _ fun _ _ => ⟨rfl, rfl, rfl, rfl, rfl, fun hx => hx⟩

/-- `req_done` only marks the vector. -/
lemma reqDone_alike (m : Option MsgId) : After (reqDone env c m) (fun _ h' => Alike h h') h := by
  unfold reqDone
  refine After.deref fun m _ => After.getMsg ?_
  refine After.ite (fun _ => After.pure (Alike.refl h)) fun _ => ?_
  refine After.ite (fun _ => After.pure (Alike.refl h)) fun _ => ?_
  refine After.ite (fun _ => After.pure (Alike.refl h)) fun _ => ?_
  refine After.ite (fun _ => After.pure (Alike.refl h)) fun _ => ?_
  refine After.readHeap (After.readHeap ?_)
  refine After.ite (fun _ => After.pure (Alike.refl h)) fun _ => ?_
  refine After.modHeap (After.ask fun _ => After.modHeap (After.pure ?_))
  exact (Alike.fdone _).trans (Alike.postCoalesce _ _)

/-- The request keeps waiting. -/
lemma Pending.of_alike (hp : Pending c o frags ids h) (ha : Alike h h') :
    Pending c o frags ids h' := by
  obtain ⟨before, after, hq, hafter⟩ := hp.queue
  constructor
  · rw [ha.conn]
    exact hp.nodup
  · refine ⟨before, after, by rw [ha.conn]; exact hq, fun x hx => ?_⟩
    rw [ha.fragId, ha.fragId]
    exact hafter x hx
  · rw [ha.fragId]
    exact hp.fragId
  · intro f hf
    rw [ha.fragId, ha.fragId]
    exact hp.vector f hf
  · rcases hp.error with he | he | ⟨f, hf, he⟩
    · exact Or.inl ((ha.error o).trans he)
    · exact Or.inr (Or.inl (ha.ferror o he))
    · exact Or.inr (Or.inr ⟨f, hf, (ha.error f).trans he⟩)
  · intro x hx r hr
    rw [ha.peer] at hr
    rw [ha.id]
    exact hp.peers x hx r hr
  · intro x hx hf
    rw [ha.conn] at hx
    rw [ha.id]
    exact hp.others x hx hf
  · rw [ha.freeMsgq]
    exact hp.notFree
  · rw [ha.nextMsg]
    exact hp.allocated
  · rw [ha.msgId]
    exact hp.msgId

/-- The queue of a waiting request. -/
lemma Pending.split (hp : Pending c o frags ids h) : ∃ before after,
    (h.conn c).omsgq = before ++ o :: (frags ++ after) ∧
    tailqAfter o (h.conn c).omsgq = frags ++ after ∧
    (frags ++ after).takeWhile (fun x => (h.msg x).fragId = (h.msg o).fragId) = frags := by
  obtain ⟨before, after, hq, hafter⟩ := hp.queue
  have hnodup := hp.nodup
  rw [hq] at hnodup
  have hbefore : o ∉ before := by
    intro ho
    exact (List.nodup_append.mp hnodup).2.2 o ho o List.mem_cons_self rfl
  refine ⟨before, after, hq, ?_, ?_⟩
  · rw [hq]
    exact (tailq_split hbefore).2
  · rw [List.takeWhile_append_of_pos fun f hf => by simpa using hp.vector f hf]
    cases after with
    | nil => exact List.append_nil frags
    | cons x rest =>
      rw [List.takeWhile_cons_of_neg (by simpa using hafter x rfl), List.append_nil]

/-- `req_error` finds the error of a waiting request. -/
lemma reqError_pending (hp : Pending c o frags ids h) :
    After (reqError c o) (fun b h' => b = true ∧ Pending c o frags ids h' ∧
      ((h'.msg o).error = true ∨ (h'.msg o).ferror = true) ∧ Alike h h') h := by
  obtain ⟨before, after, hq, hafter, htake⟩ := hp.split
  unfold reqError
  refine After.getMsg ?_
  refine After.ite (fun he => After.pure ⟨rfl, hp, Or.inl he, Alike.refl h⟩) fun herror => ?_
  refine After.ite (fun hid => absurd hid hp.fragId) fun _ => ?_
  refine After.ite (fun he => After.pure ⟨rfl, hp, Or.inr he, Alike.refl h⟩) fun hferror => ?_
  refine After.readHeap (After.readHeap ?_)
  refine After.ite (fun _ => After.modHeap (After.pure
    ⟨rfl, hp.of_alike (Alike.ferror_true _), Or.inr ?_, Alike.ferror_true _⟩)) fun hany => ?_
  · exact congrArg Msg.ferror (if_pos List.mem_cons_self)
  rcases hp.error with he | he | ⟨f, hf, he⟩
  · exact absurd he herror
  · exact absurd he hferror
  · refine absurd (List.any_eq_true.mpr ⟨f, ?_, he⟩) hany
    rw [Heap.fragRun, hafter]
    refine List.mem_append_right _ ?_
    show f ∈ (frags ++ after).takeWhile fun x => (h.msg x).fragId = (h.msg o).fragId
    rw [htake]
    exact hf

end Verdicts

/-! ## What releases change -/

/-- From `h` to `h'` nothing that the error reply depends on has changed, up to links to responses
that are broken. -/
structure Calm (h h' : Heap) : Prop where
  conn : h'.conn = h.conn
  nextMsg : h'.nextMsg = h.nextMsg
  msgId : h'.msgId = h.msgId
  id : ∀ x, (h'.msg x).id = (h.msg x).id
  fragId : ∀ x, (h'.msg x).fragId = (h.msg x).fragId
  err : ∀ x, (h'.msg x).err = (h.msg x).err
  error : ∀ x, (h'.msg x).error = (h.msg x).error
  ferror : ∀ x, (h'.msg x).ferror = (h.msg x).ferror
  peer : ∀ x, ∀ r ∈ (h'.msg x).peer, r ∈ (h.msg x).peer

/-- The number of releases of the message with id `i`. -/
def releases (i : ℕ) (h : Heap) : ℕ := h.log.count (.release i)

section Releases

variable {c : ConnId} {o m f : MsgId} {frags : List MsgId} {ids : List ℕ} {h h' h'' : Heap} {i : ℕ}

/-- Nothing has changed. -/
lemma Calm.refl (h : Heap) : Calm h h :=
  ⟨rfl, rfl, rfl, fun _ => rfl, fun _ => rfl, fun _ => rfl, fun _ => rfl, fun _ => rfl,
    fun _ _ h => h⟩

/-- Calm steps compose. -/
lemma Calm.trans (ha : Calm h h') (hb : Calm h' h'') : Calm h h'' where
  conn := hb.conn.trans ha.conn
  nextMsg := hb.nextMsg.trans ha.nextMsg
  msgId := hb.msgId.trans ha.msgId
  id x := (hb.id x).trans (ha.id x)
  fragId x := (hb.fragId x).trans (ha.fragId x)
  err x := (hb.err x).trans (ha.err x)
  error x := (hb.error x).trans (ha.error x)
  ferror x := (hb.ferror x).trans (ha.ferror x)
  peer x r hr := ha.peer x r (hb.peer x r hr)

/-- A change of a message that keeps its identity and its errors, and gives it no new peer. -/
lemma Calm.modMsg (m : MsgId) {f : Msg → Msg}
    (hf : ∀ x, (f x).id = x.id ∧ (f x).fragId = x.fragId ∧ (f x).err = x.err ∧
      (f x).error = x.error ∧ (f x).ferror = x.ferror ∧ ∀ r ∈ (f x).peer, r ∈ x.peer) :
    Calm h (h.modMsg m f) := by
  have hx : ∀ x, ((h.modMsg m f).msg x).id = (h.msg x).id ∧
      ((h.modMsg m f).msg x).fragId = (h.msg x).fragId ∧
      ((h.modMsg m f).msg x).err = (h.msg x).err ∧
      ((h.modMsg m f).msg x).error = (h.msg x).error ∧
      ((h.modMsg m f).msg x).ferror = (h.msg x).ferror ∧
      ∀ r ∈ ((h.modMsg m f).msg x).peer, r ∈ (h.msg x).peer := by
    intro x
    rcases eq_or_ne x m with rfl | hne
    · have hmsg : (h.modMsg x f).msg x = f (h.msg x) := Function.update_self ..
      rw [hmsg]
      exact hf _
    · have hmsg : (h.modMsg m f).msg x = h.msg x := Function.update_of_ne hne ..
      rw [hmsg]
      exact ⟨rfl, rfl, rfl, rfl, rfl, fun _ h => h⟩
  exact ⟨rfl, rfl, rfl, fun x => (hx x).1, fun x => (hx x).2.1, fun x => (hx x).2.2.1,
    fun x => (hx x).2.2.2.1, fun x => (hx x).2.2.2.2.1, fun x => (hx x).2.2.2.2.2⟩

/-- A link is broken. -/
lemma Calm.unlink (m : MsgId) (h : Heap) : Calm h (h.modMsg m fun x => { x with peer := none }) :=
  Calm.modMsg m (f := fun x => { x with peer := none }) fun _ =>
    ⟨rfl, rfl, rfl, rfl, rfl, fun r hr => absurd hr (Option.not_mem_none r)⟩

/-- `msg_put` keeps the message as it is. -/
lemma Calm.msgPut (m : MsgId) : Calm h (h.msgPut m) := by
  have hmod : Calm (h.emit (.release (h.msg m).id))
      ((h.emit (.release (h.msg m).id)).modMsg m fun x => { x with mhdr := [], keys := none }) :=
    Calm.modMsg m fun _ => ⟨rfl, rfl, rfl, rfl, rfl, fun _ h => h⟩
  exact ⟨rfl, rfl, rfl, hmod.id, hmod.fragId, hmod.err, hmod.error, hmod.ferror, hmod.peer⟩

/-- The response of a request is released with it. -/
lemma putPeer_facts (m : MsgId) (h : Heap) : Calm h (h.putPeer m) ∧
    (∀ x ∈ (h.putPeer m).freeMsgq, x ∈ (h.msg m).peer ∨ x ∈ h.freeMsgq) ∧
    ∀ i, (∀ r ∈ (h.msg m).peer, (h.msg r).id ≠ i) → releases i (h.putPeer m) = releases i h := by
  unfold Heap.putPeer
  cases hpeer : (h.msg m).peer with
  | none => exact ⟨Calm.refl h, fun _ hx => Or.inr hx, fun _ _ => rfl⟩
  | some r =>
    have h₁ : Calm h ((h.modMsg m fun x => { x with peer := none }).modMsg r fun x =>
        { x with peer := none }) :=
      (Calm.unlink m h).trans (Calm.unlink r _)
    refine ⟨h₁.trans (Calm.msgPut r), fun x hx => ?_, fun i hi => ?_⟩
    · rcases List.mem_cons.mp hx with rfl | hx
      · exact Or.inl rfl
      · exact Or.inr hx
    · have hid := h₁.id r
      have hne : (h.msg r).id ≠ i := hi r rfl
      refine List.count_cons_of_ne ?_
      rw [hid]
      rintro ⟨⟩
      exact hne rfl

/-- A request is released. -/
lemma reqPut_facts (m : MsgId) (h : Heap) : Calm h (h.reqPut m) ∧
    (∀ x ∈ (h.reqPut m).freeMsgq, x = m ∨ x ∈ (h.msg m).peer ∨ x ∈ h.freeMsgq) ∧
    ∀ i, (∀ r ∈ (h.msg m).peer, (h.msg r).id ≠ i) →
      releases i (h.reqPut m) = releases i h + if (h.msg m).id = i then 1 else 0 := by
  obtain ⟨hcalm, hfree, hlog⟩ := putPeer_facts m h
  have htmo : Calm (h.putPeer m) ((h.putPeer m).tmoDelete m) ∧
      ((h.putPeer m).tmoDelete m).freeMsgq = (h.putPeer m).freeMsgq ∧
      ((h.putPeer m).tmoDelete m).log = (h.putPeer m).log := by
    unfold Heap.tmoDelete
    split
    · exact ⟨Calm.refl _, rfl, rfl⟩
    · have hmod : Calm (h.putPeer m) ((h.putPeer m).modMsg m fun x => { x with tmoData := none }) :=
        Calm.modMsg m fun _ => ⟨rfl, rfl, rfl, rfl, rfl, fun _ h => h⟩
      exact ⟨⟨rfl, rfl, rfl, hmod.id, hmod.fragId, hmod.err, hmod.error, hmod.ferror, hmod.peer⟩,
        rfl, rfl⟩
  obtain ⟨htcalm, htfree, htlog⟩ := htmo
  have hall := hcalm.trans htcalm
  refine ⟨hall.trans (Calm.msgPut m), fun x hx => ?_, fun i hi => ?_⟩
  · rcases List.mem_cons.mp hx with rfl | hx
    · exact Or.inl rfl
    · have hx' : x ∈ (h.putPeer m).freeMsgq := htfree ▸ hx
      exact Or.inr (hfree x hx')
  · show List.count _ (Ev.release _ :: ((h.putPeer m).tmoDelete m).log) = _
    rw [hall.id m, htlog, List.count_cons]
    have hrest : List.count (Ev.release i) (h.putPeer m).log = releases i h := hlog i hi
    rw [hrest]
    congr 1
    simp

/-- The request keeps waiting when nothing that its reply depends on changes but the free list. -/
lemma Pending.of_calm (hp : Pending c o frags ids h) (ha : Calm h h')
    (hfree : o ∉ h'.freeMsgq) : Pending c o frags ids h' := by
  obtain ⟨before, after, hq, hafter⟩ := hp.queue
  constructor
  · rw [ha.conn]
    exact hp.nodup
  · refine ⟨before, after, by rw [ha.conn]; exact hq, fun x hx => ?_⟩
    rw [ha.fragId, ha.fragId]
    exact hafter x hx
  · rw [ha.fragId]
    exact hp.fragId
  · intro f hf
    rw [ha.fragId, ha.fragId]
    exact hp.vector f hf
  · rcases hp.error with he | he | ⟨f, hf, he⟩
    · exact Or.inl ((ha.error o).trans he)
    · exact Or.inr (Or.inl ((ha.ferror o).trans he))
    · exact Or.inr (Or.inr ⟨f, hf, (ha.error f).trans he⟩)
  · intro x hx r hr
    rw [ha.id]
    exact hp.peers x hx r (ha.peer x r hr)
  · intro x hx hf
    rw [ha.conn] at hx
    rw [ha.id]
    exact hp.others x hx hf
  · exact hfree
  · rw [ha.nextMsg]
    exact hp.allocated
  · rw [ha.msgId]
    exact hp.msgId

/-- The queue without the first fragment. -/
lemma Pending.erase (hp : Pending c o (f :: frags) ids h) : ∃ before after,
    (h.conn c).omsgq.erase f = before ++ o :: (frags ++ after) ∧
    ∀ x ∈ after.head?, (h.msg x).fragId ≠ (h.msg o).fragId := by
  obtain ⟨before, after, hq, hafter⟩ := hp.queue
  have hnodup := hp.nodup
  have hshape : before ++ o :: (f :: frags ++ after) =
      (before ++ [o]) ++ f :: (frags ++ after) := by
    simp
  rw [hq, hshape] at hnodup
  have hf : f ∉ before ++ [o] := by
    intro hmem
    exact (List.nodup_append.mp hnodup).2.2 f hmem f List.mem_cons_self rfl
  refine ⟨before, after, ?_, hafter⟩
  rw [hq, hshape, List.erase_append_right _ hf, List.erase_cons_head, List.append_assoc]
  rfl

/-- A waiting request is none of its fragments. -/
lemma Pending.not_mem (hp : Pending c o frags ids h) : o ∉ frags := by
  obtain ⟨before, after, hq, -⟩ := hp.queue
  have hnodup := hp.nodup
  rw [hq] at hnodup
  intro ho
  have hcons := (List.nodup_cons.mp (List.nodup_append.mp hnodup).2.1).1
  exact hcons (List.mem_append_left after ho)

/-- A fragment leaves the queue. -/
lemma Pending.dequeue (hp : Pending c o (f :: frags) ids h)
    (he : (h.msg o).error = true ∨ (h.msg o).ferror = true) :
    Pending c o frags ids (h.modConn c fun x => { x with omsgq := x.omsgq.erase f }) := by
  obtain ⟨before, after, hq, hafter⟩ := hp.erase
  have hconn : ((h.modConn c fun x => { x with omsgq := x.omsgq.erase f }).conn c).omsgq =
      (h.conn c).omsgq.erase f := by
    simp [Heap.modConn]
  constructor
  · rw [hconn]
    exact hp.nodup.erase f
  · exact ⟨before, after, hconn.trans hq, hafter⟩
  · exact hp.fragId
  · exact fun x hx => hp.vector x (List.mem_cons_of_mem f hx)
  · rcases he with he | he
    · exact Or.inl he
    · exact Or.inr (Or.inl he)
  · intro x hx r hr
    have hx' : x ∈ o :: f :: frags := by
      rcases List.mem_cons.mp hx with rfl | hx
      · exact List.mem_cons_self
      · exact List.mem_cons_of_mem _ (List.mem_cons_of_mem f hx)
    obtain ⟨hnot, hid⟩ := hp.peers x hx' r hr
    refine ⟨fun hr => hnot ?_, hid⟩
    rcases List.mem_cons.mp hr with rfl | hr
    · exact List.mem_cons_self
    · exact List.mem_cons_of_mem _ (List.mem_cons_of_mem f hr)
  · intro x hx hnot
    rw [hconn] at hx
    have hmem := hp.nodup.mem_erase_iff.mp hx
    refine hp.others x hmem.2 fun hx' => ?_
    rcases List.mem_cons.mp hx' with rfl | hx'
    · exact hmem.1 rfl
    · exact hnot hx'
  · exact hp.notFree
  · exact hp.allocated
  · exact hp.msgId

/-- The first error depends on the errors only. -/
lemma firstErr_congr (ms : List MsgId) (herr : ∀ x ∈ ms, (h'.msg x).err = (h.msg x).err) (err : ℤ) :
    firstErr h' ms err = firstErr h ms err := by
  induction ms generalizing err with
  | nil => rfl
  | cons m ms ih =>
    have hm : (h'.msg m).err = (h.msg m).err := herr m List.mem_cons_self
    simp only [firstErr, hm]
    exact ih (fun x hx => herr x (List.mem_cons_of_mem m hx)) _

/-- What the loop of `rsp_make_error` leaves: the fragments are out of the queue and released, and
the first error among them is returned. -/
structure Dropped (c : ConnId) (o : MsgId) (frags : List MsgId) (ids : List ℕ) (h h' : Heap) :
    Prop where
  pending : Pending c o [] ids h'
  error : (h'.msg o).error = true ∨ (h'.msg o).ferror = true
  redis : (h'.conn c).redis = (h.conn c).redis
  released : ∀ i ∈ ids, releases i h' = releases i h + (frags.map fun f => (h.msg f).id).count i

/-- **The loop of `rsp_make_error`.**

**Proof sketch.** Induction on the fragments.  A fragment is dequeued and released with its
response, which is neither the request nor one of the fragments, and has none of their ids. -/
lemma rspDropFrags_dropped (he : (h.msg o).error = true ∨ (h.msg o).ferror = true)
    (hp : Pending c o frags ids h) (err : ℤ) :
    After (rspDropFrags c frags err)
      (fun e h' => e = firstErr h frags err ∧ Dropped c o frags ids h h') h := by
  induction frags generalizing h err with
  | nil => exact After.pure ⟨rfl, hp, he, rfl, fun i _ => rfl⟩
  | cons f frags ih =>
    unfold rspDropFrags reqClientDequeueOmsgq
    refine After.modConn (After.getMsg (After.modHeap ?_))
    have hdeq := hp.dequeue he
    obtain ⟨hcalm, hfree, hlog⟩ :=
      reqPut_facts f (h.modConn c fun x => { x with omsgq := x.omsgq.erase f })
    have hof : o ≠ f := fun ho => hp.not_mem (ho ▸ List.mem_cons_self)
    have hnotFree : o ∉
        ((h.modConn c fun x => { x with omsgq := x.omsgq.erase f }).reqPut f).freeMsgq := by
      intro ho
      rcases hfree o ho with ho | ho | ho
      · exact hof ho
      · exact (hp.peers f (List.mem_cons_of_mem o List.mem_cons_self) o ho).1 List.mem_cons_self
      · exact hp.notFree ho
    have hput := hdeq.of_calm hcalm hnotFree
    have hput_err :
        (((h.modConn c fun x =>
          { x with omsgq := x.omsgq.erase f }).reqPut f).msg o).error = true ∨
        (((h.modConn c fun x =>
          { x with omsgq := x.omsgq.erase f }).reqPut f).msg o).ferror = true := by
      rw [hcalm.error, hcalm.ferror]
      exact he
    refine (ih hput_err hput _).mono fun e h' hr => ?_
    obtain ⟨hfirst, hd⟩ := hr
    refine ⟨hfirst.trans (firstErr_congr (h := h) frags (fun x _ => hcalm.err x) _), hd.pending,
      hd.error, ?_, ?_⟩
    · rw [hd.redis, hcalm.conn]
      simp [Heap.modConn]
    · intro i hi
      have hpeers : ∀ r ∈ (h.msg f).peer, (h.msg r).id ≠ i := fun r hr hri =>
        (hp.peers f (List.mem_cons_of_mem o List.mem_cons_self) r hr).2 (hri ▸ hi)
      have hids : frags.map (fun x =>
          (((h.modConn c fun x => { x with omsgq := x.omsgq.erase f }).reqPut f).msg x).id) =
          frags.map fun x => (h.msg x).id := List.map_congr_left fun x _ => hcalm.id x
      have hput_log : releases i
          ((h.modConn c fun x => { x with omsgq := x.omsgq.erase f }).reqPut f) =
          releases i h + if (h.msg f).id = i then 1 else 0 := hlog i hpeers
      rw [hd.released i hi, hput_log, hids, List.map_cons, List.count_cons]
      simp only [beq_iff_eq]
      omega

end Releases

/-! ## The choice of a reply -/

/-- From `h` to `h'` message `m` is allocated. -/
structure Fresh (h h' : Heap) (m : MsgId) : Prop where
  conn : h'.conn = h.conn
  log : h'.log = h.log
  address : m ∈ h.freeMsgq ∨ m = h.nextMsg
  others : ∀ x, x ≠ m → h'.msg x = h.msg x
  id : (h'.msg m).id = h.msgId + 1
  fragId : (h'.msg m).fragId = 0
  nextMsg : h.nextMsg ≤ h'.nextMsg
  msgId : h.msgId ≤ h'.msgId
  freeMsgq : ∀ x ∈ h'.freeMsgq, x ∈ h.freeMsgq

section Choice

variable {env : Env} {c : ConnId} {o m : MsgId} {frags : List MsgId} {ids : List ℕ}
  {h h' h'' : Heap}

/-- The message that was changed. -/
lemma modMsg_self (m : MsgId) (f : Msg → Msg) (h : Heap) : (h.modMsg m f).msg m = f (h.msg m) :=
  Function.update_self ..

/-- The other messages are kept. -/
lemma modMsg_ne {x : MsgId} (hx : x ≠ m) (f : Msg → Msg) (h : Heap) :
    (h.modMsg m f).msg x = h.msg x :=
  Function.update_of_ne hx ..

/-- The address of a message that is allocated. -/
lemma msgAddr_facts (h : Heap) : After (msgAddr env) (fun r h' => ∀ m, r = some m →
    (m ∈ h.freeMsgq ∨ m = h.nextMsg) ∧ h'.conn = h.conn ∧ h'.log = h.log ∧ h'.msg = h.msg ∧
      h'.msgId = h.msgId ∧ h.nextMsg ≤ h'.nextMsg ∧ ∀ x ∈ h'.freeMsgq, x ∈ h.freeMsgq) h := by
  unfold msgAddr
  refine After.readHeap ?_
  cases hfree : h.freeMsgq with
  | cons m rest =>
    refine After.modHeap (After.pure ?_)
    rintro _ ⟨⟩
    exact ⟨Or.inl List.mem_cons_self, rfl, rfl, rfl, rfl, le_rfl,
      fun x hx => List.mem_cons_of_mem m hx⟩
  | nil =>
    refine After.ask fun t => After.ite (fun _ => ?_) fun _ => After.pure fun m hm => ?_
    · refine After.readHeap (After.modHeap (After.pure ?_))
      rintro _ ⟨⟩
      refine ⟨Or.inr rfl, rfl, rfl, rfl, rfl, Nat.le_succ _, fun x hx => ?_⟩
      exact hfree ▸ hx
    · cases hm

/-- A message is allocated. -/
lemma msgGet₀_facts (h : Heap) :
    After (msgGet₀ env) (fun r h' => ∀ m, r = some m → Fresh h h' m) h := by
  unfold msgGet₀
  refine After.call (msgAddr_facts h) fun r h₁ hr => ?_
  cases r with
  | none => exact After.pure fun m hm => by cases hm
  | some m =>
    obtain ⟨haddr, hconn, hlog, hmsg, hid, hnext, hfree⟩ := hr m rfl
    refine After.modHeap (After.ask fun t => After.ite (fun _ => ?_) fun _ => ?_)
    · refine After.modHeap (After.pure ?_)
      rintro _ ⟨⟩
      refine ⟨hconn, hlog, haddr, fun x hx => ?_, ?_, ?_, hnext, ?_, hfree⟩
      · have hx' := Function.update_of_ne hx
          ({ id := h₁.msgId + 1, keys := some [] } : Msg) h₁.msg
        exact hx'.trans (congrFun hmsg x)
      · rw [modMsg_self, ← hid]
      · rw [modMsg_self]
      · show h.msgId ≤ h₁.msgId + 1
        omega
    · exact After.pure fun m hm => by cases hm

/-- An error response is allocated. -/
lemma msgGetError_facts (redis : Bool) (err : ℤ) (h : Heap) :
    After (msgGetError env redis err) (fun r h' => ∀ m, r = some m →
      Fresh h h' m ∧ (h'.msg m).mhdr = [{ rest := errorText env redis err }]) h := by
  unfold msgGetError
  refine After.call (msgGet₀_facts h) fun r h₁ hr => ?_
  cases r with
  | none => exact After.pure fun m hm => by cases hm
  | some m =>
    refine After.ask fun t => After.ite (fun _ => ?_) fun _ => ?_
    · refine After.modMsg (After.pure ?_)
      rintro _ ⟨⟩
      have hf := hr m rfl
      have hne : ∀ x, x ≠ m → (h₁.modMsg m fun x => { x with
          mhdr := [{ rest := errorText env redis err }], mlen := (errorText env redis err).length
          isError := true }).msg x = h₁.msg x := fun x hx => Function.update_of_ne hx _ _
      refine ⟨⟨hf.conn, hf.log, hf.address, fun x hx => ?_, ?_, ?_, hf.nextMsg, hf.msgId,
        hf.freeMsgq⟩, ?_⟩
      · rw [hne x hx]
        exact hf.others x hx
      · rw [modMsg_self]
        exact hf.id
      · rw [modMsg_self]
        exact hf.fragId
      · rw [modMsg_self]
    · exact After.modHeap (After.pure fun m hm => by cases hm)

/-- From `h` to `h'` the error reply `r` to request `o` has been chosen. -/
structure Chosen (env : Env) (c : ConnId) (o : MsgId) (frags : List MsgId) (ids : List ℕ)
    (h h' : Heap) (r : MsgId) : Prop where
  pending : Pending c o [] ids h'
  peer : (h'.msg r).peer = some o
  text : (h'.msg r).mhdr = [{ rest := errorText env (h.conn c).redis (firstErr h frags 0) }]
  redis : (h'.conn c).redis = (h.conn c).redis
  released : ∀ i ∈ ids, releases i h' = releases i h + (frags.map fun f => (h.msg f).id).count i

/-- The verdicts that come before a choice. -/
lemma Chosen.of_alike (ha : Alike h h') (hc : Chosen env c o frags ids h' h'' m) :
    Chosen env c o frags ids h h'' m := by
  refine ⟨hc.pending, hc.peer, ?_, ?_, fun i hi => ?_⟩
  · rw [hc.text, firstErr_congr frags fun x _ => ha.err x, ha.conn]
  · rw [hc.redis, ha.conn]
  · have hlog : releases i h' = releases i h := congrArg (List.count (Ev.release i)) ha.log
    have hids : (frags.map fun f => (h'.msg f).id) = frags.map fun f => (h.msg f).id :=
      List.map_congr_left fun f _ => ha.id f
    rw [hc.released i hi, hlog, hids]

/-- What `rsp_make_error` has done before it allocates the reply. -/
lemma putPeer_dropped (hd : Dropped c o frags ids h h') :
    Dropped c o frags ids h (h'.putPeer o) := by
  obtain ⟨hcalm, hfree, hlog⟩ := putPeer_facts o h'
  have hnot : o ∉ (h'.putPeer o).freeMsgq := by
    intro ho
    rcases hfree o ho with ho | ho
    · exact (hd.pending.peers o List.mem_cons_self o ho).1 List.mem_cons_self
    · exact hd.pending.notFree ho
  refine ⟨hd.pending.of_calm hcalm hnot, ?_, ?_, fun i hi => ?_⟩
  · rw [hcalm.error, hcalm.ferror]
    exact hd.error
  · rw [hcalm.conn]
    exact hd.redis
  · rw [← hd.released i hi]
    exact hlog i fun r hr hri => (hd.pending.peers o List.mem_cons_self r hr).2 (hri ▸ hi)

/-- The reply that is allocated is linked to the request. -/
lemma Fresh.link (hp : Pending c o [] ids h) (hf : Fresh h h' m) :
    Pending c o [] ids ((h'.modMsg m fun x => { x with peer := some o }).modMsg o fun x =>
      { x with peer := some m }) ∧
    ((h'.modMsg m fun x => { x with peer := some o }).modMsg o fun x =>
      { x with peer := some m }).msg m = { h'.msg m with peer := some o } := by
  have hmo : m ≠ o := by
    rintro rfl
    rcases hf.address with ha | ha
    · exact hp.notFree ha
    · exact absurd hp.allocated (ha ▸ lt_irrefl _)
  obtain ⟨h'', hh''⟩ : ∃ h'', h'' =
      (h'.modMsg m fun x => { x with peer := some o }).modMsg o fun x =>
    { x with peer := some m } := ⟨_, rfl⟩
  rw [← hh'']
  have ho : h''.msg o = { h.msg o with peer := some m } := by
    rw [hh'', modMsg_self, modMsg_ne hmo.symm, hf.others o hmo.symm]
  have hm : h''.msg m = { h'.msg m with peer := some o } := by
    rw [hh'', modMsg_ne hmo, modMsg_self]
  have hx : ∀ x, x ≠ m → x ≠ o → h''.msg x = h.msg x := by
    intro x hxm hxo
    rw [hh'', modMsg_ne hxo, modMsg_ne hxm, hf.others x hxm]
  have hconn : h''.conn = h.conn := by
    rw [hh'']
    exact hf.conn
  have hid : (h''.msg m).id ∉ ids := by
    rw [hm]
    show (h'.msg m).id ∉ ids
    rw [hf.id]
    intro hmem
    exact absurd (hp.msgId _ hmem) (by omega)
  obtain ⟨before, after, hq, hafter⟩ := hp.queue
  refine ⟨?_, hm⟩
  constructor
  · rw [hconn]
    exact hp.nodup
  · refine ⟨before, after, by rw [hconn]; exact hq, fun x hxa => ?_⟩
    rcases eq_or_ne x m with rfl | hxm
    · rw [hm, ho]
      show (h'.msg x).fragId ≠ (h.msg o).fragId
      rw [hf.fragId]
      exact hp.fragId.symm
    · have hxo : x ≠ o := by
        rintro rfl
        exact hafter x hxa rfl
      rw [hx x hxm hxo, ho]
      exact hafter x hxa
  · rw [ho]
    exact hp.fragId
  · exact fun f hf => absurd hf List.not_mem_nil
  · rw [ho]
    rcases hp.error with he | he | ⟨f, hf, -⟩
    · exact Or.inl he
    · exact Or.inr (Or.inl he)
    · exact absurd hf List.not_mem_nil
  · intro x hx r hr
    rw [List.mem_singleton.mp hx, ho] at hr
    obtain rfl := Option.some.inj hr
    exact ⟨fun h => hmo (List.mem_singleton.mp h), hid⟩
  · intro x hxq _
    rw [hconn] at hxq
    rcases eq_or_ne x m with rfl | hxm
    · exact hid
    · have hold := hp.others x hxq List.not_mem_nil
      rcases eq_or_ne x o with rfl | hxo
      · rw [ho]
        exact hold
      · rw [hx x hxm hxo]
        exact hold
  · rw [hh'']
    exact fun h => hp.notFree (hf.freeMsgq o h)
  · rw [hh'']
    exact lt_of_lt_of_le hp.allocated hf.nextMsg
  · intro i hi
    rw [hh'']
    exact (hp.msgId i hi).trans hf.msgId

/-- Another field of the connection is written. -/
lemma Pending.modConn (hp : Pending c o frags ids h) {f : Conn → Conn}
    (hf : ∀ x, (f x).omsgq = x.omsgq) : Pending c o frags ids (h.modConn c f) := by
  have hconn : ((h.modConn c f).conn c).omsgq = (h.conn c).omsgq := by
    simp [Heap.modConn, hf]
  obtain ⟨before, after, hq, hafter⟩ := hp.queue
  refine ⟨?_, ⟨before, after, hconn.trans hq, hafter⟩, hp.fragId, hp.vector, hp.error, hp.peers, ?_,
    hp.notFree, hp.allocated, hp.msgId⟩
  · rw [hconn]
    exact hp.nodup
  · rw [hconn]
    exact hp.others

/-- **`rsp_make_error`.** -/
lemma rspMakeError_facts (hp : Pending c o frags ids h)
    (he : (h.msg o).error = true ∨ (h.msg o).ferror = true) :
    After (rspMakeError env c o) (fun r h' => ∀ m, r = some m → ∃ h₁, Dropped c o frags ids h h₁ ∧
      Fresh h₁ h' m ∧
      (h'.msg m).mhdr = [{ rest := errorText env (h.conn c).redis (firstErr h frags 0) }]) h := by
  obtain ⟨before, after, hq, hafter, htake⟩ := hp.split
  unfold rspMakeError
  refine After.getConn (After.getMsg (After.readHeap ?_))
  rw [hafter, htake]
  refine After.call (R := fun e h₁ => e = firstErr h frags 0 ∧ Dropped c o frags ids h h₁) ?_
    fun e h₁ hr => ?_
  · exact After.ite (fun _ => rspDropFrags_dropped he hp 0) fun hid => absurd hp.fragId hid
  · obtain ⟨rfl, hd⟩ := hr
    refine After.modHeap ((msgGetError_facts _ _ _).mono fun r h' hr m hm => ?_)
    obtain ⟨hf, htext⟩ := hr m hm
    exact ⟨_, putPeer_dropped hd, hf, htext⟩

/-- **`rsp_send_next` chooses an error reply.** -/
lemma rspOf_chosen (hp : Pending c o frags ids h) :
    After (rspOf env c o) (fun r h' => ∀ m, r = some m → Chosen env c o frags ids h h' m) h := by
  unfold rspOf
  refine After.call (reqError_pending hp) fun b h₁ hr => ?_
  obtain ⟨rfl, hp₁, he₁, ha⟩ := hr
  refine After.ite (fun _ => ?_) fun hf => absurd rfl hf
  refine After.call (rspMakeError_facts hp₁ he₁) fun r h₂ hr => ?_
  cases r with
  | none =>
    have hfail : After (setErrno env c) (fun _ _ => True) h₂ := fun _ _ _ _ _ => trivial
    exact After.call hfail fun _ _ _ => After.pure fun m hm => by cases hm
  | some m =>
    obtain ⟨h₃, hd, hf, htext⟩ := hr m rfl
    refine After.modMsg (After.modMsg (After.ownerPool fun p _ => After.statsPool ?_))
    refine After.modConn (After.pure ?_)
    rintro _ ⟨⟩
    obtain ⟨hp₂, hm⟩ := hf.link hd.pending
    refine Chosen.of_alike ha ⟨hp₂.modConn fun _ => rfl, ?_, ?_, ?_, fun i hi => ?_⟩
    · exact congrArg Msg.peer hm
    · exact (congrArg Msg.mhdr hm).trans htext
    · have hredis : (h₂.conn c).redis = (h₁.conn c).redis := by rw [hf.conn, hd.redis]
      simpa [Heap.modConn, Heap.modMsg] using hredis
    · have hlog : releases i h₂ = releases i h₃ := congrArg (List.count (Ev.release i)) hf.log
      show releases i h₂ = _
      rw [hlog, hd.released i hi]

/-- **`rsp_send_next` comes to a waiting request.** -/
lemma rspSendNext_chosen (hp : Pending c o frags ids h) (hc : CursorAt c o h) :
    After (rspSendNext env c)
      (fun r h' => ∀ m, r = some m → Chosen env c o frags ids h h' m) h := by
  have hhead : (h.conn c).omsgq.head?.isNone = false := by
    obtain ⟨before, after, hq, -⟩ := hp.queue
    rw [hq]
    cases before <;> rfl
  have hcursor : After (rspCursor (h.conn c)) (fun r h' => r = some o ∧ h' = h) h := by
    unfold rspCursor
    rcases hc with ⟨hs, hq⟩ | ⟨r, p, hs, hpeer, hnext⟩
    · rw [hs]
      exact After.pure ⟨hq, rfl⟩
    · rw [hs]
      refine After.getMsg (After.deref fun p' hp' => After.pure ⟨?_, rfl⟩)
      rw [hpeer] at hp'
      obtain rfl := Option.some.inj hp'
      exact hnext
  unfold rspSendNext
  refine After.getConn ?_
  dsimp only
  rw [hhead]
  refine After.ite (fun hf => absurd hf Bool.false_ne_true) fun _ => ?_
  unfold rspSendFrom
  refine After.call hcursor fun r h₀ hr => ?_
  obtain ⟨rfl, rfl⟩ := hr
  refine After.call (reqDone_alike _) fun b h₁ ha => After.ite (fun _ => ?_) fun _ => ?_
  · exact (rspOf_chosen (hp.of_alike ha)).mono fun r h' hr m hm => (hr m hm).of_alike ha
  · have hidle : ∀ h, After (onlyIf (h₀.conn c).smsg.isNone (emit (.idle c))) (fun _ _ => True) h :=
      fun _ _ _ _ _ _ => trivial
    exact After.call (hidle h₁) fun _ _ _ => After.modConn (After.pure fun m hm => by cases hm)

end Choice

/-! ## Any number of choices -/

/-- What holds of the request after `k` choices. -/
structure Inv (c : ConnId) (o : MsgId) (fs : List MsgId) (h₀ : Heap) (k : ℕ) (h : Heap) : Prop where
  pending : Pending c o (left fs k) (fs.map fun f => (h₀.msg f).id) h
  err : ∀ f ∈ left fs k, (h.msg f).err = (h₀.msg f).err
  id : ∀ f ∈ left fs k, (h.msg f).id = (h₀.msg f).id
  released : ∀ i ∈ fs.map fun f => (h₀.msg f).id, releases i h = if k = 0 then 0 else 1
  redis : (h.conn c).redis = (h₀.conn c).redis

section Choices

variable {env : Env} {c : ConnId} {o r : MsgId} {fs : List MsgId} {h₀ h h' : Heap} {k : ℕ}

/-- Before the first fragment nothing is gone. -/
lemma Start.inv (hs : Start c o fs h₀) : Inv c o fs h₀ 0 h₀ where
  pending := hs.pending
  err _ _ := rfl
  id _ _ := rfl
  released i hi := by
    obtain ⟨f, hf, rfl⟩ := List.mem_map.mp hi
    exact List.count_eq_zero_of_not_mem (hs.released f hf)
  redis := rfl

/-- What does not touch the vector keeps the invariant. -/
lemma Inv.other (hi : Inv c o fs h₀ k h)
    (hp : Pending c o (left fs k) (fs.map fun f => (h₀.msg f).id) h')
    (hs : SameVector c (left fs k) (fs.map fun f => (h₀.msg f).id) h h') : Inv c o fs h₀ k h' where
  pending := hp
  err f hf := (hs.err f hf).trans (hi.err f hf)
  id f hf := (hs.id f hf).trans (hi.id f hf)
  released i hmem := (hs.released i hmem).trans (hi.released i hmem)
  redis := hs.redis.trans hi.redis

/-- The error that is chosen is that of the first failed fragment, as long as there are
fragments. -/
lemma Inv.firstErr_eq (hi : Inv c o fs h₀ k h) :
    firstErr h (left fs k) 0 = if k = 0 then firstErr h₀ fs 0 else 0 := by
  rw [firstErr_congr _ hi.err]
  unfold left
  split_ifs
  · rfl
  · rfl

/-- A choice releases the fragments that are left. -/
lemma Inv.again (hn : (fs.map fun f => (h₀.msg f).id).Nodup) (hi : Inv c o fs h₀ k h)
    (hc : Chosen env c o (left fs k) (fs.map fun f => (h₀.msg f).id) h h' r) :
    Inv c o fs h₀ (k + 1) h' where
  pending := hc.pending
  err _ hf := absurd hf List.not_mem_nil
  id _ hf := absurd hf List.not_mem_nil
  released i hmem := by
    have hids : ((left fs k).map fun f => (h.msg f).id) = (left fs k).map fun f => (h₀.msg f).id :=
      List.map_congr_left hi.id
    rw [hc.released i hmem, hi.released i hmem, hids, if_neg k.succ_ne_zero]
    unfold left
    split_ifs
    · rw [List.count_eq_one_of_mem hn hmem]
    · rfl
  redis := hc.redis.trans hi.redis

/-- A run starts with a request that waits. -/
lemma Run.start_of (h : Run c o fs h₀ k h') : Start c o fs h₀ := by
  induction h with
  | start h => exact h
  | other _ _ _ ih => exact ih
  | again _ _ _ ih => exact ih

/-- **What holds of the request in any run.** -/
theorem Run.inv (h : Run c o fs h₀ k h') : Inv c o fs h₀ k h' := by
  induction h with
  | start h => exact h.inv
  | other _ hp hs ih => exact ih.other hp hs
  | again hr hc h ih =>
    have hchosen := rspSendNext_chosen ih.pending hc _ rfl _ _ h
    exact ih.again hr.start_of.nodup (hchosen _ rfl)

/-- The response of each choice. -/
theorem Run.reply {σ σ' : St} (hr : Run c o fs h₀ k σ.heap) (hc : CursorAt c o σ.heap)
    (h : rspSendNext env c σ = .ok (some r, σ')) :
    (σ'.heap.msg r).mhdr =
        [{ rest := errorText env (h₀.conn c).redis (if k = 0 then firstErr h₀ fs 0 else 0) }] ∧
      (σ'.heap.msg r).peer = some o ∧ Inv c o fs h₀ (k + 1) σ'.heap := by
  have hi := hr.inv
  have hchosen := rspSendNext_chosen hi.pending hc _ rfl _ _ h r rfl
  have htext := hchosen.text
  rw [hi.redis, hi.firstErr_eq] at htext
  exact ⟨htext, hchosen.peer, hi.again hr.start_of.nodup hchosen⟩

/-- The fragments have left the queue, each is released once, and the request is queued. -/
lemma Inv.gone (hi : Inv c o fs h₀ (k + 1) h) :
    (∀ f ∈ fs, ∀ x ∈ (h.conn c).omsgq, (h.msg x).id ≠ (h₀.msg f).id) ∧
    (∀ f ∈ fs, h.log.count (.release (h₀.msg f).id) = 1) ∧ o ∈ (h.conn c).omsgq := by
  have hmem : ∀ f ∈ fs, (h₀.msg f).id ∈ fs.map fun f => (h₀.msg f).id := fun f hf =>
    List.mem_map_of_mem hf
  obtain ⟨before, after, hq, -⟩ := hi.pending.queue
  refine ⟨fun f hf x hx hid => ?_, fun f hf => ?_, ?_⟩
  · exact hi.pending.others x hx List.not_mem_nil (hid ▸ hmem f hf)
  · have hcount := hi.released _ (hmem f hf)
    rwa [if_neg k.succ_ne_zero] at hcount
  · rw [hq]
    exact List.mem_append_right before List.mem_cons_self

/-- **The error reply to a fragmented request.**

**Proof sketch.** The first choice finds all fragments in the queue, and takes their first error
while it releases them.  Every later choice finds none, and makes a reply with no error. -/
theorem Run.replyOk_iff {σ σ' : St} (hr : Run c o fs h₀ k σ.heap) (hc : CursorAt c o σ.heap)
    (h : rspSendNext env c σ = .ok (some r, σ')) : ReplyOk env c o fs h₀ σ'.heap r ↔
      k = 0 ∨ errorText env (h₀.conn c).redis (firstErr h₀ fs 0) =
        errorText env (h₀.conn c).redis 0 := by
  obtain ⟨htext, hpeer, hi⟩ := hr.reply hc h
  obtain ⟨hgone, honce, hqueued⟩ := hi.gone
  constructor
  · intro hok
    by_cases hk : k = 0
    · exact Or.inl hk
    · have heq := htext.symm.trans hok.text
      rw [if_neg hk] at heq
      have hbuf := List.head_eq_of_cons_eq heq
      exact Or.inr (Mbuf.mk.inj hbuf).2.symm
  · intro hk
    refine ⟨hpeer, htext.trans ?_, hgone, honce, hqueued⟩
    rcases hk with hk | hk
    · rw [if_pos hk]
    · split_ifs
      · rfl
      · rw [hk]

end Choices

/-! ## A write that returns `EAGAIN` -/

section Again

variable {env : Env} {c : ConnId} {o : MsgId} {frags sendq : List MsgId} {ids : List ℕ}
  {h h' : Heap}

/-- The accounting of a write of no bytes. -/
lemma msgSent_zero (hlen : ∀ m ∈ sendq, (h.msg m).mlen ≠ 0) :
    After (msgSent c 0 sendq) (fun _ h' => h' = h) h := by
  induction sendq with
  | nil => exact After.pure rfl
  | cons m sendq ih =>
    unfold msgSent
    refine After.getMsg (After.ite (fun _ => ?_) fun hz => absurd rfl hz)
    have hm : (h.msg m).mlen ≠ 0 := hlen m List.mem_cons_self
    have hskip : After (onlyIf ((h.msg m).mlen = 0) (finalize c m)) (fun _ h' => h' = h) h := by
      rw [decide_eq_false hm]
      exact After.pure rfl
    exact After.skip hskip fun _ => ih fun x hx => hlen x (List.mem_cons_of_mem m hx)

/-- The rest of `msg_send_chain`, which has gathered the messages and their buffers `g`. -/
def sendRest (env : Env) (c : ConnId) (g : List MsgId × List (List UInt8)) : Core Rstatus := do
  modConn c fun x => { x with smsg := none }
  let r ← sendGathered env c g.2
  msgSent c r.2 g.1
  return if r.1 = .error then .error else .ok

/-- `msg_send_chain` gathers, and then sends what it has gathered. -/
lemma msgSendChain_eq (env : Env) (c : ConnId) (m : MsgId) :
    msgSendChain env c m = msgGather env c env.fuel m [] [] >>= sendRest env c := rfl

/-- The rest of `msg_send_chain` does not concern the request when `writev` returns `EAGAIN`. -/
lemma again_frame {g : List MsgId × List (List UInt8)} (hagain : ∀ t, env.writev t = .again)
    (hlen : ∀ m ∈ g.1, (h.msg m).mlen ≠ 0) (hp : Pending c o frags ids h) :
    After (sendRest env c g) (fun s h' => s = .ok ∧ Pending c o frags ids h' ∧
      SameVector c frags ids h h') h := by
  -- what is written to the connection besides the queue
  have hmod : ∀ {h' : Heap} (f : Conn → Conn),
      (∀ x, (f x).omsgq = x.omsgq ∧ (f x).redis = x.redis) →
      (Pending c o frags ids h' ∧ SameVector c frags ids h h' ∧ h'.msg = h.msg) →
      Pending c o frags ids (h'.modConn c f) ∧ SameVector c frags ids h (h'.modConn c f) ∧
        (h'.modConn c f).msg = h.msg := by
    intro h' f hf hr
    obtain ⟨hp, hs, hmsg⟩ := hr
    refine ⟨hp.modConn fun x => (hf x).1, ⟨hs.err, hs.id, hs.released, ?_⟩, hmsg⟩
    rw [← hs.redis]
    simp [Heap.modConn, hf]
  have hstart : SameVector c frags ids h h := ⟨fun _ _ => rfl, fun _ _ => rfl, fun _ _ => rfl, rfl⟩
  unfold sendRest
  refine After.modConn ?_
  refine After.call (R := fun r h' => r = (if nsend g.2 ≠ 0 then .eagain else .ok, 0) ∧
    Pending c o frags ids h' ∧ SameVector c frags ids h h' ∧ h'.msg = h.msg) ?_ fun r h' hr => ?_
  · have hunset := hmod (fun x => { x with smsg := none }) (fun _ => ⟨rfl, rfl⟩) ⟨hp, hstart, rfl⟩
    unfold sendGathered
    refine After.ite (fun hn => ?_) fun hn => After.pure ⟨?_, hunset⟩
    · unfold connSendv
      refine After.ask fun t => ?_
      rw [hagain]
      refine After.modConn (After.pure ⟨?_, hmod _ (fun _ => ⟨rfl, rfl⟩) hunset⟩)
      rw [if_pos hn]
    · rw [if_neg hn]
  · obtain ⟨rfl, hp', hs', hmsg⟩ := hr
    refine After.call (msgSent_zero (h := h') ?_) fun _ h'' hh => After.pure ?_
    · rw [hmsg]
      exact hlen
    · subst hh
      refine ⟨?_, hp', hs'⟩
      split_ifs <;> simp_all

end Again

/-- The state that a computation leaves, if it returns. -/
def stateAfter {α : Type} (x : Core α) (σ : St) : St :=
  match x σ with
  | .ok r => r.2
  | .error _ => σ

/-- A computation that returns ends in the state after it. -/
lemma eq_stateAfter {α : Type} {x : Core α} {σ : St} {a : α}
    (h : (x σ).toOption.map Prod.fst = some a) : x σ = .ok (a, stateAfter x σ) := by
  unfold stateAfter
  cases hx : x σ with
  | error e =>
    rw [hx] at h
    cases h
  | ok r =>
    rw [hx] at h
    obtain rfl := Option.some.inj h
    rfl

/-- Request 1 has the fragments 2, which failed when its server closed the connection, and 3, which
response 4 answers. -/
def failedVector : St where
  heap :=
    { conn := fun _ =>
        { owner := some (.pool 0), sd := 5, client := true, redis := true, sendActive := true,
          omsgq := [1, 2, 3] }
      msg := fun m =>
        { id := m, owner := some 0, request := m ≠ 4, done := m ≠ 4, keys := some []
          fragId := if m = 4 then 0 else 1, nfrag := if m = 1 then 2 else 0
          nfragDone := if m = 1 then 2 else 0, error := m = 2, err := if m = 2 then 104 else 0
          peer := if m = 3 then some 4 else if m = 4 then some 3 else none }
      nextMsg := 5
      msgId := 4
      fragId := 1 }

/-- `strerror` of the error of fragment 2. -/
def resetEnv : Env where
  strerror err := if err = 104 then "Connection reset by peer".toUTF8.toList else []

/-- The vector in the queue is one that has failed. -/
lemma failedVector_start : Start 0 1 [2, 3] failedVector.heap where
  pending :=
    { nodup := by decide
      queue := ⟨[], [], rfl, fun x hx => absurd hx (Option.not_mem_none x)⟩
      fragId := by decide
      vector := by decide
      error := Or.inr (Or.inr ⟨2, by decide, rfl⟩)
      peers := by decide
      others := by decide
      notFree := by decide
      allocated := by decide
      msgId := by decide }
  nodup := by decide
  failed := ⟨2, by decide, rfl, by decide⟩
  released := by decide

/-- The first choice of the reply has the error of fragment 2. -/
theorem failedVector_replyOk : ReplyOk resetEnv 0 1 [2, 3] failedVector.heap
    (stateAfter (rspSendNext resetEnv 0) failedVector).heap 3 := by
  have hnext := eq_stateAfter (x := rspSendNext resetEnv 0) (σ := failedVector) (a := some 3)
    (by decide +kernel)
  exact (Run.replyOk_iff (.start failedVector_start) (Or.inl ⟨rfl, rfl⟩) hnext).mpr (Or.inl rfl)

/-- `writev` returns `EAGAIN`: the reply of the next write event has no error. -/
theorem not_forall_replyOk :
    ¬∀ (env : Env) (c : ConnId) (o r : MsgId) (fs : List MsgId) (h₀ : Heap) (k : ℕ) (σ σ' : St),
      Run c o fs h₀ k σ.heap → CursorAt c o σ.heap → rspSendNext env c σ = .ok (some r, σ') →
        ReplyOk env c o fs h₀ σ'.heap r := by
  intro h
  let σ₁ := stateAfter (rspSendNext resetEnv 0) failedVector
  let σ₂ := stateAfter (sendRest resetEnv 0 ([3], [unsent (σ₁.heap.msg 3).mhdr])) σ₁
  let σ₃ := stateAfter (rspSendNext resetEnv 0) σ₂
  have hnext₁ : rspSendNext resetEnv 0 failedVector = .ok (some 3, σ₁) :=
    eq_stateAfter (by decide +kernel)
  have hrun₁ : Run 0 1 [2, 3] failedVector.heap 1 σ₁.heap :=
    .again (.start failedVector_start) (Or.inl ⟨rfl, rfl⟩) hnext₁
  have hrest : sendRest resetEnv 0 ([3], [unsent (σ₁.heap.msg 3).mhdr]) σ₁ = .ok (.ok, σ₂) :=
    eq_stateAfter (by decide +kernel)
  obtain ⟨-, hpending, hsame⟩ :=
    again_frame (fun _ => rfl) (by decide +kernel) hrun₁.inv.pending _ rfl _ _ hrest
  have hrun₂ : Run 0 1 [2, 3] failedVector.heap 1 σ₂.heap := .other hrun₁ hpending hsame
  have hnext₃ : rspSendNext resetEnv 0 σ₂ = .ok (some 3, σ₃) := eq_stateAfter (by decide +kernel)
  have hok := h _ _ _ _ _ _ _ _ _ hrun₂ (Or.inl (by decide +kernel)) hnext₃
  have htext : (σ₃.heap.msg 3).mhdr ≠
      [{ rest := errorText resetEnv true (firstErr failedVector.heap [2, 3] 0) }] := by
        decide +kernel
  exact htext hok.text

end GfwProxy.Retry
