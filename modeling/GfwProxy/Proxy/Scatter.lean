import GfwProxy.Proxy.After

set_option autoImplicit false

/-!
# Scatter send

`msg_send_chain` (`gf_message.c`) gathers the unsent bytes of the messages that `send_next` offers
into at most `GF_IOV_MAX` iovecs, writes them, and takes what was written out of the messages.

## Main definitions

* `GfwProxy.gatherMsgs`, `GfwProxy.accountMsgs` — the two loops on the messages themselves.
* `GfwProxy.sendChain` — `msg_send_chain` on the messages that `send_next` offers.

## Main results

* `GfwProxy.sendChain_accounts` — the iovecs are a prefix of the unsent bytes, exactly the bytes
  written are taken away, and `send_done` is called on the messages that are left without any.
* `GfwProxy.msgSendChain_server` — so a server connection sends its queue without loss.

## Design

The messages that `send_next` offers, one a call, are a list; the calls of `send_done` are the list
of their arguments.  `msgGather_server` and `msgSent_server` show that these are what the handlers
of a server connection offer and finish.
-/

namespace GfwProxy

/-! ## One message -/

/-- Nothing is unsent of no mbuf. -/
@[simp] lemma unsent_nil : unsent [] = [] := rfl

/-- The unsent bytes of the first mbuf come first. -/
@[simp] lemma unsent_cons (b : Mbuf) (bs : List Mbuf) : unsent (b :: bs) = b.rest ++ unsent bs :=
  rfl

/-- There is room for another iovec. -/
def HasRoom (iov : List (List UInt8)) : Prop := iov.length < iovMax ∧ nsend iov < ssizeMax

/-- The number of bytes in the iovecs. -/
lemma nsend_eq (iov : List (List UInt8)) : nsend iov = iov.flatten.length := by
  rw [nsend, List.length_flatten]

/-- The iovecs never exceed the cap. -/
lemma gatherMbufs_length (bs : List Mbuf) (iov : List (List UInt8)) (h : iov.length ≤ iovMax) :
    (gatherMbufs bs iov).length ≤ iovMax := by
  induction bs generalizing iov with
  | nil => exact h
  | cons b bs ih =>
    unfold gatherMbufs
    split_ifs with hroom hempty
    · exact ih iov h
    · refine ih _ ?_
      rw [List.length_append, List.length_singleton]
      exact hroom.1
    · exact h

/-- Without room nothing is gathered. -/
lemma gatherMbufs_full (bs : List Mbuf) {iov : List (List UInt8)} (h : ¬HasRoom iov) :
    gatherMbufs bs iov = iov := by
  cases bs with
  | nil => rfl
  | cons b bs => exact if_neg h

/-- A buffer that does not fit as a whole leaves no room behind it. -/
lemma not_hasRoom_take {iov : List (List UInt8)} {bytes : List UInt8} (h : nsend iov < ssizeMax)
    (hlong : ssizeMax - nsend iov < bytes.length) :
    ¬HasRoom (iov ++ [bytes.take (ssizeMax - nsend iov)]) := by
  rintro ⟨-, hroom⟩
  rw [nsend_eq, List.flatten_append, List.length_append, ← nsend_eq, List.flatten_singleton,
    List.length_take] at hroom
  omega

/-- The iovecs of a message are a prefix of its unsent bytes, and all of them if there is still
room. -/
lemma gatherMbufs_flatten (bs : List Mbuf) (iov : List (List UInt8)) :
    (gatherMbufs bs iov).flatten <+: iov.flatten ++ unsent bs ∧
      (HasRoom (gatherMbufs bs iov) → (gatherMbufs bs iov).flatten = iov.flatten ++ unsent bs) := by
  induction bs generalizing iov with
  | nil => simp [gatherMbufs]
  | cons b bs ih =>
    unfold gatherMbufs
    split_ifs with hroom hempty
    · rw [unsent_cons, hempty, List.nil_append]
      exact ih iov
    · rcases Nat.lt_or_ge (ssizeMax - nsend iov) b.rest.length with hlong | hfits
      · have hfull := not_hasRoom_take hroom.2 hlong
        rw [gatherMbufs_full bs hfull, List.flatten_append, List.flatten_singleton, unsent_cons]
        refine ⟨?_, fun h => absurd h hfull⟩
        rw [List.prefix_append_right_inj]
        exact (List.take_prefix _ _).trans (List.prefix_append _ _)
      · have h := ih (iov ++ [b.rest.take (ssizeMax - nsend iov)])
        rw [List.take_of_length_le hfits] at h ⊢
        simpa [List.append_assoc] using h
    · exact ⟨List.prefix_append _ _, fun h => absurd h hroom⟩

/-- Accounting takes the bytes sent out of a message, as far as it has them. -/
lemma consumeMbufs_eq (n : ℕ) (bs : List Mbuf) :
    unsent (consumeMbufs n bs).1 = (unsent bs).drop n ∧
      (consumeMbufs n bs).2.1 = n - (unsent bs).length ∧
      (consumeMbufs n bs).2.2 = decide ((unsent bs).length ≤ n) := by
  induction bs generalizing n with
  | nil => simp [consumeMbufs]
  | cons b bs ih =>
    unfold consumeMbufs
    split_ifs with hempty hpart
    · obtain ⟨hbytes, hleft, hall⟩ := ih n
      simp only [unsent_cons, hempty, List.nil_append]
      exact ⟨hbytes, hleft, hall⟩
    · simp only [unsent_cons, List.length_append]
      refine ⟨?_, ?_, ?_⟩
      · rw [List.drop_append_of_le_length hpart.le]
      · omega
      · simp only [eq_comm (a := false), decide_eq_false_iff_not]
        omega
    · obtain ⟨hbytes, hleft, hall⟩ := ih (n - b.rest.length)
      simp only [unsent_cons, List.length_append, List.nil_append]
      refine ⟨?_, ?_, ?_⟩
      · rw [hbytes, List.drop_append, List.drop_eq_nil_of_le (Nat.le_of_not_lt hpart),
          List.nil_append]
      · rw [hleft, Nat.sub_sub]
      · rw [hall, decide_eq_decide]
        omega

/-! ## The messages -/

/-- The first loop of `msg_send_chain` over the messages that `send_next` offers: those that are
gathered, and their iovecs. -/
def gatherMsgs : List Msg → List (List UInt8) → List Msg × List (List UInt8)
  | [], iov => ([], iov)
  | m :: offered, iov =>
    let iov := gatherMbufs m.mhdr iov
    if iov.length ≥ iovMax ∨ nsend iov ≥ ssizeMax then ([m], iov)
    else
      let (sendq, iov) := gatherMsgs offered iov
      (m :: sendq, iov)

/-- The last loop of `msg_send_chain`, when `n` bytes were sent: the messages as they are left, and
whether `send_done` is called on each of them. -/
def accountMsgs : ℕ → List Msg → List (Msg × Bool)
  | _, [] => []
  | n, m :: sendq =>
    if n = 0 then (m, m.mlen = 0) :: accountMsgs 0 sendq
    else
      let (mhdr, left, all) := consumeMbufs n m.mhdr
      ({ m with mhdr := mhdr }, all) :: accountMsgs left sendq

/-- What `msg_send_chain` has done: the iovecs, the messages it has gathered, the same messages as
they are left, and those that `send_done` was called on. -/
structure SendChain where
  iov : List (List UInt8)
  gathered : List Msg
  remaining : List Msg
  done : List Msg

/-- `msg_send_chain` on the messages that `send_next` offers; `n` is the result of `writev`. -/
def sendChain (offered : List Msg) (n : ℤ) : SendChain :=
  let (sendq, iov) := gatherMsgs offered []
  let n := if nsend iov ≠ 0 then n else 0
  let accounted := accountMsgs n.toNat sendq
  { iov := iov
    gathered := sendq
    remaining := accounted.map Prod.fst
    done := (accounted.filter Prod.snd).map Prod.fst }

/-- The bytes of some messages that are not sent yet. -/
def unsentMsgs (ms : List Msg) : List UInt8 := ms.flatMap fun m => unsent m.mhdr

/-- There are never more iovecs than `IOV_MAX`. -/
lemma gatherMsgs_length (offered : List Msg) (iov : List (List UInt8)) (h : iov.length ≤ iovMax) :
    (gatherMsgs offered iov).2.length ≤ iovMax := by
  induction offered generalizing iov with
  | nil => exact h
  | cons m offered ih =>
    have hm := gatherMbufs_length m.mhdr iov h
    unfold gatherMsgs
    dsimp only
    split_ifs
    · exact hm
    · exact ih _ hm

/-- The messages gathered are the first ones offered. -/
lemma gatherMsgs_prefix (offered : List Msg) (iov : List (List UInt8)) :
    (gatherMsgs offered iov).1 <+: offered := by
  induction offered generalizing iov with
  | nil => exact List.prefix_rfl
  | cons m offered ih =>
    unfold gatherMsgs
    dsimp only
    split_ifs
    · exact List.prefix_append [m] offered
    · exact (List.prefix_cons_inj m).mpr (ih _)

/-- The iovecs are a prefix of the unsent bytes of the messages gathered. -/
lemma gatherMsgs_flatten (offered : List Msg) (iov : List (List UInt8)) :
    (gatherMsgs offered iov).2.flatten <+: iov.flatten ++ unsentMsgs
      (gatherMsgs offered iov).1 := by
  induction offered generalizing iov with
  | nil => exact List.prefix_append _ _
  | cons m offered ih =>
    obtain ⟨hpre, heq⟩ := gatherMbufs_flatten m.mhdr iov
    unfold gatherMsgs
    dsimp only
    split_ifs with hfull
    · simpa [unsentMsgs] using hpre
    · have hroom : HasRoom (gatherMbufs m.mhdr iov) := by
        unfold HasRoom
        omega
      have h := ih (gatherMbufs m.mhdr iov)
      rw [heq hroom] at h
      simpa [unsentMsgs, List.append_assoc] using h

/-- Accounting takes exactly the first `n` unsent bytes away. -/
lemma accountMsgs_unsent (n : ℕ) (sendq : List Msg) :
    unsentMsgs ((accountMsgs n sendq).map Prod.fst) = (unsentMsgs sendq).drop n := by
  induction sendq generalizing n with
  | nil => simp [accountMsgs, unsentMsgs]
  | cons m sendq ih =>
    unfold accountMsgs
    split_ifs with hn
    · have h := ih 0
      simp only [unsentMsgs, List.map_cons, List.flatMap_cons, hn, List.drop_zero] at h ⊢
      rw [h]
    · obtain ⟨hbytes, hleft, -⟩ := consumeMbufs_eq n m.mhdr
      have h := ih (consumeMbufs n m.mhdr).2.1
      simp only [unsentMsgs, List.map_cons, List.flatMap_cons] at h ⊢
      rw [h, hbytes, hleft, List.drop_append]

/-- `send_done` is called on a message exactly if no unsent byte of it is left. -/
lemma accountMsgs_done (n : ℕ) (sendq : List Msg)
    (hlen : ∀ m ∈ sendq, m.mlen = 0 ↔ unsent m.mhdr = []) :
    ∀ e ∈ accountMsgs n sendq, e.2 = decide (unsent e.1.mhdr = []) := by
  induction sendq generalizing n with
  | nil => simp [accountMsgs]
  | cons m sendq ih =>
    have hrest := fun m' hm' => hlen m' (List.mem_cons_of_mem m hm')
    unfold accountMsgs
    split_ifs with hn
    · rintro e he
      rcases List.mem_cons.mp he with rfl | he
      · exact decide_eq_decide.mpr (hlen m List.mem_cons_self)
      · exact ih 0 hrest e he
    · obtain ⟨hbytes, -, hall⟩ := consumeMbufs_eq n m.mhdr
      rintro e he
      rcases List.mem_cons.mp he with rfl | he
      · rw [hall, decide_eq_decide]
        dsimp only
        rw [hbytes, List.drop_eq_nil_iff]
      · exact ih _ hrest e he

/-- Accounting changes nothing of a message but its buffers. -/
lemma accountMsgs_forall₂ (n : ℕ) (sendq : List Msg) :
    List.Forall₂ (fun m m' => m' = { m with mhdr := m'.mhdr }) sendq
      ((accountMsgs n sendq).map Prod.fst) := by
  induction sendq generalizing n with
  | nil => exact .nil
  | cons m sendq ih =>
    unfold accountMsgs
    split_ifs with hn
    · exact .cons rfl (ih 0)
    · exact .cons rfl (ih _)

/-! ## Main result -/

/-- **Scatter send accounts for every byte.**  The messages gathered are the first ones offered;
the iovecs, of which there are at most `GF_IOV_MAX`, are a prefix of their unsent bytes; afterwards
exactly the bytes written are gone; and `send_done` is called in order on the messages that have no
unsent bytes left.

**Proof sketch.** While there is room the iovecs hold all bytes so far (`gatherMsgs_flatten`), and
accounting walks the same bytes again (`consumeMbufs_eq`). -/
theorem sendChain_accounts (offered : List Msg) (n : ℤ)
    (hlen : ∀ m ∈ offered, m.mlen = 0 ↔ unsent m.mhdr = [])
    (hn : n ≤ nsend (sendChain offered n).iov) : (sendChain offered n).gathered <+: offered ∧
      (sendChain offered n).iov.length ≤ iovMax ∧
      (sendChain offered n).iov.flatten <+: unsentMsgs (sendChain offered n).gathered ∧
      List.Forall₂ (fun m m' => m' = { m with mhdr := m'.mhdr })
        (sendChain offered n).gathered (sendChain offered n).remaining ∧
      unsentMsgs (sendChain offered n).remaining =
        (unsentMsgs (sendChain offered n).gathered).drop n.toNat ∧
      (sendChain offered n).done =
        (sendChain offered n).remaining.filter fun m => unsent m.mhdr = [] := by
  have hsent : (if nsend (gatherMsgs offered []).2 ≠ 0 then n else 0).toNat = n.toNat := by
    change n ≤ nsend (gatherMsgs offered []).2 at hn
    split_ifs with h
    · rfl
    · omega
  have hpre := gatherMsgs_prefix offered []
  have hgathered := fun m hm => hlen m (hpre.subset hm)
  refine ⟨hpre, gatherMsgs_length offered [] (Nat.zero_le _), ?_, accountMsgs_forall₂ _ _, ?_, ?_⟩
  · have h := gatherMsgs_flatten offered []
    rw [List.flatten_nil, List.nil_append] at h
    exact h
  · unfold sendChain
    dsimp only
    rw [hsent]
    exact accountMsgs_unsent _ _
  · unfold sendChain
    dsimp only
    rw [List.filter_map]
    congr 1
    exact List.filter_congr (accountMsgs_done _ _ hgathered)

/-- Three messages: one in two buffers with an empty one between them, one without bytes, and a
third one. -/
def threeMsgs : List Msg :=
  [{ mlen := 3, mhdr := [{ rest := [1, 2] }, {}, { rest := [3] }] }, {},
    { mlen := 2, mhdr := [{ rest := [4, 5] }] }]

/-- Of three messages with five bytes, four bytes are written. -/
theorem threeMsgs_accounts :
    (sendChain threeMsgs 4).iov = [[1, 2], [3], [4, 5]] ∧
      unsentMsgs (sendChain threeMsgs 4).remaining = [5] ∧
      (sendChain threeMsgs 4).done =
        (sendChain threeMsgs 4).remaining.filter fun m => unsent m.mhdr = [] := by
  have hlen : ∀ m ∈ threeMsgs, m.mlen = 0 ↔ unsent m.mhdr = [] := by decide
  have hn : (4 : ℤ) ≤ nsend (sendChain threeMsgs 4).iov := by decide
  obtain ⟨-, -, -, -, hleft, hdone⟩ := sendChain_accounts threeMsgs 4 hlen hn
  exact ⟨by decide, hleft, hdone⟩

/-! ## The requests of a server connection -/

/-- From `h` to `h'`, no message has changed, nor what is queued and written on connection `s`. -/
structure SameQueue (s : ConnId) (h h' : Heap) : Prop where
  msg : h'.msg = h.msg
  client : (h'.conn s).client = (h.conn s).client
  imsgq : (h'.conn s).imsgq = (h.conn s).imsgq
  out : (h'.conn s).out = (h.conn s).out

variable {env : Env} {s : ConnId} {h h' h'' : Heap}

/-- Nothing has changed. -/
lemma SameQueue.refl (s : ConnId) (h : Heap) : SameQueue s h h := ⟨rfl, rfl, rfl, rfl⟩

/-- Changes that keep the queue compose. -/
lemma SameQueue.trans (hx : SameQueue s h h') (hy : SameQueue s h' h'') : SameQueue s h h'' :=
  ⟨hy.msg.trans hx.msg, hy.client.trans hx.client, hy.imsgq.trans hx.imsgq, hy.out.trans hx.out⟩

/-- A change of the connection that keeps its queue and its output. -/
lemma SameQueue.modConn {f : Conn → Conn}
    (hf : ∀ x, (f x).client = x.client ∧ (f x).imsgq = x.imsgq ∧ (f x).out = x.out) :
    SameQueue s h (h.modConn s f) := by
  obtain ⟨hclient, himsgq, hout⟩ := hf (h.conn s)
  constructor <;> simp [Heap.modConn, hclient, himsgq, hout]

/-- The successor in a queue is the next one behind the message. -/
lemma tailqNext_append {q : List MsgId} {m : MsgId} (rest : List MsgId) (h : m ∉ q) :
    tailqNext m (q ++ m :: rest) = rest.head? := by
  induction q with
  | nil => simp [tailqNext]
  | cons x q ih =>
    rw [List.mem_cons, not_or] at h
    rw [List.cons_append, tailqNext, if_neg (Ne.symm h.1)]
    exact ih h.2

/-- `req_send_next` goes on to the request behind the one it has returned last. -/
lemma reqSendNext_server {pre rest : List MsgId} {m : MsgId} (hsmsg : (h.conn s).smsg = some m)
    (hq : (h.conn s).imsgq = pre ++ m :: rest) (hm : m ∉ pre) :
    After (reqSendNext env s)
      (fun r h' => SameQueue s h h' ∧ r = rest.head? ∧ (h'.conn s).smsg = rest.head?) h := by
  unfold reqSendNext
  refine After.getConn ?_
  refine After.onlyIf (Q := fun _ h' => SameQueue s h h' ∧ (h'.conn s).smsg = some m) ?_ ?_ ?_
  · intro _
    unfold serverConnected postConnect
    refine After.ownerServer fun p i _ => After.statsServer (After.modConn ?_)
    refine After.modConn (After.last (After.callHook (After.pure ⟨?_, ?_⟩)))
    swap
    · simp [Heap.modConn, hsmsg]
    have hmod : SameQueue s h
        (h.modConn s fun x => { x with connecting := false, connected := true }) :=
      SameQueue.modConn fun x => ⟨rfl, rfl, rfl⟩
    exact hmod.trans (SameQueue.modConn fun x => ⟨rfl, rfl, rfl⟩)
  · exact fun _ => ⟨SameQueue.refl s h, hsmsg⟩
  rintro h₁ ⟨hsame, hsmsg₁⟩
  have hq₁ := hsame.imsgq.trans hq
  refine After.getConn ?_
  have hhead : ∃ first, (h₁.conn s).imsgq.head? = some first := by
    rw [hq₁]
    cases pre <;> simp
  obtain ⟨first, hfirst⟩ := hhead
  rw [hfirst, hsmsg₁]
  dsimp only
  rw [hq₁, tailqNext_append rest hm]
  refine After.modConn (After.pure ⟨hsame.trans ?_, rfl, by simp [Heap.modConn]⟩)
  exact SameQueue.modConn fun x => ⟨rfl, rfl, rfl⟩

/-- The first loop of `msg_send_chain` on a server connection: it gathers the requests that are not
sent yet. -/
theorem msgGather_server {fuel : ℕ} {pre rest sendq : List MsgId} {m : MsgId}
    {iov : List (List UInt8)} (hclient : (h.conn s).client = false)
    (hsmsg : (h.conn s).smsg = some m) (hq : (h.conn s).imsgq = pre ++ m :: rest)
    (hnodup : (pre ++ m :: rest).Nodup) :
    After (msgGather env s fuel m sendq iov) (fun r h' => SameQueue s h h' ∧
      ∃ q, r.1 = sendq ++ q ∧ q <+: m :: rest ∧
        gatherMsgs ((m :: rest).map h.msg) iov = (q.map h.msg, r.2)) h := by
  induction fuel generalizing h pre rest sendq m iov with
  | zero => exact After.fault
  | succ fuel ih =>
    unfold msgGather
    refine After.getMsg ?_
    refine After.ite (fun hfull => After.pure ⟨SameQueue.refl s h, [m], rfl, ?_, ?_⟩)
      fun hroom => ?_
    · exact List.prefix_append [m] rest
    · simp only [List.map_cons, gatherMsgs, if_pos hfull, List.map_nil]
    have hm : m ∉ pre := fun hmem => (List.nodup_append.mp hnodup).2.2 m hmem m (by simp) rfl
    unfold connSendNext
    simp only [bind_assoc]
    refine After.getConn ?_
    rw [hclient]
    refine After.call (reqSendNext_server hsmsg hq hm) ?_
    rintro r h₁ ⟨hsame, rfl, hsmsg₁⟩
    cases rest with
    | nil =>
      refine After.pure ⟨hsame, [m], rfl, List.prefix_rfl, ?_⟩
      simp only [List.map_cons, List.map_nil, gatherMsgs, if_neg hroom]
    | cons next rest =>
      have hq₁ : (h₁.conn s).imsgq = (pre ++ [m]) ++ next :: rest := by simp [hsame.imsgq, hq]
      have hnodup₁ : ((pre ++ [m]) ++ next :: rest).Nodup := by simpa using hnodup
      refine (ih (hsame.client.trans hclient) hsmsg₁ hq₁ hnodup₁).mono ?_
      rintro r h₂ ⟨hsame₂, q, hr, hpre, hgather⟩
      refine ⟨hsame.trans hsame₂, m :: q, by simp [hr], (List.prefix_cons_inj m).mpr hpre, ?_⟩
      rw [hsame.msg] at hgather
      rw [List.map_cons, gatherMsgs]
      simp only [if_neg hroom, hgather]
      rfl

/-- From `h` to `h'`, request `m` has left the queue of server connection `s`, and no other message
has changed. -/
structure SendDone (s : ConnId) (m : MsgId) (h h' : Heap) : Prop where
  msg : ∀ x ≠ m, h'.msg x = h.msg x
  client : (h'.conn s).client = (h.conn s).client
  imsgq : (h'.conn s).imsgq = (h.conn s).imsgq.erase m
  out : (h'.conn s).out = (h.conn s).out

/-- Releasing a request without a response touches no other message. -/
lemma reqPut_rest {m : MsgId} (hm : (h.msg m).peer = none) :
    (h.reqPut m).conn = h.conn ∧ ∀ x ≠ m, (h.reqPut m).msg x = h.msg x := by
  have hput : h.putPeer m = h := by simp [Heap.putPeer, hm]
  unfold Heap.reqPut
  rw [hput]
  unfold Heap.tmoDelete
  split_ifs
  · refine ⟨rfl, fun x hx => ?_⟩
    simp [Heap.msgPut, Heap.emit, Heap.modMsg, hx]
  · refine ⟨rfl, fun x hx => ?_⟩
    simp [Heap.msgPut, Heap.emit, Heap.modMsg, hx]

/-- `req_send_done` takes the request out of the queue of those to send. -/
lemma finalize_server {m : MsgId} (hclient : (h.conn s).client = false)
    (hpeer : (h.msg m).peer = none) : After (finalize s m) (fun _ h' => SendDone s m h h') h := by
  unfold finalize
  refine After.call (R := fun _ h' => SameQueue s h h') ?_ ?_
  · unfold noteSent
    refine After.getMsg (After.getConn (After.last ?_))
    refine After.onlyIf (Q := fun _ h' => SameQueue s h h') (fun _ => ?_)
      (fun _ => SameQueue.refl s h) fun h' hsame => After.pure hsame
    exact After.last (After.modConn (After.pure (SameQueue.modConn fun x => ⟨rfl, rfl, rfl⟩)))
  rintro _ h₁ hsame
  unfold connSendDone
  refine After.getConn ?_
  rw [hsame.client, hclient]
  refine After.ite (fun hf => absurd hf Bool.false_ne_true) fun _ => ?_
  unfold reqSendDone reqServerDequeueImsgq
  simp only [bind_assoc]
  refine After.modConn (After.ownerServer fun p i _ => ?_)
  refine After.statsServer (After.getMsg (After.statsServer (After.getMsg ?_)))
  have hdone : SendDone s m h (h₁.modConn s fun x => { x with imsgq := x.imsgq.erase m }) := by
    constructor
    · intro x _
      simp [Heap.modConn, hsame.msg]
    · simp [Heap.modConn, hsame.client]
    · simp [Heap.modConn, hsame.imsgq]
    · simp [Heap.modConn, hsame.out]
  refine After.ite (fun _ => ?_) fun _ => ?_
  · unfold reqServerEnqueueOmsgq
    refine After.modConn (After.ownerServer fun p i _ => ?_)
    refine After.statsServer (After.getMsg (After.last (After.statsServer (After.pure ?_))))
    have hmod := SameQueue.modConn (s := s) (f := fun x => { x with omsgq := x.omsgq ++ [m] })
      (h := h₁.modConn s fun x => { x with imsgq := x.imsgq.erase m }) fun x => ⟨rfl, rfl, rfl⟩
    exact ⟨fun x hx => (congrFun hmod.msg x).trans (hdone.msg x hx), hmod.client.trans hdone.client,
      hmod.imsgq.trans hdone.imsgq, hmod.out.trans hdone.out⟩
  · refine After.last (After.modHeap (After.pure ?_))
    obtain ⟨hconn, hrest⟩ := reqPut_rest (m := m)
      (h := h₁.modConn s fun x => { x with imsgq := x.imsgq.erase m })
      (by simp [Heap.modConn, hsame.msg, hpeer])
    constructor
    · exact fun x hx => (hrest x hx).trans (hdone.msg x hx)
    · rw [hconn, hdone.client]
    · rw [hconn, hdone.imsgq]
    · rw [hconn, hdone.out]

/-- From `h` to `h'`, the requests `q` in the middle of the queue of server connection `s` are
accounted for by `acc`: those that `send_done` is called on are gone, the others have new
buffers. -/
structure Accounted (s : ConnId) (acc : List (Msg × Bool)) (pre q rest : List MsgId) (h h' : Heap) :
    Prop where
  out : (h'.conn s).out = (h.conn s).out
  other : ∀ x ∉ q, h'.msg x = h.msg x
  kept : ∃ kept ⊆ q, (h'.conn s).imsgq = pre ++ kept ++ rest ∧
    kept.map (fun m => (h'.msg m).mhdr) = (acc.filter fun e => !e.2).map fun e => e.1.mhdr

variable {pre q rest : List MsgId} {m : MsgId} {acc : List (Msg × Bool)} {x : Msg}

/-- The first message is done, and taken out of the queue. -/
lemma Accounted.gone (hmsg : ∀ x ≠ m, h'.msg x = h.msg x)
    (hout : (h'.conn s).out = (h.conn s).out) (ha : Accounted s acc pre q rest h' h'') :
    Accounted s ((x, true) :: acc) pre (m :: q) rest h h'' := by
  obtain ⟨kept, hsub, himsgq, hkept⟩ := ha.kept
  refine ⟨ha.out.trans hout, fun y hy => ?_, kept, List.subset_cons_of_subset m hsub, himsgq, ?_⟩
  · rw [List.mem_cons, not_or] at hy
    exact (ha.other y hy.2).trans (hmsg y hy.1)
  · simpa using hkept

/-- The first message stays in the queue. -/
lemma Accounted.stays (hm : m ∉ q) (hmsg : ∀ x ≠ m, h'.msg x = h.msg x)
    (hmhdr : (h'.msg m).mhdr = x.mhdr) (hout : (h'.conn s).out = (h.conn s).out)
    (ha : Accounted s acc (pre ++ [m]) q rest h' h'') :
    Accounted s ((x, false) :: acc) pre (m :: q) rest h h'' := by
  obtain ⟨kept, hsub, himsgq, hkept⟩ := ha.kept
  refine ⟨ha.out.trans hout, fun y hy => ?_, m :: kept, List.cons_subset_cons m hsub, ?_, ?_⟩
  · rw [List.mem_cons, not_or] at hy
    exact (ha.other y hy.2).trans (hmsg y hy.1)
  · simpa using himsgq
  · simp only [List.map_cons, Bool.not_false, List.filter_cons_of_pos, hkept]
    rw [ha.other m hm, hmhdr]

/-- The last loop of `msg_send_chain` on a server connection: what stays in its queue, and with
which buffers.

**Proof sketch.** Induction on the requests.  One whose bytes are all written leaves the queue; of
another only the buffers change. -/
theorem msgSent_server {n : ℕ} (hclient : (h.conn s).client = false)
    (hq : (h.conn s).imsgq = pre ++ q ++ rest) (hnodup : (pre ++ q ++ rest).Nodup)
    (hpeer : ∀ m ∈ q, (h.msg m).peer = none) :
    After (msgSent s n q)
      (fun _ h' => Accounted s (accountMsgs n (q.map h.msg)) pre q rest h h') h := by
  induction q generalizing h pre n with
  | nil => exact After.pure ⟨rfl, fun _ _ => rfl, [], List.Subset.refl _, hq, rfl⟩
  | cons m q ih =>
    have hm : m ∉ pre ∧ m ∉ q := by
      simp only [List.append_assoc, List.cons_append, List.nodup_append, List.nodup_cons,
        List.mem_append, not_or] at hnodup
      exact ⟨fun hmem => hnodup.2.2 m hmem m (by simp) rfl, hnodup.2.1.1.1⟩
    have hrest : ∀ {h₁ : Heap}, (∀ x ≠ m, h₁.msg x = h.msg x) → q.map h₁.msg = q.map h.msg := by
      intro h₁ hmsg
      refine List.map_congr_left fun x hx => hmsg x ?_
      rintro rfl
      exact hm.2 hx
    have hpeer₁ : ∀ {h₁ : Heap}, (∀ x ≠ m, h₁.msg x = h.msg x) → ∀ x ∈ q,
        (h₁.msg x).peer = none := by
      intro h₁ hmsg x hx
      rw [hmsg x (by rintro rfl; exact hm.2 hx)]
      exact hpeer x (List.mem_cons_of_mem m hx)
    -- the rest of the loop, once it is known what becomes of `m`
    have hloop : ∀ {all : Bool} {x : Msg} {k : ℕ} {h₁ : Heap}, (∀ x ≠ m, h₁.msg x = h.msg x) →
        (h₁.conn s) = (h.conn s) → (h₁.msg m).peer = none → (h₁.msg m).mhdr = x.mhdr →
        After (onlyIf all (finalize s m) >>= fun _ => msgSent s k q)
          (fun _ h' => Accounted s ((x, all) :: accountMsgs k (q.map h.msg)) pre (m :: q) rest h h')
          h₁ := by
      intro all x k h₁ hmsg hconn hpeerm hmhdr
      have hclient₁ : (h₁.conn s).client = false := by rw [hconn, hclient]
      cases all with
      | true =>
        refine After.call (finalize_server hclient₁ hpeerm) ?_
        rintro _ h₂ hdone
        have hmsg₂ : ∀ x ≠ m, h₂.msg x = h.msg x :=
          fun x hx => (hdone.msg x hx).trans (hmsg x hx)
        have hq₂ : (h₂.conn s).imsgq = pre ++ q ++ rest := by
          rw [hdone.imsgq, hconn, hq, List.append_assoc, List.cons_append,
            List.erase_append_right _ hm.1, List.erase_cons_head, List.append_assoc]
        have hnodup₂ : (pre ++ q ++ rest).Nodup := by
          refine hnodup.sublist ?_
          simp
        rw [← hrest hmsg₂]
        refine (ih (hdone.client.trans hclient₁) hq₂ hnodup₂ (hpeer₁ hmsg₂)).mono ?_
        rintro _ h₃ ha
        exact ha.gone hmsg₂ (hdone.out.trans (by rw [hconn]))
      | false =>
        refine After.call (R := fun _ h' => h₁ = h') (After.pure rfl) ?_
        rintro _ _ rfl
        have hq₁ : (h₁.conn s).imsgq = (pre ++ [m]) ++ q ++ rest := by simp [hconn, hq]
        have hnodup₁ : ((pre ++ [m]) ++ q ++ rest).Nodup := by simpa using hnodup
        rw [← hrest hmsg]
        refine (ih hclient₁ hq₁ hnodup₁ (hpeer₁ hmsg)).mono ?_
        rintro _ h₃ ha
        exact ha.stays hm.2 hmsg hmhdr (by rw [hconn])
    have hpeerm := hpeer m List.mem_cons_self
    unfold msgSent
    refine After.getMsg ?_
    split_ifs with hn
    · simp only [List.map_cons, accountMsgs, if_pos hn]
      exact hloop (fun _ _ => rfl) rfl hpeerm rfl
    · simp only [List.map_cons, accountMsgs, if_neg hn]
      refine After.call (R := fun _ h' => h' = h) ?_ ?_
      · unfold noteWritten
        refine After.getMsg (After.getConn ?_)
        rw [hclient]
        exact After.pure rfl
      rintro _ _ rfl
      refine After.modMsg (hloop ?_ rfl ?_ ?_)
      · intro x hx
        simp [Heap.modMsg, hx]
      · simpa [Heap.modMsg] using hpeerm
      · simp [Heap.modMsg]

/-- The bytes that server connection `s` has to send. -/
def Heap.toSend (h : Heap) (s : ConnId) : List UInt8 := unsentMsgs ((h.conn s).imsgq.map h.msg)

/-- `conn_sendv` writes the first bytes of the iovecs. -/
lemma connSendv_out (iov : List (List UInt8)) :
    After (connSendv env s iov) (fun r h' => r.2 ≤ nsend iov ∧ h'.msg = h.msg ∧
      (h'.conn s).client = (h.conn s).client ∧ (h'.conn s).imsgq = (h.conn s).imsgq ∧
      (h'.conn s).out = (h.conn s).out ++ iov.flatten.take r.2) h := by
  unfold connSendv
  refine After.ask fun t => ?_
  cases env.writev t with
  | bytes n =>
    refine After.modConn (After.pure ⟨Nat.min_le_right _ _, rfl, ?_, ?_, ?_⟩) <;>
      simp [Heap.modConn]
  | again =>
    refine After.modConn (After.pure ⟨Nat.zero_le _, rfl, ?_, ?_, ?_⟩) <;> simp [Heap.modConn]
  | failed =>
    unfold setErrno
    simp only [bind_assoc]
    refine After.modConn (After.getErrno fun e =>
      After.modConn (After.pure ⟨Nat.zero_le _, rfl, ?_, ?_, ?_⟩)) <;>
      simp [Heap.modConn]

/-- The messages that are accounted for and not done hold all the bytes that are left. -/
lemma accountMsgs_kept (n : ℕ) (sendq : List Msg)
    (hlen : ∀ m ∈ sendq, m.mlen = 0 ↔ unsent m.mhdr = []) :
    ((accountMsgs n sendq).filter fun e => !e.2).flatMap (fun e => unsent e.1.mhdr) =
      (unsentMsgs sendq).drop n := by
  rw [← accountMsgs_unsent, unsentMsgs, List.flatMap_map]
  have hdone := accountMsgs_done n sendq hlen
  generalize accountMsgs n sendq = acc at hdone ⊢
  induction acc with
  | nil => rfl
  | cons e acc ih =>
    have hrest := ih fun e' he' => hdone e' (List.mem_cons_of_mem e he')
    have he := hdone e List.mem_cons_self
    cases hall : e.2 with
    | true =>
      rw [hall, eq_comm, decide_eq_true_iff] at he
      simp [hall, he, hrest]
    | false => simp [hall, hrest]

/-- **`msg_send_chain` on a server connection moves bytes from its queue to its socket**, in order:
none is lost, none sent twice.

**Proof sketch.** `msg_send_chain` runs `sendChain` on the requests in the queue. -/
theorem msgSendChain_server (hclient : (h.conn s).client = false)
    (hsmsg : (h.conn s).smsg = some m) (hq : (h.conn s).imsgq = m :: rest)
    (hnodup : (m :: rest).Nodup) (hpeer : ∀ x ∈ m :: rest, (h.msg x).peer = none)
    (hlen : ∀ x ∈ m :: rest, (h.msg x).mlen = 0 ↔ unsent (h.msg x).mhdr = []) :
    After (msgSendChain env s m)
      (fun _ h' => (h'.conn s).out ++ h'.toSend s = (h.conn s).out ++ h.toSend s) h := by
  unfold msgSendChain
  have hpre : (h.conn s).imsgq = [] ++ m :: rest := hq
  refine After.call (msgGather_server hclient hsmsg hpre hnodup) ?_
  rintro ⟨sendq, iov⟩ h₁ ⟨hsame, q, hsendq, ⟨rest', hrest⟩, hgather⟩
  obtain rfl : sendq = q := hsendq
  dsimp only at hgather ⊢
  refine After.modConn (After.call (R := fun r h' => r.2 ≤ nsend iov ∧ h'.msg = h.msg ∧
    (h'.conn s).client = false ∧ (h'.conn s).imsgq = m :: rest ∧
    (h'.conn s).out = (h.conn s).out ++ iov.flatten.take r.2) ?_ ?_)
  · unfold sendGathered
    refine After.ite (fun _ => (connSendv_out iov).mono ?_) fun _ => After.pure ?_
    · rintro r h₂ ⟨hle, hmsg, hclient₂, hq₂, hout⟩
      simp only [Heap.modConn, Function.update_self] at hmsg hclient₂ hq₂ hout
      exact ⟨hle, hmsg.trans hsame.msg, (hclient₂.trans hsame.client).trans hclient,
        (hq₂.trans hsame.imsgq).trans hq, hout.trans (by rw [hsame.out])⟩
    · simp [Heap.modConn, hsame.msg, hsame.client, hclient, hsame.imsgq, hq, hsame.out]
  rintro ⟨status, n⟩ h₂ ⟨hle, hmsg, hclient₂, hq₂, hout⟩
  have hq₃ : (h₂.conn s).imsgq = [] ++ sendq ++ rest' := by rw [hq₂, ← hrest]; rfl
  have hsub : sendq ⊆ m :: rest := by rw [← hrest]; exact List.subset_append_left sendq rest'
  refine After.call (msgSent_server hclient₂ hq₃ ?_ ?_) ?_
  · rw [← hrest] at hnodup
    exact hnodup
  · exact fun x hx => (congrArg Msg.peer (congrFun hmsg x)).trans (hpeer x (hsub hx))
  rintro _ h₃ ha
  refine After.pure ?_
  rw [hmsg] at ha
  obtain ⟨kept, -, hq₄, hkept⟩ := ha.kept
  have hlen' : ∀ x ∈ sendq.map h.msg, x.mlen = 0 ↔ unsent x.mhdr = [] := by
    intro x hx
    obtain ⟨y, hy, rfl⟩ := List.mem_map.mp hx
    exact hlen y (hsub hy)
  -- what was written
  have hwritten : iov.flatten.take n = (unsentMsgs (sendq.map h.msg)).take n := by
    have hpre := gatherMsgs_flatten ((m :: rest).map h.msg) []
    rw [hgather, List.flatten_nil, List.nil_append] at hpre
    rw [nsend_eq] at hle
    obtain ⟨tail, htail⟩ := hpre
    rw [← htail, List.take_append_of_le_length hle]
  -- what is left
  have hleft : unsentMsgs (kept.map h₃.msg) = (unsentMsgs (sendq.map h.msg)).drop n := by
    rw [← accountMsgs_kept n _ hlen', unsentMsgs, List.flatMap_map, List.flatMap_def,
      List.flatMap_def]
    have h := congrArg (List.map unsent) hkept
    simp only [List.map_map] at h
    exact congrArg List.flatten h
  have hrest' : rest'.map h₃.msg = rest'.map h.msg := by
    refine List.map_congr_left fun x hx => (ha.other x ?_).trans (congrFun hmsg x)
    intro hmem
    rw [← hrest] at hnodup
    exact (List.nodup_append.mp hnodup).2.2 x hmem x hx rfl
  have happend : ∀ xs ys, unsentMsgs (xs ++ ys) = unsentMsgs xs ++ unsentMsgs ys := by
    simp [unsentMsgs]
  unfold Heap.toSend
  rw [ha.out, hout, hq₄, List.nil_append, List.map_append, happend, hleft, hrest', hwritten, hq,
    ← hrest, List.map_append, happend]
  simp only [List.append_assoc]
  rw [← List.append_assoc (List.take n _), List.take_append_drop]

end GfwProxy
