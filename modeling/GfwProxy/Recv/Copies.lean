import GfwProxy.Proxy.After
import GfwProxy.Proxy.FreeList
import GfwProxy.Proxy.Retry
import GfwProxy.Recv.Buffers

set_option autoImplicit false

/-!
# The levels of the receive path

The functions of the receive path are modelled byte by byte (`GfwProxy.Recv`), on one message over
the pool of mbufs (`GfwProxy.Recv.Buffers`), and message by message in the proxy (`GfwProxy`); the
free lists also with the memory behind them (`GfwProxy.FreeLists`).  A function that is modelled at
several levels does the same at each of them.

## Main definitions

* `GfwProxy.Recv.Buffers.Same` — a message over the pool, and in the state of a connection.
* `GfwProxy.Level` — a connection of the proxy, and one of the byte level.
* `GfwProxy.Cut` — what `msg_parsed` makes of a message, at either level.

## Main results

* `GfwProxy.Recv.Buffers.Same.mbufSplit`, `GfwProxy.Recv.Buffers.Same.msgRepair`,
  `GfwProxy.Recv.Buffers.Same.msgParsed` — the functions over the pool are those of a connection.
* `GfwProxy.Recv.Buffers.mbufGetChunk_freeLists`, `GfwProxy.msgGet₀_freeLists`,
  `GfwProxy.connGet₀_freeLists` — what is taken comes from the free lists.
* `GfwProxy.Level.connRecv`, `GfwProxy.Level.grow`, `GfwProxy.Level.msgRepair` — the proxy receives
  as many bytes as the byte level.
* `GfwProxy.msgParsed_cut`, `GfwProxy.nextMsg_cut` — both cut a message in the same way.
* `GfwProxy.msgRecvChain_eq` — the proxy runs the loop of the byte level.

## Design

The proxy leaves to the environment what the byte level computes, such as whether the last mbuf is
full, so it can do what the byte level does, and more.
-/

namespace GfwProxy.Recv

open Exec (Post Total)

variable {σ : Type} {size : ℕ}

/-! ## A message over the pool of mbufs -/

namespace Buffers

/-- The mbuf that `mbuf_get` returns next. -/
def nextMbuf (env : Env σ size) (s : St σ) : Option Mbuf :=
  match s.freeMbufq with
  | b :: _ => some (rewound size b)
  | [] => (env.chunk s.nalloc).map fun c => rewound size c.mbuf

/-- The same message over the pool, and as message `m` of a connection; the next mbuf and the next
message are the same. -/
structure Same (cenv : Recv.Env σ size) (env : Env σ size) (m : MsgId) (t : Recv.St σ) (s : St σ) :
    Prop where
  msg : s.msg = t.msg m
  mbuf : nextMbuf env s = (cenv.chunk t.nchunk).map Chunk.mbuf
  msgGet : env.msgGet = if cenv.msgAlloc t.msgId then some { state := cenv.state₀ } else none
  old : m ≤ t.msgId

variable {cenv : Recv.Env σ size} {env : Env σ size} {m : MsgId} {t : Recv.St σ} {s : St σ}

/-- `mbuf_get` over the pool. -/
lemma mbufGet_next (env : Env σ size) (s : St σ) :
    Total (mbufGet env) (fun r s' => r = nextMbuf env s ∧ s'.msg = s.msg ∧ s'.passed = s.passed)
      s := by
  cases hfree : s.freeMbufq with
  | cons b rest =>
    refine Total.bind (R := fun r s' => r = some b ∧ s'.msg = s.msg ∧ s'.passed = s.passed) ?_ ?_
    · refine Total.get ?_
      rw [hfree]
      exact Total.modify (Total.pure ⟨rfl, rfl, rfl⟩)
    · rintro r s' ⟨rfl, hmsg, hpassed⟩
      refine Total.modify (Total.pure ⟨?_, hmsg, hpassed⟩)
      simp [nextMbuf, hfree]
  | nil =>
    refine Total.bind (R := fun r s' => r = (env.chunk s.nalloc).map Chunk.mbuf ∧
      s'.msg = s.msg ∧ s'.passed = s.passed) ?_ ?_
    · refine Total.get ?_
      rw [hfree]
      exact Total.modify (Total.pure ⟨rfl, rfl, rfl⟩)
    · rintro r s' ⟨rfl, hmsg, hpassed⟩
      cases hchunk : env.chunk s.nalloc with
      | none => exact Total.pure ⟨by simp [nextMbuf, hfree, hchunk], hmsg, hpassed⟩
      | some c =>
        exact Total.modify (Total.pure ⟨by simp [nextMbuf, hfree, hchunk], hmsg, hpassed⟩)

/-- `mbuf_get` on a connection. -/
lemma connMbufGet_next (cenv : Recv.Env σ size) (t : Recv.St σ) :
    Total (Recv.mbufGet cenv) (fun r t' => r = (cenv.chunk t.nchunk).map Chunk.mbuf ∧
      t'.msg = t.msg ∧ t'.msgId = t.msgId ∧ t'.passed = t.passed) t :=
  Total.get (Total.modify (Total.pure ⟨rfl, rfl, rfl, rfl⟩))

/-- `msg_get` on a connection. -/
lemma connMsgGet_next (cenv : Recv.Env σ size) (t : Recv.St σ) :
    Total (Recv.msgGet cenv) (fun r t' =>
      r = (if cenv.msgAlloc t.msgId then some (t.msgId + 1) else none) ∧ t'.passed = t.passed ∧
        (∀ n ≤ t.msgId, t'.msg n = t.msg n) ∧
        (r.isSome → t'.msg (t.msgId + 1) = { state := cenv.state₀ })) t := by
  refine Total.get (Total.ite (fun h => ?_) fun h => ?_)
  · refine Total.modify (Total.modify
      (Total.pure ⟨(if_pos h).symm, rfl, fun n hn => ?_, fun _ => ?_⟩))
    · exact modMsg_of_ne (Nat.ne_of_lt (Nat.lt_succ_of_le hn))
    · exact modMsg_same
  · exact Total.pure ⟨(if_neg h).symm, rfl, fun _ _ => rfl, nofun⟩

/-- Nothing is written. -/
lemma write_nil (b : Mbuf) : b.write [] = b := by
  simp [Mbuf.write]

/-- `mbuf_copy` within the memory of an mbuf copies the same bytes on both levels. -/
lemma mbufCopy_same (nbuf b : Mbuf) (pos n : ℕ) (s : St σ) :
    Post id (mbufCopy nbuf (b.slice pos n))
      (fun r s' => r = Recv.mbufCopy nbuf b pos n ∧ s' = s) s := by
  have hcopy : b.slice pos n ≠ [] → Recv.mbufCopy nbuf b pos n = nbuf.write (b.slice pos n) := by
    intro hne
    refine if_neg fun h0 => hne ?_
    rw [h0, Mbuf.slice, List.take_zero]
  unfold mbufCopy
  refine Post.ite (fun hnil => Post.pure ⟨?_, rfl⟩) fun hne => ?_
  · unfold Recv.mbufCopy
    rw [hnil, write_nil, ite_self]
  · exact Post.ite (fun _ => Post.throw) fun _ => Post.pure ⟨(hcopy hne).symm, rfl⟩

/-- **`mbuf_split`** returns the same mbuf and leaves the same message. -/
theorem Same.mbufSplit (h : Same cenv env m t s) (pos : ℕ) :
    Post id (mbufSplit env pos) (fun r s' => s'.passed = s.passed ∧
      Total (Recv.mbufSplit cenv m pos) (fun r' t' => r' = r ∧ s'.msg = t'.msg m ∧
        t'.msgId = t.msgId ∧ t'.passed = t.passed) t) s := by
  refine Post.get ?_
  cases hlast : s.msg.mhdr.getLast? with
  | none => exact Post.throw
  | some b =>
    have hlast' : t.lastMbuf m = some b := by rw [Recv.St.lastMbuf, ← h.msg, hlast]
    refine Post.call (mbufGet_next env s).post fun r s₁ hr => ?_
    obtain ⟨rfl, hmsg, hpassed⟩ := hr
    cases hnext : nextMbuf env s with
    | none =>
      refine Post.pure ⟨hpassed, Total.get ?_⟩
      simp only [hlast']
      refine Total.bind (connMbufGet_next cenv t) ?_
      rintro r t' ⟨rfl, htmsg, htid, htpassed⟩
      rw [← h.mbuf, hnext]
      exact Total.pure ⟨rfl, by rw [hmsg, htmsg, h.msg], htid, htpassed⟩
    | some nbuf =>
      refine Post.call (mbufCopy_same nbuf b pos _ s₁) ?_
      rintro r s₂ ⟨rfl, rfl⟩
      refine Post.modify (Post.pure ⟨hpassed, Total.get ?_⟩)
      simp only [hlast']
      refine Total.bind (connMbufGet_next cenv t) ?_
      rintro r t' ⟨rfl, htmsg, htid, htpassed⟩
      rw [← h.mbuf, hnext]
      refine Total.modify (Total.pure ⟨rfl, ?_, htid, htpassed⟩)
      rw [modMsg_same, htmsg, ← h.msg, ← hmsg]

/-- **`msg_repair`** leaves the same message. -/
theorem Same.msgRepair (h : Same cenv env m t s) :
    Post id (msgRepair env) (fun status s' =>
      Total (Recv.msgRepair cenv m) (fun status' t' => status' = status ∧ s'.msg = t'.msg m) t)
      s := by
  refine Post.get (Post.call (h.mbufSplit _) fun r s₁ hr => ?_)
  obtain ⟨-, hsplit⟩ := hr
  rw [h.msg] at hsplit
  cases r with
  | none =>
    refine Post.pure (Total.get (Total.bind hsplit ?_))
    rintro r t₁ ⟨rfl, hmsg, -, -⟩
    exact Total.pure ⟨rfl, hmsg⟩
  | some nbuf =>
    refine Post.modify (Post.pure (Total.get (Total.bind hsplit ?_)))
    rintro r t₁ ⟨rfl, hmsg, -, -⟩
    refine Total.modify (Total.pure ⟨rfl, ?_⟩)
    rw [modMsg_same, ← hmsg]

/-- **`msg_parsed`** leaves the same message, and passes it on with the same next one.

**Proof sketch.** The two models run the same branches; the one with buffers has faults where the
mbuf may be missing, which the assumption excludes. -/
theorem Same.msgParsed (h : Same cenv env m t s) :
    Post id (msgParsed env) (fun status s' =>
      Total (Recv.msgParsed cenv m) (fun status' t' => status' = status ∧ s'.msg = t'.msg m ∧
        (status = .ok → s'.passed = s.passed ++ [(t'.msg m, t'.rmsg.map t'.msg)] ∧
          t'.passed = t.passed ++ [t'.msg m])) t) s := by
  refine Post.get ?_
  cases hlast : s.msg.mhdr.getLast? with
  | none => exact Post.throw
  | some b =>
    have hlast' : t.lastMbuf m = some b := by rw [Recv.St.lastMbuf, ← h.msg, hlast]
    refine Post.ite (fun hpos => ?_) fun hpos => ?_
    · refine Post.modify (Post.pure (Total.get ?_))
      simp only [hlast']
      rw [h.msg] at hpos
      refine Total.ite (fun _ => ?_) fun hne => absurd hpos hne
      refine Total.bind (recvDone_total m none) fun _ t' ht' => Total.pure ⟨rfl, ?_, fun _ => ?_⟩
      · rw [ht'.msg, h.msg]
      · rw [ht'.rmsg, ht'.msg, ht'.passed, h.msg]
        exact ⟨rfl, rfl⟩
    · refine Post.call (h.mbufSplit _) fun r s₁ hr => ?_
      obtain ⟨hpassed, hsplit⟩ := hr
      rw [h.msg] at hpos hsplit
      cases r with
      | none =>
        refine Post.pure (Total.get ?_)
        simp only [hlast']
        refine Total.ite (fun h => absurd h hpos) fun _ => Total.bind hsplit ?_
        rintro r t₁ ⟨rfl, hmsg, -, -⟩
        exact Total.pure ⟨rfl, hmsg, by simp⟩
      | some nbuf =>
        cases halloc : cenv.msgAlloc t.msgId with
        | false =>
          have hget : env.msgGet = none := by rw [h.msgGet, halloc]; rfl
          simp only [hget]
          refine Post.modify (Post.pure (Total.get ?_))
          simp only [hlast']
          refine Total.ite (fun h => absurd h hpos) fun _ => Total.bind hsplit ?_
          rintro r t₁ ⟨rfl, hmsg, hid, -⟩
          refine Total.bind (connMsgGet_next cenv t₁) ?_
          rintro r t₂ ⟨rfl, -, hold, -⟩
          rw [hid, halloc]
          exact Total.pure ⟨rfl, hmsg.trans (hold m (hid ▸ h.old)).symm, by simp⟩
        | true =>
          have hget : env.msgGet = some { state := cenv.state₀ } := by rw [h.msgGet, halloc]; rfl
          simp only [hget]
          refine Post.modify (Post.modify (Post.pure (Total.get ?_)))
          simp only [hlast']
          refine Total.ite (fun h => absurd h hpos) fun _ => Total.bind hsplit ?_
          rintro r t₁ ⟨rfl, hmsg, hid, htpassed⟩
          have hne : m ≠ t₁.msgId + 1 := Nat.ne_of_lt (Nat.lt_succ_of_le (hid ▸ h.old))
          refine Total.bind (connMsgGet_next cenv t₁) ?_
          rintro r t₂ ⟨rfl, hpassed₂, hold, hnew⟩
          rw [hid, halloc] at hnew ⊢
          replace hold := hold m (hid ▸ h.old)
          replace hnew := hnew rfl
          rw [hid] at hne
          refine Total.modify (Total.modify ?_)
          refine Total.bind (recvDone_total m _) fun _ t' ht' => Total.pure ⟨rfl, ?_, fun _ => ?_⟩
          · rw [ht'.msg, modMsg_same, modMsg_of_ne hne, hold, ← hmsg]
          · rw [ht'.rmsg, ht'.msg, ht'.passed, modMsg_same, modMsg_of_ne hne, hold, ← hmsg]
            simp only [Option.map_some]
            rw [modMsg_of_ne hne.symm, modMsg_same, hnew]
            exact ⟨by rw [← hpassed], by rw [← htpassed, ← hpassed₂]; rfl⟩

end Buffers

/-! ## The free lists -/

section FreeLists

variable {fl : FreeLists}

/-- **`_mbuf_get`** takes its mbuf from the free list or from the allocator. -/
theorem Buffers.mbufGetChunk_freeLists (env : Buffers.Env σ size) (s : Buffers.St σ)
    (hfl : fl.mbuf.free = s.freeMbufq.map Mbuf.start) :
    Total (Buffers.mbufGetChunk env) (fun r s' => ∃ fresh,
      r.map Mbuf.start = (fl.mbuf.get fresh).1 ∧
        (fl.mbufGet fresh).mbuf.free = s'.freeMbufq.map Mbuf.start) s := by
  refine Total.get ?_
  cases hfree : s.freeMbufq with
  | cons b rest =>
    rw [hfree, List.map_cons] at hfl
    refine Total.modify (Total.pure ⟨none, ?_, ?_⟩)
    · rw [Recycler.get_of_cons hfl]
      rfl
    · rw [FreeLists.mbufGet, Recycler.get_of_cons hfl]
  | nil =>
    rw [hfree, List.map_nil] at hfl
    refine Total.modify (Total.pure ⟨(env.chunk s.nalloc).map Chunk.addr, ?_, ?_⟩)
    · rw [Recycler.get_of_nil hfl]
      cases env.chunk s.nalloc <;> rfl
    · rw [FreeLists.mbufGet, Recycler.get_of_nil hfl]
      cases env.chunk s.nalloc <;> simp [hfl, hfree]

/-- `mbuf_put` puts it back. -/
lemma Buffers.mbufPut_freeLists (s : Buffers.St σ) (b : Mbuf)
    (hfl : fl.mbuf.free = s.freeMbufq.map Mbuf.start) :
    Total (Buffers.mbufPut b) (fun _ s' =>
      (fl.mbufPut b.start).mbuf.free = s'.freeMbufq.map Mbuf.start) s := by
  refine ⟨⟨⟩, _, rfl, ?_⟩
  simp [FreeLists.mbufPut, Recycler.put, hfl]

end FreeLists

end GfwProxy.Recv

namespace GfwProxy

section FreeLists

variable {env : Env} {h : Heap} {fl : FreeLists}

/-- The address of a message is the head of the free list or comes from the allocator. -/
lemma msgAddr_freeLists (hfl : fl.msg.free = h.freeMsgq) :
    After (msgAddr env) (fun r h' => ∃ fresh, r = (fl.msg.get fresh).1 ∧
      (fl.msg.get fresh).2.free = h'.freeMsgq) h := by
  unfold msgAddr
  refine After.readHeap ?_
  cases hfree : h.freeMsgq with
  | cons m rest =>
    rw [hfree] at hfl
    refine After.modHeap (After.pure ⟨none, ?_⟩)
    rw [Recycler.get_of_cons hfl]
    exact ⟨rfl, rfl⟩
  | nil =>
    rw [hfree] at hfl
    refine After.ask fun t => After.ite (fun _ => ?_) fun _ => ?_
    · refine After.readHeap (After.modHeap (After.pure ⟨some h.nextMsg, ?_⟩))
      rw [Recycler.get_of_nil hfl]
      exact ⟨rfl, hfl.trans hfree.symm⟩
    · refine After.pure ⟨none, ?_⟩
      rw [Recycler.get_of_nil hfl]
      exact ⟨rfl, hfl.trans hfree.symm⟩

/-- **`_msg_get`** of the proxy is that of the free lists. -/
theorem msgGet₀_freeLists (hfl : fl.msg.free = h.freeMsgq) :
    After (msgGet₀ env) (fun r h' => ∃ fresh keys,
      r = (if keys then (fl.msg.get fresh).1 else none) ∧
        (fl.msgGet fresh keys).msg.free = h'.freeMsgq) h := by
  have hget : ∀ fresh keys, (fl.msgGet fresh keys).msg.free = (fl.msg.get fresh).2.free := by
    intro fresh keys
    unfold FreeLists.msgGet
    split
    case h_1 msg heq => rw [heq]
    case h_2 m msg heq =>
      rw [heq]
      cases keys <;> rfl
  unfold msgGet₀
  refine After.call (msgAddr_freeLists hfl) ?_
  rintro r h₁ ⟨fresh, rfl, hfree⟩
  cases hr : (fl.msg.get fresh).1 with
  | none => exact After.pure ⟨fresh, true, hr.symm, (hget fresh true).trans hfree⟩
  | some m =>
    refine After.modHeap (After.ask fun t => After.ite (fun _ => ?_) fun _ => ?_)
    · exact After.modHeap (After.pure ⟨fresh, true, hr.symm, (hget fresh true).trans hfree⟩)
    · exact After.pure ⟨fresh, false, rfl, (hget fresh false).trans hfree⟩

/-- **`msg_put`** puts the message on the free list. -/
theorem msgPut_freeLists (m : MsgId) (hfl : fl.msg.free = h.freeMsgq) :
    (fl.msgPut m).msg.free = (h.msgPut m).freeMsgq := by
  have hmsg : ∀ (q : List Addr) (s : FreeLists), (FreeLists.putMbufs m q s).msg = s.msg := by
    intro q
    induction q with
    | nil => exact fun _ => rfl
    | cons b rest ih => exact fun s => ih _
  change m :: (FreeLists.putMbufs m (fl.mhdr m) fl).msg.free = m :: h.freeMsgq
  rw [hmsg, hfl]

/-- **`_conn_get`** of the proxy is that of the free lists. -/
theorem connGet₀_freeLists (hfl : fl.conn.free = h.freeConnq) :
    After (connGet₀ env) (fun r h' => ∃ fresh, r = (fl.conn.get fresh).1 ∧
      (fl.connGet fresh).conn.free = h'.freeConnq) h := by
  have haddr : After (connAddr env) (fun r h' => ∃ fresh, r = (fl.conn.get fresh).1 ∧
      (fl.connGet fresh).conn.free = h'.freeConnq) h := by
    unfold connAddr FreeLists.connGet
    refine After.readHeap ?_
    cases hfree : h.freeConnq with
    | cons c rest =>
      rw [hfree] at hfl
      refine After.modHeap (After.pure ⟨none, ?_⟩)
      rw [Recycler.get_of_cons hfl]
      exact ⟨rfl, rfl⟩
    | nil =>
      rw [hfree] at hfl
      refine After.ask fun t => After.ite (fun _ => ?_) fun _ => ?_
      · refine After.readHeap (After.modHeap (After.pure ⟨some h.nextConn, ?_⟩))
        rw [Recycler.get_of_nil hfl]
        exact ⟨rfl, hfl.trans hfree.symm⟩
      · refine After.pure ⟨none, ?_⟩
        rw [Recycler.get_of_nil hfl]
        exact ⟨rfl, hfl.trans hfree.symm⟩
  unfold connGet₀
  refine After.call haddr ?_
  rintro r h₁ ⟨fresh, hr, hfree⟩
  cases r with
  | none => exact After.pure ⟨fresh, hr, hfree⟩
  | some c => exact After.modConn (After.pure ⟨fresh, hr, hfree⟩)

/-- **`conn_put`** puts the connection on the free list. -/
theorem connPut_freeLists (c : ConnId) (hfl : fl.conn.free = h.freeConnq) :
    (fl.connPut c).conn.free = (h.connPut c).freeConnq := by
  change c :: fl.conn.free = c :: h.freeConnq
  rw [hfl]

end FreeLists

/-! ## The messages of the proxy -/

section Level

variable {σ : Type} {size : ℕ} {env : Env} {renv : Recv.Env σ size} {h : Heap} {t : Recv.St σ}
  {c : ConnId} {m : MsgId} {k : Recv.MsgId}

/-- Connection `c` receives message `m` as a connection of the byte level receives message `k`. -/
structure Level (h : Heap) (c : ConnId) (m : MsgId) (t : Recv.St σ) (k : Recv.MsgId) : Prop where
  mlen : (h.msg m).mlen = (t.msg k).mlen
  eof : (h.conn c).eof = t.eof
  recvReady : (h.conn c).recvReady = t.recvReady

/-- An answer to a `read` of at most `msize` bytes, without the bytes. -/
def received (msize : ℕ) : Recv.Read → Received
  | .data bytes => .data (min msize bytes.length) (decide (bytes.length < msize))
  | .eintr => .again
  | .again => .again
  | .failed _ => .failed

/-- **`conn_recv`** returns the same status and as many bytes. -/
theorem Level.connRecv (hl : Level h c m t k) (msize : ℕ)
    (hrecv : ∀ i, env.recv i = received msize (Recv.nextRead t.input).1) :
    After (connRecv env c) (fun r h' => Exec.Total (Recv.connRecv msize)
      (fun r' t' => r'.1 = r.1 ∧ r'.2.length = r.2 ∧ t'.msg = t.msg ∧ Level h' c m t' k) t) h := by
  obtain ⟨hmlen, heof, hready⟩ := hl
  unfold GfwProxy.connRecv
  refine After.ask fun i => ?_
  rw [hrecv i]
  cases hread : Recv.nextRead t.input with
  | mk r input =>
    cases r with
    | data bytes =>
      refine After.modConn (After.pure (Exec.Total.get ?_))
      simp only [hread]
      refine Exec.Total.modify (Exec.Total.pure ⟨rfl, by simp, rfl, hmlen, ?_, ?_⟩)
      · cases bytes <;> simp [Heap.modConn, heof]
      · have hshort : (!decide (bytes.length < msize)) = decide (msize ≤ bytes.length) := by
          rw [← decide_not, decide_eq_decide]
          exact Nat.not_lt
        simp [Heap.modConn, hready, hshort]
    | eintr | again =>
      refine After.modConn (After.pure (Exec.Total.get ?_))
      simp only [hread]
      exact Exec.Total.modify (Exec.Total.pure ⟨rfl, rfl, rfl, hmlen, by simpa [Heap.modConn], by
        simp [Heap.modConn]⟩)
    | failed errno =>
      refine After.modConn ?_
      refine After.call (R := fun _ h' => Level h' c m
        { t with input := input, recvReady := false, err := errno } k)
        (After.getErrno fun e => After.last (After.modConn (After.pure ⟨hmlen, ?_, ?_⟩))) ?_
      · simpa [Heap.modConn]
      · simp [Heap.modConn]
      · intro _ h' hl'
        refine After.pure (Exec.Total.get ?_)
        simp only [hread]
        exact Exec.Total.modify (Exec.Total.pure ⟨rfl, rfl, rfl, hl'⟩)

/-- The bytes that were read are counted. -/
theorem Level.grow (hl : Level h c m t k) {bytes : List UInt8} (mhdr : List Recv.Mbuf)
    (hlt : (t.msg k).mlen + bytes.length < 2 ^ 32) :
    Level (h.modMsg m fun x => { x with mlen := x.mlen + bytes.length }) c m
      (t.modMsg k fun x => { x with mhdr := mhdr, mlen := u32 (x.mlen + u32 bytes.length) }) k := by
  refine ⟨?_, hl.eof, hl.recvReady⟩
  rw [Recv.modMsg_same]
  simp only [Heap.modMsg, Function.update_self, hl.mlen]
  unfold u32
  omega

/-- **`msg_repair`** changes neither the bytes of a message nor their number, and nothing that the
proxy sees. -/
theorem Level.msgRepair (hl : Level h c m t k) (halloc : renv.NoFailure) {b : Recv.Mbuf}
    (hok : (t.msg k).Ok size) (hb : t.lastMbuf k = some b) (hp : b.pos ≤ (t.msg k).pos)
    (hlast : (t.msg k).pos ≤ b.last) :
    After (msgResult env c m .repair) (fun status h' => status = .ok →
      Exec.Total (Recv.msgRepair renv k) (fun status' t' => status' = .ok ∧
        (t'.msg k).bytes = (t.msg k).bytes ∧ Level h' c m t' k) t) h := by
  refine After.ask fun i => After.ite (fun _ => After.pure fun _ => ?_) fun _ => After.pure nofun
  refine Exec.Total.get (Exec.Total.bind (Recv.mbufSplit_total halloc hb _) ?_)
  rintro r t₁ ⟨chunk, rfl, hedits, -, hmsg⟩
  obtain ⟨-, -, -, hbytes⟩ := Recv.Msg.split chunk hok.mbufs hb hp hlast
  refine Exec.Total.modify (Exec.Total.pure ⟨rfl, ?_, ?_, ?_, ?_⟩)
  · rw [Recv.modMsg_same, hmsg]
    exact (Recv.Msg.insert_bytes _ _).trans hbytes
  · rw [Recv.modMsg_same, hmsg]
    exact hl.mlen
  · exact hl.eof.trans hedits.eof.symm
  · exact hl.recvReady.trans hedits.ready.symm

/-- What `msg_parsed` makes of a message that ends with `front`, with `left` bytes behind it: the
bytes and the length of what is passed on, and the length of the next message. -/
structure Cut (front : List UInt8) (left : ℕ) (bytes : List UInt8) (mlen : ℕ) (next : Option ℕ) :
    Prop where
  bytes : bytes = front
  mlen : mlen = front.length
  next : next = if left = 0 then none else some left

/-- **`msg_parsed`** of the byte level cuts the message at `pos`. -/
theorem msgParsed_cut (halloc : renv.NoFailure) {b : Recv.Mbuf} (hok : (t.msg k).Ok size)
    (hk : k ≤ t.msgId) (hb : t.lastMbuf k = some b) (hp : b.pos ≤ (t.msg k).pos)
    (hlast : (t.msg k).pos ≤ b.last) :
    Exec.Total (Recv.msgParsed renv k) (fun status t' => status = .ok ∧
      Cut ((t.msg k).upTo (t.msg k).pos).bytes (b.last - (t.msg k).pos) (t'.msg k).bytes
        (t'.msg k).mlen (t'.rmsg.map fun n => (t'.msg n).mlen)) t := by
  refine (Recv.msgParsed_parted halloc hb hk).mono ?_
  rintro status t' ⟨rfl, nmsg, t₁, hparted, hpassed⟩
  refine ⟨rfl, ?_⟩
  rw [hpassed.rmsg, hpassed.msg]
  cases hparted with
  | whole hpos =>
    obtain ⟨front, hfront⟩ := List.getLast?_eq_some_iff.mp hb
    have hsame : (t.msg k).upTo (t.msg k).pos = t.msg k := by
      rw [Recv.Msg.upTo, hfront, List.modifyLast_concat, hpos, ← hfront, ← hpos]
    rw [hsame]
    exact ⟨rfl, hok.mlen, by simp [hpos]⟩
  | @split _ nbuf chunk hpos hnbuf hedits hid hold hnew =>
    obtain ⟨-, -, -, hcount, hlen, hmlen⟩ := hok.parts chunk hb hp hlast hnbuf
    refine ⟨by rw [hold]; rfl, by rw [hold]; exact hmlen, ?_⟩
    rw [if_neg (by omega), Option.map_some, hnew, ← hcount, ← hlen]

/-- `msg_parsed` of the proxy, before the handler is called: the next message, if there are bytes
behind this one, unless there is no memory for it. -/
def nextMsg (env : Env) (m : MsgId) (left : ℕ) : Core (Option (Option MsgId)) := do
  if left = 0 then return some none
  else if ← ask env.alloc then
    let msg ← getMsg m
    match ← msgGet env (← deref msg.owner) msg.request with
    | none => return none
    | some nmsg =>
      modMsg nmsg fun x => { x with mlen := left }
      return some (some nmsg)
  else return none

/-- The handler is called with the next message. -/
lemma msgParsed_eq (env : Env) (c : ConnId) (m : MsgId) (left : ℕ) :
    msgParsed env c m left = (do
      match ← nextMsg env m left with
      | none => return .enomem
      | some nmsg =>
        connRecvDone env c m nmsg
        return .ok) := by
  unfold msgParsed nextMsg
  split_ifs
  · rfl
  · unfold msgSplit
    rw [bind_assoc]
    congr 1
    funext ok
    cases ok with
    | false => rfl
    | true =>
      change (getMsg m >>= _) = (getMsg m >>= _) >>= _
      rw [bind_assoc]
      congr 1
      funext msg
      rw [bind_assoc]
      congr 1
      funext c'
      rw [bind_assoc]
      congr 1
      funext r
      cases r <;> rfl

/-- The address of a message that is allocated, which changes no other message. -/
lemma msgGet_fresh (c : ConnId) (request : Bool) (h : Heap) :
    After (msgGet env c request) (fun r h' => ∀ n, r = some n →
      (n ∈ h.freeMsgq ∨ n = h.nextMsg) ∧ ∀ x, x ≠ n → h'.msg x = h.msg x) h := by
  unfold msgGet
  refine After.call (Retry.msgGet₀_facts h) fun r h₁ hr => ?_
  cases r with
  | none => exact After.pure nofun
  | some n =>
    refine After.getConn (After.modMsg (After.pure ?_))
    rintro _ ⟨⟩
    have hfresh := hr n rfl
    exact ⟨hfresh.address, fun x hx =>
      (Function.update_of_ne hx _ h₁.msg).trans (hfresh.others x hx)⟩

/-- Before that, message `m` gets what the parser says, and the next message its length. -/
theorem nextMsg_cut (p : Parsed) (left : ℕ) (hm : m ∉ h.freeMsgq) (hlt : m < h.nextMsg) :
    After (do setParsed m p; nextMsg env m left) (fun r h' => ∀ nmsg, r = some nmsg →
      Cut (unsent p.mhdr) left (unsent (h'.msg m).mhdr) (h'.msg m).mlen
        (nmsg.map fun n => (h'.msg n).mlen)) h := by
  refine After.modMsg ?_
  unfold nextMsg
  refine After.ite (fun h0 => After.pure ?_) fun h0 => ?_
  · rintro nmsg ⟨⟩
    simp only [Heap.modMsg, Function.update_self]
    exact ⟨rfl, rfl, (if_pos h0).symm⟩
  · refine After.ask fun i => After.ite (fun _ => ?_) fun _ => After.pure (by simp)
    refine After.getMsg (After.deref fun c' _ => ?_)
    refine After.call (msgGet_fresh c' _ _) fun r h₁ hr => ?_
    cases r with
    | none => exact After.pure (by simp)
    | some n =>
      refine After.modMsg (After.pure ?_)
      rintro nmsg ⟨⟩
      obtain ⟨haddr, hother⟩ := hr n rfl
      have hne : m ≠ n := by
        rintro rfl
        exact haddr.elim hm hlt.ne
      have hmsg : (h₁.modMsg n fun x => { x with mlen := left }).msg m = h₁.msg m :=
        Function.update_of_ne hne ..
      rw [hmsg, hother m hne]
      simp only [Heap.modMsg, Function.update_self, Option.map_some]
      exact ⟨rfl, rfl, (if_neg h0).symm⟩

/-! ### The loop of `msg_recv_chain` -/

/-- The body of the parse loop of `msg_recv_chain`. -/
def parseNext (env : Env) (c : ConnId) (m : MsgId) : Core (MsgId ⊕ Rstatus) := do
  let status ← msgParse env c m
  if status ≠ .ok then return .inr status
  else
    match ← connRecvNext env c false with
    | none => return .inr .ok
    | some nmsg => return if nmsg = m then .inr .ok else .inl nmsg

/-- **The loop of `msg_recv_chain`** is that of the byte level, around `msg_parse` and `recv_next`
of the proxy. -/
theorem msgParseLoop_eq (env : Env) (c : ConnId) (fuel : ℕ) (m : MsgId) :
    msgParseLoop env c fuel m = Exec.loop .fuel (parseNext env c) fuel m := by
  induction fuel generalizing m with
  | zero => rfl
  | succ fuel ih =>
    rw [Exec.loop]
    change (msgParse env c m >>= _) = (msgParse env c m >>= _) >>= _
    rw [bind_assoc]
    congr 1
    funext status
    by_cases hs : status = .ok
    · subst hs
      change (connRecvNext env c false >>= _) = (connRecvNext env c false >>= _) >>= _
      rw [bind_assoc]
      congr 1
      funext r
      cases r with
      | none => rfl
      | some nmsg =>
        by_cases hn : nmsg = m
        · simp [hn]
        · simp [hn, ih]
    · simp [hs]

/-- **`msg_recv_chain`** of the proxy, with the loop of the byte level. -/
theorem msgRecvChain_eq (env : Env) (c : ConnId) (m : MsgId) :
    msgRecvChain env c m = (do
      if ← ask env.alloc then
        let r ← connRecv env c
        match r.1 with
        | .ok =>
          modMsg m fun x => { x with mlen := x.mlen + r.2 }
          Exec.loop .fuel (parseNext env c) env.fuel m
        | .eagain => return .ok
        | _ => return .error
      else return .enomem) := by
  unfold msgRecvChain
  congr 1
  funext ok
  cases ok with
  | false => rfl
  | true =>
    change (connRecv env c >>= _) = (connRecv env c >>= _)
    congr 1
    funext r
    obtain ⟨status, n⟩ := r
    cases status with
    | ok => simp only [msgParseLoop_eq]
    | _ => rfl

end Level

end GfwProxy
