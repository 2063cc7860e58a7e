import Mathlib.Order.Nat
import GfwProxy.Recv.Chain

set_option autoImplicit false

/-!
# The receive path conserves the byte stream

Whatever the parser and the `recv_done` handler do, and however the stream is cut by the reads and
by the ends of the mbufs: the bytes of the messages that are passed on, followed by those of the
message that is being received, are the bytes read.

## Main definitions

* `GfwProxy.Recv.Mbuf.Ok`, `GfwProxy.Recv.Msg.Ok` — well-formed mbufs and messages.
* `GfwProxy.Recv.Conforms` — what is asked of a parser.
* `GfwProxy.Recv.Conserved` — the invariant.
* `GfwProxy.Recv.RecvRun` — the rounds of `msg_recv` over a sequence of reads.

## Main results

* `GfwProxy.Recv.RecvRun.bytes_conserved` — the invariant holds in every run, and the next round
  returns.
* `GfwProxy.Recv.msgRecv_run` — `msg_recv` makes such rounds.
-/

namespace GfwProxy.Recv

variable {σ : Type} {size : ℕ}

/-! ## Mbufs -/

/-- An mbuf over a chunk with room for `size` bytes. -/
structure Mbuf.Ok (size : ℕ) (b : Mbuf) : Prop where
  start_le : b.start ≤ b.pos
  pos_le : b.pos ≤ b.last
  last_le : b.last ≤ b.bound
  bound : b.bound = b.start + size
  mem : b.mem.length = size

/-- A new mbuf is well formed. -/
lemma Chunk.mbuf_ok (c : Chunk size) : c.mbuf.Ok size :=
  ⟨le_rfl, le_rfl, Nat.le_add_right _ _, rfl, c.length_mem⟩

/-- A new mbuf has no bytes. -/
@[simp] lemma Chunk.mbuf_bytes (c : Chunk size) : c.mbuf.bytes = [] := by
  simp [Mbuf.bytes, Mbuf.slice, Chunk.mbuf]

variable {b : Mbuf} {p : ℕ}

/-- The length of a part of an mbuf up to its end. -/
lemma Mbuf.Ok.length_slice (h : b.Ok size) (hp : b.pos ≤ p) (hl : p ≤ b.last) :
    (b.slice p (b.last - p)).length = b.last - p := by
  have hstart := h.start_le
  have hlast := h.last_le
  have hbound := h.bound
  rw [Mbuf.slice, List.length_take, List.length_drop, h.mem]
  omega

/-- The number of bytes of an mbuf. -/
lemma Mbuf.Ok.length_bytes (h : b.Ok size) : b.bytes.length = b.last - b.pos :=
  h.length_slice le_rfl h.pos_le

/-- What is written at the end of an mbuf with room for it is appended to its bytes. -/
lemma Mbuf.Ok.write (h : b.Ok size) {bytes : List UInt8} (hroom : b.last + bytes.length ≤ b.bound) :
    (b.write bytes).Ok size ∧ (b.write bytes).bytes = b.bytes ++ bytes := by
  obtain ⟨hstart, hpos, hlast, hbound, hmem⟩ := h
  constructor
  · refine ⟨hstart, hpos.trans (Nat.le_add_right _ _), hroom, hbound, ?_⟩
    simp only [Mbuf.write, List.length_append, List.length_take, List.length_drop]
    omega
  · have hhead : ((b.mem.take (b.last - b.start)).drop (b.pos - b.start)) = b.bytes := by
      rw [Mbuf.bytes, Mbuf.slice, List.drop_take]
      congr 1
      omega
    have hlen : b.bytes.length = b.last - b.pos :=
      Mbuf.Ok.length_bytes ⟨hstart, hpos, hlast, hbound, hmem⟩
    have hpre : b.pos - b.start ≤ (b.mem.take (b.last - b.start)).length := by
      rw [List.length_take]
      omega
    have hcount : b.last + bytes.length - b.pos = (b.bytes ++ bytes).length := by
      rw [List.length_append]
      omega
    change List.take _ (List.drop _ _) = _
    change ((b.mem.take (b.last - b.start) ++ bytes ++ b.mem.drop _).drop (b.pos - b.start)).take
      (b.last + bytes.length - b.pos) = _
    rw [List.append_assoc, List.drop_append_of_le_length hpre, hhead, ← List.append_assoc, hcount,
      List.take_left]

/-- The bytes up to `p` and those from `p` on. -/
lemma Mbuf.Ok.split (h : b.Ok size) (hp : b.pos ≤ p) (hl : p ≤ b.last) :
    Mbuf.Ok size { b with last := p } ∧
      Mbuf.bytes { b with last := p } ++ b.slice p (b.last - p) = b.bytes := by
  obtain ⟨hstart, hpos, hlast, hbound, hmem⟩ := h
  refine ⟨⟨hstart, hp, hl.trans hlast, hbound, hmem⟩, ?_⟩
  have hcount : b.last - b.pos = (p - b.pos) + (b.last - p) := by omega
  have hdrop : p - b.start = (b.pos - b.start) + (p - b.pos) := by omega
  change (b.mem.drop (b.pos - b.start)).take (p - b.pos) ++ (b.mem.drop (p - b.start)).take
    (b.last - p) = (b.mem.drop (b.pos - b.start)).take (b.last - b.pos)
  rw [hcount, List.take_add, hdrop, List.drop_drop]

/-- The copy of the end of an mbuf into a new one. -/
lemma mbufCopy_slice (c : Chunk size) (h : b.Ok size) (hp : b.pos ≤ p) (hl : p ≤ b.last) :
    (mbufCopy c.mbuf b p (b.last - p)).Ok size ∧
      (mbufCopy c.mbuf b p (b.last - p)).bytes = b.slice p (b.last - p) := by
  unfold mbufCopy
  split_ifs with hzero
  · refine ⟨c.mbuf_ok, ?_⟩
    rw [hzero, c.mbuf_bytes, Mbuf.slice, List.take_zero]
  · have hlen := h.length_slice hp hl
    have hstart := h.start_le
    have hlast := h.last_le
    have hbound := h.bound
    have hroom : c.mbuf.last + (b.slice p (b.last - p)).length ≤ c.mbuf.bound := by
      change c.addr + _ ≤ c.addr + size
      omega
    obtain ⟨hok, hbytes⟩ := c.mbuf_ok.write hroom
    exact ⟨hok, by simpa using hbytes⟩

/-- `mbuf_length` does not wrap for so few bytes. -/
lemma mbufLength_eq (h : b.Ok size) (hlt : b.bytes.length < 2 ^ 32) :
    mbufLength b = b.bytes.length := by
  rw [h.length_bytes] at hlt ⊢
  exact Nat.mod_eq_of_lt hlt

/-- The room of an mbuf ends at its bound. -/
lemma mbufSize_le (b : Mbuf) (h : b.Ok size) : b.last + mbufSize b ≤ b.bound := by
  have hle : mbufSize b ≤ b.bound - b.last := Nat.mod_le _ _
  have hlast := h.last_le
  omega

/-! ## Messages -/

/-- A message whose mbufs are well formed, with its length in `mlen`. -/
structure Msg.Ok (size : ℕ) (m : Msg σ) : Prop where
  mbufs : ∀ b ∈ m.mhdr, b.Ok size
  mlen : m.mlen = m.bytes.length
  bytes_lt : m.bytes.length < 2 ^ 32

/-- A message as the parser finds it: `pos` is in the last mbuf. -/
structure Msg.Ready (size : ℕ) (b : Mbuf) (m : Msg σ) : Prop where
  ok : m.Ok size
  last : m.mhdr.getLast? = some b
  pos_le : b.pos ≤ m.pos
  le_last : m.pos ≤ b.last

/-- What is asked of a parser: if a message is complete, it sets `pos` behind what was consumed
before; if bytes are missing, it sets `pos` to the end; if the rest is to be moved to an mbuf of its
own, it leaves `pos` in the last mbuf. -/
structure Conforms (size : ℕ) (parser : Msg σ → Parsed σ) : Prop where
  ok : ∀ {m b}, m.Ready size b → m.mlen ≠ 0 → (parser m).result = .ok →
    m.pos < (parser m).pos ∧ (parser m).pos ≤ b.last
  again : ∀ {m b}, m.Ready size b → m.mlen ≠ 0 → (parser m).result = .again →
    (parser m).pos = b.last
  repair : ∀ {m b}, m.Ready size b → m.mlen ≠ 0 → (parser m).result = .repair →
    b.pos ≤ (parser m).pos ∧ (parser m).pos ≤ b.last

/-- The message without the bytes of its last mbuf from `p` on. -/
def Msg.upTo (p : ℕ) (m : Msg σ) : Msg σ :=
  { m with mhdr := m.mhdr.modifyLast fun b => { b with last := p } }

/-- An mbuf is inserted at the end of a message. -/
@[simp] lemma Msg.insert_bytes (m : Msg σ) (b : Mbuf) :
    (m.insert b).bytes = m.bytes ++ b.bytes := by
  simp [Msg.bytes, Msg.insert]

variable {m : Msg σ}

/-- The two messages that `mbuf_split` makes of the mbufs of a message. -/
lemma Msg.split (c : Chunk size) (hm : ∀ b ∈ m.mhdr, b.Ok size) (hb : m.mhdr.getLast? = some b)
    (hp : b.pos ≤ p) (hl : p ≤ b.last) :
    (∀ x ∈ (m.upTo p).mhdr, x.Ok size) ∧ (mbufCopy c.mbuf b p (b.last - p)).Ok size ∧
      (mbufCopy c.mbuf b p (b.last - p)).bytes.length = b.last - p ∧
      (m.upTo p).bytes ++ (mbufCopy c.mbuf b p (b.last - p)).bytes = m.bytes := by
  obtain ⟨front, hfront⟩ := List.getLast?_eq_some_iff.mp hb
  have hok : b.Ok size := hm b (List.mem_of_getLast? hb)
  obtain ⟨hcut, hbytes⟩ := hok.split hp hl
  obtain ⟨hcopy, hslice⟩ := mbufCopy_slice c hok hp hl
  have hmhdr : (m.upTo p).mhdr = front ++ [{ b with last := p }] := by
    rw [Msg.upTo, hfront, List.modifyLast_concat]
  refine ⟨?_, hcopy, hslice ▸ hok.length_slice hp hl, ?_⟩
  · intro x hx
    rw [hmhdr, List.mem_append, List.mem_singleton] at hx
    rcases hx with hx | rfl
    · exact hm x (hfront ▸ List.mem_append_left _ hx)
    · exact hcut
  · rw [Msg.bytes, hmhdr, Msg.bytes, hfront, hslice]
    simp only [List.flatMap_append, List.flatMap_singleton, List.append_assoc, hbytes]

/-! ## The state -/

/-- The bytes of the messages that were passed to `recv_done`. -/
def St.passedBytes (s : St σ) : List UInt8 := s.passed.flatMap Msg.bytes

/-- The bytes of the message that is being received. -/
def St.pending (s : St σ) : List UInt8 :=
  match s.rmsg with
  | none => []
  | some m => (s.msg m).bytes

/-- **The invariant** of the receive path. -/
structure Conserved (size : ℕ) (s : St σ) : Prop where
  stream : s.eof = false → s.passedBytes ++ s.pending = s.received
  passed : ∀ x ∈ s.passed, x.Ok size
  rmsg : ∀ m, s.rmsg = some m → (s.msg m).Ok size
  fresh : ∀ m, s.rmsg = some m → m ≤ s.msgId

/-- The number of bytes of a list of answers. -/
def inputBytes : List Read → ℕ
  | [] => 0
  | .data bytes :: rest => bytes.length + inputBytes rest
  | _ :: rest => inputBytes rest

/-- What a step that does not read leaves as it is. -/
structure Unread (s s' : St σ) : Prop where
  received : s'.received = s.received
  input : s'.input = s.input
  eof : s'.eof = false → s.eof = false
  ready : s'.recvReady = true → s.recvReady = true

/-- What a step that changes only messages leaves as it is. -/
structure Edits (s s' : St σ) : Prop where
  received : s'.received = s.received
  input : s'.input = s.input
  eof : s'.eof = s.eof
  ready : s'.recvReady = s.recvReady
  rmsg : s'.rmsg = s.rmsg
  passed : s'.passed = s.passed

variable {s s' s'' t : St σ} {m n : MsgId} {f : Msg σ → Msg σ} {env : Env σ size}

/-- Nothing has happened. -/
lemma Unread.refl (s : St σ) : Unread s s := ⟨rfl, rfl, id, id⟩

/-- Steps without a read compose. -/
lemma Unread.trans (h : Unread s s') (h' : Unread s' s'') : Unread s s'' :=
  ⟨h'.received.trans h.received, h'.input.trans h.input, fun he => h.eof (h'.eof he),
    fun hr => h.ready (h'.ready hr)⟩

/-- An edit reads nothing. -/
lemma Edits.unread (h : Edits s s') : Unread s s' :=
  ⟨h.received, h.input, fun he => h.eof.symm.trans he, fun hr => h.ready.symm.trans hr⟩

/-- Nothing has changed. -/
lemma Edits.refl (s : St σ) : Edits s s := ⟨rfl, rfl, rfl, rfl, rfl, rfl⟩

/-- Edits compose. -/
lemma Edits.trans (h : Edits s s') (h' : Edits s' s'') : Edits s s'' :=
  ⟨h'.received.trans h.received, h'.input.trans h.input, h'.eof.trans h.eof,
    h'.ready.trans h.ready, h'.rmsg.trans h.rmsg, h'.passed.trans h.passed⟩

/-- A change of a message is an edit. -/
lemma Edits.modMsg (s : St σ) (m : MsgId) (f : Msg σ → Msg σ) : Edits s (s.modMsg m f) :=
  ⟨rfl, rfl, rfl, rfl, rfl, rfl⟩

/-- The message that was changed. -/
@[simp] lemma modMsg_same : (s.modMsg m f).msg m = f (s.msg m) := if_pos rfl

/-- The other messages are kept. -/
lemma modMsg_of_ne (h : n ≠ m) : (s.modMsg m f).msg n = s.msg n := if_neg h

/-- No allocation fails. -/
structure Env.NoFailure (env : Env σ size) : Prop where
  chunk : ∀ n, (env.chunk n).isSome
  msgAlloc : ∀ n, env.msgAlloc n = true

section

variable (halloc : env.NoFailure)

include halloc

/-- `mbuf_get` returns a new mbuf. -/
lemma mbufGet_total : Exec.Total (mbufGet env) (fun r s' => ∃ c : Chunk size, r = some c.mbuf ∧
    Edits s s' ∧ s'.msg = s.msg ∧ s'.msgId = s.msgId) s := by
  obtain ⟨c, hc⟩ := Option.isSome_iff_exists.mp (halloc.chunk s.nchunk)
  refine Exec.Total.get (Exec.Total.modify
    (Exec.Total.pure ⟨c, ?_, ⟨rfl, rfl, rfl, rfl, rfl, rfl⟩, rfl, rfl⟩))
  rw [hc]
  rfl

/-- `mbuf_split` returns an mbuf with what comes behind the position. -/
lemma mbufSplit_total {b : Mbuf} (hb : s.lastMbuf m = some b) (p : ℕ) :
    Exec.Total (mbufSplit env m p) (fun r s' => ∃ c : Chunk size,
      r = some (mbufCopy c.mbuf b p (b.last - p)) ∧ Edits s s' ∧ s'.msgId = s.msgId ∧
        s'.msg m = (s.msg m).upTo p) s := by
  refine Exec.Total.get ?_
  simp only [hb]
  refine Exec.Total.bind (mbufGet_total halloc) ?_
  rintro r s₁ ⟨c, rfl, hedits, hmsg, hid⟩
  refine Exec.Total.modify (Exec.Total.pure ⟨c, rfl, hedits.trans (.modMsg _ _ _), hid, ?_⟩)
  rw [modMsg_same, hmsg]
  rfl

/-- `msg_get` returns a new message. -/
lemma msgGet_total : Exec.Total (msgGet env) (fun r s' => r = some (s.msgId + 1) ∧ Edits s s' ∧
    s'.msgId = s.msgId + 1 ∧ s'.msg (s.msgId + 1) = { state := env.state₀ } ∧
      ∀ n ≤ s.msgId, s'.msg n = s.msg n) s := by
  refine Exec.Total.get ?_
  rw [if_pos (halloc.msgAlloc s.msgId)]
  refine Exec.Total.modify (Exec.Total.modify (Exec.Total.pure ?_))
  refine ⟨rfl, ⟨rfl, rfl, rfl, rfl, rfl, rfl⟩, rfl, modMsg_same, fun n hn => ?_⟩
  exact modMsg_of_ne (Nat.ne_of_lt (Nat.lt_succ_of_le hn))

end

/-- What `recv_done` does to the connection. -/
structure Passed (m : MsgId) (nmsg : Option MsgId) (s s' : St σ) : Prop where
  rmsg : s'.rmsg = nmsg
  passed : s'.passed = s.passed ++ [s.msg m]
  msg : s'.msg = s.msg
  msgId : s'.msgId = s.msgId
  unread : Unread s s'

/-- `recv_done` passes the message on, and starts with the next one. -/
lemma recvDone_total (m : MsgId) (nmsg : Option MsgId) :
    Exec.Total (recvDone env m nmsg) (fun _ s' => Passed m nmsg s s') s := by
  refine Exec.Total.get ⟨⟨⟩, _, rfl, rfl, rfl, rfl, rfl, rfl, rfl, fun heof => ?_, fun hready => ?_⟩
  · exact (Bool.or_eq_false_iff.mp heof).1
  · exact (Bool.and_eq_true_iff.mp hready).1

/-! ## Parsing -/

/-- The bytes of the last mbuf of a message, as a measure of what is left to parse. -/
def lastLength (m : MsgId) (s : St σ) : ℕ := ((s.lastMbuf m).elim 0 fun b => b.last - b.pos)

/-- What one call of `msg_parse` for message `m` does. -/
structure Parses (size : ℕ) (m : MsgId) (s : St σ) (status : Rstatus) (s' : St σ) : Prop where
  conserved : Conserved size s'
  unread : Unread s s'
  next : status = .ok → ∀ n, s'.rmsg = some n →
    (∃ b, (s'.msg n).Ready size b) ∧ (n ≠ m → lastLength n s' < lastLength m s)

/-- A part of the message that is being received is passed on, and the rest is the next message. -/
lemma Passed.parses {nmsg : Option MsgId} (h : Passed m nmsg t s')
    (hc : Conserved size s) (hm : s.rmsg = some m) (hedits : Edits s t)
    (hok : (t.msg m).Ok size)
    (hbytes : (t.msg m).bytes ++ nmsg.elim [] (fun n => (t.msg n).bytes) = (s.msg m).bytes)
    (hnext : ∀ n, nmsg = some n →
      n ≤ t.msgId ∧ (∃ b, (t.msg n).Ready size b) ∧ lastLength n t < lastLength m s) :
    Parses size m s .ok s' := by
  have hunread' := hedits.unread.trans h.unread
  have hlast : ∀ n, lastLength n s' = lastLength n t := fun n => by
    rw [lastLength, lastLength, St.lastMbuf, St.lastMbuf, h.msg]
  refine ⟨⟨fun heof => ?_, fun x hx => ?_, fun n hn => ?_, fun n hn => ?_⟩, hunread',
    fun _ n hn => ?_⟩
  · have hpending : s'.pending = nmsg.elim [] fun n => (t.msg n).bytes := by
      rw [St.pending, h.rmsg, h.msg]
      cases nmsg <;> rfl
    rw [hunread'.received, ← hc.stream (hunread'.eof heof), hpending]
    simp only [St.passedBytes, St.pending, h.passed, hedits.passed, hm, List.flatMap_append,
      List.flatMap_singleton, List.append_assoc, hbytes]
  · rw [h.passed, hedits.passed, List.mem_append, List.mem_singleton] at hx
    rcases hx with hx | rfl
    · exact hc.passed x hx
    · exact hok
  · obtain ⟨-, ⟨b, hb⟩, -⟩ := hnext n (h.rmsg.symm.trans hn)
    rw [h.msg]
    exact hb.ok
  · rw [h.msgId]
    exact (hnext n (h.rmsg.symm.trans hn)).1
  · obtain ⟨-, hready, hlt⟩ := hnext n (h.rmsg.symm.trans hn)
    rw [h.msg, hlast]
    exact ⟨hready, fun _ => hlt⟩

variable {b : Mbuf}

/-- The lengths that `msg_parsed` gives to the two parts of a message. -/
lemma split_mlen {front back : List UInt8} (hlt : (front ++ back).length < 2 ^ 32) :
    u32 ((front ++ back).length + (2 ^ 32 - back.length)) = front.length := by
  rw [List.length_append] at hlt ⊢
  unfold u32
  omega

/-- What `msg_parsed` makes of message `m` with the last mbuf `b`, before the handler is called:
there is nothing behind the message, or it becomes the next message, in an mbuf of its own. -/
inductive Parted (env : Env σ size) (m : MsgId) (b : Mbuf) (s : St σ) : Option MsgId → St σ → Prop
  | whole (hpos : (s.msg m).pos = b.last) : Parted env m b s none s
  | split {t : St σ} {nbuf : Mbuf} (c : Chunk size) (hpos : (s.msg m).pos ≠ b.last)
      (hnbuf : nbuf = mbufCopy c.mbuf b (s.msg m).pos (b.last - (s.msg m).pos))
      (hedits : Edits s t) (hid : t.msgId = s.msgId + 1)
      (hold : t.msg m = { (s.msg m).upTo (s.msg m).pos with
        mlen := u32 ((s.msg m).mlen + (2 ^ 32 - mbufLength nbuf)) })
      (hnew : t.msg (s.msgId + 1) =
        { mhdr := [nbuf], pos := nbuf.pos, mlen := mbufLength nbuf, state := env.state₀ }) :
      Parted env m b s (some (s.msgId + 1)) t

/-- `msg_parsed` passes the first part on. -/
lemma msgParsed_parted (halloc : env.NoFailure) (hb : s.lastMbuf m = some b)
    (hm : m ≤ s.msgId) : Exec.Total (msgParsed env m) (fun status s' => status = .ok ∧
      ∃ nmsg t, Parted env m b s nmsg t ∧ Passed m nmsg t s') s := by
  refine Exec.Total.get ?_
  simp only [hb]
  refine Exec.Total.ite (fun hpos => ?_) fun hpos => ?_
  · refine Exec.Total.bind (recvDone_total m none) fun _ s' hs' => ?_
    exact Exec.Total.pure ⟨rfl, none, s, .whole hpos, hs'⟩
  · refine Exec.Total.bind (mbufSplit_total halloc hb _) ?_
    rintro r s₁ ⟨c, rfl, hedits₁, hid₁, hmsg₁⟩
    refine Exec.Total.bind (msgGet_total halloc) ?_
    rintro r s₂ ⟨rfl, hedits₂, hid₂, hnew, hold⟩
    rw [hid₁] at hid₂ hnew hold ⊢
    have hfresh : m ≠ s.msgId + 1 := Nat.ne_of_lt (Nat.lt_succ_of_le hm)
    refine Exec.Total.modify (Exec.Total.modify ?_)
    refine Exec.Total.bind (recvDone_total m _) fun _ s' hs' => Exec.Total.pure ⟨rfl, _, _, ?_, hs'⟩
    refine .split c hpos rfl (((hedits₁.trans hedits₂).trans (.modMsg _ _ _)).trans (.modMsg _ _ _))
      hid₂ ?_ ?_
    · rw [modMsg_same, modMsg_of_ne hfresh, hold m hm, hmsg₁]
      rfl
    · rw [modMsg_of_ne hfresh.symm, modMsg_same, hnew]
      rfl

/-- The two parts of a message: their mbufs, their bytes and their lengths. -/
lemma Msg.Ok.parts {x : Msg σ} (hok : x.Ok size) (c : Chunk size) (hb : x.mhdr.getLast? = some b)
    (hp : b.pos ≤ p) (hl : p ≤ b.last) {nbuf : Mbuf}
    (hnbuf : nbuf = mbufCopy c.mbuf b p (b.last - p)) :
    (∀ y ∈ (x.upTo p).mhdr, y.Ok size) ∧ nbuf.Ok size ∧
      (x.upTo p).bytes ++ nbuf.bytes = x.bytes ∧ nbuf.bytes.length = b.last - p ∧
      mbufLength nbuf = nbuf.bytes.length ∧
      u32 (x.mlen + (2 ^ 32 - mbufLength nbuf)) = (x.upTo p).bytes.length := by
  obtain ⟨hcut, hcopy, hcount, hbytes⟩ := Msg.split c hok.mbufs hb hp hl
  rw [← hnbuf] at hcopy hcount hbytes
  have hlt := hok.bytes_lt
  rw [← hbytes] at hlt
  have hparts := hlt
  rw [List.length_append] at hparts
  have hlen := mbufLength_eq hcopy (by omega)
  refine ⟨hcut, hcopy, hbytes, hcount, hlen, ?_⟩
  rw [hlen, hok.mlen, ← hbytes, split_mlen hlt]

/-- `msg_parsed` cuts the message at the position of the parser and passes it on. -/
lemma msgParsed_total (halloc : env.NoFailure) (hc : Conserved size s) (hm : s.rmsg = some m)
    (hb : s.lastMbuf m = some b) (hp : b.pos < (s.msg m).pos) (hl : (s.msg m).pos ≤ b.last) :
    Exec.Total (msgParsed env m) (Parses size m s) s := by
  have hok := hc.rmsg m hm
  refine (msgParsed_parted halloc hb (hc.fresh m hm)).mono ?_
  rintro status s' ⟨rfl, nmsg, t, hparted, hs'⟩
  cases hparted with
  | whole => exact hs'.parses hc hm (.refl s) hok (List.append_nil _) nofun
  | @split _ nbuf c hpos hnbuf hedits hid hold hnew =>
    obtain ⟨hcut, hcopy, hbytes, hcount, hlen, hmlen⟩ := hok.parts c hb hp.le hl hnbuf
    have hlt := hok.bytes_lt
    rw [← hbytes, List.length_append] at hlt
    refine hs'.parses hc hm hedits ?ok ?bytes ?next
    case ok =>
      rw [hold]
      exact ⟨hcut, hmlen, by change (Msg.upTo _ _).bytes.length < _; omega⟩
    case bytes =>
      rw [hold, Option.elim_some, hnew, ← hbytes]
      simp [Msg.bytes]
    case next =>
      rintro n ⟨⟩
      refine ⟨hid.ge, ⟨nbuf, ?_⟩, ?_⟩
      · rw [hnew]
        refine ⟨⟨by simpa using hcopy, ?_, ?_⟩, rfl, le_rfl, hcopy.pos_le⟩
        · simpa [Msg.bytes] using hlen
        · simpa [Msg.bytes] using Nat.lt_of_le_of_lt (Nat.le_add_left _ _) hlt
      · have hnext := hcopy.length_bytes
        rw [lastLength, lastLength, St.lastMbuf, hnew, hb]
        change nbuf.last - nbuf.pos < b.last - b.pos
        omega

/-- A change of the message that is being received which keeps its bytes. -/
lemma Conserved.edit (hc : Conserved size s) (hm : s.rmsg = some m) (he : Edits s t)
    (hid : s.msgId ≤ t.msgId) (hok : (t.msg m).Ok size)
    (hbytes : (t.msg m).bytes = (s.msg m).bytes) : Conserved size t := by
  have hrmsg := he.rmsg.trans hm
  have honly : ∀ n, t.rmsg = some n → m = n := fun n hn => Option.some.inj (hrmsg.symm.trans hn)
  refine ⟨fun heof => ?_, fun x hx => hc.passed x (he.passed ▸ hx), fun n hn => ?_, fun n hn => ?_⟩
  · rw [he.received, ← hc.stream (he.eof.symm.trans heof)]
    simp only [St.passedBytes, St.pending, he.passed, hrmsg, hm, hbytes]
  · exact honly n hn ▸ hok
  · exact honly n hn ▸ (hc.fresh m hm).trans hid

/-- `msg_repair` moves what the parser has not read to a new mbuf. -/
lemma msgRepair_total (halloc : env.NoFailure) (hc : Conserved size s) (hm : s.rmsg = some m)
    (hb : s.lastMbuf m = some b) (hp : b.pos ≤ (s.msg m).pos) (hl : (s.msg m).pos ≤ b.last) :
    Exec.Total (msgRepair env m) (Parses size m s) s := by
  have hok := hc.rmsg m hm
  refine Exec.Total.get (Exec.Total.bind (mbufSplit_total halloc hb _) ?_)
  rintro r s₁ ⟨c, rfl, hedits, hid, hmsg⟩
  obtain ⟨hcut, hcopy, -, hbytes⟩ := Msg.split c hok.mbufs hb hp hl
  generalize mbufCopy c.mbuf b (s.msg m).pos (b.last - (s.msg m).pos) = nbuf at *
  refine Exec.Total.modify (Exec.Total.pure ?_)
  have hmsg' : (s₁.modMsg m fun x => { x.insert nbuf with pos := nbuf.pos }).msg m =
      { ((s.msg m).upTo (s.msg m).pos).insert nbuf with pos := nbuf.pos } := by
    rw [modMsg_same, hmsg]
  have hsame : Msg.bytes { ((s.msg m).upTo (s.msg m).pos).insert nbuf with pos := nbuf.pos } =
      (s.msg m).bytes := (Msg.insert_bytes _ _).trans hbytes
  have hok' : Msg.Ok size { ((s.msg m).upTo (s.msg m).pos).insert nbuf with pos := nbuf.pos } := by
    refine ⟨fun x hx => ?_, ?_, ?_⟩
    · rcases List.mem_append.mp hx with hx | hx
      · exact hcut x hx
      · rw [List.mem_singleton.mp hx]
        exact hcopy
    · rw [hsame]
      exact hok.mlen
    · rw [hsame]
      exact hok.bytes_lt
  have he := hedits.trans (Edits.modMsg s₁ m fun x => { x.insert nbuf with pos := nbuf.pos })
  refine ⟨hc.edit hm he hid.ge (hmsg' ▸ hok') (by rw [hmsg', hsame]), he.unread, fun _ n hn => ?_⟩
  obtain rfl := Option.some.inj (hm.symm.trans (he.rmsg.symm.trans hn))
  refine ⟨⟨nbuf, ?_⟩, fun h => absurd rfl h⟩
  rw [hmsg']
  exact ⟨hok', List.getLast?_concat, le_rfl, hcopy.pos_le⟩

/-- An edit may come before the parse. -/
lemma Parses.of_edits {status : Rstatus} (h : Parses size m t status s') (he : Edits s t)
    (hlast : lastLength m t = lastLength m s) : Parses size m s status s' :=
  ⟨h.conserved, he.unread.trans h.unread, hlast ▸ h.next⟩

/-- **One call of `msg_parse`.**

**Proof sketch.** One case for each result of the parser: a message that is complete is passed on,
one that cannot go on is moved to a new mbuf, and one that is not complete is read on. -/
theorem msgParse_total (halloc : env.NoFailure) (hparser : Conforms size env.parser)
    (hc : Conserved size s) (hm : s.rmsg = some m) (hb : (s.msg m).Ready size b) :
    Exec.Total (msgParse env m) (Parses size m s) s := by
  refine Exec.Total.get (Exec.Total.ite (fun _ => ?_) fun hne => ?_)
  · refine Exec.Total.bind (recvDone_total m none) fun _ s' hs' => Exec.Total.pure ?_
    exact hs'.parses hc hm (.refl s) hb.ok (List.append_nil _) nofun
  refine Exec.Total.modify (Exec.Total.bind (R := Parses size m s) ?_ ?_)
  · -- the result of the parser
    generalize hparsed : env.parser (s.msg m) = parsed
    have he := Edits.modMsg s m fun x => { x with pos := parsed.pos, state := parsed.state }
    have hmsg : (s.modMsg m fun x => { x with pos := parsed.pos, state := parsed.state }).msg m =
        { s.msg m with pos := parsed.pos, state := parsed.state } := modMsg_same
    have hid : (s.modMsg m fun x => { x with pos := parsed.pos, state := parsed.state }).msgId =
        s.msgId := rfl
    have hok : Msg.Ok size { s.msg m with pos := parsed.pos, state := parsed.state } :=
      ⟨hb.ok.mbufs, hb.ok.mlen, hb.ok.bytes_lt⟩
    generalize (s.modMsg m fun x => { x with pos := parsed.pos, state := parsed.state }) = t at *
    have hct := hc.edit hm he hid.ge (hmsg ▸ hok) (by rw [hmsg]; rfl)
    have hlast : t.lastMbuf m = some b := by
      rw [St.lastMbuf, hmsg]
      exact hb.last
    have hlength : lastLength m t = lastLength m s := by
      rw [lastLength, lastLength, hlast, St.lastMbuf, hb.last]
    refine Exec.Total.mono ?_ fun status s' (h : Parses size m t status s') => h.of_edits he hlength
    have htm := he.rmsg.trans hm
    have hpos : (t.msg m).pos = (env.parser (s.msg m)).pos := by rw [hmsg, hparsed]
    cases hresult : parsed.result with
    | ok =>
      obtain ⟨hlt, hle⟩ := hparser.ok hb hne (hparsed ▸ hresult)
      rw [← hpos] at hlt hle
      exact msgParsed_total halloc hct htm hlast (Nat.lt_of_le_of_lt hb.pos_le hlt) hle
    | error errno =>
      refine Exec.Total.modify (Exec.Total.pure ⟨?_, ⟨rfl, rfl, id, id⟩, nofun⟩)
      exact ⟨hct.stream, hct.passed, hct.rmsg, hct.fresh⟩
    | repair =>
      obtain ⟨hge, hle⟩ := hparser.repair hb hne (hparsed ▸ hresult)
      rw [← hpos] at hge hle
      exact msgRepair_total halloc hct htm hlast hge hle
    | again =>
      have hend := hparser.again hb hne (hparsed ▸ hresult)
      rw [← hpos] at hend
      refine Exec.Total.pure ⟨hct, .refl t, fun _ n hn => ?_⟩
      obtain rfl := Option.some.inj (htm.symm.trans hn)
      refine ⟨⟨b, hmsg ▸ hok, hlast, ?_, hend.le⟩, fun h => absurd rfl h⟩
      rw [hend]
      exact (hb.ok.mbufs b (List.mem_of_getLast? hb.last)).pos_le
  · intro status s' h
    refine Exec.Total.get (Exec.Total.pure ?_)
    split
    · exact ⟨h.conserved, h.unread, nofun⟩
    · exact h

/-! ## Receiving -/

/-- The message that is being received, if there is one, is as the parser finds it, or it has no
mbuf. -/
def Rests (size : ℕ) (s : St σ) : Prop :=
  ∀ m, s.rmsg = some m → (s.msg m).mhdr = [] ∨ ∃ b, (s.msg m).Ready size b

/-- What `recv_next` does: without a message at the end of the stream or if none is to be allocated,
else with the one that is being received. -/
structure Next (size : ℕ) (alloc : Bool) (s : St σ) (r : Option MsgId) (s' : St σ) : Prop where
  conserved : Conserved size s'
  received : s'.received = s.received
  input : s'.input = s.input
  ready : s'.recvReady = s.recvReady
  rmsg : s'.rmsg = r
  eof : r ≠ none → s'.eof = false
  msg : ∀ m, r = some m → s.rmsg = some m ∧ s' = s ∨ alloc = true ∧ (s'.msg m).mhdr = []

/-- `recv_next` of either kind of connection returns a message, if it is to allocate one. -/
lemma recvNextOr_total (halloc : env.NoFailure) (hc : Conserved size s) (idle alloc : Bool) :
    Exec.Total (recvNextOr env idle alloc) (Next size alloc s) s := by
  refine Exec.Total.get (Exec.Total.ite (fun heof => ?_) fun heof => ?_)
  · refine Exec.Total.modify
      (Exec.Total.pure ⟨?_, rfl, rfl, rfl, rfl, fun h => absurd rfl h, nofun⟩)
    refine ⟨fun h => ?_, hc.passed, nofun, nofun⟩
    exact absurd heof (Bool.eq_false_iff.mp h)
  have heof := Bool.eq_false_iff.mpr heof
  cases hrmsg : s.rmsg with
  | some m =>
    refine Exec.Total.pure ⟨hc, rfl, rfl, rfl, hrmsg, fun _ => heof, ?_⟩
    rintro _ ⟨⟩
    exact .inl ⟨hrmsg, rfl⟩
  | none =>
    refine Exec.Total.ite (fun halloc' => ?_) fun _ => ?_
    · refine Exec.Total.bind (msgGet_total halloc) ?_
      rintro r s₁ ⟨rfl, he, hid, hnew, -⟩
      refine Exec.Total.modify (Exec.Total.pure ⟨?_, he.received, he.input, he.ready, rfl, ?_, ?_⟩)
      · have hok : Msg.Ok size ({ state := env.state₀ } : Msg σ) := ⟨nofun, rfl, Nat.two_pow_pos 32⟩
        have hstream := hc.stream heof
        rw [St.pending, hrmsg, List.append_nil] at hstream
        refine ⟨fun _ => ?_, ?_, ?_, ?_⟩
        · simp only [St.passedBytes, St.pending, he.passed, he.received, hnew, ← hstream]
          exact List.append_nil _
        · rw [he.passed]
          exact hc.passed
        · rintro _ ⟨⟩
          rw [hnew]
          exact hok
        · rintro _ ⟨⟩
          exact hid.ge
      · exact fun _ => he.eof.trans heof
      · rintro _ ⟨⟩
        exact .inr ⟨halloc', by rw [hnew]⟩
    · exact Exec.Total.pure ⟨hc, rfl, rfl, rfl, hrmsg, fun h => absurd rfl h, nofun⟩

/-- `recv_next` keeps the invariant. -/
lemma recvNext_total (halloc : env.NoFailure) (hc : Conserved size s) (alloc : Bool) :
    Exec.Total (recvNext env alloc) (Next size alloc s) s := by
  refine Exec.Total.ite (fun _ => ?_) fun _ => ?_
  · exact Exec.Total.get (recvNextOr_total halloc hc _ alloc)
  · exact recvNextOr_total halloc hc true alloc

/-- Message `m` is being received and can be parsed. -/
structure Receiving (size : ℕ) (m : MsgId) (s : St σ) : Prop where
  conserved : Conserved size s
  rmsg : s.rmsg = some m
  ready : ∃ b, (s.msg m).Ready size b

/-- What the loop of `msg_recv_chain` leaves. -/
structure Left (size : ℕ) (s : St σ) (status : Rstatus) (s' : St σ) : Prop where
  conserved : Conserved size s'
  received : s'.received = s.received
  input : s'.input = s.input
  ready : s'.recvReady = true → s.recvReady = true
  rests : status = .ok → Rests size s'

/-- **One round of the loop of `msg_recv_chain`**: the loop goes on with fewer bytes in the last
mbuf, or it is left. -/
theorem parseNext_total (halloc : env.NoFailure) (hparser : Conforms size env.parser)
    (h : Receiving size m s) :
    Exec.Total (parseNext env m) (fun r s' => Sum.rec
      (fun n => (Receiving size n s' ∧ Unread s s') ∧ lastLength n s' < lastLength m s)
      (fun status => Left size s status s') r) s := by
  obtain ⟨hc, hm, b, hb⟩ := h
  refine Exec.Total.bind (msgParse_total halloc hparser hc hm hb) fun status s₁ h₁ => ?_
  refine Exec.Total.ite (fun hne => ?_) fun hok => ?_
  · exact Exec.Total.pure ⟨h₁.conserved, h₁.unread.received, h₁.unread.input, h₁.unread.ready,
      fun h => absurd h hne⟩
  have hnext := h₁.next (not_not.mp hok)
  have hunread := h₁.unread
  refine Exec.Total.bind (recvNext_total halloc h₁.conserved false) fun r s₂ h₂ => ?_
  cases r with
  | none =>
    refine Exec.Total.pure ⟨h₂.conserved, h₂.received.trans hunread.received,
      h₂.input.trans hunread.input, fun h => hunread.ready (h₂.ready.symm.trans h),
        fun _ n hn => ?_⟩
    rw [h₂.rmsg] at hn
    cases hn
  | some n =>
    -- the message is not a new one
    obtain ⟨hn, rfl⟩ := (h₂.msg n rfl).resolve_right fun h => Bool.false_ne_true h.1
    obtain ⟨hready, hlt⟩ := hnext n hn
    refine Exec.Total.pure ?_
    split
    case isTrue =>
      refine ⟨h₁.conserved, hunread.received, hunread.input, hunread.ready, fun _ n' hn' => .inr ?_⟩
      obtain rfl := Option.some.inj (hn.symm.trans hn')
      exact hready
    case isFalse hne => exact ⟨⟨⟨h₁.conserved, hn, hready⟩, hunread⟩, hlt hne⟩

/-- **The loop of `msg_recv_chain` terminates**, in at most as many rounds as an mbuf has bytes. -/
theorem parseLoop_total (halloc : env.NoFailure) (hparser : Conforms size env.parser)
    (h : Receiving size m s) {fuel : ℕ} (hfuel : size < fuel) :
    Exec.Total (Exec.loop .fuel (parseNext env) fuel m) (Left size s) s := by
  have hlength : lastLength m s ≤ size := by
    obtain ⟨-, -, b, hb⟩ := h
    obtain ⟨hstart, -, hlast, hbound, -⟩ := hb.ok.mbufs b (List.mem_of_getLast? hb.last)
    have heq : lastLength m s = b.last - b.pos := by
      rw [lastLength, St.lastMbuf, hb.last]
      rfl
    omega
  refine Exec.Total.loop (I := fun n t => Receiving size n t ∧ Unread s t)
    (μ := lastLength) ?_ fuel m s ⟨h, .refl s⟩ (Nat.lt_of_le_of_lt hlength hfuel)
  rintro n t ⟨ht, hunread⟩
  refine (parseNext_total halloc hparser ht).mono fun r t' hr => ?_
  cases r with
  | inl n' => exact ⟨⟨hr.1.1, hunread.trans hr.1.2⟩, hr.2⟩
  | inr status =>
    exact ⟨hr.conserved, hr.received.trans hunread.received, hr.input.trans hunread.input,
      fun hready => hunread.ready (hr.ready hready), hr.rests⟩

/-- Bytes are written to the last mbuf of a message. -/
lemma Msg.Ready.append {m : Msg σ} (h : m.Ready size b) {bytes : List UInt8}
    (hroom : b.last + bytes.length ≤ b.bound) (hlt : (m.bytes ++ bytes).length < 2 ^ 32) :
    Msg.Ready size (b.write bytes) { m with
      mhdr := m.mhdr.modifyLast fun b => b.write bytes, mlen := u32 (m.mlen + u32 bytes.length) } ∧
    Msg.bytes { m with
      mhdr := m.mhdr.modifyLast fun b => b.write bytes
      mlen := u32 (m.mlen + u32 bytes.length) } = m.bytes ++ bytes := by
  obtain ⟨front, hfront⟩ := List.getLast?_eq_some_iff.mp h.last
  obtain ⟨hwrite, hbytes⟩ := (h.ok.mbufs b (List.mem_of_getLast? h.last)).write hroom
  have hmhdr : m.mhdr.modifyLast (fun b => b.write bytes) = front ++ [b.write bytes] := by
    rw [hfront, List.modifyLast_concat]
  have hsame : Msg.bytes { m with
      mhdr := m.mhdr.modifyLast fun b => b.write bytes
      mlen := u32 (m.mlen + u32 bytes.length) } = m.bytes ++ bytes := by
    rw [Msg.bytes, hmhdr, Msg.bytes, hfront]
    simp only [List.flatMap_append, List.flatMap_singleton, List.append_assoc, hbytes]
  refine ⟨⟨⟨fun x hx => ?_, ?_, ?_⟩, ?_, h.pos_le, h.le_last.trans (Nat.le_add_right _ _)⟩, hsame⟩
  · rw [hmhdr, List.mem_append, List.mem_singleton] at hx
    rcases hx with hx | rfl
    · exact h.ok.mbufs x (hfront ▸ List.mem_append_left _ hx)
    · exact hwrite
  · rw [hsame]
    rw [List.length_append] at hlt ⊢
    change u32 (m.mlen + u32 bytes.length) = _
    rw [h.ok.mlen]
    unfold u32
    omega
  · rwa [hsame]
  · rw [hmhdr, List.getLast?_concat]

/-- An empty mbuf at the end of a message. -/
lemma Msg.Ok.insert {m : Msg σ} (h : m.Ok size) (c : Chunk size) :
    Msg.Ready size c.mbuf { m.insert c.mbuf with pos := c.mbuf.pos } ∧
      Msg.bytes { m.insert c.mbuf with pos := c.mbuf.pos } = m.bytes := by
  have hsame : Msg.bytes { m.insert c.mbuf with pos := c.mbuf.pos } = m.bytes := by
    change (m.insert c.mbuf).bytes = m.bytes
    rw [Msg.insert_bytes, c.mbuf_bytes, List.append_nil]
  refine ⟨⟨⟨fun x hx => ?_, ?_, ?_⟩, List.getLast?_concat, le_rfl, c.mbuf_ok.pos_le⟩, hsame⟩
  · rcases List.mem_append.mp hx with hx | hx
    · exact h.mbufs x hx
    · rw [List.mem_singleton.mp hx]
      exact c.mbuf_ok
  · rw [hsame]
    exact h.mlen
  · rw [hsame]
    exact h.bytes_lt

/-- The read goes to the last mbuf of the message, or to a new one. -/
lemma recvMbuf_total (halloc : env.NoFailure) (hc : Conserved size s) (hm : s.rmsg = some m)
    (hrests : (s.msg m).mhdr = [] ∨ ∃ b, (s.msg m).Ready size b) :
    Exec.Total (recvMbuf env m) (fun r s' => ∃ b, r = some b ∧ Edits s s' ∧ Conserved size s' ∧
      (s'.msg m).Ready size b) s := by
  refine Exec.Total.get (Exec.Total.ite (fun _ => ?_) fun hfull => ?_)
  · refine Exec.Total.bind (mbufGet_total halloc) ?_
    rintro r s₁ ⟨c, rfl, he, hmsg, hid⟩
    obtain ⟨hready, hbytes⟩ := (hc.rmsg m hm).insert c
    have he' := he.trans (.modMsg s₁ m fun x => { x.insert c.mbuf with pos := c.mbuf.pos })
    have hmsg' : (s₁.modMsg m fun x => { x.insert c.mbuf with pos := c.mbuf.pos }).msg m =
        { (s.msg m).insert c.mbuf with pos := c.mbuf.pos } := by
      rw [modMsg_same, hmsg]
    refine Exec.Total.modify (Exec.Total.pure ⟨c.mbuf, rfl, he', ?_, hmsg' ▸ hready⟩)
    exact hc.edit hm he' hid.ge (hmsg' ▸ hready.ok) (hmsg' ▸ hbytes)
  · obtain ⟨b, hb⟩ : ∃ b, (s.msg m).Ready size b := by
      refine hrests.resolve_left fun hnil => hfull ?_
      rw [St.lastMbuf, hnil]
      rfl
    exact Exec.Total.pure ⟨b, hb.last, .refl s, hc, hb⟩

/-- The answers that are left, as a measure. -/
def inputLeft (input : List Read) : ℕ := inputBytes input + input.length

/-- What `conn_recv` reads. -/
structure Reads (msize : ℕ) (s : St σ) (r : Rstatus × List UInt8) (s' : St σ) : Prop where
  msg : s'.msg = s.msg
  msgId : s'.msgId = s.msgId
  rmsg : s'.rmsg = s.rmsg
  passed : s'.passed = s.passed
  received : s'.received = s.received ++ r.2
  le : r.2.length ≤ msize
  input : r.2.length + inputBytes s'.input = inputBytes s.input
  eof : s'.eof = false → s.eof = false
  failed : r.1 ≠ .ok → r.2 = []
  ready : s'.recvReady = true → inputLeft s'.input < inputLeft s.input

/-- The bytes of an answer. -/
def Read.bytes : Read → List UInt8
  | .data bytes => bytes
  | _ => []

/-- A read takes its bytes from the input, and only so many rounds are left. -/
lemma nextRead_bytes (input : List Read) :
    (nextRead input).1.bytes.length + inputBytes (nextRead input).2 = inputBytes input ∧
      ((nextRead input).1.bytes ≠ [] → (nextRead input).2.length < input.length) := by
  induction input with
  | nil => exact ⟨rfl, fun h => absurd rfl h⟩
  | cons r rest ih =>
    cases r with
    | eintr => exact ⟨ih.1, fun h => Nat.lt_succ_of_lt (ih.2 h)⟩
    | data bytes => exact ⟨rfl, fun _ => Nat.lt_succ_self _⟩
    | again => exact ⟨Nat.zero_add _, fun h => absurd rfl h⟩
    | failed errno => exact ⟨Nat.zero_add _, fun h => absurd rfl h⟩

/-- The answers that follow a read that has left some bytes. -/
lemma inputBytes_left (left : List UInt8) (input : List Read) :
    inputBytes (if left = [] then input else .data left :: input) = left.length + inputBytes input ∧
      (if left = [] then input else .data left :: input).length ≤ input.length + 1 := by
  split_ifs with h
  · subst h
    exact ⟨(Nat.zero_add _).symm, Nat.le_succ _⟩
  · exact ⟨rfl, le_rfl⟩

/-- `conn_recv` reads what the mbuf has room for. -/
lemma connRecv_total (msize : ℕ) : Exec.Total (connRecv msize) (Reads msize s) s := by
  obtain ⟨hbytes, hlength⟩ := nextRead_bytes s.input
  refine Exec.Total.get ?_
  generalize nextRead s.input = read at *
  obtain ⟨r, input⟩ := read
  -- the answers without any bytes
  have hnone : ∀ (s' : St σ) (status : Rstatus), s'.msg = s.msg → s'.msgId = s.msgId →
      s'.rmsg = s.rmsg → s'.passed = s.passed → s'.received = s.received → s'.eof = s.eof →
      s'.input = input → s'.recvReady = false → r.bytes = [] → Reads msize s (status, []) s' := by
    intro s' status hmsg hid hrmsg hpassed hreceived heof hinput hready hnil
    refine ⟨hmsg, hid, hrmsg, hpassed, ?_, Nat.zero_le _, ?_, fun h => heof.symm.trans h,
      fun _ => rfl, ?_⟩
    · rw [hreceived, List.append_nil]
    · rw [hinput, ← hbytes, hnil]
    · rw [hready]
      exact nofun
  cases r with
  | data bytes =>
    obtain ⟨hleft, hcount⟩ := inputBytes_left (bytes.drop msize) input
    have hsplit : (bytes.take msize).length + (bytes.drop msize).length = bytes.length := by
      rw [← List.length_append, List.take_append_drop]
    change bytes.length + inputBytes input = _ at hbytes
    refine Exec.Total.modify (Exec.Total.pure
      ⟨rfl, rfl, rfl, rfl, rfl, List.length_take_le _ _, ?_, ?_, fun h => absurd rfl h, ?_⟩)
    · change (bytes.take msize).length + _ = _
      dsimp only
      rw [hleft]
      omega
    · intro h
      exact (Bool.or_eq_false_iff.mp h).1
    · intro h
      have hne : bytes.take msize ≠ [] := of_decide_eq_true (Bool.and_eq_true_iff.mp h).2
      have hpos := List.length_pos_iff.mpr hne
      have hlt := hlength fun (hnil : bytes = []) => hne (by rw [hnil, List.take_nil])
      change inputBytes _ + List.length _ < inputBytes _ + _
      dsimp only at hlt ⊢
      rw [hleft]
      omega
  | failed errno =>
    exact Exec.Total.modify (Exec.Total.pure (hnone _ .error rfl rfl rfl rfl rfl rfl rfl rfl rfl))
  | eintr =>
    exact Exec.Total.modify (Exec.Total.pure (hnone _ .eagain rfl rfl rfl rfl rfl rfl rfl rfl rfl))
  | again =>
    exact Exec.Total.modify (Exec.Total.pure (hnone _ .eagain rfl rfl rfl rfl rfl rfl rfl rfl rfl))

/-- The connection between two rounds of `msg_recv`: `total` bytes were read or can still be. -/
structure Inv (size total : ℕ) (s : St σ) : Prop where
  conserved : Conserved size s
  rests : Rests size s
  total : s.received.length + inputBytes s.input = total

/-- What a round of `msg_recv` leaves. -/
structure After (size total : ℕ) (status : Rstatus) (s : St σ) : Prop where
  conserved : Conserved size s
  rests : status = .ok → Rests size s
  total : s.received.length + inputBytes s.input = total

/-- While the connection is ready, answers are used up. -/
def UsesInput (s s' : St σ) : Prop := s'.recvReady = true → inputLeft s'.input < inputLeft s.input

/-- What a parse has left is what holds after the round. -/
lemma Left.after {status : Rstatus} {total : ℕ} (h : Left size t status s')
    (htotal : t.received.length + inputBytes t.input = total) (hready : UsesInput s t) :
    After size total status s' ∧ UsesInput s s' :=
  ⟨⟨h.conserved, h.rests, by rw [h.received, h.input, htotal]⟩,
    fun hr => h.input ▸ hready (h.ready hr)⟩

/-- Bytes are read into the message that is being received. -/
lemma Conserved.append (hc : Conserved size s) (hm : s.rmsg = some m) (heof : s.eof = false)
    {bytes : List UInt8} (hrmsg : t.rmsg = some m) (hid : t.msgId = s.msgId)
    (hpassed : t.passed = s.passed) (hreceived : t.received = s.received ++ bytes)
    (hok : (t.msg m).Ok size) (hbytes : (t.msg m).bytes = (s.msg m).bytes ++ bytes) :
    Conserved size t := by
  have honly : ∀ n, t.rmsg = some n → m = n := fun n hn => Option.some.inj (hrmsg.symm.trans hn)
  refine ⟨fun _ => ?_, fun x hx => hc.passed x (hpassed ▸ hx), fun n hn => ?_, fun n hn => ?_⟩
  · rw [hreceived, ← hc.stream heof]
    simp only [St.passedBytes, St.pending, hpassed, hrmsg, hm, hbytes, List.append_assoc]
  · exact honly n hn ▸ hok
  · exact honly n hn ▸ hid ▸ hc.fresh m hm

/-- `msg_recv_chain` keeps the invariant, and returns with more fuel than an mbuf has bytes. -/
lemma msgRecvChain_total (halloc : env.NoFailure) (hparser : Conforms size env.parser) {total : ℕ}
    (htotal : total < 2 ^ 32) (h : Inv size total s) (hm : s.rmsg = some m) (heof : s.eof = false)
    {fuel : ℕ} (hfuel : size < fuel) :
    Exec.Total (msgRecvChain env fuel m)
      (fun status s' => After size total status s' ∧ UsesInput s s') s := by
  refine Exec.Total.bind (recvMbuf_total halloc h.conserved hm (h.rests m hm)) ?_
  rintro _ s₁ ⟨b, rfl, he₁, hc₁, hb⟩
  refine Exec.Total.bind (connRecv_total (mbufSize b)) ?_
  rintro ⟨status, bytes⟩ s₂ hread
  have hm₂ : s₂.rmsg = some m := hread.rmsg.trans (he₁.rmsg.trans hm)
  have hmsg₂ := hread.msg
  have hrests : Rests size s₂ := by
    intro n hn
    obtain rfl := Option.some.inj (hm₂.symm.trans hn)
    exact .inr ⟨b, hmsg₂ ▸ hb⟩
  have htotal₂ : s₂.received.length + inputBytes s₂.input = total := by
    have hinput := hread.input
    rw [hread.received, List.length_append, he₁.received, ← h.total, ← he₁.input]
    omega
  have hready₂ : UsesInput s s₂ :=
    fun hr => he₁.input ▸ hread.ready hr
  -- nothing is read
  have hfailed : ∀ status', status ≠ .ok → After size total status' s₂ ∧ UsesInput s s₂ := by
    intro status' hne
    refine ⟨⟨⟨fun heof₂ => ?_, ?_, ?_, ?_⟩, fun _ => hrests, htotal₂⟩, hready₂⟩
    · have hsame := hread.received
      rw [show bytes = [] from hread.failed hne, List.append_nil] at hsame
      rw [hsame, ← hc₁.stream (hread.eof heof₂)]
      simp only [St.passedBytes, St.pending, hread.passed, hread.rmsg, hmsg₂]
    · rw [hread.passed]
      exact hc₁.passed
    · rw [hread.rmsg, hmsg₂]
      exact hc₁.rmsg
    · rw [hread.rmsg, hread.msgId]
      exact hc₁.fresh
  cases status with
  | error => exact Exec.Total.pure (hfailed _ nofun)
  | eagain => exact Exec.Total.pure (hfailed _ nofun)
  | enomem => exact Exec.Total.pure (hfailed _ nofun)
  | ok =>
    have heof₁ := he₁.eof.trans heof
    have hstream : s₁.passedBytes ++ (s₁.msg m).bytes = s₁.received := by
      have hpending : s₁.pending = (s₁.msg m).bytes := by
        rw [St.pending, he₁.rmsg, hm]
      rw [← hpending]
      exact hc₁.stream heof₁
    have hlt : ((s₁.msg m).bytes ++ bytes).length < 2 ^ 32 := by
      have hlen := congrArg List.length hstream
      have hreceived := congrArg List.length hread.received
      simp only [List.length_append] at hlen hreceived ⊢
      omega
    have hsize := mbufSize_le b (hb.ok.mbufs b (List.mem_of_getLast? hb.last))
    obtain ⟨hready, hbytes⟩ := hb.append (Nat.le_trans (Nat.add_le_add_left hread.le _) hsize) hlt
    refine Exec.Total.modify ?_
    refine Exec.Total.mono (parseLoop_total halloc hparser ⟨?_, ?_, b.write bytes, ?_⟩ hfuel) ?_
    · refine hc₁.append (he₁.rmsg.trans hm) heof₁ hm₂ hread.msgId hread.passed hread.received ?_ ?_
      · rw [modMsg_same, hmsg₂]
        exact hready.ok
      · rw [modMsg_same, hmsg₂]
        exact hbytes
    · exact hm₂
    · rw [modMsg_same, hmsg₂]
      exact hready
    · exact fun status s' hl => hl.after htotal₂ hready₂

/-- **One round of `msg_recv`** returns, and keeps the invariant. -/
theorem msgRecvNext_total (halloc : env.NoFailure) (hparser : Conforms size env.parser) {total : ℕ}
    (htotal : total < 2 ^ 32) (h : Inv size total s) {fuel : ℕ} (hfuel : size < fuel) :
    Exec.Total (msgRecvNext env fuel ()) (fun r s' => Sum.rec
      (fun _ => Inv size total s' ∧ inputLeft s'.input < inputLeft s.input)
      (fun status => After size total status s') r) s := by
  refine Exec.Total.bind (recvNext_total halloc h.conserved true) fun r s₁ h₁ => ?_
  have htotal₁ : s₁.received.length + inputBytes s₁.input = total := by
    rw [h₁.received, h₁.input, h.total]
  cases r with
  | none =>
    refine Exec.Total.pure ⟨h₁.conserved, fun _ m hm => ?_, htotal₁⟩
    rw [h₁.rmsg] at hm
    cases hm
  | some m =>
    have hrests : Rests size s₁ := by
      intro n hn
      obtain rfl := Option.some.inj (h₁.rmsg.symm.trans hn)
      rcases h₁.msg m rfl with ⟨hm, rfl⟩ | ⟨-, hnil⟩
      · exact h.rests m hm
      · exact .inl hnil
    refine Exec.Total.bind (msgRecvChain_total halloc hparser htotal ⟨h₁.conserved, hrests, htotal₁⟩
      h₁.rmsg (h₁.eof nofun) hfuel) ?_
    rintro status s₂ ⟨h₂, huses⟩
    refine Exec.Total.ite (fun _ => Exec.Total.pure h₂) fun hok => ?_
    have hok := h₂.rests (not_not.mp hok)
    refine Exec.Total.get (Exec.Total.pure ?_)
    split
    case isTrue hready => exact ⟨⟨h₂.conserved, hok, h₂.total⟩, h₁.input ▸ huses hready⟩
    case isFalse => exact ⟨h₂.conserved, fun _ => hok, h₂.total⟩

/-- **`msg_recv` returns**, and keeps the invariant. -/
theorem msgRecv_total (halloc : env.NoFailure) (hparser : Conforms size env.parser) {total : ℕ}
    (htotal : total < 2 ^ 32) (h : Inv size total s) {rounds fuel : ℕ}
    (hrounds : inputLeft s.input < rounds) (hfuel : size < fuel) :
    Exec.Total (msgRecv env rounds fuel) (After size total) s := by
  have hc := h.conserved
  have hready : Inv size total { s with recvReady := true } :=
    ⟨⟨hc.stream, hc.passed, hc.rmsg, hc.fresh⟩, h.rests, h.total⟩
  refine Exec.Total.modify (Exec.Total.loop (I := fun _ t => Inv size total t)
    (μ := fun _ t => inputLeft t.input) ?_ rounds () _ hready hrounds)
  exact fun _ t ht => msgRecvNext_total halloc hparser htotal ht hfuel

/-! ## Runs -/

/-- A new connection with the answers `input` to its reads. -/
structure St.Init (input : List Read) (s : St σ) : Prop where
  rmsg : s.rmsg = none
  received : s.received = []
  passed : s.passed = []
  input : s.input = input

/-- The status of the last round of `msg_recv`. -/
def roundStatus : Unit ⊕ Rstatus → Rstatus
  | .inl _ => .ok
  | .inr status => status

/-- The rounds of `msg_recv` on a connection: each follows one that did not fail, and the connection
is ready for it or not. -/
inductive RecvRun (env : Env σ size) (fuel : ℕ) (s₀ : St σ) : Rstatus → St σ → Prop
  | start : RecvRun env fuel s₀ .ok s₀
  | round {s s' : St σ} (hr : RecvRun env fuel s₀ .ok s) (ready : Bool) {r : Unit ⊕ Rstatus}
    (h : msgRecvNext env fuel () { s with recvReady := ready } = .ok (r, s')) :
    RecvRun env fuel s₀ (roundStatus r) s'

/-- The flag `recv_ready` does not matter to the invariant. -/
lemma Inv.ready {total : ℕ} (h : Inv size total s) (ready : Bool) :
    Inv size total { s with recvReady := ready } := by
  have hc := h.conserved
  exact ⟨⟨hc.stream, hc.passed, hc.rmsg, hc.fresh⟩, h.rests, h.total⟩

variable {s₀ : St σ} {fuel : ℕ} {status : Rstatus} {input : List Read}

/-- **The invariant along a run.**

**Proof sketch.** Induction on the rounds.  The invariant holds again as long as the rounds succeed,
and the bytes that were read are still those of the messages when one does not. -/
theorem RecvRun.after (halloc : env.NoFailure) (hparser : Conforms size env.parser)
    (h₀ : s₀.Init input) (htotal : inputBytes input < 2 ^ 32) (hfuel : size < fuel)
    (hr : RecvRun env fuel s₀ status s) : After size (inputBytes input) status s := by
  induction hr with
  | start =>
    have hpending : s₀.pending = [] := by
      rw [St.pending, h₀.rmsg]
    refine ⟨⟨fun _ => ?_, ?_, ?_, ?_⟩, fun _ => ?_, ?_⟩
    · rw [St.passedBytes, h₀.passed, hpending, h₀.received]
      rfl
    · rw [h₀.passed]
      exact nofun
    · rw [h₀.rmsg]
      exact nofun
    · rw [h₀.rmsg]
      exact nofun
    · rw [Rests, h₀.rmsg]
      exact nofun
    · rw [h₀.received, h₀.input]
      exact Nat.zero_add _
  | round hr ready h ih =>
    have hinv : Inv size (inputBytes input) _ := ⟨ih.conserved, ih.rests rfl, ih.total⟩
    have hround := (msgRecvNext_total halloc hparser htotal (hinv.ready ready) hfuel).elim h
    rename_i r
    cases r with
    | inl _ => exact ⟨hround.1.conserved, fun _ => hround.1.rests, hround.1.total⟩
    | inr status => exact hround

/-- `msg_recv` makes rounds of a run. -/
theorem msgRecv_run {rounds : ℕ} (hr : RecvRun env fuel s₀ .ok s)
    (h : msgRecv env rounds fuel s = .ok (status, s')) : RecvRun env fuel s₀ status s' := by
  refine Exec.loop_ok (I := fun _ t => ∃ ready u, t = { u with recvReady := ready } ∧
    RecvRun env fuel s₀ .ok u) (S := RecvRun env fuel s₀) ?_ rounds () _ ⟨true, s, rfl, hr⟩ h
  rintro _ _ r t ⟨ready, u, rfl, hu⟩ hround
  have ht := hu.round ready hround
  cases r with
  | inl _ => exact ⟨t.recvReady, t, rfl, ht⟩
  | inr status => exact ht

/-- **The receive path conserves the byte stream**: in every run of rounds of `msg_recv`, before the
end of the stream, the messages passed to `recv_done` and the one that is being received have the
bytes read, in order; their lengths and the pointers of their mbufs are right; and unless the last
round failed, the next one returns.

**Proof sketch.** `msg_parse` passes the parsed part of the message on and keeps the rest, so that
the stream is conserved and fewer bytes are left in the last mbuf; hence the loop of
`msg_recv_chain` is left, with the message that is being received as the next read needs it. -/
theorem RecvRun.bytes_conserved (env : Env σ size) (halloc : env.NoFailure)
    (hparser : Conforms size env.parser) (h₀ : s₀.Init input) (htotal : inputBytes input < 2 ^ 32)
    (hfuel : size < fuel) (hr : RecvRun env fuel s₀ status s) :
    (s.eof = false → s.passedBytes ++ s.pending = s.received) ∧
      (∀ x ∈ s.passed, x.Ok size) ∧ (∀ m, s.rmsg = some m → (s.msg m).Ok size) ∧
      (status = .ok → ∀ ready, ∃ r s',
        msgRecvNext env fuel () { s with recvReady := ready } = .ok (r, s')) := by
  have h := hr.after halloc hparser h₀ htotal hfuel
  refine ⟨h.conserved.stream, h.conserved.passed, h.conserved.rmsg, fun hok ready => ?_⟩
  have hinv : Inv size (inputBytes input) s := ⟨h.conserved, h.rests hok, h.total⟩
  obtain ⟨r, s', hround, -⟩ := msgRecvNext_total halloc hparser htotal (hinv.ready ready) hfuel
  exact ⟨r, s', hround⟩

/-- A parser of lines: the message is complete with the first newline. -/
def lineParser (m : Msg Unit) : Parsed Unit :=
  match m.mhdr.getLast? with
  | none => { result := .again, pos := m.pos, state := () }
  | some b =>
    let rest := b.slice m.pos (b.last - m.pos)
    let i := rest.idxOf 10
    if i < rest.length then { result := .ok, pos := m.pos + i + 1, state := () }
    else { result := .again, pos := b.last, state := () }

/-- The parser of lines conforms. -/
lemma lineParser_conforms (size : ℕ) : Conforms size lineParser := by
  have hparser : ∀ {m : Msg Unit} {b}, m.Ready size b →
      (lineParser m).result = .ok ∧ m.pos < (lineParser m).pos ∧ (lineParser m).pos ≤ b.last ∨
        (lineParser m).result = .again ∧ (lineParser m).pos = b.last := by
    intro m b h
    unfold lineParser
    rw [h.last]
    dsimp only
    have hlen : (b.slice m.pos (b.last - m.pos)).length ≤ b.last - m.pos := List.length_take_le _ _
    split_ifs with hi
    · refine .inl ⟨rfl, ?_, ?_⟩
      · dsimp only
        omega
      · dsimp only
        omega
    · exact .inr ⟨rfl, rfl⟩
  refine ⟨fun h _ hok => ?_, fun h _ hagain => ?_, fun h _ hrepair => ?_⟩
  · rcases hparser h with ⟨-, hpos⟩ | ⟨hagain, -⟩
    · exact hpos
    · rw [hok] at hagain
      cases hagain
  · rcases hparser h with ⟨hok, -⟩ | ⟨-, hpos⟩
    · rw [hagain] at hok
      cases hok
    · exact hpos
  · rcases hparser h with ⟨hok, -⟩ | ⟨hagain, -⟩
    · rw [hrepair] at hok
      cases hok
    · rw [hrepair] at hagain
      cases hagain

/-- A server connection whose messages are lines, with mbufs of 64 bytes. -/
def lineEnv : Env Unit 64 where
  state₀ := ()
  parser := lineParser
  chunk := fun n => some { addr := 128 * n, mem := List.replicate 64 0, length_mem := rfl }

/-- Two responses and the start of a third one arrive at once. -/
def lineInput : List Read := [.data "+OK\r\n+PONG\r\n-E".toUTF8.toList]

def lineStart : St Unit := { msg := fun _ => { state := () }, input := lineInput }

/-- The state behind one round of `msg_recv`. -/
def lineRound : Rstatus × St Unit :=
  match msgRecvNext lineEnv 65 () { lineStart with recvReady := true } with
  | .ok (r, s) => (roundStatus r, s)
  | .error _ => (.error, lineStart)

/-- The round is a run. -/
lemma lineRound_run : RecvRun lineEnv 65 lineStart lineRound.1 lineRound.2 := by
  have hok : lineRound.1 = .ok := by decide +kernel
  unfold lineRound at hok ⊢
  cases hround : msgRecvNext lineEnv 65 () { lineStart with recvReady := true } with
  | ok r => exact .round .start true hround
  | error fault =>
    rw [hround] at hok
    cases hok

/-- Two lines are passed on. -/
theorem lineRound_conserved : lineRound.2.passed.map Msg.mlen = [5, 7] ∧
    (lineRound.2.eof = false →
      lineRound.2.passedBytes ++ lineRound.2.pending = lineRound.2.received) ∧
    (∀ x ∈ lineRound.2.passed, x.Ok 64) ∧
    (∀ m, lineRound.2.rmsg = some m → (lineRound.2.msg m).Ok 64) ∧
    (lineRound.1 = .ok → ∀ ready, ∃ r s',
      msgRecvNext lineEnv 65 () { lineRound.2 with recvReady := ready } = .ok (r, s')) :=
  ⟨by decide +kernel, RecvRun.bytes_conserved lineEnv ⟨fun _ => rfl, fun _ => rfl⟩
    (lineParser_conforms 64) (⟨rfl, rfl, rfl, rfl⟩ : St.Init lineInput lineStart)
      (by decide +kernel) (by decide) lineRound_run⟩

end GfwProxy.Recv
