import GfwProxy.Conf.Server
import GfwProxy.Recv.Stream

set_option autoImplicit false

/-!
# Failing calls on the buffers of a message

`msg_append`, `msg_prepend`, `msg_prepend_format`, `msg_parsed` and `msg_repair` of `gf_message.c`
over the pool of mbufs of `gf_mbuf.c`: an mbuf comes from the free list or from the allocator, and a
call that fails has to give it back and to leave the message alone.

## Main definitions

* `GfwProxy.Recv.Buffers.St` — a message and the pool, with the mbufs that were taken from it.
* `GfwProxy.Recv.Buffers.Call` — the calls, with `GfwProxy.Recv.Buffers.Call.run`.
* `GfwProxy.Recv.Buffers.Atomic` — the call changes nothing if it fails.

## Main results

* `GfwProxy.Recv.Buffers.Call.atomic_iff` — which calls change nothing if they fail.

## Design

The objects are those of the receive path; here an mbuf is known by its `start`, as it goes to the
free list and comes back.  The answers of the allocator, of `msg_get` and of `vsnprintf` are
parameters.
-/

namespace GfwProxy.Recv.Buffers

open Exec (Post Total)

variable {σ : Type} {offset : ℕ}

/-- The parameters: the chunks by the number of those asked for before, and the message that
`msg_get` returns. -/
structure Env (σ : Type) (offset : ℕ) where
  chunk : ℕ → Option (Chunk offset)
  msgGet : Option (Msg σ)

/-- A message and the pool.  `nalloc` is the number of chunks asked for, `taken` holds the mbufs
that `mbuf_get` returned, by their starts, and `passed` what `recv_done` was called with. -/
structure St (σ : Type) where
  msg : Msg σ
  freeMbufq : List Mbuf
  nfreeMbufq : ℕ
  nalloc : ℕ := 0
  taken : List ℕ := []
  passed : List (Msg σ × Option (Msg σ)) := []

abbrev Core (σ : Type) := StateT (St σ) (Except Fault)

/-! ## `gf_mbuf.c` -/

/-- `_mbuf_get`. -/
def mbufGetChunk (env : Env σ offset) : Core σ (Option Mbuf) := do
  let s ← get
  match s.freeMbufq with
  | mbuf :: rest =>
    modify fun s => { s with freeMbufq := rest, nfreeMbufq := u32 (s.nfreeMbufq + (2 ^ 32 - 1)) }
    return some mbuf
  | [] =>
    modify fun s => { s with nalloc := s.nalloc + 1 }
    return (env.chunk s.nalloc).map Chunk.mbuf

/-- An mbuf without data. -/
def rewound (offset : ℕ) (mbuf : Mbuf) : Mbuf :=
  { mbuf with bound := mbuf.start + offset, pos := mbuf.start, last := mbuf.start }

/-- `mbuf_get`. -/
def mbufGet (env : Env σ offset) : Core σ (Option Mbuf) := do
  match ← mbufGetChunk env with
  | none => return none
  | some mbuf =>
    modify fun s => { s with taken := s.taken ++ [mbuf.start] }
    return some (rewound offset mbuf)

/-- `mbuf_put`. -/
def mbufPut (mbuf : Mbuf) : Core σ Unit :=
  modify fun s => { s with
    freeMbufq := mbuf :: s.freeMbufq, nfreeMbufq := u32 (s.nfreeMbufq + 1) }

/-- `mbuf_copy`; behind the end of an mbuf there is its header. -/
def mbufCopy (mbuf : Mbuf) (bytes : List UInt8) : Core σ Mbuf :=
  if bytes = [] then return mbuf
  else if mbuf.bound < mbuf.last + bytes.length then throw .outOfBounds
  else return mbuf.write bytes

/-- The message is updated. -/
def modMsg (f : Msg σ → Msg σ) : Core σ Unit := modify fun s => { s with msg := f s.msg }

/-- `mbuf_split` of the last mbuf of the message at `pos`, without a precopy handler. -/
def mbufSplit (env : Env σ offset) (pos : ℕ) : Core σ (Option Mbuf) := do
  let s ← get
  match s.msg.mhdr.getLast? with
  | none => throw .nullDeref
  | some mbuf =>
    match ← mbufGet env with
    | none => return none
    | some nbuf =>
      -- copy data from mbuf to nbuf
      let nbuf ← mbufCopy nbuf (mbuf.slice pos (mbuf.last - pos))
      -- adjust mbuf
      modMsg fun x => { x with mhdr := x.mhdr.modifyLast fun b => { b with last := pos } }
      return some nbuf

/-! ## `gf_message.c` -/

/-- `msg_ensure_mbuf`. -/
def msgEnsureMbuf (env : Env σ offset) (len : ℕ) : Core σ (Option Mbuf) := do
  let s ← get
  if s.msg.mhdr.getLast?.all fun mbuf => mbufSize mbuf < len then
    match ← mbufGet env with
    | none => return none
    | some mbuf =>
      modMsg fun x => x.insert mbuf
      return some mbuf
  else return s.msg.mhdr.getLast?

/-- `msg_append`. -/
def msgAppend (env : Env σ offset) (bytes : List UInt8) : Core σ Rstatus := do
  match ← msgEnsureMbuf env bytes.length with
  | none => return .enomem
  | some mbuf =>
    let mbuf ← mbufCopy mbuf bytes
    modMsg fun x => { x with
      mhdr := x.mhdr.modifyLast fun _ => mbuf, mlen := u32 (x.mlen + u32 bytes.length) }
    return .ok

/-- `msg_prepend`. -/
def msgPrepend (env : Env σ offset) (bytes : List UInt8) : Core σ Rstatus := do
  match ← mbufGet env with
  | none => return .enomem
  | some mbuf =>
    let mbuf ← mbufCopy mbuf bytes
    modMsg fun x => { x with mhdr := mbuf :: x.mhdr, mlen := u32 (x.mlen + u32 bytes.length) }
    return .ok

/-- `vsnprintf` of a text at the end of an mbuf with room for `size` bytes: what it returns, and the
memory that it leaves.  There is no text if the formatting fails. -/
def vsnprintf (mbuf : Mbuf) (size : ℕ) : Option (List UInt8) → ℤ × Mbuf
  | none => (-1, mbuf)
  | some text =>
    if size = 0 then (text.length, mbuf)
    else (text.length, { mbuf.write (text.take (size - 1) ++ [0]) with last := mbuf.last })

/-- `msg_prepend_format`. -/
def msgPrependFormat (env : Env σ offset) (text : Option (List UInt8)) : Core σ Rstatus := do
  match ← mbufGet env with
  | none => return .enomem
  | some mbuf =>
    let size := mbufSize mbuf
    let (n, mbuf) := vsnprintf mbuf size text
    if n < 0 ∨ int32 size ≤ n then return .error
    else
      let mbuf := { mbuf with last := mbuf.last + n.toNat }
      modMsg fun x => { x with mhdr := mbuf :: x.mhdr, mlen := u32 (x.mlen + u32 n.toNat) }
      return .ok

/-- `conn->recv_done`. -/
def recvDone (nmsg : Option (Msg σ)) : Core σ Unit :=
  modify fun s => { s with passed := s.passed ++ [(s.msg, nmsg)] }

/-- `msg_parsed`. -/
def msgParsed (env : Env σ offset) : Core σ Rstatus := do
  let s ← get
  match s.msg.mhdr.getLast? with
  | none => throw .nullDeref
  | some mbuf =>
    if s.msg.pos = mbuf.last then
      -- no more data to parse
      recvDone none
      return .ok
    else
      match ← mbufSplit env s.msg.pos with
      | none => return .enomem
      | some nbuf =>
        match env.msgGet with
        | none =>
          mbufPut nbuf
          return .enomem
        | some nmsg =>
          let nmsg := { nmsg.insert nbuf with pos := nbuf.pos, mlen := mbufLength nbuf }
          -- update length of current (msg)
          modMsg fun x => { x with mlen := u32 (x.mlen + (2 ^ 32 - nmsg.mlen)) }
          recvDone (some nmsg)
          return .ok

/-- `msg_repair`. -/
def msgRepair (env : Env σ offset) : Core σ Rstatus := do
  let s ← get
  match ← mbufSplit env s.msg.pos with
  | none => return .enomem
  | some nbuf =>
    modMsg fun x => { x.insert nbuf with pos := nbuf.pos }
    return .ok

/-- A call, with its argument: the bytes, or the formatted text. -/
inductive Call
  | append (bytes : List UInt8)
  | prepend (bytes : List UInt8)
  | prependFormat (text : Option (List UInt8))
  | parsed
  | repair

def Call.run (env : Env σ offset) : Call → Core σ Rstatus
  | append bytes => msgAppend env bytes
  | prepend bytes => msgPrepend env bytes
  | prependFormat text => msgPrependFormat env text
  | parsed => msgParsed env
  | repair => msgRepair env

/-! ## Failure atomicity -/

/-- If the call fails, the bytes of the message and their number are those before it, and every mbuf
that it took is on the free list. -/
def Atomic (env : Env σ offset) (call : Call) (s : St σ) : Prop :=
  ∀ status s', call.run env s = .ok (status, s') → status ≠ .ok →
    s'.msg.bytes = s.msg.bytes ∧ s'.msg.mlen = s.msg.mlen ∧
      ∀ a ∈ s'.taken.drop s.taken.length, a ∈ s'.freeMbufq.map Mbuf.start

/-- There is an mbuf for the next call of `mbuf_get`. -/
def St.HasMbuf (env : Env σ offset) (s : St σ) : Prop :=
  s.freeMbufq ≠ [] ∨ (env.chunk s.nalloc).isSome

/-- The text is there and shorter than an mbuf. -/
def Fits (offset : ℕ) (text : Option (List UInt8)) : Prop :=
  ∃ t, text = some t ∧ (t.length : ℤ) < int32 (u32 offset)

/-- The last mbuf has data behind `pos`. -/
def Unparsed (x : Msg σ) : Prop := ∀ mbuf ∈ x.mhdr.getLast?, x.pos ≠ mbuf.last

/-- The calls that do not lose anything: a text for which there is an mbuf fits, and there is a
message for the bytes that are moved to a new mbuf. -/
def Call.Safe (env : Env σ offset) (s : St σ) : Call → Prop
  | append _ => True
  | prepend _ => True
  | prependFormat text => s.HasMbuf env → Fits offset text
  | parsed => s.HasMbuf env → Unparsed s.msg → env.msgGet.isSome
  | repair => True

/-- The message and the pool: mbufs are well formed, and those on the free list are different. -/
structure St.Ok (offset : ℕ) (s : St σ) : Prop where
  mbufs : ∀ b ∈ s.msg.mhdr, b.Ok offset
  nodup : (s.freeMbufq.map Mbuf.start).Nodup

/-- The position of the parser is in the last mbuf. -/
def PosInLast (x : Msg σ) : Prop :=
  ∃ b, x.mhdr.getLast? = some b ∧ b.pos ≤ x.pos ∧ x.pos ≤ b.last

/-! ## Taking an mbuf -/

section Steps

variable {env : Env σ offset} {s : St σ}

/-- What `_mbuf_get` returns is not on the free list any more. -/
lemma mbufGetChunk_total (env : Env σ offset) (hs : (s.freeMbufq.map Mbuf.start).Nodup) :
    Total (mbufGetChunk env) (fun r s' => s'.msg = s.msg ∧ s'.taken = s.taken ∧
      (r.isSome ↔ s.HasMbuf env) ∧ ∀ b ∈ r, b.start ∉ s'.freeMbufq.map Mbuf.start) s := by
  refine Total.get ?_
  cases hfree : s.freeMbufq with
  | cons mbuf rest =>
    rw [hfree, List.map_cons, List.nodup_cons] at hs
    refine Total.modify (Total.pure ⟨rfl, rfl, ?_, fun b hb => ?_⟩)
    · exact iff_of_true rfl (Or.inl (by simp [hfree]))
    · obtain rfl := Option.some.inj hb
      exact hs.1
  | nil =>
    refine Total.modify (Total.pure ⟨rfl, rfl, ?_, fun b hb => ?_⟩)
    · simp [St.HasMbuf, hfree]
    · show b.start ∉ s.freeMbufq.map Mbuf.start
      rw [hfree]
      exact List.not_mem_nil

/-- `mbuf_get` without an mbuf. -/
lemma mbufGet_none (h : ¬ s.HasMbuf env) (hs : (s.freeMbufq.map Mbuf.start).Nodup) :
    Total (mbufGet env) (fun r s' => r = none ∧ s'.msg = s.msg ∧ s'.taken = s.taken) s := by
  refine Total.bind (mbufGetChunk_total env hs) fun r s' hr => ?_
  obtain ⟨hmsg, htaken, hsome, -⟩ := hr
  cases r with
  | none => exact Total.pure ⟨rfl, hmsg, htaken⟩
  | some b => exact absurd (hsome.mp rfl) h

/-- `mbuf_get` with an mbuf. -/
lemma mbufGet_some (h : s.HasMbuf env) (hs : (s.freeMbufq.map Mbuf.start).Nodup) :
    Total (mbufGet env) (fun r s' => ∃ b, r = some (rewound offset b) ∧ s'.msg = s.msg ∧
      s'.taken = s.taken ++ [b.start] ∧ b.start ∉ s'.freeMbufq.map Mbuf.start) s := by
  refine Total.bind (mbufGetChunk_total env hs) fun r s' hr => ?_
  obtain ⟨hmsg, htaken, hsome, hfree⟩ := hr
  cases r with
  | none => exact absurd (hsome.mpr h) Bool.false_ne_true
  | some b =>
    refine Total.modify (Total.pure ⟨b, rfl, hmsg, ?_, hfree b rfl⟩)
    show s'.taken ++ [b.start] = _
    rw [htaken]

/-- The rule of `mbuf_get`. -/
lemma mbufGet_post {β : Type} {f : Option Mbuf → Core σ β} {Q : β → St σ → Prop}
    (hs : (s.freeMbufq.map Mbuf.start).Nodup)
    (hnone : ∀ s', s'.msg = s.msg → s'.taken = s.taken → Post id (f none) Q s')
    (hsome : s.HasMbuf env → ∀ b s', s'.msg = s.msg → s'.taken = s.taken ++ [b.start] →
      Post id (f (some (rewound offset b))) Q s') :
    Post id (mbufGet env >>= f) Q s := by
  by_cases h : s.HasMbuf env
  · refine Post.call (mbufGet_some h hs).post fun r s' hr => ?_
    obtain ⟨b, rfl, hmsg, htaken, -⟩ := hr
    exact hsome h b s' hmsg htaken
  · refine Post.call (mbufGet_none h hs).post fun r s' hr => ?_
    obtain ⟨rfl, hmsg, htaken⟩ := hr
    exact hnone s' hmsg htaken

/-! ## The calls that restore -/

/-- What a call that fails has to leave. -/
def Restored (s : St σ) (status : Rstatus) (s' : St σ) : Prop :=
  status ≠ .ok → s'.msg.bytes = s.msg.bytes ∧ s'.msg.mlen = s.msg.mlen ∧
    ∀ a ∈ s'.taken.drop s.taken.length, a ∈ s'.freeMbufq.map Mbuf.start

/-- The call is successful. -/
lemma Restored.ok (s s' : St σ) : Restored s .ok s' := fun h => absurd rfl h

/-- The call fails before it changes anything. -/
lemma Restored.unchanged {s' : St σ} (hmsg : s'.msg = s.msg) (htaken : s'.taken = s.taken)
    (status : Rstatus) : Restored s status s' := by
  intro _
  refine ⟨by rw [hmsg], by rw [hmsg], fun a ha => ?_⟩
  rw [htaken, List.drop_length] at ha
  exact absurd ha List.not_mem_nil

/-- The assertion of a call is its failure atomicity. -/
lemma atomic_iff_post (call : Call) :
    Atomic env call s ↔ Post id (call.run env) (Restored s) s := by
  constructor
  · rintro h _ rfl status s' hr
    exact h status s' hr
  · intro h status s' hr
    exact h s rfl status s' hr

/-- A copy between mbufs returns an mbuf, if it returns. -/
lemma mbufCopy_post {β : Type} {f : Mbuf → Core σ β} {Q : β → St σ → Prop} {mbuf : Mbuf}
    {bytes : List UInt8} (h : ∀ mbuf, Post id (f mbuf) Q s) :
    Post id (mbufCopy mbuf bytes >>= f) Q s := by
  unfold mbufCopy
  split_ifs
  · exact h mbuf
  · intro s₁ _ a s' hr
    cases hr
  · exact h _

/-- `msg_ensure_mbuf` changes nothing if it fails. -/
lemma msgEnsureMbuf_post (hs : (s.freeMbufq.map Mbuf.start).Nodup) (len : ℕ) :
    Post id (msgEnsureMbuf env len)
      (fun r s' => r = none → s'.msg = s.msg ∧ s'.taken = s.taken) s := by
  refine Post.get ?_
  refine Post.ite (fun _ => ?_) fun _ => Post.pure fun _ => ⟨rfl, rfl⟩
  refine mbufGet_post hs (fun s' hmsg htaken => Post.pure fun _ => ⟨hmsg, htaken⟩) ?_
  intro _ b s' _ _
  exact Post.modify (Post.pure fun h => absurd h (Option.some_ne_none _))

/-- `msg_append` fails without a trace, or appends. -/
lemma msgAppend_restored (hs : (s.freeMbufq.map Mbuf.start).Nodup) (bytes : List UInt8) :
    Post id (msgAppend env bytes) (Restored s) s := by
  refine Post.call (msgEnsureMbuf_post hs bytes.length) fun r s' hr => ?_
  cases r with
  | none =>
    obtain ⟨hmsg, htaken⟩ := hr rfl
    exact Post.pure (Restored.unchanged hmsg htaken _)
  | some mbuf => exact mbufCopy_post fun mbuf => Post.modify (Post.pure (Restored.ok s _))

/-- `msg_prepend` fails without a trace, or prepends. -/
lemma msgPrepend_restored (hs : (s.freeMbufq.map Mbuf.start).Nodup) (bytes : List UInt8) :
    Post id (msgPrepend env bytes) (Restored s) s := by
  refine mbufGet_post hs (fun s' hmsg htaken => ?_) fun _ b s' _ _ => ?_
  · exact Post.pure (Restored.unchanged hmsg htaken _)
  · exact mbufCopy_post fun mbuf => Post.modify (Post.pure (Restored.ok s _))

/-- `mbuf_split` changes nothing if it fails. -/
lemma mbufSplit_post (hs : (s.freeMbufq.map Mbuf.start).Nodup) (pos : ℕ) :
    Post id (mbufSplit env pos)
      (fun r s' => (r = none → s'.msg = s.msg ∧ s'.taken = s.taken) ∧
        (r.isSome → s.HasMbuf env)) s := by
  refine Post.get ?_
  cases s.msg.mhdr.getLast? with
  | none => exact Post.throw
  | some mbuf =>
    refine mbufGet_post hs (fun s' hmsg htaken => ?_) fun h b s' _ _ => ?_
    · exact Post.pure ⟨fun _ => ⟨hmsg, htaken⟩, fun h => absurd h Bool.false_ne_true⟩
    · exact mbufCopy_post fun nbuf => Post.modify (Post.pure
        ⟨fun h => absurd h (Option.some_ne_none _), fun _ => h⟩)

/-- `msg_repair` fails without a trace, or splits. -/
lemma msgRepair_restored (hs : (s.freeMbufq.map Mbuf.start).Nodup) :
    Post id (msgRepair env) (Restored s) s := by
  refine Post.get (Post.call (mbufSplit_post hs _) fun r s' hr => ?_)
  cases r with
  | none =>
    obtain ⟨hmsg, htaken⟩ := hr.1 rfl
    exact Post.pure (Restored.unchanged hmsg htaken _)
  | some nbuf => exact Post.modify (Post.pure (Restored.ok s _))

/-! ## Formatting -/

/-- `vsnprintf` returns the length of the text, or fails. -/
@[simp] lemma vsnprintf_fst (mbuf : Mbuf) (size : ℕ) (text : Option (List UInt8)) :
    (vsnprintf mbuf size text).1 = text.elim (-1) fun t => (t.length : ℤ) := by
  cases text with
  | none => rfl
  | some t =>
    show (if size = 0 then _ else _ : ℤ × Mbuf).1 = _
    split_ifs <;> rfl

/-- The room of an mbuf that was rewound is the whole of it. -/
lemma mbufSize_rewound (b : Mbuf) : mbufSize (rewound offset b) = u32 offset := by
  show u32 (b.start + offset - b.start) = u32 offset
  rw [Nat.add_sub_cancel_left]

/-- The check of `msg_prepend_format` on the number that `vsnprintf` returns. -/
lemma fits_iff (b : Mbuf) (text : Option (List UInt8)) :
    ¬ ((vsnprintf (rewound offset b) (mbufSize (rewound offset b)) text).1 < 0 ∨
      int32 (mbufSize (rewound offset b)) ≤
        (vsnprintf (rewound offset b) (mbufSize (rewound offset b)) text).1) ↔
        Fits offset text := by
  rw [vsnprintf_fst, mbufSize_rewound]
  cases text with
  | none => simp [Fits]
  | some t =>
    have hpos : ¬ (t.length : ℤ) < 0 := by omega
    simp [Fits, hpos]

/-- The text fits, or there is no mbuf for it. -/
lemma msgPrependFormat_restored (hs : (s.freeMbufq.map Mbuf.start).Nodup)
    {text : Option (List UInt8)} (h : s.HasMbuf env → Fits offset text) :
    Post id (msgPrependFormat env text) (Restored s) s := by
  refine mbufGet_post hs (fun s' hmsg htaken => ?_) fun hm b s' _ _ => ?_
  · exact Post.pure (Restored.unchanged hmsg htaken _)
  · refine Post.ite (fun hbad => ?_) fun _ => Post.modify (Post.pure (Restored.ok s _))
    exact absurd hbad ((fits_iff b text).mpr (h hm))

/-- **The mbuf of a text that does not fit is lost.** -/
theorem not_atomic_prependFormat (hs : (s.freeMbufq.map Mbuf.start).Nodup)
    {text : Option (List UInt8)} (hm : s.HasMbuf env) (h : ¬ Fits offset text) :
    ¬ Atomic env (.prependFormat text) s := by
  intro hatomic
  have hrun : Total (msgPrependFormat env text) (fun status s' => status = .error ∧
      ∃ a, s'.taken = s.taken ++ [a] ∧ a ∉ s'.freeMbufq.map Mbuf.start) s := by
    refine Total.bind (mbufGet_some hm hs) fun r s' hr => ?_
    obtain ⟨b, rfl, -, htaken, hfree⟩ := hr
    refine Total.ite (fun _ => Total.pure ⟨rfl, b.start, htaken, hfree⟩) fun hgood => ?_
    exact absurd ((fits_iff b text).mp hgood) h
  obtain ⟨status, s', hr, rfl, a, htaken, hfree⟩ := hrun
  obtain ⟨-, -, hback⟩ := hatomic _ s' hr (by decide)
  refine hfree (hback a ?_)
  rw [htaken, List.drop_left]
  exact List.mem_singleton_self a

/-! ## Parsed messages -/

/-- There is a message for the bytes behind `pos`, or no mbuf. -/
lemma msgParsed_restored (hs : (s.freeMbufq.map Mbuf.start).Nodup)
    (h : s.HasMbuf env → Unparsed s.msg → env.msgGet.isSome) :
    Post id (msgParsed env) (Restored s) s := by
  refine Post.get ?_
  cases hlast : s.msg.mhdr.getLast? with
  | none => exact Post.throw
  | some mbuf =>
    refine Post.ite (fun _ => Post.modify (Post.pure (Restored.ok s _))) fun hpos => ?_
    refine Post.call (mbufSplit_post hs _) fun r s' hr => ?_
    cases r with
    | none =>
      obtain ⟨hmsg, htaken⟩ := hr.1 rfl
      exact Post.pure (Restored.unchanged hmsg htaken _)
    | some nbuf =>
      have hun : Unparsed s.msg := by
        intro b hb
        rw [hlast] at hb
        exact Option.some.inj hb ▸ hpos
      cases hmsg : env.msgGet with
      | none =>
        have hsome := h (hr.2 rfl) hun
        rw [hmsg] at hsome
        exact absurd hsome Bool.false_ne_true
      | some nmsg => exact Post.modify (Post.modify (Post.pure (Restored.ok s _)))

/-- The bytes behind the end that `mbuf_split` sets. -/
lemma upTo_bytes {x : Msg σ} {b : Mbuf} (hx : ∀ b ∈ x.mhdr, b.Ok offset)
    (hb : x.mhdr.getLast? = some b) {p : ℕ} (hp : b.pos ≤ p) (hl : p ≤ b.last) :
    (x.upTo p).bytes ++ b.slice p (b.last - p) = x.bytes := by
  obtain ⟨front, hfront⟩ := List.getLast?_eq_some_iff.mp hb
  obtain ⟨-, hbytes⟩ := (hx b (List.mem_of_getLast? hb)).split hp hl
  simp only [Msg.bytes, Msg.upTo, hfront, List.modifyLast_concat, List.flatMap_append,
    List.flatMap_singleton, List.append_assoc]
  rw [hbytes]

/-- The bytes of an mbuf behind a position have room in an mbuf. -/
lemma length_slice_le {b : Mbuf} (hok : b.Ok offset) {p : ℕ} (hp : b.pos ≤ p) (hl : p ≤ b.last) :
    (b.slice p (b.last - p)).length ≤ offset := by
  have hstart := hok.start_le
  have hlast := hok.last_le
  have hbound := hok.bound
  rw [hok.length_slice hp hl]
  omega

/-- The copy to an mbuf without data. -/
lemma mbufCopy_total {b : Mbuf} {bytes : List UInt8} (h : bytes.length ≤ offset) :
    Total (mbufCopy (rewound offset b) bytes) (fun _ s' => s' = s) s := by
  refine Total.ite (fun _ => Total.pure rfl) fun _ => ?_
  refine Total.ite (fun hover => ?_) fun _ => Total.pure rfl
  change b.start + offset < b.start + bytes.length at hover
  omega

/-- **The bytes for which there is no message are lost.** -/
theorem not_atomic_parsed (hs : s.Ok offset) (hp : PosInLast s.msg) (hm : s.HasMbuf env)
    (hun : Unparsed s.msg) (hmsg : env.msgGet = none) : ¬ Atomic env .parsed s := by
  intro hatomic
  obtain ⟨b, hb, hpos, hlast⟩ := hp
  have hok : b.Ok offset := hs.mbufs b (List.mem_of_getLast? hb)
  have hlen := hok.length_slice hpos hlast
  have hrun : Total (msgParsed env) (fun status s' => status = .enomem ∧
      s'.msg = s.msg.upTo s.msg.pos) s := by
    refine Total.get ?_
    rw [hb]
    refine Total.ite (fun h => absurd h (hun b hb)) fun _ => ?_
    have hsplit : Total (mbufSplit env s.msg.pos) (fun r s' => r.isSome = true ∧
        s'.msg = s.msg.upTo s.msg.pos) s := by
      refine Total.get ?_
      rw [hb]
      refine Total.bind (mbufGet_some hm hs.nodup) fun r s' hr => ?_
      obtain ⟨nbuf, rfl, hmsg', -, -⟩ := hr
      refine Total.bind (mbufCopy_total (length_slice_le hok hpos hlast)) fun nbuf s'' hs'' => ?_
      refine Total.modify (Total.pure ⟨rfl, ?_⟩)
      show (s''.msg.upTo s.msg.pos) = _
      rw [hs'', hmsg']
    refine Total.bind hsplit fun r s' hr => ?_
    obtain ⟨hsome, hmsg'⟩ := hr
    cases r with
    | none => exact absurd hsome Bool.false_ne_true
    | some nbuf =>
      rw [hmsg]
      exact Total.modify (Total.pure ⟨rfl, hmsg'⟩)
  obtain ⟨status, s', hr, rfl, hmsg'⟩ := hrun
  obtain ⟨hbytes, -, -⟩ := hatomic _ s' hr (by decide)
  have hsame := upTo_bytes hs.mbufs hb hpos hlast
  rw [hmsg'] at hbytes
  rw [hbytes, List.append_right_eq_self] at hsame
  have hne : s.msg.pos ≠ b.last := hun b hb
  rw [hsame, List.length_nil] at hlen
  omega

/-! ## Failure atomicity of the calls -/

/-- **Which calls change nothing if they fail.**  Lost are the mbuf of a formatted text that does
not fit, and the bytes that are moved to a new mbuf for which there is no message.

**Proof sketch.** A call that fails without an mbuf has changed nothing yet.  With an mbuf, only the
two named calls can fail: the one leaves the mbuf neither in the message nor on the free list, and
the other gives it back with the bytes that `mbuf_split` has cut off the message. -/
theorem Call.atomic_iff (call : Call) (hs : s.Ok offset) (hp : call = parsed → PosInLast s.msg) :
    Atomic env call s ↔ call.Safe env s := by
  constructor
  · intro h
    cases call with
    | append bytes => trivial
    | prepend bytes => trivial
    | repair => trivial
    | prependFormat text =>
      intro hm
      by_contra hfit
      exact not_atomic_prependFormat hs.nodup hm hfit h
    | parsed =>
      intro hm hun
      by_contra hmsg
      rw [Option.not_isSome_iff_eq_none] at hmsg
      exact not_atomic_parsed hs (hp rfl) hm hun hmsg h
  · intro h
    apply (atomic_iff_post call).mpr
    cases call with
    | append bytes => exact msgAppend_restored hs.nodup bytes
    | prepend bytes => exact msgPrepend_restored hs.nodup bytes
    | repair => exact msgRepair_restored hs.nodup
    | prependFormat text => exact msgPrependFormat_restored hs.nodup h
    | parsed => exact msgParsed_restored hs.nodup h

end Steps

/-- Mbufs of the smallest chunks, which have 464 bytes besides the header, and no more messages. -/
def smallChunks : Env Unit 464 where
  chunk n :=
    some { addr := 512 * (n + 1), mem := List.replicate 464 0, length_mem := List.length_replicate }
  msgGet := none

/-- A message of four bytes, two of them parsed. -/
def halfParsed : St Unit where
  msg :=
    { mhdr := [{ start := 0, pos := 0, last := 4, bound := 464, mem := List.replicate 464 7 }]
      pos := 2, mlen := 4, state := () }
  freeMbufq := []
  nfreeMbufq := 0

/-- The message has a whole mbuf, half of it parsed. -/
lemma halfParsed_ok : halfParsed.Ok 464 := by
  refine ⟨fun b hb => ?_, List.nodup_nil⟩
  rw [List.mem_singleton.mp hb]
  exact ⟨by decide, by decide, by decide, by decide, List.length_replicate⟩

/-- The bytes that are not parsed are lost. -/
theorem halfParsed_not_atomic : ¬ Atomic smallChunks .parsed halfParsed := by
  have hpos : PosInLast halfParsed.msg := ⟨_, rfl, by decide, by decide⟩
  intro h
  have hsafe := (Call.atomic_iff .parsed halfParsed_ok fun _ => hpos).mp h
  exact Bool.false_ne_true (hsafe (Or.inr rfl) fun b hb => by
    rw [← Option.some.inj hb]
    decide)

/-- A text of 464 bytes does not fit into an mbuf, with its NUL. -/
theorem not_forall_atomic : ¬ ∀ (env : Env Unit 464) (call : Call) (s : St Unit), s.Ok 464 →
    (call = .parsed → PosInLast s.msg) → Atomic env call s := by
  intro h
  refine not_atomic_prependFormat halfParsed_ok.nodup (Or.inr rfl) ?_
    (h smallChunks (.prependFormat (some (List.replicate 464 120))) halfParsed halfParsed_ok
      fun hcall => ?_)
  · rintro ⟨t, ht, hlt⟩
    rw [← Option.some.inj ht, List.length_replicate] at hlt
    exact absurd hlt (by decide)
  · cases hcall

end GfwProxy.Recv.Buffers
