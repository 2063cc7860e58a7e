import Mathlib.Logic.Relation
import Mathlib.Logic.Function.Basic
import GfwProxy.Lib.Recycler

set_option autoImplicit false

/-!
# Recycled connections, messages and buffers

The free lists of `gf_connection.c`, `gf_message.c` and `gf_mbuf.c`, and what `core_stop`
(`gf_core.c`) does to them.

## Main definitions

* `GfwProxy.FreeLists` — the three free lists, and the buffers of each message.
* `GfwProxy.FreeStep` — the operations on objects in use, and the statements of `core_stop`.
* `GfwProxy.FreeLists.Intact` — the property of all three lists.

## Main results

* `GfwProxy.FreeRun.intact` — the lists stay intact if `core_stop` finds the lists of connections
  and messages empty.
* `GfwProxy.connDeinit_intact_iff`, `GfwProxy.msgDeinit_intact_iff` — and otherwise they do not.

## Design

The lists are instances of `Recycler`, so their counters, each a `uint32_t` in the source, are
numbers without bound.  `conn_deinit` and `msg_deinit` free the objects of their
list but leave them on it, `mbuf_deinit` takes them off.  `core_ctx_destroy` is any operations that
follow.
-/

namespace GfwProxy

open Function

/-- The address of an object. -/
abbrev Addr := ℕ

/-- How far `core_stop` has come. -/
inductive Phase
  | running
  | connFreed
  | msgFreed
  | mbufFreed
  deriving DecidableEq, Repr

/-- The recycled objects of each kind, and the buffers of each message. -/
structure FreeLists where
  conn : Recycler Addr := {}
  msg : Recycler Addr := {}
  mbuf : Recycler Addr := {}
  mhdr : Addr → List Addr := fun _ => []
  phase : Phase := .running

namespace FreeLists

/-! ## Operations -/

/-- `_conn_get`; `fresh` is what `gf_alloc` returns. -/
def connGet (fresh : Option Addr) (s : FreeLists) : FreeLists :=
  { s with conn := (s.conn.get fresh).2 }

/-- `_msg_get`; without memory for the keys the message is given back to the allocator. -/
def msgGet (fresh : Option Addr) (keys : Bool) (s : FreeLists) : FreeLists :=
  match s.msg.get fresh with
  | (none, msg) => { s with msg := msg }
  | (some m, msg) =>
    let s := { s with msg := msg, mhdr := update s.mhdr m [] }
    if keys then s else { s with msg := s.msg.discard m }

/-- `_mbuf_get`. -/
def mbufGet (fresh : Option Addr) (s : FreeLists) : FreeLists :=
  { s with mbuf := (s.mbuf.get fresh).2 }

/-- `mbuf_insert` into the buffers of message `m`. -/
def mbufInsert (m b : Addr) (s : FreeLists) : FreeLists :=
  { s with mhdr := update s.mhdr m (s.mhdr m ++ [b]) }

/-- `mbuf_remove` from the buffers of message `m`. -/
def mbufRemove (m b : Addr) (s : FreeLists) : FreeLists :=
  { s with mhdr := update s.mhdr m ((s.mhdr m).erase b) }

/-- `conn_put`. -/
def connPut (c : Addr) (s : FreeLists) : FreeLists := { s with conn := s.conn.put c }

/-- `mbuf_put`. -/
def mbufPut (b : Addr) (s : FreeLists) : FreeLists := { s with mbuf := s.mbuf.put b }

/-- The loop of `msg_put` over the buffers of message `m`. -/
def putMbufs (m : Addr) : List Addr → FreeLists → FreeLists
  | [], s => s
  | b :: rest, s => putMbufs m rest (mbufPut b { s with mhdr := update s.mhdr m rest })

/-- `msg_put`. -/
def msgPut (m : Addr) (s : FreeLists) : FreeLists :=
  let s := putMbufs m (s.mhdr m) s
  { s with msg := s.msg.put m }

/-- `conn_deinit`. -/
def connDeinit (s : FreeLists) : FreeLists := { s with conn := s.conn.sweep, phase := .connFreed }

/-- `msg_deinit`. -/
def msgDeinit (s : FreeLists) : FreeLists := { s with msg := s.msg.sweep, phase := .msgFreed }

/-- `mbuf_deinit`. -/
def mbufDeinit (s : FreeLists) : FreeLists := { s with mbuf := s.mbuf.drain, phase := .mbufFreed }

/-- An address that `gf_alloc` may return. -/
def Fresh (s : FreeLists) (a : Addr) : Prop := a ∉ s.conn.live ∧ a ∉ s.msg.live ∧ a ∉ s.mbuf.live

/-- Objects are taken and released, before or after `core_stop` has freed the lists. -/
def Active (s : FreeLists) : Prop := s.phase = .running ∨ s.phase = .mbufFreed

/-- Buffer `b` belongs to no message. -/
def Loose (s : FreeLists) (b : Addr) : Prop := ∀ m, b ∉ s.mhdr m

/-- Each counter is the length of its list, no object is on a list and in use, and none on a list
has been freed. -/
structure Intact (s : FreeLists) : Prop where
  conn : s.conn.Intact
  msg : s.msg.Intact
  mbuf : s.mbuf.Intact

/-- What the operations rely on. -/
structure Ok (s : FreeLists) : Prop where
  conn : s.conn.Ok
  msg : s.msg.Ok
  mbuf : s.mbuf.Ok
  nodup : ∀ m, (s.mhdr m).Nodup
  used : ∀ m, ∀ b ∈ s.mhdr m, b ∈ s.mbuf.used
  apart : ∀ m m' b, b ∈ s.mhdr m → b ∈ s.mhdr m' → m = m'

/-- The invariant says more than that the lists are intact. -/
lemma Ok.toIntact {s : FreeLists} (h : s.Ok) : s.Intact :=
  ⟨h.conn.toIntact, h.msg.toIntact, h.mbuf.toIntact⟩

end FreeLists

/-- One step of the proxy: an operation on objects in use, or a statement of `core_stop`, which is
entered in a state that meets `stop` and goes on without other operations. -/
inductive FreeStep (stop : FreeLists → Prop) (s : FreeLists) : FreeLists → Prop
  | connGet (fresh : Option Addr) (hp : s.Active) (hf : ∀ a, fresh = some a → s.Fresh a) :
      FreeStep stop s (s.connGet fresh)
  | msgGet (fresh : Option Addr) (keys : Bool) (hp : s.Active)
      (hf : ∀ a, fresh = some a → s.Fresh a) : FreeStep stop s (s.msgGet fresh keys)
  | mbufGet (fresh : Option Addr) (hp : s.Active) (hf : ∀ a, fresh = some a → s.Fresh a) :
      FreeStep stop s (s.mbufGet fresh)
  | mbufInsert (m b : Addr) (hp : s.Active) (hm : m ∈ s.msg.used) (hb : b ∈ s.mbuf.used)
      (hl : s.Loose b) : FreeStep stop s (s.mbufInsert m b)
  | mbufRemove (m b : Addr) (hp : s.Active) (hm : m ∈ s.msg.used) (hb : b ∈ s.mhdr m) :
      FreeStep stop s (s.mbufRemove m b)
  | connPut (c : Addr) (hp : s.Active) (hc : c ∈ s.conn.used) : FreeStep stop s (s.connPut c)
  | msgPut (m : Addr) (hp : s.Active) (hm : m ∈ s.msg.used) : FreeStep stop s (s.msgPut m)
  | mbufPut (b : Addr) (hp : s.Active) (hb : b ∈ s.mbuf.used) (hl : s.Loose b) :
      FreeStep stop s (s.mbufPut b)
  | connDeinit (hp : s.phase = .running) (hs : stop s) : FreeStep stop s s.connDeinit
  | msgDeinit (hp : s.phase = .connFreed) : FreeStep stop s s.msgDeinit
  | mbufDeinit (hp : s.phase = .msgFreed) : FreeStep stop s s.mbufDeinit

/-- The states that any steps lead to from the state that `core_start` initializes. -/
def FreeRun (stop : FreeLists → Prop) : FreeLists → Prop := Relation.ReflTransGen (FreeStep stop) {}

/-- No connection and no message is on its free list. -/
def NoneFree (s : FreeLists) : Prop := s.conn.free = [] ∧ s.msg.free = []

/-! ## Steps -/

namespace FreeLists

variable {s : FreeLists} {m b c : Addr}

/-- Change the buffers of message `m` to some that are attached to it already. -/
lemma Ok.setMhdr (h : s.Ok) {q : List Addr} (hq : q.Nodup) (hsub : q ⊆ s.mhdr m) :
    Ok { s with mhdr := update s.mhdr m q } := by
  have hmem : ∀ m' b', b' ∈ update s.mhdr m q m' → b' ∈ s.mhdr m' := by
    intro m' b' hb'
    rcases eq_or_ne m' m with rfl | hne
    · rw [update_self] at hb'
      exact hsub hb'
    · rwa [update_of_ne hne] at hb'
  refine { h with
    nodup := fun m' => ?_, used := fun m' b' hb' => h.used m' b' (hmem m' b' hb')
    apart := fun m₁ m₂ b' h₁ h₂ => h.apart m₁ m₂ b' (hmem m₁ b' h₁) (hmem m₂ b' h₂) }
  rcases eq_or_ne m' m with rfl | hne
  · simpa using hq
  · simpa [hne] using h.nodup m'

/-- A loose mbuf is hung on a message. -/
lemma Ok.mbufInsert (h : s.Ok) (hb : b ∈ s.mbuf.used) (hl : s.Loose b) : (s.mbufInsert m b).Ok := by
  have hmem : ∀ m' b', b' ∈ (s.mbufInsert m b).mhdr m' → b' ∈ s.mhdr m' ∨ b' = b ∧ m' = m := by
    intro m' b' hb'
    unfold FreeLists.mbufInsert at hb'
    rcases eq_or_ne m' m with rfl | hne
    · simpa using hb'
    · simp [hne] at hb'
      exact .inl hb'
  refine ⟨h.conn, h.msg, h.mbuf, ?_, ?_, ?_⟩
  · intro m'
    unfold FreeLists.mbufInsert
    dsimp only
    rcases eq_or_ne m' m with rfl | hne
    · rw [update_self]
      refine List.nodup_append.mpr ⟨h.nodup m', List.nodup_singleton b, ?_⟩
      rintro b' hb' b'' hb'' rfl
      obtain rfl := List.mem_singleton.mp hb''
      exact hl m' hb'
    · simpa [hne] using h.nodup m'
  · intro m' b' hb'
    rcases hmem m' b' hb' with hb' | ⟨rfl, -⟩
    · exact h.used m' b' hb'
    · exact hb
  · intro m₁ m₂ b' h₁ h₂
    rcases hmem m₁ b' h₁ with h₁ | ⟨hb₁, hm₁⟩
    · rcases hmem m₂ b' h₂ with h₂ | ⟨hb₂, hm₂⟩
      · exact h.apart m₁ m₂ b' h₁ h₂
      · exact absurd h₁ (hb₂ ▸ hl m₁)
    · rcases hmem m₂ b' h₂ with h₂ | ⟨hb₂, hm₂⟩
      · exact absurd h₂ (hb₁ ▸ hl m₂)
      · exact hm₁.trans hm₂.symm

/-- A loose mbuf is put on the free list. -/
lemma Ok.mbufPut (h : s.Ok) (hb : b ∈ s.mbuf.used) (hl : s.Loose b) : (s.mbufPut b).Ok := by
  refine { h with mbuf := h.mbuf.put hb, used := fun m' b' hb' => ?_ }
  refine Finset.mem_erase.mpr ⟨?_, h.used m' b' hb'⟩
  rintro rfl
  exact hl m' hb'

/-- The loop of `msg_put` releases one attached buffer after the other. -/
lemma Ok.putMbufs (h : s.Ok) {q : List Addr} (hq : s.mhdr m = q) :
    (FreeLists.putMbufs m q s).Ok ∧ (FreeLists.putMbufs m q s).msg = s.msg ∧
      (FreeLists.putMbufs m q s).phase = s.phase := by
  induction q generalizing s with
  | nil => exact ⟨h, rfl, rfl⟩
  | cons b rest ih =>
    have hnodup := h.nodup m
    rw [hq] at hnodup
    obtain ⟨hb, hnodup⟩ := List.nodup_cons.mp hnodup
    have hset := h.setMhdr (m := m) hnodup (by rw [hq]; exact List.subset_cons_self b rest)
    have hloose : Loose { s with mhdr := update s.mhdr m rest } b := by
      intro m' hb'
      dsimp only at hb'
      rcases eq_or_ne m' m with rfl | hne
      · rw [update_self] at hb'
        exact hb hb'
      · rw [update_of_ne hne] at hb'
        exact hne (h.apart m' m b hb' (by rw [hq]; exact List.mem_cons_self))
    have hused : b ∈ s.mbuf.used := h.used m b (by rw [hq]; exact List.mem_cons_self)
    have hrest := hset.mbufPut (b := b) hused hloose
    exact ih hrest (update_self (f := s.mhdr) ..)

/-- A message is put on the free list, with its mbufs and keys. -/
lemma Ok.msgPut (h : s.Ok) (hm : m ∈ s.msg.used) :
    (s.msgPut m).Ok ∧ (s.msgPut m).phase = s.phase := by
  obtain ⟨hput, hmsg, hphase⟩ := h.putMbufs (m := m) rfl
  exact ⟨{ hput with msg := hput.msg.put (by rwa [hmsg]) }, hphase⟩

/-- A message is taken off the free list, or allocated. -/
lemma Ok.msgGet (h : s.Ok) (fresh : Option Addr) (keys : Bool) : (s.msgGet fresh keys).Ok := by
  have hget := h.msg.get fresh
  have hused := (s.msg.get_used fresh).2
  unfold FreeLists.msgGet
  split
  case h_1 msg heq =>
    rw [heq] at hget
    exact { h with msg := hget }
  case h_2 m msg heq =>
    rw [heq] at hget hused
    have hmsg : Ok { s with msg := msg, mhdr := update s.mhdr m [] } :=
      { h.setMhdr (m := m) List.nodup_nil (List.nil_subset _) with msg := hget }
    cases keys with
    | true => exact hmsg
    | false => exact { hmsg with msg := hget.discard (hused m rfl) }

end FreeLists

/-- What holds in a run that enters `core_stop` with both lists empty. -/
structure FreeInv (s : FreeLists) : Prop where
  ok : s.Ok
  stopped : s.phase = .connFreed → s.msg.free = []

variable {s s' : FreeLists} {stop : FreeLists → Prop}

/-- The operations leave `core_stop` where it is, so they find nothing to rely on but `Ok`. -/
lemma FreeInv.active (hp : s.Active) (hphase : s'.phase = s.phase) (hok : s'.Ok) : FreeInv s' := by
  refine ⟨hok, fun h => ?_⟩
  rw [hphase] at h
  rcases hp with hp | hp <;> simp [h] at hp

/-- **Each step keeps the invariant.**

**Proof sketch.** One case for each operation, by the lemmas about the three free lists. -/
theorem FreeStep.inv (hi : FreeInv s) (h : FreeStep NoneFree s s') : FreeInv s' := by
  have hok := hi.ok
  cases h with
  | connGet fresh hp hf => exact .active hp rfl { hok with conn := hok.conn.get fresh }
  | msgGet fresh keys hp hf =>
    refine .active hp ?_ (hok.msgGet fresh keys)
    unfold FreeLists.msgGet
    split
    · rfl
    · dsimp only
      split <;> rfl
  | mbufGet fresh hp hf =>
    refine .active hp rfl { hok with mbuf := hok.mbuf.get fresh, used := fun m b hb => ?_ }
    exact (s.mbuf.get_used fresh).1 (hok.used m b hb)
  | mbufInsert m b hp hm hb hl => exact .active hp rfl (hok.mbufInsert hb hl)
  | mbufRemove m b hp hm hb =>
    exact .active hp rfl (hok.setMhdr ((hok.nodup m).erase b) (List.erase_subset))
  | connPut c hp hc => exact .active hp rfl { hok with conn := hok.conn.put hc }
  | msgPut m hp hm =>
    obtain ⟨hput, hphase⟩ := hok.msgPut hm
    exact .active hp hphase hput
  | mbufPut b hp hb hl => exact .active hp rfl (hok.mbufPut hb hl)
  | connDeinit hp hs =>
    obtain ⟨hconn, hmsg⟩ := hs
    refine ⟨{ hok with conn := ?_ }, fun _ => hmsg⟩
    rw [FreeLists.connDeinit, Recycler.sweep_of_nil hconn]
    exact hok.conn
  | msgDeinit hp =>
    refine ⟨{ hok with msg := ?_ }, fun h => by simp [FreeLists.msgDeinit] at h⟩
    rw [FreeLists.msgDeinit, Recycler.sweep_of_nil (hi.stopped hp)]
    exact hok.msg
  | mbufDeinit hp =>
    refine ⟨{ hok with mbuf := hok.mbuf.drain, used := fun m b hb => ?_ }, fun h => ?_⟩
    · rw [FreeLists.mbufDeinit, Recycler.drain_used]
      exact hok.used m b hb
    · simp [FreeLists.mbufDeinit] at h

/-! ## Main results -/

/-- **The free lists stay intact in every run that enters `core_stop` with the lists of connections
and messages empty.**

**Proof sketch.** The invariant `FreeInv` along the run; with nothing on the lists, `conn_deinit`
and `msg_deinit` have nothing to leave behind. -/
theorem FreeRun.intact (h : FreeRun NoneFree s) : s.Intact := by
  have hi : FreeInv s := by
    induction h with
    | refl =>
      refine ⟨⟨Recycler.ok_empty, Recycler.ok_empty, Recycler.ok_empty, ?_, ?_, ?_⟩, fun h => ?_⟩
      · exact fun _ => List.nodup_nil
      · simp
      · simp
      · rfl
    | tail _ hstep ih => exact hstep.inv ih
  exact hi.ok.toIntact

/-- `conn_deinit` leaves the lists intact exactly if there is no connection on its list. -/
theorem connDeinit_intact_iff (h : s.Ok) : s.connDeinit.Intact ↔ s.conn.free = [] := by
  rw [← Recycler.sweep_intact_iff h.conn]
  exact ⟨fun hi => hi.conn, fun hi => ⟨hi, h.msg.toIntact, h.mbuf.toIntact⟩⟩

/-- `msg_deinit` leaves the lists intact exactly if there is no message on its list. -/
theorem msgDeinit_intact_iff (h : s.Ok) : s.msgDeinit.Intact ↔ s.msg.free = [] := by
  rw [← Recycler.sweep_intact_iff h.msg]
  exact ⟨fun hi => hi.msg, fun hi => ⟨h.conn.toIntact, hi, h.mbuf.toIntact⟩⟩

/-- A connection is taken, and `core_stop` closes it. -/
theorem connTaken_intact :
    ((({} : FreeLists).connGet (some 0)).connDeinit.msgDeinit.mbufDeinit.connPut 0).Intact := by
  have hget : FreeRun NoneFree (({} : FreeLists).connGet (some 0)) :=
    .single (.connGet (some 0) (.inl rfl) (by simp [FreeLists.Fresh]))
  have hstop := ((hget.tail (.connDeinit rfl ⟨rfl, rfl⟩)).tail (.msgDeinit rfl)).tail
    (.mbufDeinit rfl)
  exact FreeRun.intact (hstop.tail (.connPut 0 (.inr rfl) (by decide)))

/-- A connection is taken and released; `conn_deinit` frees it and leaves it on the list. -/
theorem not_forall_intact : ¬∀ s, FreeRun (fun _ => True) s → s.Intact := by
  intro h
  have hget : FreeRun (fun _ => True) (({} : FreeLists).connGet (some 0)) :=
    .single (.connGet (some 0) (.inl rfl) (by simp [FreeLists.Fresh]))
  have hput := hget.tail (.connPut 0 (.inl rfl) (by decide))
  have hconn := (h _ (hput.tail (.connDeinit rfl trivial))).conn.live 0 (by decide)
  exact absurd hconn (by decide)

end GfwProxy
