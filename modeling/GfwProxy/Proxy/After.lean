import GfwProxy.Lib.Exec
import GfwProxy.Proxy.Loop

set_option autoImplicit false

/-!
# What holds of the objects when a computation returns

The rules of `Exec.Post` for the statements of the handlers, where the part of the state that the
assertions speak about is the objects.  The pools, the statistics and the answers of the
environment may be anything.

## Main definitions

* `GfwProxy.After x Q h` — if `x` returns, started with the objects `h`, then `Q` holds of its
  value and of the objects that it leaves.

## Design

There is one rule for each statement in front of a continuation.  The last statement of a handler
is given the continuation `pure` first.
-/

namespace GfwProxy

open Exec

/-- If `x` returns, started with the objects `h`, then `Q` holds of its value and of the objects
that it leaves. -/
abbrev After {α : Type} (x : Core α) (Q : α → Heap → Prop) (h : Heap) : Prop :=
  Post St.heap x Q h

namespace After

variable {α β : Type} {Q R : α → Heap → Prop} {S : β → Heap → Prop} {h : Heap}

/-- A pure computation leaves the heap as it is. -/
protected theorem pure {a : α} (hQ : Q a h) : After (pure a) Q h := Post.pure hQ

/-- A postcondition may be weakened. -/
protected lemma mono {x : Core α} (hx : After x R h) (hQ : ∀ a h', R a h' → Q a h') : After x Q h :=
  Post.mono hx hQ

/-- Two postconditions of one computation hold together. -/
protected lemma and {x : Core α} (hQ : After x Q h) (hR : After x R h) :
    After x (fun a h' => Q a h' ∧ R a h') h :=
  Post.and hQ hR

/-- The rule of composition: what the first computation promises is what the second one assumes. -/
protected lemma call {x : Core α} {f : α → Core β} (hx : After x R h)
    (hf : ∀ a h', R a h' → After (f a) S h') : After (x >>= f) S h :=
  Post.call hx hf

/-- The last statement of a computation. -/
protected lemma last {x : Core α} (hx : After (x >>= Pure.pure) Q h) : After x Q h := by
  rwa [bind_pure] at hx

/-- A statement that returns `v` and does `t`. -/
protected lemma run {x : Core α} {f : α → Core β} (v : St → α) (t : St → St)
    (hx : ∀ σ, x σ = .ok (v σ, t σ))
    (hf : ∀ σ, σ.heap = h → After (f (v σ)) S (t σ).heap) : After (x >>= f) S h :=
  Post.run v t hx hf

/-- A statement that leaves the objects as they are. -/
protected lemma skip {x : Core α} {f : α → Core β} (hx : After x (fun _ h' => h' = h) h)
    (hf : ∀ a, After (f a) S h) : After (x >>= f) S h := by
  refine After.call hx ?_
  rintro a h' rfl
  exact hf a

section Statements

/-- Reading the heap. -/
protected lemma readHeap {f : Heap → α} {k : α → Core β} (hk : After (k (f h)) S h) :
    After (readHeap f >>= k) S h := by
  refine After.run (fun σ => f σ.heap) id (fun _ => rfl) ?_
  rintro σ rfl
  exact hk

/-- Reading a connection. -/
protected lemma getConn {c : ConnId} {k : Conn → Core β} (hk : After (k (h.conn c)) S h) :
    After (getConn c >>= k) S h :=
  After.readHeap (f := fun h => h.conn c) hk

/-- Reading a message. -/
protected lemma getMsg {m : MsgId} {k : Msg → Core β} (hk : After (k (h.msg m)) S h) :
    After (getMsg m >>= k) S h :=
  After.readHeap (f := fun h => h.msg m) hk

/-- Changing the heap. -/
protected lemma modHeap {f : Heap → Heap} {k : Unit → Core β} (hk : After (k ()) S (f h)) :
    After (modHeap f >>= k) S h := by
  refine After.run (fun _ => ()) (fun σ => { σ with heap := f σ.heap }) (fun _ => rfl) ?_
  rintro σ rfl
  exact hk

/-- Changing one connection. -/
protected lemma modConn {c : ConnId} {f : Conn → Conn} {k : Unit → Core β}
    (hk : After (k ()) S (h.modConn c f)) : After (modConn c f >>= k) S h :=
  After.modHeap hk

/-- Changing one message. -/
protected lemma modMsg {m : MsgId} {f : Msg → Msg} {k : Unit → Core β}
    (hk : After (k ()) S (h.modMsg m f)) : After (modMsg m f >>= k) S h :=
  After.modHeap hk

/-- Writing to the log. -/
protected lemma emit {e : Ev} {k : Unit → Core β} (hk : After (k ()) S (h.emit e)) :
    After (emit e >>= k) S h :=
  After.modHeap hk

/-- An answer of the environment may be anything. -/
protected lemma ask {f : ℕ → α} {k : α → Core β} (hk : ∀ t, After (k (f t)) S h) :
    After (ask f >>= k) S h := by
  refine After.run (fun σ => f σ.tick) (fun σ => { σ with tick := σ.tick + 1 }) (fun _ => rfl) ?_
  rintro σ rfl
  exact hk σ.tick

/-- The error number may be anything. -/
protected lemma getErrno {env : Env} {k : ℤ → Core β} (hk : ∀ e, After (k e) S h) :
    After (getErrno env >>= k) S h :=
  After.ask fun _ => hk _

/-- The state of a pool may be anything. -/
protected lemma getPool {p : ℕ} {k : ServerPool → Core β} (hk : ∀ pool, After (k pool) S h) :
    After (getPool p >>= k) S h := by
  refine After.run (fun σ => σ.pool p) id (fun _ => rfl) ?_
  rintro σ rfl
  exact hk _

/-- The operations on a pool do not change the heap. -/
protected lemma runPool {p : ℕ} {f : ServerPool → Except Fault (α × ServerPool)} {k : α → Core β}
    (hk : ∀ a, After (k a) S h) : After (runPool p f >>= k) S h := by
  refine Post.bind ?_
  rintro σ rfl a σ' hr
  unfold runPool at hr
  cases hf : f (σ.pool p) with
  | error e => simp [hf] at hr
  | ok r =>
    simp only [hf, Except.ok.injEq, Prod.mk.injEq] at hr
    obtain ⟨-, rfl⟩ := hr
    exact hk a

/-- The statistics of a pool are not in the heap. -/
protected lemma statsPool {p : ℕ} {name : PoolStat} {val : ℤ} {k : Unit → Core β}
    (hk : After (k ()) S h) : After (statsPool p name val >>= k) S h := by
  refine After.run (fun _ => ()) _ (fun _ => rfl) ?_
  rintro σ rfl
  exact hk

/-- The statistics of a server are not in the heap. -/
protected lemma statsServer {p i : ℕ} {name : ServerStat} {val : ℤ} {k : Unit → Core β}
    (hk : After (k ()) S h) : After (statsServer p i name val >>= k) S h := by
  refine After.run (fun _ => ()) _ (fun _ => rfl) ?_
  rintro σ rfl
  exact hk

/-- The time stamps of a server are not in the heap. -/
protected lemma statsServerSetTs {p i : ℕ} {name : ServerStat} {val : ℤ} {k : Unit → Core β}
    (hk : After (k ()) S h) : After (statsServerSetTs p i name val >>= k) S h := by
  refine After.run (fun _ => ()) _ (fun _ => rfl) ?_
  rintro σ rfl
  exact hk

/-- A hook leaves the objects as they are. -/
protected lemma callHook {hook : Hook} {k : Unit → Core β} (hk : After (k ()) S h) :
    After (callHook hook >>= k) S h := by
  refine After.run (fun _ => ()) hook.run (fun _ => rfl) ?_
  rintro σ rfl
  rwa [hook.heap]

/-- A fault promises anything. -/
protected lemma fault {e : Fault} : After (fault e : Core α) Q h := by
  rintro σ - a σ' ⟨⟩

/-- Nothing runs behind a fault. -/
protected lemma fault_bind {e : Fault} {k : α → Core β} : After (fault e >>= k) S h := by
  refine Post.bind ?_
  rintro σ - a σ' ⟨⟩

/-- Behind a dereference the pointer is not null. -/
protected lemma deref {o : Option α} {k : α → Core β} (hk : ∀ a, o = some a → After (k a) S h) :
    After (deref o >>= k) S h := by
  cases o with
  | none => exact After.fault_bind
  | some a =>
    refine After.call (R := fun b h' => b = a ∧ h' = h) (After.pure ⟨rfl, rfl⟩) ?_
    rintro b h' ⟨rfl, rfl⟩
    exact hk b rfl

/-- A computation that is run only under a condition. -/
protected lemma onlyIf {b : Bool} {x : Core Unit} {k : Unit → Core β} {Q : Unit → Heap → Prop}
    (hx : b = true → After x Q h) (hb : b = false → Q () h)
    (hk : ∀ h', Q () h' → After (k ()) S h') : After (onlyIf b x >>= k) S h := by
  cases b with
  | false => exact After.call (After.pure (hb rfl)) fun _ h' hq => hk h' hq
  | true => exact After.call (hx rfl) fun _ h' hq => hk h' hq

/-- Behind the cast of an owner to a server, the connection is one of a server. -/
protected lemma ownerServer {s : ConnId} {k : ℕ × ℕ → Core β}
    (hk : ∀ p i, (h.conn s).owner = some (.server p i) → After (k (p, i)) S h) :
    After (ownerServer s >>= k) S h := by
  refine After.call (R := fun r h' => h' = h ∧ (h.conn s).owner = some (.server r.1 r.2)) ?_ ?_
  · refine After.getConn ?_
    split
    case h_1 p i ho => exact After.pure ⟨rfl, ho⟩
    case h_2 => exact After.fault
  · rintro ⟨p, i⟩ h' ⟨rfl, ho⟩
    exact hk p i ho

/-- Behind the cast of an owner to a pool, the connection is one of a client. -/
protected lemma ownerPool {c : ConnId} {k : ℕ → Core β}
    (hk : ∀ p, (h.conn c).owner = some (.pool p) → After (k p) S h) :
    After (ownerPool c >>= k) S h := by
  refine After.call (R := fun p h' => h' = h ∧ (h.conn c).owner = some (.pool p)) ?_ ?_
  · refine After.getConn ?_
    split
    case h_1 p ho => exact After.pure ⟨rfl, ho⟩
    case h_2 => exact After.fault
  · rintro p h' ⟨rfl, ho⟩
    exact hk p ho

/-- The rule of the conditional. -/
protected lemma ite {p : Prop} [Decidable p] {x y : Core α} (ht : p → After x Q h)
    (hf : ¬p → After y Q h) : After (if p then x else y) Q h :=
  Post.ite ht hf

end Statements

end After

end GfwProxy
