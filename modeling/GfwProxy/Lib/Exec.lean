import Mathlib.Logic.Basic

set_option autoImplicit false

/-!
# Computations seen through a part of their state

A computation with state that can fail, `StateT σ (Except ε) α`, and what holds when it returns.
The assertions speak about a part `π` of the state only; whatever the computation reads from the
rest of the state is arbitrary.

## Main definitions

* `Exec.Post π x Q h` — started in any state whose part is `h`, whenever `x` returns, its value
  and the part of the state that it leaves satisfy `Q`.
* `Exec.Keeps π x` — whenever `x` returns, it leaves the part as it was.
* `Exec.Maintains π I x` — whenever `x` returns, it leaves a part that satisfies `I` if the part
  satisfied `I` before.

## Main results

* `Exec.Post.pure`, `Exec.Post.bind`, `Exec.Post.call`, `Exec.Post.mono`, `Exec.Post.run` — the
  rules.
* `Exec.Post.elim` — what the assertion says about a run of the computation.
* `Exec.Keeps.bind`, `Exec.Maintains.bind`, `Exec.Keeps.maintains` — the two weaker assertions
  compose without saying what the parts of a computation return.
-/

namespace Exec

universe u v

variable {σ ε α β : Type u} {η : Type v}

/-- Started in any state whose part is `h`, whenever `x` returns, its value and the part of the
state that it leaves satisfy `Q`. -/
def Post (π : σ → η) (x : StateT σ (Except ε) α) (Q : α → η → Prop) (h : η) : Prop :=
  ∀ s, π s = h → ∀ a s', x s = .ok (a, s') → Q a (π s')

variable {π : σ → η} {x : StateT σ (Except ε) α} {f : α → StateT σ (Except ε) β}
  {Q R : α → η → Prop} {S : β → η → Prop} {h : η}

/-- A sequence of two computations without state returns if both do. -/
lemma except_bind_ok {x : Except ε α} {g : α → Except ε β} {b : β} :
    (x >>= g) = .ok b ↔ ∃ a, x = .ok a ∧ g a = .ok b := by
  cases x with
  | error e => simp [bind, Except.bind]
  | ok a => simp [bind, Except.bind]

/-- A sequence returns if both parts do. -/
lemma bind_ok (x : StateT σ (Except ε) α) (f : α → StateT σ (Except ε) β) (s s' : σ) (b : β) :
    (x >>= f) s = .ok (b, s') ↔ ∃ a s₁, x s = .ok (a, s₁) ∧ f a s₁ = .ok (b, s') := by
  change (x s >>= fun r => f r.1 r.2) = _ ↔ _
  cases h : x s with
  | error e => simp [bind, Except.bind]
  | ok r =>
    rcases r with ⟨a, s₁⟩
    constructor
    · intro hf
      exact ⟨a, s₁, rfl, hf⟩
    · rintro ⟨a', s', ⟨⟩, hf⟩
      exact hf

/-- A value is returned without a change of the state. -/
lemma pure_ok (a b : α) (s s' : σ) :
    (pure a : StateT σ (Except ε) α) s = .ok (b, s') ↔ a = b ∧ s = s' := by
  change Except.ok (a, s) = _ ↔ _
  simp

/-- What the assertion says about a run. -/
theorem Post.elim (hx : Post π x Q h) {s s' : σ} {a : α} (hs : π s = h) (hr : x s = .ok (a, s')) :
    Q a (π s') :=
  hx s hs a s' hr

/-- **The rule of consequence.** -/
theorem Post.mono (hx : Post π x R h) (hQ : ∀ a h', R a h' → Q a h') : Post π x Q h := by
  intro s hs a s' hr
  exact hQ a _ (hx s hs a s' hr)

/-- Two assertions about the same computation. -/
lemma Post.and (hQ : Post π x Q h) (hR : Post π x R h) :
    Post π x (fun a h' => Q a h' ∧ R a h') h :=
  fun s hs a s' hr => ⟨hQ s hs a s' hr, hR s hs a s' hr⟩

/-- The rule of values. -/
theorem Post.pure {a : α} (hQ : Q a h) :
    Post π (pure a : StateT σ (Except ε) α) Q h := by
  intro s hs b s' hr
  obtain ⟨rfl, rfl⟩ := (pure_ok a b s s').mp hr
  rwa [hs]

/-- A computation that fails does not return. -/
lemma Post.throw {e : ε} : Post π (throw e : StateT σ (Except ε) α) Q h := by
  intro s _ a s' hr
  cases hr

/-- The state is read. -/
lemma Post.get {s : σ} {f : σ → StateT σ (Except ε) β} {S : β → σ → Prop}
    (hf : Post id (f s) S s) : Post id (get >>= f) S s := by
  rintro _ rfl
  exact hf _ rfl

/-- The state is updated. -/
lemma Post.modify {s : σ} {g : σ → σ} {f : PUnit → StateT σ (Except ε) β} {S : β → σ → Prop}
    (hf : Post id (f ⟨⟩) S (g s)) : Post id (modify g >>= f) S s := by
  rintro _ rfl
  exact hf _ rfl

/-- A computation without state that returns `a`. -/
lemma Post.lift {s : σ} {a : α} {f : α → StateT σ (Except ε) β} {S : β → σ → Prop}
    (hf : Post id (f a) S s) : Post id (liftM (Except.ok a : Except ε α) >>= f) S s := by
  rintro _ rfl
  exact hf _ rfl

/-- **The rule of sequences.** -/
theorem Post.bind (hx : Post π x (fun a h' => Post π (f a) S h') h) : Post π (x >>= f) S h := by
  intro s hs b s' hr
  obtain ⟨a, s₁, hx', hf⟩ := (bind_ok x f s s' b).mp hr
  exact hx s hs a s₁ hx' s₁ rfl b s' hf

/-- The rule of sequences, for a first part that is known. -/
theorem Post.call (hx : Post π x R h) (hf : ∀ a h', R a h' → Post π (f a) S h') :
    Post π (x >>= f) S h :=
  Post.bind (hx.mono hf)

/-- The rule of sequences, for a first part that always returns `v` and does `t`. -/
theorem Post.run (v : σ → α) (t : σ → σ) (hx : ∀ s, x s = .ok (v s, t s))
    (hf : ∀ s, π s = h → Post π (f (v s)) S (π (t s))) : Post π (x >>= f) S h := by
  refine Post.bind fun s hs a s' hr => ?_
  rw [hx] at hr
  obtain ⟨rfl, rfl⟩ := Prod.mk.inj (Except.ok.inj hr)
  exact hf s hs

/-- The rule of conditionals. -/
lemma Post.ite {p : Prop} [Decidable p] {y : StateT σ (Except ε) α} (ht : p → Post π x Q h)
    (hf : ¬p → Post π y Q h) : Post π (if p then x else y) Q h := by
  split
  · exact ht ‹p›
  · exact hf ‹¬p›

/-! ## Parts that a computation keeps -/

/-- Whenever `x` returns, it leaves the part of the state as it was. -/
def Keeps (π : σ → η) (x : StateT σ (Except ε) α) : Prop :=
  ∀ s a s', x s = .ok (a, s') → π s' = π s

/-- A value is returned. -/
lemma Keeps.pure (a : α) : Keeps π (pure a : StateT σ (Except ε) α) := by
  intro s b s' hr
  obtain ⟨rfl, rfl⟩ := (pure_ok a b s s').mp hr
  rfl

/-- The rule of sequences, for a part that is kept. -/
theorem Keeps.bind (hx : Keeps π x) (hf : ∀ a, Keeps π (f a)) : Keeps π (x >>= f) := by
  intro s b s' hr
  obtain ⟨a, s₁, hx', hf'⟩ := (bind_ok x f s s' b).mp hr
  exact (hf a s₁ b s' hf').trans (hx s a s₁ hx')

/-- The rule of conditionals, for a part that is kept. -/
lemma Keeps.ite {p : Prop} [Decidable p] {y : StateT σ (Except ε) α} (ht : Keeps π x)
    (hf : Keeps π y) : Keeps π (if p then x else y) := by
  split
  · exact ht
  · exact hf

/-- A computation that always returns `v` and does `t`. -/
lemma Keeps.run (v : σ → α) (t : σ → σ) (hx : ∀ s, x s = .ok (v s, t s))
    (ht : ∀ s, π (t s) = π s) : Keeps π x := by
  intro s a s' hr
  rw [hx] at hr
  obtain ⟨rfl, rfl⟩ := Prod.mk.inj (Except.ok.inj hr)
  exact ht s

/-- An assertion about a part that is kept. -/
lemma Keeps.post (hx : Keeps π x) (hQ : ∀ a, Q a h) : Post π x Q h := by
  intro s hs a s' hr
  rw [hx s a s' hr, hs]
  exact hQ a

/-- The rule of sequences, for a first part that keeps the part of the state. -/
lemma Post.skip (hx : Keeps π x) (hf : ∀ a, Post π (f a) S h) : Post π (x >>= f) S h :=
  Post.bind (hx.post hf)

/-! ## Invariants -/

/-- Whenever `x` returns, it leaves a part of the state that satisfies `I`, if the part satisfied
`I` before. -/
def Maintains (π : σ → η) (I : η → Prop) (x : StateT σ (Except ε) α) : Prop :=
  ∀ h, I h → Post π x (fun _ h' => I h') h

variable {I : η → Prop}

/-- A part that is kept satisfies whatever it did before. -/
theorem Keeps.maintains (hx : Keeps π x) : Maintains π I x :=
  fun _ hi => hx.post fun _ => hi

/-- A value is returned. -/
lemma Maintains.pure (a : α) : Maintains π I (pure a : StateT σ (Except ε) α) :=
  (Keeps.pure a).maintains

/-- The rule of sequences, for an invariant. -/
theorem Maintains.bind (hx : Maintains π I x) (hf : ∀ a, Maintains π I (f a)) :
    Maintains π I (x >>= f) :=
  fun h hi => Post.call (hx h hi) hf

/-- The rule of sequences, for a first part that keeps the part of the state. -/
lemma Maintains.skip (hx : Keeps π x) (hf : ∀ a, Maintains π I (f a)) : Maintains π I (x >>= f) :=
  hx.maintains.bind hf

/-- The rule of conditionals, for an invariant. -/
lemma Maintains.ite {p : Prop} [Decidable p] {y : StateT σ (Except ε) α} (ht : Maintains π I x)
    (hf : Maintains π I y) : Maintains π I (if p then x else y) := by
  split
  · exact ht
  · exact hf

end Exec
