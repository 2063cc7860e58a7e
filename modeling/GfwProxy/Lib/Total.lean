import Mathlib.Data.Nat.Notation
import GfwProxy.Lib.Exec

set_option autoImplicit false

/-!
# Computations that return

Total correctness of a computation with state that can fail, `StateT σ (Except ε) α`: it returns,
and its value and the state that it leaves satisfy an assertion.

## Main definitions

* `Exec.Total x Q s` — started in `s`, `x` returns, and its value and the state that it leaves
  satisfy `Q`.
* `Exec.Extends x y` — whenever `x` returns, `y` does the same.
* `Exec.loop` — a loop whose body says whether it goes on, with a bound on its rounds.

## Main results

* `Exec.Total.pure`, `Exec.Total.bind`, `Exec.Total.run`, `Exec.Total.get`, `Exec.Total.modify` —
  the rules.
* `Exec.Total.loop` — the rule of loops: an invariant, and a measure that the body decreases;
  `Exec.loop_ok` — the same for a loop that is known to return.
-/

namespace Exec

universe u

variable {σ ε α β : Type u}

/-- Started in `s`, `x` returns, and its value and the state that it leaves satisfy `Q`. -/
def Total (x : StateT σ (Except ε) α) (Q : α → σ → Prop) (s : σ) : Prop :=
  ∃ a s', x s = .ok (a, s') ∧ Q a s'

variable {x : StateT σ (Except ε) α} {f : α → StateT σ (Except ε) β} {Q R : α → σ → Prop}
  {S : β → σ → Prop} {s : σ}

/-- **The rule of consequence.** -/
lemma Total.mono (hx : Total x R s) (hQ : ∀ a s', R a s' → Q a s') : Total x Q s := by
  obtain ⟨a, s', hr, hR⟩ := hx
  exact ⟨a, s', hr, hQ a s' hR⟩

/-- The rule of values. -/
theorem Total.pure {a : α} (hQ : Q a s) : Total (pure a : StateT σ (Except ε) α) Q s :=
  ⟨a, s, rfl, hQ⟩

/-- **The rule of sequences.** -/
theorem Total.bind (hx : Total x R s) (hf : ∀ a s', R a s' → Total (f a) S s') :
    Total (x >>= f) S s := by
  obtain ⟨a, s', hr, hR⟩ := hx
  obtain ⟨b, s'', hr', hS⟩ := hf a s' hR
  refine ⟨b, s'', ?_, hS⟩
  change (x s >>= fun r => f r.1 r.2) = _
  rw [hr]
  exact hr'

/-- The rule of sequences, for a first part that is known to return `a`. -/
theorem Total.run {a : α} {s' : σ} (hx : x s = .ok (a, s')) (hf : Total (f a) S s') :
    Total (x >>= f) S s := by
  refine Total.bind (R := fun b s₁ => b = a ∧ s₁ = s') ⟨a, s', hx, rfl, rfl⟩ ?_
  rintro b s₁ ⟨rfl, rfl⟩
  exact hf

/-- The state is read. -/
theorem Total.get {f : σ → StateT σ (Except ε) β} (hf : Total (f s) S s) : Total (get >>= f) S s :=
  hf

/-- The state is updated. -/
theorem Total.modify {g : σ → σ} {f : PUnit → StateT σ (Except ε) β} (hf : Total (f ⟨⟩) S (g s)) :
    Total (modify g >>= f) S s :=
  hf

/-- A computation without state that returns `a`. -/
lemma Total.lift {a : α} {f : α → StateT σ (Except ε) β} (hf : Total (f a) S s) :
    Total (liftM (Except.ok a : Except ε α) >>= f) S s :=
  hf

/-- The rule of conditionals. -/
lemma Total.ite {p : Prop} [Decidable p] {y : StateT σ (Except ε) α} (ht : p → Total x Q s)
    (hf : ¬p → Total y Q s) : Total (if p then x else y) Q s := by
  split
  · exact ht ‹p›
  · exact hf ‹¬p›

/-- The assertion holds of whatever the computation returns. -/
lemma Total.elim (hx : Total x Q s) {a : α} {s' : σ} (hr : x s = .ok (a, s')) : Q a s' := by
  obtain ⟨a₁, s₁, hr₁, hQ⟩ := hx
  rw [hr] at hr₁
  cases hr₁
  exact hQ

/-- Whatever a computation that returns satisfies is an assertion about its runs. -/
lemma Total.post (hx : Total x Q s) : Post id x Q s := by
  rintro _ rfl a s' hr
  exact hx.elim hr

/-! ## Computations that return more often -/

/-- Whenever `x` returns, `y` does the same. -/
def Extends (x y : StateT σ (Except ε) α) : Prop := ∀ s r, x s = .ok r → y s = .ok r

/-- A computation returns as often as itself. -/
lemma Extends.refl (x : StateT σ (Except ε) α) : Extends x x := fun _ _ h => h

/-- One that returns more often than one that returns more often. -/
lemma Extends.trans {y z : StateT σ (Except ε) α} (hx : Extends x y) (hy : Extends y z) :
    Extends x z := fun s r h => hy s r (hx s r h)

/-- A computation that does not return. -/
lemma Extends.throw {e : ε} : Extends (throw e : StateT σ (Except ε) α) x := by
  intro s r h
  cases h

/-- The parts of a sequence return more often. -/
lemma Extends.bind {y : StateT σ (Except ε) α} {g : α → StateT σ (Except ε) β} (hx : Extends x y)
    (hf : ∀ a, Extends (f a) (g a)) : Extends (x >>= f) (y >>= g) := by
  rintro s ⟨b, s'⟩ h
  obtain ⟨a, s₁, hr, hb⟩ := (bind_ok x f s s' b).mp h
  exact (bind_ok y g s s' b).mpr ⟨a, s₁, hx _ _ hr, hf a _ _ hb⟩

/-- The branches of a conditional return more often. -/
lemma Extends.ite {p : Prop} [Decidable p] {y x' y' : StateT σ (Except ε) α} (hx : Extends x x')
    (hy : Extends y y') : Extends (if p then x else y) (if p then x' else y') := by
  split
  · exact hx
  · exact hy

/-- A computation that returns more often with more fuel. -/
lemma Extends.mono {f : ℕ → StateT σ (Except ε) α} (hf : ∀ n, Extends (f n) (f (n + 1))) {m n : ℕ}
    (h : m ≤ n) : Extends (f m) (f n) := by
  induction h with
  | refl => exact Extends.refl _
  | step _ ih => exact ih.trans (hf _)

/-! ## Loops -/

/-- A loop with at most `n` rounds; `out` is what happens if they do not suffice.  The body returns
what the next round starts from, or the value of the loop. -/
def loop (out : ε) (body : α → StateT σ (Except ε) (α ⊕ β)) : ℕ → α → StateT σ (Except ε) β
  | 0, _ => throw out
  | n + 1, a => do
    match ← body a with
    | .inl a' => loop out body n a'
    | .inr b => return b

/-- **The rule of loops**: the body keeps the invariant `I` and decreases the measure `μ` when it
goes on, and establishes `S` when it does not. -/
theorem Total.loop {out : ε} {body : α → StateT σ (Except ε) (α ⊕ β)} {I : α → σ → Prop}
    {μ : α → σ → ℕ}
    (hbody : ∀ a s, I a s → Total (body a)
      (fun r s' => Sum.rec (fun a' => I a' s' ∧ μ a' s' < μ a s) (fun b => S b s') r) s) :
    ∀ (n : ℕ) (a : α) (s : σ), I a s → μ a s < n → Total (loop out body n a) S s := by
  intro n
  induction n with
  | zero =>
    intro a s _ hn
    exact absurd hn (Nat.not_lt_zero _)
  | succ n ih =>
    intro a s hi hn
    refine Total.bind (hbody a s hi) fun r s' hr => ?_
    cases r with
    | inl a' => exact ih a' s' hr.1 (Nat.lt_of_lt_of_le hr.2 (Nat.le_of_lt_succ hn))
    | inr b => exact Total.pure hr

/-- **The rule of loops that return**: the body keeps the invariant `I` when it goes on, and
establishes `S` when it does not. -/
theorem loop_ok {out : ε} {body : α → StateT σ (Except ε) (α ⊕ β)} {I : α → σ → Prop}
    (hbody : ∀ a s r s', I a s → body a s = .ok (r, s') →
      Sum.rec (fun a' => I a' s') (fun b => S b s') r) :
    ∀ (n : ℕ) (a : α) (s : σ), I a s → ∀ {b s'}, loop out body n a s = .ok (b, s') → S b s' := by
  intro n
  induction n with
  | zero =>
    intro a s _ b s' h
    cases h
  | succ n ih =>
    intro a s hi b s' h
    obtain ⟨r, s₁, hr, h⟩ := (bind_ok _ _ _ _ _).mp h
    have hround := hbody a s r s₁ hi hr
    cases r with
    | inl a' => exact ih a' s₁ hround h
    | inr b' =>
      obtain ⟨rfl, rfl⟩ := (pure_ok _ _ _ _).mp h
      exact hround

end Exec
