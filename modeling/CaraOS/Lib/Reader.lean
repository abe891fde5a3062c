import Mathlib.Tactic.Common

namespace CaraOS.Reader

/-!
# Programs that read inside bounds

A run of such a program ends with a value or with an error code, unless it
reads outside the bounds it was given or a loop takes all the turns it was
given.  `Meets` says that it ends, and what a value then satisfies; its rules
follow the program from the end to the start.
-/

/-- How a run ends. -/
inductive Outcome (ε α : Type) where
  | value (a : α)
  | error (code : ε)
  | outside
  | unfinished
  deriving DecidableEq

/-- What a turn of a loop comes to. -/
inductive Turn (σ α : Type) where
  | next (state : σ)
  | done (a : α)

namespace Outcome

variable {ε δ σ α β : Type}

/-- Whatever is no value ends the run. -/
protected def bind : Outcome ε α → (α → Outcome ε β) → Outcome ε β
  | .value a, next => next a
  | .error code, _ => .error code
  | .outside, _ => .outside
  | .unfinished, _ => .unfinished

instance : Monad (Outcome ε) where
  pure := .value
  bind := Outcome.bind

/-- The error code is looked at instead of being passed on. -/
def attempt : Outcome ε α → Outcome δ (Except ε α)
  | .value a => .value (.ok a)
  | .error code => .value (.error code)
  | .outside => .outside
  | .unfinished => .unfinished

def loop (body : σ → Outcome ε (Turn σ α)) : Nat → σ → Outcome ε α
  | 0, _ => .unfinished
  | n + 1, state => do
      match ← body state with
      | .next state => loop body n state
      | .done a => pure a

/-- The run ends, and a value satisfies the condition. -/
def Meets : Outcome ε α → (α → Prop) → Prop
  | .value a, post => post a
  | .error _, _ => True
  | .outside, _ => False
  | .unfinished, _ => False

@[simp] theorem value_bind (a : α) (next : α → Outcome ε β) : (.value a >>= next) = next a :=
  rfl

theorem loop_next {body : σ → Outcome ε (Turn σ α)} {state after : σ}
    (isNext : body state = .value (.next after)) (n : Nat) :
    loop body (n + 1) state = loop body n after := by
  rw [loop, isNext]
  rfl

section Rules

variable {x : Outcome ε α} {post stronger : α → Prop}

@[simp] theorem meets_pure (a : α) : Meets (pure a : Outcome ε α) post ↔ post a :=
  .rfl

@[simp] theorem meets_error (code : ε) : Meets (.error code : Outcome ε α) post ↔ True :=
  .rfl

@[simp] theorem meets_bind (x : Outcome ε α) (next : α → Outcome ε β) (post : β → Prop) :
    Meets (x >>= next) post ↔ Meets x fun a => Meets (next a) post := by
  cases x <;> exact .rfl

@[simp] theorem meets_attempt (x : Outcome ε α) (post : Except ε α → Prop) :
    Meets (attempt x : Outcome δ (Except ε α)) post ↔
      (Meets x fun a => post (.ok a)) ∧
        ∀ code, x = .error code → post (.error code) := by
  cases x with
  | value a => simp [attempt, Meets]
  | error code => simp [attempt, Meets]
  | outside => simp [attempt, Meets]
  | unfinished => simp [attempt, Meets]

theorem Meets.mono (meets : Meets x stronger) (weaken : ∀ a, stronger a → post a) :
    Meets x post := by
  cases x with
  | value a => exact weaken a meets
  | error code => exact trivial
  | outside => exact meets
  | unfinished => exact meets

/-- A step is followed by what its condition is enough for. -/
theorem Meets.bind {next : α → Outcome ε β} {final : β → Prop} (first : Meets x stronger)
    (second : ∀ a, stronger a → Meets (next a) final) : Meets (x >>= next) final := by
  rw [meets_bind]
  exact first.mono second

section Guard

variable {p : Prop} [Decidable p] {code : ε}

/-- A check that stops the run with an error if it holds. -/
theorem Meets.unless (passed : ¬ p → Meets x post) :
    Meets (if p then .error code else x) post := by
  split
  · trivial
  · exact passed ‹_›

/-- A check that stops the run with an error if it fails. -/
theorem Meets.when (passed : p → Meets x post) : Meets (if p then x else .error code) post := by
  split
  · exact passed ‹_›
  · trivial

end Guard

/--
A loop ends if each turn keeps an invariant and takes something from a number
that is smaller than the number of turns.
-/
theorem Meets.loop {body : σ → Outcome ε (Turn σ α)} {n : Nat} {state : σ}
    (inv : σ → Prop) (rest : σ → Nat) (turn : ∀ state, inv state → Meets (body state) fun
      | .next after => inv after ∧ rest after < rest state
      | .done a => post a)
    (start : inv state) (enough : rest state < n) : Meets (loop body n state) post := by
  induction n generalizing state with
  | zero => exact absurd enough (Nat.not_lt_zero _)
  | succ n ih =>
    unfold Outcome.loop
    rw [meets_bind]
    apply (turn state start).mono
    intro result isResult
    cases result with
    | next after =>
      apply ih isResult.1
      exact Nat.lt_of_lt_of_le isResult.2 (Nat.le_of_lt_succ enough)
    | done a => exact isResult

end Rules

end Outcome

end CaraOS.Reader
