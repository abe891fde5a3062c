import Mathlib.Tactic.Common

namespace CaraOS.Program

/-!
# Programs over an interface of calls

A program is a tree of calls to some interface, each continued by what the
call answers.  The same program can be run on a concrete machine that answers
every call, and reasoned about on an abstract machine whose calls are only
described by a relation.  `wp_sound` transfers a postcondition from the second
to the first, given one simulation fact for each call.
-/

/-- A program that performs calls and continues with their answers. -/
inductive Prog (Call : Type) (Answer : Call → Type) (α : Type) : Type where
  | pure (value : α)
  | call (request : Call) (next : Answer request → Prog Call Answer α)

namespace Prog

variable {Call : Type} {Answer : Call → Type} {α β γ : Type}

/-- Sequential composition: graft the continuation on every leaf. -/
protected def bind :
    Prog Call Answer α →
      (α → Prog Call Answer β) →
      Prog Call Answer β
  | .pure value, next => next value
  | .call request rest, next =>
    .call request fun answer => (rest answer).bind next

instance : Monad (Prog Call Answer) where
  pure := Prog.pure
  bind := Prog.bind

def request (c : Call) : Prog Call Answer (Answer c) :=
  .call c .pure

@[simp] theorem call_bind (c : Call) (rest : Answer c → Prog Call Answer α)
    (next : α → Prog Call Answer β) :
    (Prog.call c rest >>= next : Prog Call Answer β) =
      Prog.call c fun answer => rest answer >>= next :=
  rfl

/-! ## Running on a concrete machine -/

section Run

variable {τ : Type} (exec : (c : Call) → τ → Answer c × τ)

def run : Prog Call Answer α → τ → α × τ
  | .pure value, state => (value, state)
  | .call c next, state =>
    let (answer, after) := exec c state
    (next answer).run after

/-- The state after a list of calls whose answers are ignored. -/
def runCalls : List Call → τ → τ
  | [], state => state
  | c :: rest, state => runCalls rest (exec c state).2

theorem run_bind (program : Prog Call Answer α) (next : α → Prog Call Answer β) (state : τ) :
    run exec (program >>= next) state =
      run exec (next (run exec program state).1)
        (run exec program state).2 := by
  induction program generalizing state with
  | pure value =>
    rfl
  | call c rest ih =>
    exact ih _ _

theorem run_eq_runCalls (program : Prog Call Answer α) (state : τ) :
    ∃ calls, (run exec program state).2 = runCalls exec calls state := by
  induction program generalizing state with
  | pure value =>
    exact ⟨[], rfl⟩
  | call c next ih =>
    obtain ⟨calls, later⟩ := ih (exec c state).1 (exec c state).2
    exact ⟨c :: calls, later⟩

end Run

/-! ## Weakest preconditions on an abstract machine -/

section Wp

variable {σ : Type} (step : (c : Call) → σ → Answer c → σ → Prop)

/-- The postcondition holds whatever the abstract machine answers. -/
def wp : Prog Call Answer α → (α → σ → Prop) → σ → Prop
  | .pure value, post, state => post value state
  | .call c next, post, state =>
    ∀ answer after,
      step c state answer after → (next answer).wp post after

@[simp] theorem wp_call (c : Call) (next : Answer c → Prog Call Answer α) (post : α → σ → Prop)
    (state : σ) :
    wp step (Prog.call c next) post state ↔
      ∀ answer after,
        step c state answer after →
          wp step (next answer) post after :=
  Iff.rfl

theorem wp_bind (program : Prog Call Answer α) (next : α → Prog Call Answer β)
    (post : β → σ → Prop) (state : σ) :
    wp step (program >>= next) post state ↔
      wp step program
        (fun value after => wp step (next value) post after)
        state := by
  induction program generalizing state with
  | pure value =>
    rfl
  | call c rest ih =>
    simp only [call_bind, wp_call, ih]

theorem wp_mono {program : Prog Call Answer α} {post weaker : α → σ → Prop} {state : σ}
    (holds : wp step program post state)
    (implies : ∀ value after, post value after → weaker value after) :
    wp step program weaker state := by
  induction program generalizing state with
  | pure value =>
    exact implies value state holds
  | call c next ih =>
    intro answer after stepped
    exact ih answer (holds answer after stepped)

theorem wp_congr {program : Prog Call Answer α} {post same : α → σ → Prop} {state : σ}
    (congr : ∀ value after, post value after ↔ same value after) :
    wp step program post state ↔ wp step program same state :=
  ⟨(wp_mono step · fun value after => (congr value after).mp),
    (wp_mono step · fun value after => (congr value after).mpr)⟩

/--
Soundness: when the concrete machine simulates the abstract one call by call,
a run ends in a state related to one that satisfies the postcondition.
-/
theorem wp_sound {τ : Type} {exec : (c : Call) → τ → Answer c × τ} {related : τ → σ → Prop}
    (simulated : ∀ {c concrete abstract}, related concrete abstract → ∃ after,
            step c abstract (exec c concrete).1 after ∧
              related (exec c concrete).2 after) {program : Prog Call Answer α}
    {post : α → σ → Prop} {concrete : τ} {abstract : σ} (start : related concrete abstract)
    (holds : wp step program post abstract) :
    ∃ after,
      post (run exec program concrete).1 after ∧
        related (run exec program concrete).2 after := by
  induction program generalizing concrete abstract with
  | pure value =>
    exact ⟨abstract, holds, start⟩
  | call c next ih =>
    obtain ⟨after, oneStep, kept⟩ := simulated start
    exact ih _ kept (holds _ _ oneStep)

end Wp

end Prog

/-! ## Programs that may fail -/

namespace Fallible

variable {Call : Type} {Answer : Call → Type} {ε α β : Type}

/-- Run a fallible program and hand its outcome on instead of failing. -/
def attempt (program : ExceptT ε (Prog Call Answer) α) :
    ExceptT ε (Prog Call Answer) (Except ε α) :=
  ExceptT.mk (program.run >>= fun outcome => pure (Except.ok outcome))

/-- Fail with an error that was caught, or return the value. -/
def settle :
    Except ε α → ExceptT ε (Prog Call Answer) α
  | .ok value => pure value
  | .error code => throw code

/-- On failure run a cleanup, then fail with the same error. -/
def orCleanup (program : ExceptT ε (Prog Call Answer) α)
    (cleanup : ExceptT ε (Prog Call Answer) Unit) :
    ExceptT ε (Prog Call Answer) α := do
  match ← attempt program with
  | .ok value => return value
  | .error code => do
      cleanup
      throw code

variable {σ : Type} (step : (c : Call) → σ → Answer c → σ → Prop)

/-- The precondition of a success and of an error postcondition. -/
def wp (program : ExceptT ε (Prog Call Answer) α) (post : α → σ → Prop) (failed : ε → σ → Prop)
    (state : σ) : Prop :=
  Prog.wp step program.run (fun outcome after =>
      match outcome with
      | .ok value => post value after
      | .error code => failed code after)
    state

theorem wp_bind (program : ExceptT ε (Prog Call Answer) α)
    (next : α → ExceptT ε (Prog Call Answer) β) (post : β → σ → Prop)
    (failed : ε → σ → Prop) (state : σ) :
    wp step (program >>= next) post failed state ↔
      wp step program
        (fun value after => wp step (next value) post failed after)
        failed state := by
  unfold wp
  rw [ExceptT.run_bind, Prog.wp_bind]
  refine Prog.wp_congr step fun outcome after => ?_
  cases outcome with
  | ok value => rfl
  | error code => rfl

theorem wp_mono {program : ExceptT ε (Prog Call Answer) α} {post weaker : α → σ → Prop}
    {failed weakerFailed : ε → σ → Prop} {state : σ} (holds : wp step program post failed state)
    (implies : ∀ value after, post value after → weaker value after)
    (failedImplies : ∀ code after, failed code after → weakerFailed code after) :
    wp step program weaker weakerFailed state := by
  refine Prog.wp_mono step holds ?_
  intro outcome after reached
  cases outcome with
  | ok value =>
    exact implies value after reached
  | error code =>
    exact failedImplies code after reached

@[simp] theorem wp_attempt (program : ExceptT ε (Prog Call Answer) α) (post : Except ε α → σ → Prop)
    (failed : ε → σ → Prop) (state : σ) :
    wp step (attempt program) post failed state ↔ wp step program
        (fun value after => post (.ok value) after) (fun code after => post (.error code) after)
        state := by
  unfold wp attempt
  rw [ExceptT.run_mk, Prog.wp_bind]
  refine Prog.wp_congr step fun outcome after => ?_
  cases outcome with
  | ok value => rfl
  | error code => rfl

end Fallible

end CaraOS.Program
