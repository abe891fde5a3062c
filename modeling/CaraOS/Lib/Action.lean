import Mathlib.Tactic.Common

namespace CaraOS

/-!
# Actions that change a state and may fail

An action returns a value or an error code, and in both cases the state it
leaves behind: an error does not undo what was done before it.  Sequencing
stops at the first error, as the `if (rc != CARA_EOK) return rc;` idiom of C
code does.
-/

/-- A computation on `σ` that returns an `α` or fails with an `ε`. -/
def Action (ε σ α : Type) : Type :=
  σ → Except ε α × σ

namespace Action

variable {ε σ τ α β : Type}

/-- Sequencing; an error skips what follows and keeps the state. -/
protected def bind (first : Action ε σ α) (next : α → Action ε σ β) : Action ε σ β :=
  fun state =>
    match first state with
    | (.ok value, after) => next value after
    | (.error code, after) => (.error code, after)

instance : Monad (Action ε σ) where
  pure value := fun state => (.ok value, state)
  bind := Action.bind

/-- Fail without touching the state. -/
def fail (code : ε) : Action ε σ α :=
  fun state => (.error code, state)

/-- The current state. -/
def read : Action ε σ σ :=
  fun state => (.ok state, state)

/-- Change the state. -/
def modify (change : σ → σ) : Action ε σ Unit :=
  fun state => (.ok (), change state)

/-- Run an action and hand its outcome on instead of failing. -/
def attempt (action : Action ε σ α) : Action ε σ (Except ε α) :=
  fun state => (.ok (action state).1, (action state).2)

/-- Return a value or fail with an error that was caught earlier. -/
def settle (outcome : Except ε α) : Action ε σ α :=
  fun state => (outcome, state)

/-- Run an action on a part of the state. -/
def within (get : σ → τ) (set : τ → σ → σ) (action : Action ε τ α) : Action ε σ α :=
  fun state =>
    ((action (get state)).1, set (action (get state)).2 state)

@[simp] theorem fail_apply (code : ε) (state : σ) :
    (fail code : Action ε σ α) state = (.error code, state) :=
  rfl

@[simp] theorem read_apply (state : σ) : (read : Action ε σ σ) state = (.ok state, state) :=
  rfl

@[simp] theorem modify_apply (change : σ → σ) (state : σ) :
    (modify change : Action ε σ Unit) state =
      (.ok (), change state) :=
  rfl

@[simp] theorem attempt_apply (action : Action ε σ α) (state : σ) :
    attempt action state = (.ok (action state).1, (action state).2) :=
  rfl

theorem outcome_eq {action : Action ε σ α} {state : σ} {outcome : Except ε α}
    (answers : (action state).1 = outcome) : action state = (outcome, (action state).2) :=
  Prod.ext answers rfl

variable {first : Action ε σ α} {next : α → Action ε σ β} {after : σ}

theorem bind_of_ok {state : σ} {value : α} (succeeded : first state = (.ok value, after)) :
    (first >>= next) state = next value after := by
  show Action.bind first next state = _
  simp [Action.bind, succeeded]

theorem bind_of_error {state : σ} {code : ε} (failed : first state = (.error code, after)) :
    (first >>= next) state = (.error code, after) := by
  show Action.bind first next state = _
  simp [Action.bind, failed]

theorem of_bind_ok {state : σ} {value : β}
    (succeeded : (first >>= next) state = (.ok value, after)) :
    ∃ middle between, first state = (.ok middle, between) ∧
      next middle between = (.ok value, after) := by
  cases outcome : first state with
  | mk answer between =>
    cases answer with
    | ok middle =>
      rw [bind_of_ok outcome] at succeeded
      exact ⟨middle, between, rfl, succeeded⟩
    | error code =>
      rw [bind_of_error outcome] at succeeded
      nomatch succeeded

protected theorem bind_assoc {γ : Type} (first : Action ε σ α) (second : α → Action ε σ β)
    (third : β → Action ε σ γ) :
    first >>= second >>= third =
      first >>= fun value => second value >>= third := by
  funext state
  cases outcome : first state with
  | mk answer after =>
    cases answer with
    | ok value =>
      have inner : (first >>= second) state = second value after := bind_of_ok outcome
      rw [bind_of_ok outcome]
      show Action.bind _ third state = Action.bind _ third after
      rw [Action.bind, inner]
      rfl
    | error code =>
      rw [bind_of_error outcome, bind_of_error (bind_of_error outcome)]

/-! ## Weakest preconditions -/

/-- What must hold before a run for its outcome to satisfy a postcondition. -/
def wp (action : Action ε σ α) (post : α → σ → Prop) (failed : ε → σ → Prop) (state : σ) : Prop :=
  match action state with
  | (.ok value, after) => post value after
  | (.error code, after) => failed code after

section Wp

variable {post : α → σ → Prop} {failed : ε → σ → Prop} {state : σ}

@[simp] theorem wp_pure (value : α) :
    wp (pure value : Action ε σ α) post failed state ↔
      post value state :=
  Iff.rfl

@[simp] theorem wp_fail (code : ε) :
    wp (fail code : Action ε σ α) post failed state ↔
      failed code state :=
  Iff.rfl

@[simp] theorem wp_read {post : σ → σ → Prop} :
    wp (read : Action ε σ σ) post failed state ↔ post state state :=
  Iff.rfl

@[simp] theorem wp_modify {post : Unit → σ → Prop} (change : σ → σ) :
    wp (modify change : Action ε σ Unit) post failed state ↔
      post () (change state) :=
  Iff.rfl

@[simp] theorem wp_bind {post : β → σ → Prop} (first : Action ε σ α) (next : α → Action ε σ β) :
    wp (first >>= next) post failed state ↔
      wp first (fun value => wp (next value) post failed) failed state := by
  unfold wp
  cases outcome : first state with
  | mk answer after =>
    cases answer with
    | ok value =>
      rw [bind_of_ok outcome]
    | error code =>
      rw [bind_of_error outcome]

@[simp] theorem wp_settle_ok (value : α) :
    wp (settle (.ok value) : Action ε σ α) post failed state ↔
      post value state :=
  Iff.rfl

@[simp] theorem wp_settle_error (code : ε) :
    wp (settle (.error code) : Action ε σ α) post failed state ↔
      failed code state :=
  Iff.rfl

@[simp] theorem wp_attempt {post : Except ε α → σ → Prop} (action : Action ε σ α) :
    wp (attempt action) post failed state ↔
      wp action (fun value => post (.ok value))
        (fun code => post (.error code)) state := by
  unfold wp
  simp only [attempt_apply]
  cases action state with
  | mk answer after =>
    cases answer <;> rfl

variable {action : Action ε σ α} {value : α}

theorem wp_mono {weaker : α → σ → Prop} {weakerFailed : ε → σ → Prop}
    (holds : wp action post failed state)
    (implies : ∀ value after, post value after → weaker value after)
    (failedImplies : ∀ code after, failed code after → weakerFailed code after) :
    wp action weaker weakerFailed state := by
  unfold wp at *
  cases outcome : action state with
  | mk answer after =>
    rw [outcome] at holds
    cases answer with
    | ok value =>
      exact implies value after holds
    | error code =>
      exact failedImplies code after holds

theorem wp_and {otherPost : α → σ → Prop} {otherFailed : ε → σ → Prop}
    (first : wp action post failed state) (second : wp action otherPost otherFailed state) :
    wp action
      (fun value after => post value after ∧ otherPost value after)
      (fun code after => failed code after ∧ otherFailed code after)
      state := by
  unfold wp at *
  cases outcome : action state with
  | mk answer after =>
    rw [outcome] at first second
    cases answer <;> exact ⟨first, second⟩

theorem wp_of_ok (ran : action state = (.ok value, after)) :
    wp action post failed state ↔ post value after := by
  unfold wp
  rw [ran]

theorem wp_ok (holds : wp action post failed state)
    (ran : action state = (.ok value, after)) : post value after := by
  unfold wp at holds
  rwa [ran] at holds

theorem wp_succeeded (holds : wp action post failed state)
    (succeeded : (action state).1 = .ok value) : post value (action state).2 :=
  wp_ok holds (Prod.ext succeeded rfl)

theorem wp_total (holds : wp action post (fun _ _ => False) state) :
    ∃ value after, action state = (.ok value, after) ∧ post value after := by
  unfold wp at holds
  cases outcome : action state with
  | mk answer after =>
    rw [outcome] at holds
    cases answer with
    | ok value =>
      exact ⟨value, after, rfl, holds⟩
    | error code =>
      exact absurd holds (by simp)

theorem wp_failed {code : ε} (holds : wp action post failed state)
    (gaveUp : (action state).1 = .error code) : failed code (action state).2 := by
  unfold wp at holds
  rwa [show action state = (.error code, (action state).2) from Prod.ext gaveUp rfl] at holds

theorem wp_state (invariant : σ → Prop)
    (holds : wp action (fun _ => invariant) (fun _ => invariant) state) :
    invariant (action state).2 := by
  unfold wp at holds
  cases outcome : action state with
  | mk answer after =>
    rw [outcome] at holds
    cases answer <;> exact holds

theorem wp_of_state (invariant : σ → Prop) (holds : invariant (action state).2) :
    wp action (fun _ => invariant) (fun _ => invariant) state := by
  unfold wp
  cases outcome : action state with
  | mk answer after =>
    rw [outcome] at holds
    cases answer <;> exact holds

end Wp

end Action

end CaraOS
