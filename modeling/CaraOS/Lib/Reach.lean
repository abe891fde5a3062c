import Mathlib.Tactic.Common

namespace CaraOS.Reach

/-!
# Reachable states

A system is a function that executes one operation.  A run is restricted by a
condition on each operation in the state in which it is executed; what an
operation preserves under the condition holds in every state of such a run.
-/

variable {σ ω : Type}

/-- What is reached by operations that meet the condition. -/
inductive Reaches (exec : σ → ω → σ) (ok : σ → ω → Prop) (start : σ) :
    σ → Prop
  | start : Reaches exec ok start start
  | step {state : σ} {op : ω} :
      Reaches exec ok start state → ok state op →
      Reaches exec ok start (exec state op)

/-- The operations of a list meet the condition, one after the other. -/
def AllSteps (exec : σ → ω → σ) (ok : σ → ω → Prop) (state : σ) :
    List ω → Prop
  | [] => True
  | op :: rest => ok state op ∧ AllSteps exec ok (exec state op) rest

section Rules

variable {exec : σ → ω → σ} {ok : σ → ω → Prop} {start state : σ}
  {ops : List ω}

theorem Reaches.invariant {inv : σ → Prop}
    (reaches : Reaches exec ok start state) (initial : inv start)
    (preserved : ∀ {state op}, inv state → ok state op → inv (exec state op)) : inv state := by
  induction reaches with
  | start => exact initial
  | step _ isOk ih =>
    exact preserved ih isOk

theorem Reaches.foldl (reaches : Reaches exec ok start state) (all : AllSteps exec ok state ops) :
    Reaches exec ok start (ops.foldl exec state) := by
  induction ops generalizing state with
  | nil => exact reaches
  | cons op rest ih =>
    exact ih (.step reaches all.1) all.2

theorem reaches_foldl (exec : σ → ω → σ) (start : σ) (ops : List ω) :
    Reaches exec (fun _ _ => True) start (ops.foldl exec start) := by
  have all (state : σ) (ops : List ω) : AllSteps exec (fun _ _ => True) state ops := by
    induction ops generalizing state with
    | nil => exact trivial
    | cons op rest ih =>
      exact ⟨trivial, ih (exec state op)⟩
  exact Reaches.foldl .start (all start ops)

end Rules

end CaraOS.Reach
