import Mathlib.Logic.Function.Basic

namespace CaraOS.Paint

/-!
# Drawings

A drawing maps pictures to pictures.  One that looks, at each place, at nothing
but what that place showed before can be followed place by place: once a place
has its colour, what was there earlier does not matter.
-/

open List

variable {P C : Type}

/-- What a place shows afterwards depends on what it showed before only. -/
def Pointwise (draw : (P → C) → P → C) : Prop :=
  ∀ ⦃first second : P → C⦄ ⦃p : P⦄, first p = second p → draw first p = draw second p

section Rules

variable {draw next : (P → C) → P → C} {p : P}

theorem Pointwise.id : Pointwise fun picture : P → C => picture :=
  fun _ _ _ same => same

theorem Pointwise.comp (first : Pointwise draw) (second : Pointwise next) :
    Pointwise fun picture => next (draw picture) :=
  fun _ _ _ same => second (first same)

theorem Pointwise.foldl
    {α : Type}
    {draw : α → (P → C) → P → C}
    (each : ∀ x, Pointwise (draw x))
    (xs : List α) :
    Pointwise fun picture => xs.foldl (fun picture x => draw x picture) picture := by
  induction xs with
  | nil => exact Pointwise.id
  | cons x rest ih => exact Pointwise.comp (each x) ih

theorem Pointwise.update [DecidableEq P] (p : P) (c : C) :
    Pointwise fun picture => Function.update picture p c := by
  intro first second q same
  dsimp only
  by_cases isP : q = p
  · rw [isP, Function.update_self, Function.update_self]
  · rw [Function.update_of_ne isP, Function.update_of_ne isP, same]

theorem Pointwise.region (inside : P → Prop) [DecidablePred inside] (c : C) :
    Pointwise fun (picture : P → C) p => if inside p then c else picture p :=
  fun _ _ _ same => if_congr .rfl rfl same

/-- A place no drawing touches shows what it did. -/
theorem foldl_untouched {α : Type} {draw : (P → C) → α → P → C} {xs : List α}
    (untouched : ∀ x ∈ xs, ∀ picture, draw picture x p = picture p)
    (picture : P → C) : xs.foldl draw picture p = picture p := by
  induction xs generalizing picture with
  | nil => rfl
  | cons x rest ih =>
    have others := ih fun y listed =>
      untouched y (mem_cons_of_mem x listed)
    rw [foldl_cons, others, untouched x mem_cons_self]

end Rules

end CaraOS.Paint
