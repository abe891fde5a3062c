import Mathlib.Tactic.Common
import Mathlib.Order.Basic

namespace CaraOS.Search

/-!
# Binary search

The search keeps two positions: everything up to the lower one is below the
target, nothing from the upper one on is.  It ends when they are neighbours.
-/

/-- Halve `[lower, upper)` until its ends are neighbours. -/
def bisect (below : Nat → Bool) : Nat → Nat → Nat → Nat
  | 0, lower, _ => lower
  | fuel + 1, lower, upper =>
    if 1 < upper - lower then
      let middle := (lower + upper) / 2
      if below middle then
        bisect below fuel middle upper
      else
        bisect below fuel lower middle
    else
      lower

/-- The position the search ends at, and what lies around it. -/
structure Found
    (below : Nat → Bool)
    (lower upper position : Nat) : Prop where
  lower_le : lower ≤ position
  lt_upper : position < upper
  reached : lower < position → below position = true
  next : position + 1 < upper → below (position + 1) = false

theorem bisect_found (below : Nat → Bool) {fuel lower upper : Nat}
    (nonempty : lower < upper) (enough : upper - lower ≤ fuel + 1) :
    Found below lower upper (bisect below fuel lower upper) := by
  induction fuel generalizing lower upper with
  | zero =>
    refine ⟨Nat.le_refl _, nonempty, ?_, ?_⟩
    · intro strict
      exact absurd strict (Nat.lt_irrefl _)
    · intro strict
      simp only [bisect] at strict
      omega
  | succ fuel ih =>
    unfold bisect
    by_cases wide : 1 < upper - lower
    · rw [if_pos wide]
      have aboveLower : lower < (lower + upper) / 2 := by omega
      have belowUpper : (lower + upper) / 2 < upper := by omega
      dsimp only
      cases answer : below ((lower + upper) / 2) with
      | true =>
        rw [if_pos rfl]
        have found := ih belowUpper (by omega)
        refine ⟨by have := found.lower_le; omega, found.lt_upper, ?_, found.next⟩
        intro _
        rcases Nat.lt_or_ge ((lower + upper) / 2)
            (bisect below fuel ((lower + upper) / 2) upper) with
          strict | reachedMiddle
        · exact found.reached strict
        · have same := Nat.le_antisymm reachedMiddle found.lower_le
          rwa [same]
      | false =>
        rw [if_neg (by simp)]
        have found := ih aboveLower (by omega)
        have inside := found.lt_upper
        refine ⟨found.lower_le, by omega, found.reached, ?_⟩
        intro strict
        rcases Nat.lt_or_ge (bisect below fuel lower ((lower + upper) / 2) + 1)
            ((lower + upper) / 2) with
          early | late
        · exact found.next early
        · have same : bisect below fuel lower ((lower + upper) / 2) + 1 = (lower + upper) / 2 := by
            omega
          rw [same]
          exact answer
    · rw [if_neg wide]
      refine ⟨Nat.le_refl _, nonempty, ?_, ?_⟩
      · intro strict
        exact absurd strict (Nat.lt_irrefl _)
      · intro strict
        omega

end CaraOS.Search
