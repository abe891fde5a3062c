import CaraOS.Dath.Draw
import Mathlib.Data.List.Chain
import Mathlib.Tactic.Ring

namespace CaraOS.Dath

/-!
# Lines

The points that `Dath_DrawLine` visits.  One error term serves both axes: with
the axes exchanged and the error negated the loop is the same, so only the line
that is longer along the x axis is followed.
-/

open List

/-- The variables of the loop, `x0`, `y0` and `err`, in each of so many turns. -/
def lineTurns (dx dy sx sy x1 y1 : Int) :
    Nat → Int → Int → Int → List (Int × Int × Int)
  | 0, _, _, _ => []
  | n + 1, x0, y0, err =>
    (x0, y0, err) ::
      if x0 = x1 ∧ y0 = y1 then
        []
      else
        let next := lineStep dx dy sx sy x0 y0 err
        lineTurns dx dy sx sy x1 y1 n next.1 next.2.1 next.2.2

/-- The points that the loop visits in so many turns. -/
def linePoints (dx dy sx sy x1 y1 : Int) (n : Nat) (x0 y0 err : Int) : List (Int × Int) :=
  (lineTurns dx dy sx sy x1 y1 n x0 y0 err).map fun turn => (turn.1, turn.2.1)

/-- What the points of a line from one end to the other have to be. -/
structure Traces (x0 y0 x1 y1 : Int) (points : List (Int × Int)) : Prop where
  count : points.length = (max |x1 - x0| |y1 - y0|).toNat + 1
  first : points.head? = some (x0, y0)
  last : points.getLast? = some (x1, y1)
  /-- One along the longer axis, at most one along the other. -/
  steps : points.IsChain fun p q =>
    if |y1 - y0| < |x1 - x0| then |q.1 - p.1| = 1 ∧ |q.2 - p.2| ≤ 1
    else |q.2 - p.2| = 1 ∧ |q.1 - p.1| ≤ 1
  /-- The distance along the shorter axis, times the longer side. -/
  near : ∀ p ∈ points, 2 * |(p.2 - y0) * (x1 - x0) - (p.1 - x0) * (y1 - y0)|
      ≤ max |x1 - x0| |y1 - y0|

variable {points : List (Int × Int)}

section

variable {dx dy sx sy x0 y0 x1 y1 err : Int}

theorem linePoints_succ (n : Nat) :
    linePoints dx dy sx sy x1 y1 (n + 1) x0 y0 err =
      (x0, y0) ::
        if x0 = x1 ∧ y0 = y1 then
          []
        else
          let next := lineStep dx dy sx sy x0 y0 err
          linePoints dx dy sx sy x1 y1 n next.1 next.2.1 next.2.2 := by
  rw [linePoints, lineTurns]
  split <;> rfl

/-- A turn moves by at most one, and the error stays between the two sides. -/
theorem lineTurns_near {n : Nat}
    (unitX : sx = 1 ∨ sx = -1)
    (unitY : sy = 1 ∨ sy = -1)
    (positiveX : 0 ≤ dx)
    (positiveY : 0 ≤ dy)
    (small : -max dx dy ≤ err ∧ err ≤ max dx dy) :
    ∀ turn ∈ lineTurns dx dy sx sy x1 y1 n x0 y0 err,
      (x0 - n ≤ turn.1 ∧ turn.1 ≤ x0 + n) ∧ (y0 - n ≤ turn.2.1 ∧ turn.2.1 ≤ y0 + n) ∧
        -max dx dy ≤ turn.2.2 ∧ turn.2.2 ≤ max dx dy := by
  induction n generalizing x0 y0 err with
  | zero => simp [lineTurns]
  | succ n ih =>
    intro turn listed
    rw [lineTurns] at listed
    rcases mem_cons.mp listed with rfl | later
    · dsimp only
      omega
    · split at later
      · exact absurd later not_mem_nil
      have next : -max dx dy ≤ (lineStep dx dy sx sy x0 y0 err).2.2 ∧
          (lineStep dx dy sx sy x0 y0 err).2.2 ≤ max dx dy := by
        unfold lineStep
        dsimp only
        split <;> split <;> omega
      obtain ⟨nearX, nearY, low⟩ := ih next turn later
      unfold lineStep at nearX nearY
      dsimp only at nearX nearY
      refine ⟨?_, ?_, low⟩
      · split at nearX <;> omega
      · split at nearY <;> omega

theorem lineLoop_eq_foldl (fb : Framebuffer) (c n : Nat) (px : Pixels) :
    lineLoop fb dx dy sx sy x1 y1 c n x0 y0 err px =
      (linePoints dx dy sx sy x1 y1 n x0 y0 err).foldl
        (fun px p => pixel fb p.1 p.2 c px) px := by
  induction n generalizing x0 y0 err px with
  | zero => rfl
  | succ n ih =>
    rw [lineLoop, linePoints_succ]
    dsimp only
    split
    · rfl
    · exact ih _

theorem linePoints_swap (n : Nat) :
    linePoints dx dy sx sy x1 y1 n x0 y0 err =
      (linePoints dy dx sy sx y1 x1 n y0 x0 (-err)).map Prod.swap := by
  induction n generalizing x0 y0 err with
  | zero => rfl
  | succ n ih =>
    have across : -dx < err ↔ -err < dx := by omega
    have down : err < dy ↔ -dy < -err := by omega
    rw [linePoints_succ, linePoints_succ]
    by_cases ended : x0 = x1 ∧ y0 = y1
    · rw [if_pos ended, if_pos ended.symm]
      rfl
    · rw [if_neg ended, if_neg fun swapped => ended swapped.symm, ih]
      have error : -((if -dx < err then err - dy else err) + if err < dy then dx else 0)
          = (if -dy < -err then -err - dx else -err) + if -err < dx then dy else 0 := by
        split <;> split <;> split <;> split <;> omega
      unfold lineStep
      rw [error]
      simp only [across, down]
      rfl

/-- The points of a line that is not longer along the y axis. -/
structure Flat (dx dy sx sy x0 y0 x1 y1 : Int) (xs : Nat)
    (points : List (Int × Int)) : Prop where
  count : points.length = xs + 1
  first : points.head? = some (x0, y0)
  last : points.getLast? = some (x1, y1)
  steps : points.IsChain fun p q =>
    q.1 = p.1 + sx ∧ (q.2 = p.2 ∨ q.2 = p.2 + sy)
  near : ∀ p ∈ points, ∃ i j, p = (x1 - sx * i, y1 - sy * j) ∧ 2 * |i * dy - j * dx| ≤ dx

theorem Flat.cons {y : Int} {xs ys : Nat} (rest : Flat dx dy sx sy (x0 + sx) y x1 y1 xs points)
    (step : y = y0 ∨ y = y0 + sy) (here : (x0, y0) = (x1 - sx * (xs + 1 : Nat), y1 - sy * ys))
    (close : 2 * |(xs + 1 : Nat) * dy - ys * dx| ≤ dx) :
    Flat dx dy sx sy x0 y0 x1 y1 (xs + 1) ((x0, y0) :: points) := by
  refine ⟨by simp [rest.count], rfl, ?_, ?_, ?_⟩
  · rw [List.getLast?_cons, rest.last]
    rfl
  · refine isChain_cons.mpr ⟨?_, rest.steps⟩
    rw [rest.first]
    rintro _ ⟨⟩
    exact ⟨rfl, step⟩
  · intro p listed
    rcases mem_cons.mp listed with rfl | later
    · exact ⟨_, _, here, close⟩
    · exact rest.near p later

theorem linePoints_flat {xs ys n : Nat}
    (unit : sx = 1 ∨ sx = -1) (positive : 0 ≤ dy) (flat : dy ≤ dx)
    (toX : x0 + sx * xs = x1) (toY : y0 + sy * ys = y1)
    (isErr : err = dx / 2 + xs * dy - ys * dx) (low : 0 ≤ err) (high : err < dx) (enough : xs < n) :
    Flat dx dy sx sy x0 y0 x1 y1 xs
      (linePoints dx dy sx sy x1 y1 n x0 y0 err) := by
  induction xs generalizing ys n x0 y0 err with
  | zero =>
    obtain ⟨n, rfl⟩ := Nat.exists_eq_succ_of_ne_zero (Nat.ne_zero_of_lt enough)
    have atX : x0 = x1 := by simpa using toX
    have half : dx / 2 < dx := by omega
    have noRest : ys = 0 := by
      by_contra some
      have : (1 : Int) ≤ ys := by omega
      push_cast at isErr
      nlinarith
    have atY : y0 = y1 := by
      rw [noRest] at toY
      simpa using toY
    rw [linePoints_succ, if_pos ⟨atX, atY⟩, atX, atY]
    refine ⟨rfl, rfl, rfl, .singleton _, ?_⟩
    intro p listed
    rw [mem_singleton.mp listed]
    exact ⟨0, 0, by simp, by simp; omega⟩
  | succ xs ih =>
    obtain ⟨n, rfl⟩ := Nat.exists_eq_succ_of_ne_zero (Nat.ne_zero_of_lt enough)
    have here : (x0, y0) = (x1 - sx * (xs + 1 : Nat), y1 - sy * ys) := by
      rw [← toX, ← toY]
      simp
    have close : 2 * |(xs + 1 : Nat) * dy - ys * dx| ≤ dx := by
      rw [show (xs + 1 : Nat) * dy - ys * dx = err - dx / 2 by omega]
      have := abs_le.mpr ⟨show -(dx / 2) ≤ err - dx / 2 by omega,
        show err - dx / 2 ≤ dx / 2 by omega⟩
      omega
    push_cast at toX isErr
    have going : ¬ (x0 = x1 ∧ y0 = y1) := by
      rintro ⟨atX, -⟩
      rcases unit with rfl | rfl <;> omega
    have always : -dx < err := by omega
    have nextX : x0 + sx + sx * xs = x1 := by linarith
    rw [linePoints_succ, if_neg going]
    unfold lineStep
    rw [if_pos always, if_pos always]
    by_cases down : err < dy
    · rw [if_pos down, if_pos down]
      obtain ⟨ys, rfl⟩ : ∃ rest, ys = rest + 1 := by
        refine Nat.exists_eq_succ_of_ne_zero fun none => ?_
        have half : 0 ≤ dx / 2 := by omega
        nlinarith
      push_cast at toY isErr
      have nextY : y0 + sy + sy * ys = y1 := by linarith
      refine Flat.cons (ih nextX nextY ?_ ?_ ?_
        (Nat.lt_of_succ_lt_succ enough)) (.inr rfl) here close
      all_goals linarith
    · rw [if_neg down, if_neg down]
      refine Flat.cons (ih nextX toY ?_ ?_ ?_ (Nat.lt_of_succ_lt_succ enough)) (.inl rfl) here close
      all_goals linarith

end

/-- The points that `Dath_DrawLine` visits in so many turns. -/
def visited (x0 y0 x1 y1 : Int) (turns : Nat) : List (Int × Int) :=
  linePoints |x1 - x0| |y1 - y0| (if x0 < x1 then 1 else -1)
    (if y0 < y1 then 1 else -1) x1 y1 turns x0 y0
    (lineError |x1 - x0| |y1 - y0|)

theorem abs_of_step {s t : Int} {p q : Int × Int} (unit : s = 1 ∨ s = -1) (unit' : t = 1 ∨ t = -1)
    (step : q.1 = p.1 + s ∧ (q.2 = p.2 ∨ q.2 = p.2 + t)) : |q.1 - p.1| = 1 ∧ |q.2 - p.2| ≤ 1 := by
  obtain ⟨first, second⟩ := step
  constructor
  · rw [first]
    rcases unit with rfl | rfl <;> simp
  · rcases second with same | moved
    · simp [same]
    · rw [moved]
      rcases unit' with rfl | rfl <;> simp [abs_le]

theorem cross_eq {sx sy x0 y0 x1 y1 dx dy : Int}
    (signX : sx = 1 ∨ sx = -1) (signY : sy = 1 ∨ sy = -1)
    (toX : x0 + sx * dx = x1) (toY : y0 + sy * dy = y1) (i j : Int) :
    |(y1 - sy * j - y0) * (x1 - x0) - (x1 - sx * i - x0) * (y1 - y0)|
      = |i * dy - j * dx| := by
  have isCross : (y1 - sy * j - y0) * (x1 - x0) - (x1 - sx * i - x0) * (y1 - y0)
        = sx * sy * (i * dy - j * dx) := by
    rw [← toX, ← toY]
    ring
  rw [isCross]
  rcases signX with rfl | rfl <;> rcases signY with rfl | rfl <;>
    simp [abs_sub_comm]

theorem visited_traces (x0 y0 x1 y1 : Int) {turns : Nat}
    (enough : (max |x1 - x0| |y1 - y0|).toNat < turns) :
    Traces x0 y0 x1 y1 (visited x0 y0 x1 y1 turns) := by
  have signX : (if x0 < x1 then (1 : Int) else -1) = 1 ∨
      (if x0 < x1 then (1 : Int) else -1) = -1 := by split <;> simp
  have signY : (if y0 < y1 then (1 : Int) else -1) = 1 ∨
      (if y0 < y1 then (1 : Int) else -1) = -1 := by split <;> simp
  have toX : x0 + (if x0 < x1 then 1 else -1) * (x1 - x0).natAbs = x1 := by
    split <;> omega
  have toY : y0 + (if y0 < y1 then 1 else -1) * (y1 - y0).natAbs = y1 := by
    split <;> omega
  have isX : ((x1 - x0).natAbs : Int) = |x1 - x0| := Int.natCast_natAbs _
  have isY : ((y1 - y0).natAbs : Int) = |y1 - y0| := Int.natCast_natAbs _
  have start (e : Int) : e = e + (x1 - x0).natAbs * |y1 - y0| - (y1 - y0).natAbs * |x1 - x0| := by
    rw [isX, isY]
    ring
  have start' (e : Int) : e = e + (y1 - y0).natAbs * |x1 - x0| - (x1 - x0).natAbs * |y1 - y0| := by
    rw [isX, isY]
    ring
  unfold visited lineError
  generalize (if x0 < x1 then (1 : Int) else -1) = sx at *
  generalize (if y0 < y1 then (1 : Int) else -1) = sy at *
  by_cases flat : |y1 - y0| < |x1 - x0|
  · rw [if_pos flat]
    have path := linePoints_flat signX (abs_nonneg (y1 - y0)) flat.le toX toY
      (start (|x1 - x0| / 2)) (by omega) (by omega) (show (x1 - x0).natAbs < turns by omega)
    refine ⟨by rw [path.count]; omega, path.first, path.last, ?_, ?_⟩
    · simp only [if_pos flat]
      exact path.steps.imp fun _ _ => abs_of_step signX signY
    · intro p listed
      obtain ⟨i, j, rfl, close⟩ := path.near p listed
      rw [cross_eq signX signY toX toY, isX, isY]
      exact close.trans (le_max_left _ _)
  · rw [if_neg flat]
    by_cases point : |y1 - y0| = 0
    · obtain ⟨n, rfl⟩ := Nat.exists_eq_succ_of_ne_zero (Nat.ne_zero_of_lt enough)
      have atX : x0 = x1 := by omega
      have atY : y0 = y1 := by omega
      subst atX atY
      rw [linePoints_succ, if_pos ⟨rfl, rfl⟩]
      exact ⟨by simp, rfl, rfl, .singleton _, by simp⟩
    · rw [linePoints_swap, Int.neg_neg]
      have path := linePoints_flat signY (abs_nonneg (x1 - x0)) (not_lt.mp flat)
        toY toX (start' (|y1 - y0| / 2)) (by omega) (by omega)
        (show (y1 - y0).natAbs < turns by omega)
      refine ⟨?_, ?_, ?_, ?_, ?_⟩
      · rw [length_map, path.count]
        omega
      · rw [List.head?_map, path.first]
        rfl
      · rw [List.getLast?_map, path.last]
        rfl
      · simp only [if_neg flat, isChain_map]
        exact path.steps.imp fun _ _ => abs_of_step signY signX
      · intro p listed
        obtain ⟨p, visits, rfl⟩ := mem_map.mp listed
        obtain ⟨i, j, rfl, close⟩ := path.near p visits
        rw [Prod.swap_prod_mk, cross_eq signX signY toX toY, isX, isY, abs_sub_comm]
        exact close.trans (le_max_right _ _)

theorem foldl_pixel_changes {fb : Framebuffer} {c : Nat} {px : Pixels} {q : Int × Int}
    (changed : points.foldl (fun px p => pixel fb p.1 p.2 c px) px q ≠ px q) :
    q ∈ points ∧ fb.Inside q.1 q.2 := by
  induction points generalizing px with
  | nil => exact absurd rfl changed
  | cons p rest ih =>
    by_cases later : rest.foldl (fun px p => pixel fb p.1 p.2 c px)
        (pixel fb p.1 p.2 c px) q = pixel fb p.1 p.2 c px q
    · have here : pixel fb p.1 p.2 c px q ≠ px q :=
        fun same => changed (later.trans same)
      unfold pixel at here
      split at here
      next inside =>
        have isHere : q = p := by
          by_contra other
          exact here (Function.update_of_ne other _ _)
        rw [isHere]
        exact ⟨mem_cons_self, inside.2⟩
      next => exact absurd rfl here
    · obtain ⟨listed, inside⟩ := ih later
      exact ⟨mem_cons_of_mem p listed, inside⟩

/-- The sums that a turn of the loop computes fit into 32 bits. -/
def FitsI32 (dx dy : Int) (turn : Int × Int × Int) : Prop :=
  ∀ v ∈ [turn.1 - 1, turn.1 + 1, turn.2.1 - 1, turn.2.1 + 1, turn.2.2 - dy,
    turn.2.2 + dx, turn.2.2 - dy + dx, -dx], -2 ^ 31 ≤ v ∧ v < 2 ^ 31

/-- The turns that `Dath_DrawLine` takes. -/
def drawLineTurns (x0 y0 x1 y1 : Int) : List (Int × Int × Int) :=
  lineTurns |x1 - x0| |y1 - y0| (if x0 < x1 then 1 else -1) (if y0 < y1 then 1 else -1) x1 y1
    ((max |x1 - x0| |y1 - y0|).toNat + 1) x0 y0 (lineError |x1 - x0| |y1 - y0|)

theorem drawLineTurns_fit {x0 y0 x1 y1 : Int}
    (coordinates : ∀ v ∈ [x0, y0, x1, y1], -2 ^ 15 ≤ v ∧ v < 2 ^ 15) :
    ∀ turn ∈ drawLineTurns x0 y0 x1 y1, FitsI32 |x1 - x0| |y1 - y0| turn := by
  intro turn listed
  simp only [forall_mem_cons] at coordinates
  obtain ⟨rangeX0, rangeY0, rangeX1, rangeY1, -⟩ := coordinates
  have sides : |x1 - x0| < 2 ^ 16 ∧ |y1 - y0| < 2 ^ 16 := by
    rw [abs_lt, abs_lt]
    omega
  have positiveX := abs_nonneg (x1 - x0)
  have positiveY := abs_nonneg (y1 - y0)
  have start : -max |x1 - x0| |y1 - y0| ≤ lineError |x1 - x0| |y1 - y0| ∧
      lineError |x1 - x0| |y1 - y0| ≤ max |x1 - x0| |y1 - y0| := by
    unfold lineError
    split <;> omega
  obtain ⟨nearX, nearY, low⟩ := lineTurns_near (by split <;> simp) (by split <;> simp)
    positiveX positiveY start turn listed
  intro v isSum
  simp only [mem_cons, not_mem_nil, or_false] at isSum
  omega

/--
The points are those of the line, however many turns the loop could take.  Every
one of them is drawn, and only those of them that are inside change.  For
coordinates in `[-2 ^ 15, 2 ^ 15)` no sum of the loop leaves 32 bits.
-/
theorem drawLine_visits (fb : Framebuffer) (x0 y0 x1 y1 : Int) (c turns : Nat) (px : Pixels)
    (enough : (max |x1 - x0| |y1 - y0|).toNat < turns) :
    Traces x0 y0 x1 y1 (visited x0 y0 x1 y1 turns) ∧
      drawLine fb x0 y0 x1 y1 c px =
        (visited x0 y0 x1 y1 ((max |x1 - x0| |y1 - y0|).toNat + 1)).foldl
          (fun px p => pixel fb p.1 p.2 c px) px ∧
      (∀ q, drawLine fb x0 y0 x1 y1 c px q ≠ px q →
        q ∈ visited x0 y0 x1 y1 ((max |x1 - x0| |y1 - y0|).toNat + 1) ∧
          fb.Inside q.1 q.2) ∧
      ((∀ v ∈ [x0, y0, x1, y1], -2 ^ 15 ≤ v ∧ v < 2 ^ 15) →
        ∀ turn ∈ drawLineTurns x0 y0 x1 y1, FitsI32 |x1 - x0| |y1 - y0| turn) := by
  have drawn : drawLine fb x0 y0 x1 y1 c px =
      (visited x0 y0 x1 y1 ((max |x1 - x0| |y1 - y0|).toNat + 1)).foldl
        (fun px p => pixel fb p.1 p.2 c px) px := lineLoop_eq_foldl ..
  refine ⟨visited_traces x0 y0 x1 y1 enough, drawn, fun q changed => ?_, drawLineTurns_fit⟩
  rw [drawn] at changed
  exact foldl_pixel_changes changed

theorem drawLine_visits_short :
    visited 0 0 3 1 9 = [(0, 0), (1, 0), (2, 1), (3, 1)] ∧
      Traces 0 0 3 1 (visited 0 0 3 1 9) :=
  ⟨by decide, (drawLine_visits ⟨true, 8, 8, 32, .rgba8888, 4⟩ 0 0 3 1 0 9
    (fun _ => 0) (by decide)).1⟩

end CaraOS.Dath
