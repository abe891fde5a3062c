import Mathlib.Data.List.Basic
import Mathlib.Data.List.Induction
import Mathlib.Tactic.Common

namespace CaraOS.GapSort

/-!
# Gapped insertion sort

An element is moved down in steps of a gap by exchanging it with the one a gap
before it.  A pass does this for every element, and the passes are made with
smaller and smaller gaps; the last one has gap 1 and is an insertion sort.
-/

open List

variable {α : Type}

section Code

variable (le : α → α → Prop) [DecidableRel le]

/-- The element at `j` moves down as long as it is out of order. -/
def sift (gap j : Nat) (xs : List α) : List α :=
  if 0 < gap ∧ gap ≤ j then
    match xs[j - gap]?, xs[j]? with
    | some lo, some hi =>
      if le lo hi then xs else sift gap (j - gap) ((xs.set (j - gap) hi).set j lo)
    | _, _ => xs
  else
    xs
termination_by j

/-- The elements from `i` to `n` move down, one after the other. -/
def pass (gap n i : Nat) (xs : List α) : List α :=
  if i < n then pass gap n (i + 1) (sift le gap i xs) else xs
termination_by n - i

/-- Passes with half the gap each time. -/
def passes (n gap : Nat) (xs : List α) : List α :=
  if 0 < gap then passes n (gap / 2) (pass le gap n gap xs) else xs
termination_by gap

end Code

/-- Any two elements can be compared, and comparisons can be chained. -/
structure Ordered (le : α → α → Prop) (xs : List α) : Prop where
  total : ∀ x ∈ xs, ∀ y ∈ xs, le x y ∨ le y x
  trans : ∀ x ∈ xs, ∀ y ∈ xs, ∀ z ∈ xs, le x y → le y z → le x z

section Permutation

variable {le : α → α → Prop} [DecidableRel le]

theorem sift_perm (gap j : Nat) (xs : List α) : (sift le gap j xs).Perm xs := by
  fun_induction sift le gap j xs with
  | case1 => exact .refl _
  | case2 j xs _ lo hi isLo isHi _ ih =>
    obtain ⟨inLo, rfl⟩ := List.getElem?_eq_some_iff.mp isLo
    obtain ⟨inHi, rfl⟩ := List.getElem?_eq_some_iff.mp isHi
    exact ih.trans (set_set_perm inHi inLo)
  | case3 => exact .refl _
  | case4 => exact .refl _

theorem pass_perm (gap n i : Nat) (xs : List α) : (pass le gap n i xs).Perm xs := by
  fun_induction pass le gap n i xs with
  | case1 i xs _ ih => exact ih.trans (sift_perm gap i xs)
  | case2 => exact .refl _

theorem passes_perm (n gap : Nat) (xs : List α) : (passes le n gap xs).Perm xs := by
  fun_induction passes le n gap xs with
  | case1 gap xs _ ih => exact ih.trans (pass_perm gap n gap xs)
  | case2 => exact .refl _

end Permutation

variable {xs : List α}

section Order

variable {le : α → α → Prop}

theorem Ordered.perm {ys : List α} (ordered : Ordered le xs) (perm : ys.Perm xs) :
    Ordered le ys where
  total x inX y inY := ordered.total x (perm.mem_iff.mp inX) y (perm.mem_iff.mp inY)
  trans x inX y inY z inZ :=
    ordered.trans x (perm.mem_iff.mp inX) y (perm.mem_iff.mp inY) z (perm.mem_iff.mp inZ)

variable [DecidableRel le]

theorem sift_sorted {front : List α} {x : α} (rest : List α)
    (ordered : Ordered le (front ++ x :: rest)) (sorted : front.Pairwise le) :
    ∃ done, sift le 1 front.length (front ++ x :: rest) = done ++ rest ∧
      done.length = front.length + 1 ∧ done.Pairwise le := by
  induction front using List.reverseRecOn generalizing rest with
  | nil =>
    refine ⟨[x], ?_, rfl, pairwise_singleton ..⟩
    rw [sift]
    rfl
  | append_singleton front y ih =>
    obtain ⟨sorted, -, before⟩ := pairwise_append.mp sorted
    have shape : front ++ [y] ++ x :: rest = front ++ y :: x :: rest := by simp
    rw [shape] at ordered ⊢
    have isX : (front ++ y :: x :: rest)[front.length + 1]? = some x := by simp
    have inY : y ∈ front ++ y :: x :: rest := by simp
    have inX : x ∈ front ++ y :: x :: rest := by simp
    have inFront (z : α) (listed : z ∈ front) : z ∈ front ++ y :: x :: rest := by simp [listed]
    have belowY (z : α) (listed : z ∈ front) : le z y := before z listed y (by simp)
    rw [length_append, length_singleton, sift, isX]
    by_cases inOrder : le y x
    · refine ⟨front ++ [y, x], ?_, by simp, ?_⟩
      · simp [inOrder]
      · refine pairwise_append.mpr ⟨sorted, by simp [inOrder], ?_⟩
        intro z listed w isLater
        have belowX := ordered.trans z (inFront z listed) y inY x inX (belowY z listed) inOrder
        rcases mem_pair.mp isLater with rfl | rfl
        · exact belowY z listed
        · exact belowX
    · have perm : (front ++ x :: y :: rest).Perm (front ++ y :: x :: rest) :=
        (List.Perm.swap y x rest).append_left front
      obtain ⟨done, isDone, length, doneSorted⟩ := ih (y :: rest) (ordered.perm perm) sorted
      have sameElements : (done ++ y :: rest).Perm (front ++ x :: y :: rest) :=
        isDone ▸ sift_perm 1 front.length _
      have elements : done.Perm (front ++ [x]) := by
        rw [← perm_append_right_iff (y :: rest)]
        simpa using sameElements
      refine ⟨done ++ [y], ?_, by simp [length], ?_⟩
      · simp [inOrder, isDone]
      · refine pairwise_append.mpr ⟨doneSorted, pairwise_singleton .., ?_⟩
        intro z listed w isY
        rw [mem_singleton.mp isY]
        rcases mem_append.mp (elements.mem_iff.mp listed) with inFront | isX
        · exact belowY z inFront
        · rw [mem_singleton.mp isX]
          exact (ordered.total x inX y inY).resolve_right inOrder

theorem pass_sorted {front rest : List α} (ordered : Ordered le (front ++ rest))
    (sorted : front.Pairwise le) :
    (pass le 1 (front ++ rest).length front.length (front ++ rest)).Pairwise le := by
  induction rest generalizing front with
  | nil =>
    rw [pass, if_neg (by simp)]
    rwa [append_nil]
  | cons x rest ih =>
    obtain ⟨done, isDone, length, doneSorted⟩ := sift_sorted rest ordered sorted
    have perm : (done ++ rest).Perm (front ++ x :: rest) :=
      isDone ▸ sift_perm 1 front.length _
    rw [pass, if_pos (by simp), isDone, ← length, ← perm.length_eq]
    exact ih (ordered.perm perm) doneSorted

theorem passes_sorted {gap : Nat} (ordered : Ordered le xs) (positive : 0 < gap)
    (some : xs ≠ []) : (passes le xs.length gap xs).Pairwise le := by
  induction gap using Nat.strongRecOn generalizing xs with
  | ind gap ih =>
    have perm : (pass le gap xs.length gap xs).Perm xs := pass_perm gap xs.length gap xs
    rw [passes, if_pos positive]
    by_cases last : gap = 1
    · subst last
      rw [passes]
      obtain ⟨x, rest, rfl⟩ := exists_cons_of_ne_nil some
      exact @pass_sorted _ _ _ [x] rest ordered (pairwise_singleton ..)
    · have sorted := ih (gap / 2) (by omega) (ordered.perm perm) (by omega) ?_
      · rwa [perm.length_eq] at sorted
      intro none
      rw [none] at perm
      exact some (nil_perm.mp perm)

theorem passes_half_sorted (ordered : Ordered le xs) :
    (passes le xs.length (xs.length / 2) xs).Pairwise le := by
  match xs, ordered with
  | [], _ =>
    rw [passes, if_neg (by simp)]
    exact .nil
  | [x], _ =>
    rw [passes, if_neg (by simp)]
    exact pairwise_singleton ..
  | x :: y :: rest, ordered =>
    refine passes_sorted ordered ?_ (cons_ne_nil _ _)
    rw [length_cons, length_cons]
    omega

end Order

end CaraOS.GapSort
