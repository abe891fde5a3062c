import CaraOS.Lib.ByteMem
import CaraOS.Lib.GapSort

namespace CaraOS.Libc

/-!
# qsort

`stdlib.c` sorts in place: the elements are exchanged byte by byte, and the
comparison function is given the two places.  Addresses and indices are
`size_t`.
-/

open ByteMem GapSort Function List

/-! ## The code -/

/-- `qs_swap`, after so many bytes. -/
def qsSwap (a b : Nat) : Nat → Mem → Mem
  | 0, m => m
  | i + 1, m =>
    let m := qsSwap a b i m
    update (update m (a + i) (m (b + i))) (b + i) (m (a + i))

/-- `int (*cmp)(const void *, const void *)`, on the bytes of two elements. -/
abbrev Cmp : Type :=
  List (BitVec 8) → List (BitVec 8) → Int

section Code

variable (a nmemb size : Nat) (cmp : Cmp)

/-- `a + j * size`. -/
def place (j : Nat) : Nat :=
  a + j * size % 2 ^ 64

/-- The inner loop. -/
def qsortInsert (gap j : Nat) (m : Mem) : Mem :=
  if 0 < gap ∧ gap ≤ j then
    let lo := place a size (j - gap)
    let hi := place a size j
    if cmp (slice m lo size) (slice m hi size) ≤ 0 then m
    else qsortInsert gap (j - gap) (qsSwap lo hi size m)
  else
    m
termination_by j

/-- The loop over `i`. -/
def qsortPass (gap i : Nat) (m : Mem) : Mem :=
  if i < nmemb then qsortPass gap (i + 1) (qsortInsert a size cmp gap i m) else m
termination_by nmemb - i

/-- The loop over `gap`. -/
def qsortGaps (gap : Nat) (m : Mem) : Mem :=
  if 0 < gap then qsortGaps (gap / 2) (qsortPass a nmemb size cmp gap gap m) else m
termination_by gap

def qsort (m : Mem) : Mem :=
  qsortGaps a nmemb size cmp (nmemb / 2) m

end Code

/-! ## Elements -/

/-- The elements of an array. -/
def elements (m : Mem) (a nmemb size : Nat) : List (List (BitVec 8)) :=
  (List.range nmemb).map fun j => slice m (a + j * size) size

section Elements

variable {m : Mem} {a b n : Nat}

theorem qsSwap_get (apart : Apart a n b n) (c : Nat) :
    qsSwap a b n m c =
      if a ≤ c ∧ c < a + n then m (b + (c - a))
      else if b ≤ c ∧ c < b + n then m (a + (c - b))
      else m c := by
  induction n generalizing c with
  | zero =>
    rw [if_neg (by omega), if_neg (by omega)]
    rfl
  | succ n ih =>
    have shorter : Apart a n b n := by
      unfold Apart at *
      omega
    unfold Apart at apart
    -- The two bytes of this turn have not been touched by the earlier ones.
    have ofA : qsSwap a b n m (a + n) = m (a + n) := by
      rw [ih shorter, if_neg (by omega), if_neg (by omega)]
    have ofB : qsSwap a b n m (b + n) = m (b + n) := by
      rw [ih shorter, if_neg (by omega), if_neg (by omega)]
    rw [qsSwap, ofA, ofB]
    by_cases isB : c = b + n
    · subst isB
      rw [update_self, if_neg (by omega), if_pos (by omega), Nat.add_sub_cancel_left]
    by_cases isA : c = a + n
    · subst isA
      rw [update_of_ne isB, update_self, if_pos (by omega), Nat.add_sub_cancel_left]
    rw [update_of_ne isB, update_of_ne isA, ih shorter]
    by_cases inA : a ≤ c ∧ c < a + n
    · rw [if_pos inA, if_pos (by omega)]
    by_cases inB : b ≤ c ∧ c < b + n
    · rw [if_neg inA, if_pos inB, if_neg (by omega), if_pos (by omega)]
    rw [if_neg inA, if_neg inB, if_neg (by omega), if_neg (by omega)]

variable {size nmemb i j : Nat}

theorem apart_of_ne (different : i ≠ j) : Apart (a + i * size) size (a + j * size) size := by
  unfold Apart
  rcases Nat.lt_or_gt_of_ne different with below | above
  · have step := Nat.mul_le_mul_right size below
    rw [Nat.succ_mul] at step
    omega
  · have step := Nat.mul_le_mul_right size above
    rw [Nat.succ_mul] at step
    omega

theorem slice_qsSwap_left (apart : Apart a n b n) : slice (qsSwap a b n m) a n = slice m b n := by
  refine map_congr_left fun i listed => ?_
  have below := mem_range.mp listed
  rw [qsSwap_get apart, if_pos (by omega), Nat.add_sub_cancel_left]

theorem slice_qsSwap_right (apart : Apart a n b n) : slice (qsSwap a b n m) b n = slice m a n := by
  refine map_congr_left fun i listed => ?_
  have below := mem_range.mp listed
  unfold Apart at apart
  rw [qsSwap_get apart, if_neg (by omega), if_pos (by omega), Nat.add_sub_cancel_left]

theorem same_qsSwap {c k : Nat} (apart : Apart a n b n) (ofA : Apart a n c k)
    (ofB : Apart b n c k) : Same m (qsSwap a b n m) c k := by
  intro at_ low high
  unfold Apart at ofA ofB
  rw [qsSwap_get apart, if_neg (by omega), if_neg (by omega)]

theorem elements_length : (elements m a nmemb size).length = nmemb := by
  unfold elements
  rw [length_map, length_range]

theorem elements_get (below : j < nmemb) :
    (elements m a nmemb size)[j]? = some (slice m (a + j * size) size) := by
  unfold elements
  rw [List.getElem?_map, List.getElem?_range below]
  rfl

theorem elements_qsSwap (different : i ≠ j) (belowI : i < nmemb) (belowJ : j < nmemb) :
    elements (qsSwap (a + i * size) (a + j * size) size m) a nmemb size =
      ((elements m a nmemb size).set i (slice m (a + j * size) size)).set j
        (slice m (a + i * size) size) := by
  apply ext_getElem?
  intro k
  by_cases inside : k < nmemb
  · rw [elements_get inside, List.getElem?_set, List.getElem?_set, length_set,
      elements_length, elements_get inside]
    by_cases isJ : j = k
    · subst isJ
      rw [if_pos rfl, if_pos belowJ, slice_qsSwap_right (apart_of_ne different)]
    by_cases isI : i = k
    · subst isI
      rw [if_neg isJ, if_pos rfl, if_pos belowI, slice_qsSwap_left (apart_of_ne different)]
    rw [if_neg isJ, if_neg isI]
    have same : Same m (qsSwap (a + i * size) (a + j * size) size m) (a + k * size) size :=
      same_qsSwap (apart_of_ne different) (apart_of_ne isI) (apart_of_ne isJ)
    rw [same.slice_eq]
  · rw [List.getElem?_eq_none (by rw [elements_length]; omega),
      List.getElem?_eq_none (by rw [length_set, length_set, elements_length]; omega)]

end Elements

/-! ## The loops sort the elements -/

section Loops

variable {m : Mem} {a nmemb size : Nat} {cmp : Cmp}

/-- The order of the comparison function. -/
def Cmp.Le (cmp : Cmp) (x y : List (BitVec 8)) : Prop :=
  cmp x y ≤ 0

instance (cmp : Cmp) : DecidableRel cmp.Le :=
  fun x y => inferInstanceAs (Decidable (cmp x y ≤ 0))

theorem place_eq {j : Nat} (fits : nmemb * size ≤ 2 ^ 64) (positive : 0 < size)
    (below : j < nmemb) : place a size j = a + j * size := by
  have before : j * size < nmemb * size := Nat.mul_lt_mul_of_pos_right below positive
  unfold place
  rw [Nat.mod_eq_of_lt (by omega)]

variable (fits : nmemb * size ≤ 2 ^ 64) (positive : 0 < size)
include fits positive

theorem elements_qsortInsert {gap j : Nat} (m : Mem) (below : j < nmemb) :
    elements (qsortInsert a size cmp gap j m) a nmemb size =
      sift cmp.Le gap j (elements m a nmemb size) := by
  fun_induction qsortInsert a size cmp gap j m with
  | case1 j m inside lo hi inOrder =>
    have lower : j - gap < nmemb := by omega
    rw [sift, if_pos inside, elements_get lower, elements_get below]
    simp only [lo, hi, place_eq fits positive lower, place_eq fits positive below] at inOrder
    exact (if_pos inOrder).symm
  | case2 j m inside lo hi outOfOrder ih =>
    have lower : j - gap < nmemb := by omega
    rw [sift, if_pos inside, elements_get lower, elements_get below, ih lower]
    simp only [lo, hi, place_eq fits positive lower, place_eq fits positive below] at outOfOrder ⊢
    rw [elements_qsSwap (by omega) lower below]
    exact (if_neg outOfOrder).symm
  | case3 j m outside =>
    rw [sift, if_neg outside]

theorem elements_qsortPass (gap i : Nat) (m : Mem) :
    elements (qsortPass a nmemb size cmp gap i m) a nmemb size =
      GapSort.pass cmp.Le gap nmemb i (elements m a nmemb size) := by
  fun_induction qsortPass a nmemb size cmp gap i m with
  | case1 i m below ih =>
    rw [GapSort.pass, if_pos below, ih, elements_qsortInsert fits positive m below]
  | case2 i m done =>
    rw [GapSort.pass, if_neg done]

theorem elements_qsortGaps (gap : Nat) (m : Mem) :
    elements (qsortGaps a nmemb size cmp gap m) a nmemb size =
      passes cmp.Le nmemb gap (elements m a nmemb size) := by
  fun_induction qsortGaps a nmemb size cmp gap m with
  | case1 gap m some ih =>
    rw [passes, if_pos some, ih, elements_qsortPass fits positive gap gap m]
  | case2 gap m done =>
    rw [passes, if_neg done]

theorem qsortInsert_frame {gap j : Nat} {c k : Nat} (m : Mem) (below : j < nmemb)
    (apart : Apart a (nmemb * size) c k) : Same m (qsortInsert a size cmp gap j m) c k := by
  fun_induction qsortInsert a size cmp gap j m with
  | case1 => exact Same.refl _ _ _
  | case2 j m inside lo hi outOfOrder ih =>
    have lower : j - gap < nmemb := by omega
    have within (i : Nat) (isBelow : i < nmemb) : Apart (a + i * size) size c k := by
      have last := Nat.mul_le_mul_right size isBelow
      rw [Nat.succ_mul] at last
      unfold Apart at *
      omega
    have isLo : lo = a + (j - gap) * size := place_eq fits positive lower
    have isHi : hi = a + j * size := place_eq fits positive below
    have swapped : Same m (qsSwap lo hi size m) c k := by
      rw [isLo, isHi]
      exact same_qsSwap (apart_of_ne (by omega)) (within _ lower) (within _ below)
    exact swapped.trans (ih lower)
  | case3 => exact Same.refl _ _ _

theorem qsort_frame {c k : Nat} (m : Mem) (apart : Apart a (nmemb * size) c k) :
    Same m (qsort a nmemb size cmp m) c k := by
  have ofPass (gap i : Nat) (m : Mem) : Same m (qsortPass a nmemb size cmp gap i m) c k := by
    fun_induction qsortPass a nmemb size cmp gap i m with
    | case1 i m below ih => exact (qsortInsert_frame fits positive m below apart).trans ih
    | case2 => exact Same.refl _ _ _
  unfold qsort
  generalize nmemb / 2 = gap
  fun_induction qsortGaps a nmemb size cmp gap m with
  | case1 gap m _ ih => exact (ofPass gap gap m).trans ih
  | case2 => exact Same.refl _ _ _

/--
For every array and every comparison function that is a total preorder on its
elements, `qsort` leaves a permutation of the elements in non-decreasing order
and changes nothing outside the array.
-/
theorem qsort_sorts (m : Mem)
    (total : ∀ x ∈ elements m a nmemb size, ∀ y ∈ elements m a nmemb size,
      cmp x y ≤ 0 ∨ cmp y x ≤ 0)
    (trans : ∀ x ∈ elements m a nmemb size, ∀ y ∈ elements m a nmemb size,
      ∀ z ∈ elements m a nmemb size, cmp x y ≤ 0 → cmp y z ≤ 0 → cmp x z ≤ 0) :
    (elements (qsort a nmemb size cmp m) a nmemb size).Perm (elements m a nmemb size) ∧
      (elements (qsort a nmemb size cmp m) a nmemb size).Pairwise (fun x y => cmp x y ≤ 0) ∧
      ∀ b, b < a ∨ a + nmemb * size ≤ b → qsort a nmemb size cmp m b = m b := by
  have ordered : Ordered cmp.Le (elements m a nmemb size) := ⟨total, trans⟩
  have sorted := passes_half_sorted ordered
  rw [elements_length] at sorted
  refine ⟨?_, ?_, ?_⟩
  · unfold qsort
    rw [elements_qsortGaps fits positive]
    exact passes_perm ..
  · unfold qsort
    rw [elements_qsortGaps fits positive]
    exact sorted
  · intro b outside
    refine qsort_frame fits positive m (k := 1) ?_ b le_rfl (Nat.lt_succ_self b)
    unfold Apart
    omega

end Loops

/-- Two-byte elements, compared by their first byte only. -/
theorem qsort_sorts_pairs :
    let m : Mem := fun b => ([3, 1, 1, 2, 3, 0, 2, 9] : List (BitVec 8)).getD b 7
    let cmp : Cmp := fun x y => (x.headD 0).toNat - (y.headD 0).toNat
    (elements (qsort 0 4 2 cmp m) 0 4 2).Perm [[3, 1], [1, 2], [3, 0], [2, 9]] ∧
      (elements (qsort 0 4 2 cmp m) 0 4 2).Pairwise (fun x y => cmp x y ≤ 0) ∧
      ∀ b, b < 0 ∨ 0 + 4 * 2 ≤ b → qsort 0 4 2 cmp m b = m b := by
  intro m cmp
  refine @qsort_sorts 0 4 2 cmp (by decide) (by decide) m ?_ ?_
  · intro x _ y _
    dsimp only [cmp]
    omega
  · intro x _ y _ z _
    dsimp only [cmp]
    omega

end CaraOS.Libc
