import Mathlib.Data.Finset.Card
import Mathlib.Data.Nat.Bitwise
import CaraOS.Carafs.Alloc

namespace CaraOS.Carafs

/-!
# AG bitmaps

What the searches of `alloc.c` find in a bitmap, and which bits a grant and a
release change.
-/

section Bits

variable {bits agSize rel i : Nat}

theorem testBit_bitRange {lower upper : Nat} (ordered : lower ≤ upper) :
    (bitRange lower upper).testBit i =
      (decide (lower ≤ i) && decide (i < upper)) := by
  have shifted : bitRange lower upper = (2 ^ (upper - lower) - 1) <<< lower := by
    unfold bitRange
    rw [Nat.shiftLeft_eq, Nat.sub_mul, ← Nat.pow_add, Nat.sub_add_cancel ordered, Nat.one_mul]
  rw [shifted, Nat.testBit_shiftLeft, Nat.testBit_two_pow_sub_one]
  by_cases above : lower ≤ i
  · simp only [above, decide_true, Bool.true_and]
    congr 1
    apply propext
    omega
  · simp [above]

theorem scanFree_clear {fuel start : Nat} (found : scanFree bits agSize fuel start < agSize) :
    bits.testBit (scanFree bits agSize fuel start) = false := by
  induction fuel generalizing start with
  | zero =>
    simp [scanFree] at found
  | succ fuel ih =>
    unfold scanFree at found ⊢
    split at found
    · rename_i inside
      rw [if_pos inside]
      split at found
      · rename_i skipped
        rw [if_pos skipped]
        exact ih found
      · rename_i notSkipped
        rw [if_neg notSkipped]
        split at found
        · rename_i taken
          rw [if_pos taken]
          exact ih found
        · rename_i clear
          rw [if_neg clear]
          simpa using clear
    · exact absurd found (Nat.lt_irrefl _)

theorem findFree_clear {rotor : Nat} (found : findFree bits agSize rotor = some rel) :
    rel < agSize ∧ bits.testBit rel = false := by
  unfold findFree at found
  dsimp only at found
  generalize (if rotor < agSize then rotor else 0) = start at found
  split at found
  · rename_i inside
    cases found
    exact ⟨inside, scanFree_clear inside⟩
  · split at found
    · rename_i inside
      cases found
      exact ⟨inside, scanFree_clear inside⟩
    · cases found

theorem testBit_of_full_byte {start : Nat} (full : (bits >>> start) % 256 = 255) (lower : start ≤ i)
    (upper : i < start + 8) : bits.testBit i = true := by
  have byte := Nat.testBit_mod_two_pow (bits >>> start) 8 (i - start)
  rw [full, Nat.testBit_shiftRight, Nat.add_sub_cancel' lower] at byte
  have ones : Nat.testBit 255 (i - start) = decide (i - start < 8) :=
    Nat.testBit_two_pow_sub_one 8 (i - start)
  rw [ones] at byte
  simpa [show i - start < 8 by omega] using byte.symm

theorem scanFree_full {fuel start : Nat} (enough : agSize ≤ start + fuel)
    (nothing : ¬ scanFree bits agSize fuel start < agSize) (lower : start ≤ i)
    (inside : i < agSize) : bits.testBit i = true := by
  induction fuel generalizing start with
  | zero => omega
  | succ fuel ih =>
    unfold scanFree at nothing
    rw [if_pos (by omega)] at nothing
    split at nothing
    · rename_i skipped
      by_cases here : i < start + 8
      · exact testBit_of_full_byte skipped.2 lower here
      · exact ih (by omega) nothing (by omega)
    · split at nothing
      · by_cases here : i = start
        · rwa [here]
        · exact ih (by omega) nothing (by omega)
      · omega

theorem findFree_full {rotor : Nat}
    (nothing : findFree bits agSize rotor = none) (inside : i < agSize) :
    bits.testBit i = true := by
  unfold findFree at nothing
  dsimp only at nothing
  generalize (if rotor < agSize then rotor else 0) = start at nothing
  split at nothing
  · cases nothing
  split at nothing
  · cases nothing
  · rename_i none
    exact scanFree_full (by omega) none (Nat.zero_le i) inside

structure ClearRun (bits agSize rel got : Nat) : Prop where
  inside : rel + got ≤ agSize
  clear : ∀ i, rel ≤ i → i < rel + got → bits.testBit i = false

theorem runLength_clear {want fuel got : Nat} (run : ClearRun bits agSize rel got) :
    ClearRun bits agSize rel (runLength bits agSize rel want fuel got) ∧
      got ≤ runLength bits agSize rel want fuel got ∧
      runLength bits agSize rel want fuel got ≤ max got want := by
  induction fuel generalizing got with
  | zero =>
    exact ⟨run, Nat.le_refl _, Nat.le_max_left ..⟩
  | succ fuel ih =>
    unfold runLength
    split
    · rename_i more
      obtain ⟨below, inside, clear⟩ := more
      have longer : ClearRun bits agSize rel (got + 1) := by
        refine ⟨by omega, fun i lower upper => ?_⟩
        by_cases here : i = rel + got
        · rwa [here]
        · exact run.clear i lower (by omega)
      obtain ⟨reached, lower, upper⟩ := ih longer
      exact ⟨reached, by omega, by omega⟩
    · exact ⟨run, Nat.le_refl _, Nat.le_max_left ..⟩

end Bits

section Headers

variable {header : AgHeader} {agSize rel count i : Nat}

theorem AgHeader.granted_testBit :
    (header.granted agSize rel count).bits.testBit i =
      (header.bits.testBit i ||
        decide (rel ≤ i) && decide (i < rel + count)) := by
  unfold AgHeader.granted
  rw [Nat.testBit_or, testBit_bitRange (by omega)]

theorem AgHeader.freed_testBit :
    (header.freed rel count).bits.testBit i =
      (header.bits.testBit i && !(decide (rel ≤ i) && decide (i < rel + count))) := by
  have range := @testBit_bitRange i rel (rel + count) (by omega)
  show (header.bits ^^^ (header.bits &&& bitRange rel (rel + count))).testBit i = _
  rw [Nat.testBit_xor, Nat.testBit_and, range]
  cases header.bits.testBit i <;> simp

end Headers

end CaraOS.Carafs
