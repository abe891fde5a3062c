import Mathlib.Data.Nat.ModEq
import Mathlib.Tactic.Common

namespace CaraOS.Ring

/-!
# Positions on a ring

A ring of `size` slots numbered from one.  `slot size off k` is the slot `k`
places after `off`, and `distance` is how far one slot lies behind another.
A ring that is filled completely has distance zero again, which is why a
region of the ring is described by its start and its length.
-/

/-- The slot `k` places after `off`. -/
def slot (size off k : Nat) : Nat :=
  (off + k - 1) % size + 1

/-- How many places lie from `head` up to `tail`, going round. -/
def distance (size head tail : Nat) : Nat :=
  if head ≤ tail then tail - head else tail + size - head

variable {size off head k j : Nat}

theorem slot_pos : 1 ≤ slot size off k :=
  Nat.succ_le_succ (Nat.zero_le _)

theorem slot_le (nonempty : 0 < size) : slot size off k ≤ size :=
  Nat.mod_lt _ nonempty

theorem slot_of_le (lower : 1 ≤ off + k) (upper : off + k ≤ size) : slot size off k = off + k := by
  unfold slot
  rw [Nat.mod_eq_of_lt (by omega)]
  omega

theorem slot_slot (lower : 1 ≤ off) : slot size (slot size off k) j = slot size off (k + j) := by
  unfold slot
  have shape : (off + k - 1) % size + 1 + j - 1 = (off + k - 1) % size + j := by
    omega
  rw [shape, Nat.mod_add_mod]
  congr 2
  omega

theorem slot_injective (lower : 1 ≤ off) (firstBound : k < size) (secondBound : j < size)
    (same : slot size off k = slot size off j) : k = j := by
  have congruent : (off - 1) + k ≡ (off - 1) + j [MOD size] := by
    have shapeK : off + k - 1 = off - 1 + k := by omega
    have shapeJ : off + j - 1 = off - 1 + j := by omega
    unfold slot at same
    rw [shapeK, shapeJ] at same
    exact Nat.succ.inj same
  exact Nat.ModEq.eq_of_lt_of_lt (Nat.ModEq.add_left_cancel' (off - 1) congruent)
    firstBound secondBound

theorem distance_slot (lower : 1 ≤ head) (upper : head ≤ size) (partway : k < size) :
    distance size head (slot size head k) = k := by
  by_cases wraps : head + k ≤ size
  · rw [slot_of_le (by omega) wraps]
    unfold distance
    rw [if_pos (by omega)]
    omega
  · have place : slot size head k = head + k - size := by
      unfold slot
      rw [Nat.mod_eq_sub_mod (by omega), Nat.mod_eq_of_lt (by omega)]
      omega
    unfold distance
    rw [if_neg (by omega)]
    omega

theorem distance_full_turn (lower : 1 ≤ head) (upper : head ≤ size) :
    distance size head (slot size head size) = 0 := by
  have place : slot size head size = head := by
    unfold slot
    have shape : head + size - 1 = head - 1 + size := by omega
    rw [shape, Nat.add_mod_right, Nat.mod_eq_of_lt (by omega)]
    omega
  rw [place]
  simp [distance]

end CaraOS.Ring
