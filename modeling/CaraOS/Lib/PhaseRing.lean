import Mathlib.Data.Nat.ModEq
import Mathlib.Logic.Function.Basic
import Mathlib.Tactic.Common

namespace CaraOS.PhaseRing

/-!
# Rings with a phase

A producer and a consumer share a ring of slots.  Neither sees the other's
position: a slot carries a phase bit, the producer writes the phase of its
current pass, and the consumer takes a slot for new if the phase is that of
its own pass.  The bit changes with every pass.

Positions are counted from the beginning of time, and the slot and the phase of
a position are functions of it.
-/

open List

/-- A place on the ring and the phase of the pass. -/
structure Cursor where
  index : Nat
  phase : Bool
  deriving DecidableEq

/-- The next place; the phase changes when the ring starts over. -/
def Cursor.next (size : Nat) (cursor : Cursor) : Cursor :=
  if cursor.index + 1 = size then
    ⟨0, !cursor.phase⟩
  else
    ⟨cursor.index + 1, cursor.phase⟩

/-- The place of a position. -/
def place (size k : Nat) : Cursor :=
  ⟨k % size, decide (k / size % 2 = 0)⟩

/--
The ring holds a queue, the oldest entry at position `taken`: the entries are
in their slots with their phase, and the other slots have the wrong phase.
-/
structure Holds {α : Type} (size : Nat) (slots : Nat → α × Bool) (taken : Nat)
    (queue : List α) : Prop where
  positive : 0 < size
  room : queue.length ≤ size
  queued : ∀ i x, queue[i]? = some x → slots (place size (taken + i)).index =
        (x, (place size (taken + i)).phase)
  free : ∀ k, taken + queue.length ≤ k → k < taken + size →
      (slots (place size k).index).2 ≠ (place size k).phase

section Place

variable {size k j : Nat}

theorem place_index_lt (positive : 0 < size) : (place size k).index < size :=
  Nat.mod_lt k positive

theorem place_zero : place size 0 = ⟨0, true⟩ := by
  simp [place]

theorem decide_even_succ (n : Nat) : decide ((n + 1) % 2 = 0) = !decide (n % 2 = 0) := by
  by_cases even : n % 2 = 0
  · have odd : ¬ (n + 1) % 2 = 0 := by omega
    simp [even, odd]
  · have isEven : (n + 1) % 2 = 0 := by omega
    simp [even, isEven]

theorem place_next (positive : 0 < size) : (place size k).next size = place size (k + 1) := by
  have split := Nat.div_add_mod k size
  have below := Nat.mod_lt k positive
  unfold place Cursor.next
  by_cases last : k % size + 1 = size
  · have isNext : k + 1 = size * (k / size + 1) := by
      rw [Nat.mul_succ]
      omega
    rw [if_pos last, isNext, Nat.mul_mod_right, Nat.mul_div_cancel_left _ positive,
      decide_even_succ]
  · have isNext : k + 1 = size * (k / size) + (k % size + 1) := by omega
    have small : k % size + 1 < size := by omega
    rw [if_neg last, isNext, Nat.mul_add_mod, Nat.mod_eq_of_lt small,
      Nat.mul_add_div positive, Nat.div_eq_of_lt small]
    rfl

theorem place_index_ne (before : j < k) (near : k < j + size) :
    (place size j).index ≠ (place size k).index := by
  intro same
  have divides : size ∣ k - j := (Nat.modEq_iff_dvd' before.le).mp same
  exact absurd (Nat.le_of_dvd (by omega) divides) (by omega)

theorem place_add_size (positive : 0 < size) :
    (place size (k + size)).index = (place size k).index ∧
      (place size (k + size)).phase = !(place size k).phase := by
  unfold place
  rw [Nat.add_mod_right, Nat.add_div_right _ positive]
  exact ⟨rfl, decide_even_succ _⟩

end Place

namespace Holds

variable {α : Type} {size taken : Nat} {slots : Nat → α × Bool} {queue rest : List α} {x : α}

theorem blank (positive : 0 < size) (clear : ∀ i, (slots i).2 = false) : Holds size slots 0 [] where
  positive := positive
  room := Nat.zero_le size
  queued := by
    intro i x found
    nomatch found
  free := by
    intro k _ below
    rw [Nat.zero_add] at below
    have first : (place size k).phase = true := by
      unfold place
      rw [Nat.div_eq_of_lt below]
      rfl
    rw [clear, first]
    exact Bool.false_ne_true

theorem congr {other : Nat → α × Bool} (holds : Holds size slots taken queue)
    (same : ∀ i, i < size → other i = slots i) : Holds size other taken queue where
  positive := holds.positive
  room := holds.room
  queued := by
    intro i x found
    rw [same _ (place_index_lt holds.positive)]
    exact holds.queued i x found
  free := by
    intro k low high
    rw [same _ (place_index_lt holds.positive)]
    exact holds.free k low high

theorem not_new (holds : Holds size slots taken []) :
    (slots (place size taken).index).2 ≠ (place size taken).phase :=
  holds.free taken le_rfl (Nat.lt_add_of_pos_right holds.positive)

theorem first (holds : Holds size slots taken (x :: rest)) :
    slots (place size taken).index = (x, (place size taken).phase) :=
  holds.queued 0 x rfl

theorem pop (holds : Holds size slots taken (x :: rest)) : Holds size slots (taken + 1) rest where
  positive := holds.positive
  room := Nat.le_of_succ_le holds.room
  queued := by
    intro i y found
    have later := holds.queued (i + 1) y found
    rwa [← Nat.add_assoc, Nat.add_right_comm] at later
  free := by
    intro k low high
    have length : (x :: rest).length = rest.length + 1 := rfl
    by_cases same : k = taken + size
    · obtain ⟨isIndex, isPhase⟩ := @place_add_size size taken holds.positive
      rw [same, isIndex, isPhase, holds.first]
      cases (place size taken).phase with
      | false => exact Bool.false_ne_true
      | true => exact Bool.false_ne_true.symm
    · exact holds.free k (by omega) (by omega)

theorem push (holds : Holds size slots taken queue) (room : queue.length < size) (x : α) :
    Holds size
      (Function.update slots (place size (taken + queue.length)).index
        (x, (place size (taken + queue.length)).phase))
      taken (queue ++ [x]) where
  positive := holds.positive
  room := by
    rwa [length_append]
  queued := by
    intro i y found
    by_cases last : i = queue.length
    · subst last
      rw [List.getElem?_concat_length] at found
      cases found
      exact Function.update_self ..
    · have bound : i < (queue ++ [x]).length := (List.getElem?_eq_some_iff.mp found).1
      rw [length_append, length_singleton] at bound
      have below : i < queue.length := by omega
      rw [List.getElem?_append_left below] at found
      rw [Function.update_of_ne (place_index_ne (by omega) (by omega))]
      exact holds.queued i y found
  free := by
    intro k low high
    rw [length_append, length_singleton] at low
    have other : (place size k).index ≠ (place size (taken + queue.length)).index :=
      (place_index_ne (by omega) (by omega)).symm
    rw [Function.update_of_ne other]
    exact holds.free k (by omega) high

end Holds

end CaraOS.PhaseRing
