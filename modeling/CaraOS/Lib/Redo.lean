import Mathlib.Logic.Function.Basic
import Mathlib.Data.List.Basic
import Mathlib.Tactic.Common

namespace CaraOS.Redo

/-!
# Applying a list of physical writes

A store maps addresses to values and a redo list names, in order, the values
written to addresses.  Applying such a list is idempotent in a strong sense:
any store that differs from the original only at addresses the list writes
ends in the same result.
-/

open Function (update_of_ne update_self)
open List

variable {α β : Type} [DecidableEq α]

/-- Perform the writes of a list in order. -/
def applyAll (store : α → β) (writes : List (α × β)) : α → β :=
  writes.foldl (fun store write => Function.update store write.1 write.2) store

variable {store other : α → β} {writes : List (α × β)} {address : α}

@[simp] theorem applyAll_nil : applyAll store [] = store :=
  rfl

@[simp] theorem applyAll_cons (write : α × β) :
    applyAll store (write :: writes) =
      applyAll (Function.update store write.1 write.2) writes :=
  rfl

theorem applyAll_append (later : List (α × β)) :
    applyAll store (writes ++ later) =
      applyAll (applyAll store writes) later :=
  foldl_append

theorem applyAll_of_not_mem (absent : address ∉ writes.map Prod.fst) :
    applyAll store writes address = store address := by
  induction writes generalizing store with
  | nil =>
    rfl
  | cons write rest ih =>
    rw [map_cons, mem_cons, not_or] at absent
    rw [applyAll_cons, ih absent.2, update_of_ne absent.1]

theorem applyAll_congr (agree : address ∉ writes.map Prod.fst → store address = other address) :
    applyAll store writes address = applyAll other writes address := by
  induction writes generalizing store other with
  | nil =>
    exact agree (by simp)
  | cons write rest ih =>
    rw [applyAll_cons, applyAll_cons]
    apply ih
    intro absent
    by_cases here : address = write.1
    · subst here
      rw [update_self, update_self]
    · rw [update_of_ne here, update_of_ne here]
      exact agree (by simp [here, absent])

theorem applyAll_of_mem (distinct : (writes.map Prod.fst).Nodup) {value : β}
    (member : (address, value) ∈ writes) : applyAll store writes address = value := by
  induction writes generalizing store with
  | nil =>
    exact absurd member not_mem_nil
  | cons write rest ih =>
    rw [map_cons, nodup_cons] at distinct
    rw [applyAll_cons]
    rcases mem_cons.mp member with here | later
    · subst here
      rw [applyAll_of_not_mem distinct.1, update_self]
    · exact ih distinct.2 later

theorem applyAll_mem (present : address ∈ writes.map Prod.fst) :
    (address, applyAll store writes address) ∈ writes := by
  induction writes generalizing store with
  | nil =>
    exact absurd present not_mem_nil
  | cons write rest ih =>
    rw [applyAll_cons]
    by_cases later : address ∈ rest.map Prod.fst
    · exact mem_cons_of_mem _ (ih later)
    · have here : address = write.1 := by
        rcases mem_cons.mp present with here | listed
        · exact here
        · exact absurd listed later
      rw [applyAll_of_not_mem later, here, update_self]
      exact mem_cons_self

theorem applyAll_restart {done : List (α × β)} (part : done ⊆ writes) :
    applyAll (applyAll store done) writes = applyAll store writes := by
  funext address
  apply applyAll_congr
  intro absent
  apply applyAll_of_not_mem
  intro listed
  obtain ⟨write, member, rfl⟩ := mem_map.mp listed
  exact absent (mem_map_of_mem (part member))

end CaraOS.Redo
