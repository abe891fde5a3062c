import Mathlib.Data.List.Infix
import CaraOS.Mm.PageTable

namespace CaraOS.Mm

/-!
# Room for pages

Whether `Page_Map` accepts a page depends on the table and the free pages
alone: the entry of the page has to be empty, and every empty entry on the way
to it costs a free page.  Here this is said for a list of pages that are mapped
one after the other, from the table before the first of them.
-/

open Action (wp wp_bind)
open List
open Radix (resolve)

/-- The free pages that a page takes: one for itself, one for each new table. -/
def needs (vacant : List Nat → Bool) (va : Nat) : Nat :=
  (indexes va).inits.tail.countP vacant

/-- What is vacant once some pages are mapped. -/
def MmSys.left (sys : MmSys) (root : Nat) (pages : List Nat) (path : List Nat) : Bool :=
  sys.vacant root path && pages.all fun va => !path.isPrefixOf (indexes va)

/--
The pages for which there is room, one after the other, when some are mapped
and so many pages are free; the first for which there is none ends the list.
-/
def MmSys.roomFor (sys : MmSys) (root : Nat) : List Nat → Nat → List Nat → List Nat
  | _, _, [] => []
  | pages, free, va :: rest =>
    let needed := needs (sys.left root pages) va
    if sys.left root pages (indexes va) ∧ needed ≤ free then
      va :: sys.roomFor root (va :: pages) (free - needed) rest
    else
      []

theorem needs_pos
    {vacant : List Nat → Bool}
    {va : Nat}
    (isVacant : vacant (indexes va)) :
    0 < needs vacant va :=
  countP_pos_iff.mpr ⟨indexes va, by simp [indexes], isVacant⟩

variable {sys : MmSys} {root va pa : Nat}

/-- `Page_Map` accepts a page exactly if there is room for it. -/
theorem Tidy.pageMap_room
    (prot : Prot)
    (tidy : Tidy sys)
    (used : root ∉ sys.pool)
    (alignedVa : va % pageSize = 0)
    (alignedPa : pa % pageSize = 0) :
    wp (pageMap root va pa prot)
      (fun _ after => sys.vacant root (indexes va) ∧
        after.pool.length + needs (sys.vacant root) va = sys.pool.length + 1)
      (fun _ _ => sys.vacant root (indexes va) →
        sys.pool.length + 1 < needs (sys.vacant root) va) sys := by
  have aligned : ¬ (va % pageSize ≠ 0 ∨ pa % pageSize ≠ 0) := by
    simp [alignedVa, alignedPa]
  -- a page that has just been taken is empty
  have blank {sys : MmSys} {table i page : Nat} {rest : List Nat}
      (different : page ≠ table) (j : Nat) :
      ((sys.take page rest).setEntry table i (.table page)).tables page j = .none := by
    rw [setEntry_other fun same => different same.1, take_self]
  unfold pageMap
  rw [if_neg aligned, wp_bind, wp_descend]
  cases isL1 : sys.tables root (l2Index va) with
  | leaf pa' prot' =>
    simp [MmSys.vacant, indexes, resolve, isL1, Pte.child, Pte.held]
  | none =>
    have isVacant : sys.vacant root (indexes va) ∧ needs (sys.vacant root) va = 3 := by
      simp [needs, MmSys.vacant, indexes, resolve, isL1, Pte.child, Pte.held]
    cases isPool : sys.pool with
    | nil => simp [isVacant]
    | cons page rest =>
      have different : page ≠ root := by
        rintro rfl
        simp [isPool] at used
      dsimp only
      rw [wp_bind, wp_descend, blank different]
      cases isRest : rest with
      | nil => simp [isVacant, MmSys.setEntry, MmSys.take]
      | cons page' rest' =>
        have nodup := tidy.nodup
        simp [isPool, isRest] at nodup
        show wp (setLeaf page' (l0Index va) pa prot) _ _ ((MmSys.take page' rest' _).setEntry page
          (l1Index va) (.table page'))
        rw [wp_setLeaf, blank (Ne.symm nodup.1.1)]
        simp [isVacant, MmSys.setEntry, MmSys.take]
  | table l1 =>
    have usedL1 := tidy.closed root used _ l1 isL1
    dsimp only
    rw [wp_bind, wp_descend]
    cases isL0 : sys.tables l1 (l1Index va) with
    | leaf pa' prot' => simp [MmSys.vacant, indexes, resolve, isL1, isL0, Pte.child, Pte.held]
    | none =>
      have isVacant : sys.vacant root (indexes va) ∧ needs (sys.vacant root) va = 2 := by
        simp [needs, MmSys.vacant, indexes, resolve, isL1, isL0, Pte.child, Pte.held]
      cases isPool : sys.pool with
      | nil => simp [isVacant]
      | cons page rest =>
        have different : page ≠ l1 := by
          rintro rfl
          simp [isPool] at usedL1
        dsimp only
        rw [wp_setLeaf, blank different]
        simp [isVacant, MmSys.setEntry, MmSys.take]
    | table l0 =>
      dsimp only
      rw [wp_setLeaf]
      cases isLeaf : sys.tables l0 (l0Index va) <;>
        simp [needs, MmSys.vacant, MmSys.setEntry, indexes, resolve, isL1, isL0, isLeaf, Pte.child,
          Pte.held]

end CaraOS.Mm
