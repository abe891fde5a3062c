import Mathlib.Algebra.BigOperators.Group.Finset.Basic
import Mathlib.Algebra.BigOperators.Ring.Finset
import Mathlib.Algebra.Order.BigOperators.Group.Finset
import Mathlib.Data.Set.Card
import Mathlib.Order.CompletePartialOrder
import Mathlib.Order.Interval.Finset.Nat
import CaraOS.Carafs.Bitmap
import CaraOS.Carafs.Mkfs

namespace CaraOS.Carafs

/-!
# The books of the allocator

The abstract state of the block allocator is the set of the blocks that are
taken.  `Books` ties it to the bitmap blocks and to the superblock's count: a
bit is clear where the block can be granted, and both counts are the number of
clear bits.  Granting a run and releasing one keep the books.
-/

open Finset (mem_Ico mem_range mem_sdiff mem_union sum_congr)

/-! ## Regions -/

namespace Geometry

/-- The block holds the bitmap of an AG. -/
def IsAg (g : Geometry) (block : Nat) : Prop :=
  ∃ ag < g.agCount, block = g.agBlock ag

/-- The block can be granted. -/
structure Data (g : Geometry) (block : Nat) : Prop where
  lower : g.agFirst ≤ block
  upper : block < g.backupSb
  notAg : ¬ g.IsAg block

open Classical in
/-- The free places of an AG. -/
noncomputable def freeIn (g : Geometry) (taken : Set Nat) (ag : Nat) :
    Finset Nat :=
  (Finset.range g.agSize).filter fun i =>
    i ≠ 0 ∧ g.agBlock ag + i < g.backupSb ∧ g.agBlock ag + i ∉ taken

theorem mem_freeIn {g : Geometry} {taken : Set Nat} {ag i : Nat} :
    i ∈ g.freeIn taken ag ↔
      i < g.agSize ∧ i ≠ 0 ∧ g.agBlock ag + i < g.backupSb ∧
        g.agBlock ag + i ∉ taken := by
  simp [freeIn]

end Geometry

section Regions

variable {g : Geometry}

theorem Layout.place_inj {ag other i j : Nat} (bound : i < g.agSize) (otherBound : j < g.agSize)
    (same : g.agBlock ag + i = g.agBlock other + j) : ag = other ∧ i = j := by
  unfold Geometry.agBlock at same
  have split : i + ag * g.agSize = j + other * g.agSize := by omega
  have quotient := congrArg (· / g.agSize) split
  have remainder := congrArg (· % g.agSize) split
  simp only [Nat.add_mul_mod_self_right, Nat.mod_eq_of_lt bound,
    Nat.mod_eq_of_lt otherBound] at remainder
  have positive : 0 < g.agSize := by omega
  simp only [Nat.add_mul_div_right _ _ positive, Nat.div_eq_of_lt bound,
    Nat.div_eq_of_lt otherBound, Nat.zero_add] at quotient
  exact ⟨quotient, remainder⟩

theorem Layout.data_of_free {taken : Set Nat} {ag i : Nat}
    (free : i ∈ g.freeIn taken ag) : g.Data (g.agBlock ag + i) := by
  obtain ⟨bound, notFirst, inside, -⟩ := Geometry.mem_freeIn.mp free
  refine ⟨?_, inside, ?_⟩
  · unfold Geometry.agBlock
    omega
  · rintro ⟨other, -, same⟩
    have := Layout.place_inj bound (show 0 < g.agSize by omega)
      (same : g.agBlock ag + i = g.agBlock other + 0)
    omega

theorem Layout.freeIn_grant {taken : Set Nat} {ag rel got : Nat}
    (inside : rel + got ≤ g.agSize) (other : Nat) :
    g.freeIn (taken ∪ Set.Ico (g.agBlock ag + rel)
        (g.agBlock ag + rel + got)) other =
      if other = ag then g.freeIn taken ag \ Finset.Ico rel (rel + got)
      else g.freeIn taken other := by
  ext i
  split
  · rename_i here
    subst here
    simp only [Geometry.mem_freeIn, mem_sdiff, mem_Ico, Set.mem_union, Set.mem_Ico]
    constructor
    · rintro ⟨bound, notFirst, region, free⟩
      rw [not_or] at free
      refine ⟨⟨bound, notFirst, region, free.1⟩, ?_⟩
      omega
    · rintro ⟨⟨bound, notFirst, region, free⟩, outside⟩
      refine ⟨bound, notFirst, region, ?_⟩
      rw [not_or]
      exact ⟨free, by omega⟩
  · rename_i different
    simp only [Geometry.mem_freeIn, Set.mem_union, Set.mem_Ico]
    constructor
    · rintro ⟨bound, notFirst, region, free⟩
      exact ⟨bound, notFirst, region, fun taken => free (.inl taken)⟩
    · rintro ⟨bound, notFirst, region, free⟩
      refine ⟨bound, notFirst, region, ?_⟩
      rintro (taken | ⟨lower, upper⟩)
      · exact free taken
      · have same : g.agBlock other + i =
            g.agBlock ag + (g.agBlock other + i - g.agBlock ag) := by omega
        exact different (Layout.place_inj bound (by omega) same).1

theorem Layout.freeIn_release {taken : Set Nat} {ag rel count : Nat}
    (notFirst : rel ≠ 0) (inside : rel + count ≤ g.agSize)
    (region : g.agBlock ag + rel + count ≤ g.backupSb) (other : Nat) :
    g.freeIn (taken \ Set.Ico (g.agBlock ag + rel)
        (g.agBlock ag + rel + count)) other =
      if other = ag then g.freeIn taken ag ∪ Finset.Ico rel (rel + count)
      else g.freeIn taken other := by
  ext i
  split
  · rename_i here
    subst here
    simp only [Geometry.mem_freeIn, mem_union, mem_Ico, Set.mem_sdiff, Set.mem_Ico, not_and]
    constructor
    · rintro ⟨bound, notZero, inRegion, free⟩
      by_cases released : rel ≤ i ∧ i < rel + count
      · exact .inr released
      · refine .inl ⟨bound, notZero, inRegion, fun isTaken => ?_⟩
        have := free isTaken
        omega
    · rintro (⟨bound, notZero, inRegion, free⟩ | ⟨lower, upper⟩)
      · exact ⟨bound, notZero, inRegion, fun isTaken => absurd isTaken free⟩
      · exact ⟨by omega, by omega, by omega, fun _ => by omega⟩
  · rename_i different
    simp only [Geometry.mem_freeIn, Set.mem_sdiff, Set.mem_Ico]
    constructor
    · rintro ⟨bound, notZero, inRegion, free⟩
      refine ⟨bound, notZero, inRegion, fun isTaken => free ⟨isTaken, ?_⟩⟩
      rintro ⟨lower, upper⟩
      have same : g.agBlock other + i =
          g.agBlock ag + (g.agBlock other + i - g.agBlock ag) := by omega
      exact different (Layout.place_inj bound (by omega) same).1
    · rintro ⟨bound, notZero, inRegion, free⟩
      exact ⟨bound, notZero, inRegion, fun released => free released.1⟩

end Regions

/-! ## The books -/

/-- The bitmap of one AG describes the blocks that are taken. -/
structure AgHolds (g : Geometry) (image : Block) (taken : Set Nat) (ag : Nat)
    (header : AgHeader) : Prop where
  shown : image = .ag header
  blockNo : header.blockNo = g.agBlock ag
  sealed : Block.crcOk g.blockSize (.ag header) = true
  bits : ∀ {i}, i < g.agSize → (header.bits.testBit i = false ↔ i ∈ g.freeIn taken ag)
  count : header.freeCount = (g.freeIn taken ag).card

/-- All bitmaps and the superblock's count describe the taken blocks. -/
structure Books (g : Geometry) (view : Nat → Block) (free : Nat)
    (taken : Set Nat) : Prop where
  ag : ∀ {ag}, ag < g.agCount → ∃ header, AgHolds g (view (g.agBlock ag)) taken ag header
  total : free = ∑ ag ∈ Finset.range g.agCount, (g.freeIn taken ag).card

/-- The free run `ag_try_alloc` grants. -/
structure Grantable (g : Geometry) (taken : Set Nat) (ag rel got : Nat) :
    Prop where
  bound : ag < g.agCount
  some : 1 ≤ got
  inside : rel + got ≤ g.agSize
  free : ∀ {i}, rel ≤ i → i < rel + got → i ∈ g.freeIn taken ag

/-- Where the bitmap of a run of data blocks is. -/
structure Placed (g : Geometry) (start count ag rel : Nat) : Prop where
  isAg : ag = (start - g.agFirst) / g.agSize
  bound : ag < g.agCount
  place : start = g.agBlock ag + rel
  notFirst : rel ≠ 0
  inside : rel + count ≤ g.agSize
  region : start + count ≤ g.backupSb

section Books

variable {g : Geometry} {view view' : Nat → Block} {free free' : Nat}
  {taken taken' : Set Nat} {ag rel got start count : Nat}
  {header header' : AgHeader}

theorem AgHolds.of_sealed (shown : view (g.agBlock ag) = Block.putCrc g.blockSize (.ag header))
    (blockNo : header.blockNo = g.agBlock ag)
    (bits : ∀ {i}, i < g.agSize → (header.bits.testBit i = false ↔ i ∈ g.freeIn taken ag))
    (count : header.freeCount = (g.freeIn taken ag).card) :
    ∃ sealed, AgHolds g (view (g.agBlock ag)) taken ag sealed :=
  ⟨_, shown, blockNo, crcOk_putCrc g.blockSize (.ag header) (List.cons_ne_nil _ _), bits, count⟩

theorem Books.update (books : Books g view free taken) (layout : Layout g) (bound : ag < g.agCount)
    (here : view' (g.agBlock ag) = Block.putCrc g.blockSize (.ag header'))
    (same : ∀ {block}, g.IsAg block → block ≠ g.agBlock ag → view' block = view block)
    (blockNo : header'.blockNo = g.agBlock ag)
    (bits : ∀ {i}, i < g.agSize → (header'.bits.testBit i = false ↔ i ∈ g.freeIn taken' ag))
    (count : header'.freeCount = (g.freeIn taken' ag).card)
    (elsewhere : ∀ other, other ≠ ag → g.freeIn taken' other = g.freeIn taken other)
    (total : free' + (g.freeIn taken ag).card = free + (g.freeIn taken' ag).card) :
    Books g view' free' taken' := by
  constructor
  · intro other otherBound
    by_cases isHere : other = ag
    · subst isHere
      exact AgHolds.of_sealed here blockNo bits count
    · obtain ⟨otherHeader, holds⟩ := books.ag otherBound
      have apart : g.agBlock other ≠ g.agBlock ag := fun equal =>
        isHere (layout.agBlock_inj equal)
      refine ⟨otherHeader, (same ⟨other, otherBound, rfl⟩ apart).trans
        holds.shown, holds.blockNo, holds.sealed, ?_, ?_⟩
      · rw [elsewhere other isHere]
        exact holds.bits
      · rw [elsewhere other isHere]
        exact holds.count
  · have member : ag ∈ Finset.range g.agCount := mem_range.mpr bound
    have others : ∑ i ∈ (Finset.range g.agCount).erase ag, (g.freeIn taken' i).card =
          ∑ i ∈ (Finset.range g.agCount).erase ag, (g.freeIn taken i).card :=
      sum_congr rfl fun i listed => by
        rw [elsewhere i (Finset.ne_of_mem_erase listed)]
    have before := Finset.add_sum_erase _ (fun i => (g.freeIn taken i).card) member
    have after := Finset.add_sum_erase _ (fun i => (g.freeIn taken' i).card) member
    have isTotal := books.total
    omega

theorem Grantable.card (grant : Grantable g taken ag rel got) :
    (g.freeIn taken ag \ Finset.Ico rel (rel + got)).card + got =
      (g.freeIn taken ag).card := by
  have sub : Finset.Ico rel (rel + got) ⊆ g.freeIn taken ag := by
    intro i listed
    rw [mem_Ico] at listed
    exact grant.free listed.1 listed.2
  have split := Finset.card_sdiff_add_card_eq_card sub
  rw [Nat.card_Ico] at split
  omega

section

variable (books : Books g view free taken)
include books

theorem Books.card_le (bound : ag < g.agCount) : (g.freeIn taken ag).card ≤ free := by
  rw [books.total]
  exact Finset.single_le_sum (f := fun i => (g.freeIn taken i).card) (fun _ _ => Nat.zero_le _)
    (mem_range.mpr bound)

theorem Books.grant (layout : Layout g) (grant : Grantable g taken ag rel got)
    (holds : AgHolds g (view (g.agBlock ag)) taken ag header)
    (here : view' (g.agBlock ag) = Block.putCrc g.blockSize (.ag (header.granted g.agSize rel got)))
    (same : ∀ {block}, g.IsAg block → block ≠ g.agBlock ag → view' block = view block) :
    Books g view' (free - got) (taken ∪ Set.Ico (g.agBlock ag + rel)
      (g.agBlock ag + rel + got)) := by
  have isFree (other : Nat) := @Layout.freeIn_grant g taken ag rel got grant.inside other
  have card := grant.card
  have isCount := holds.count
  refine books.update layout grant.bound here same holds.blockNo ?_ ?_ ?_ ?_
  · intro i inside
    rw [isFree, if_pos rfl, mem_sdiff, ← holds.bits inside, AgHeader.granted_testBit]
    simp
  · rw [isFree, if_pos rfl]
    show header.freeCount - got = _
    omega
  · intro other different
    rw [isFree, if_neg different]
  · rw [isFree, if_pos rfl]
    have := books.card_le grant.bound
    omega

theorem Books.release (layout : Layout g) (placed : Placed g start count ag rel)
    (allTaken : Set.Ico start (start + count) ⊆ taken)
    (holds : AgHolds g (view (g.agBlock ag)) taken ag header)
    (here : view' (g.agBlock ag) = Block.putCrc g.blockSize (.ag (header.freed rel count)))
    (same : ∀ {block}, g.IsAg block → block ≠ g.agBlock ag → view' block = view block) :
    Books g view' (free + count) (taken \ Set.Ico start (start + count)) := by
  have region := placed.region
  have place := placed.place
  have isFree (other : Nat) := @Layout.freeIn_release g taken ag rel count
    placed.notFirst placed.inside (by omega) other
  rw [← placed.place] at isFree
  have disjoint : Disjoint (g.freeIn taken ag) (Finset.Ico rel (rel + count)) := by
    rw [Finset.disjoint_left]
    intro i clear listed
    rw [mem_Ico] at listed
    obtain ⟨-, -, -, notTaken⟩ := Geometry.mem_freeIn.mp clear
    exact notTaken (allTaken ⟨by omega, by omega⟩)
  have card : (g.freeIn taken ag ∪ Finset.Ico rel (rel + count)).card =
      (g.freeIn taken ag).card + count := by
    rw [Finset.card_union_of_disjoint disjoint, Nat.card_Ico]
    omega
  refine books.update layout placed.bound here same holds.blockNo ?_ ?_ ?_ ?_
  · intro i inside
    rw [isFree, if_pos rfl, mem_union, ← holds.bits inside, AgHeader.freed_testBit]
    cases header.bits.testBit i <;> simp
  · rw [isFree, if_pos rfl, card, ← holds.count]
    rfl
  · intro other different
    rw [isFree, if_neg different]
  · rw [isFree, if_pos rfl]
    omega

end

theorem Grantable.placed (grant : Grantable g taken ag rel got) :
    Placed g (g.agBlock ag + rel) got ag rel := by
  have some := grant.some
  have inside := grant.inside
  obtain ⟨-, notFirst, -, -⟩ := Geometry.mem_freeIn.mp (grant.free (Nat.le_refl rel) (by omega))
  obtain ⟨-, -, region, -⟩ := Geometry.mem_freeIn.mp
    (grant.free (show rel ≤ rel + got - 1 by omega) (by omega))
  refine ⟨?_, grant.bound, rfl, notFirst, grant.inside, by omega⟩
  unfold Geometry.agBlock
  rw [show g.agFirst + ag * g.agSize + rel - g.agFirst =
    rel + ag * g.agSize by omega, Nat.add_mul_div_right _ _ (by omega),
    Nat.div_eq_of_lt (by omega), Nat.zero_add]

end Books

/-! ## A fresh volume -/

section Fresh

variable {g : Geometry} {ag i : Nat}

theorem mkfsAg_testBit (layout : Layout g) (bound : ag < g.agCount) (inside : i < g.agSize) :
    (mkfsAg g ag).bits.testBit i = false ↔
      i ∈ g.freeIn {g.rootCnode} ag := by
  have start := layout.agBlock_lt bound
  have room := layout.room
  have isRoot := layout.root
  rw [Geometry.mem_freeIn, Set.mem_singleton_iff]
  unfold Geometry.agBlock at start ⊢
  unfold mkfsAg
  rw [Nat.testBit_or, Nat.testBit_or, testBit_bitRange (by omega)]
  have first : Nat.testBit 1 i = decide (i = 0) := by
    cases i with
    | zero => rfl
    | succ i => simp [Nat.testBit_succ]
  have root : (if decide (g.agFirst + ag * g.agSize ≤ g.rootCnode ∧
      g.rootCnode < min (g.agFirst + ag * g.agSize + g.agSize) g.backupSb) = true then
        2 ^ (g.rootCnode - (g.agFirst + ag * g.agSize)) else 0).testBit i =
      decide (g.agFirst + ag * g.agSize + i = g.rootCnode) := by
    split
    · rename_i has
      simp only [decide_eq_true_eq] at has
      rw [Nat.testBit_two_pow]
      congr 1
      apply propext
      omega
    · rename_i hasNot
      simp only [decide_eq_true_eq, not_and, not_lt] at hasNot
      rw [Nat.zero_testBit]
      symm
      rw [decide_eq_false_iff_not]
      omega
  rw [first, root]
  simp only [Bool.or_eq_false_iff, decide_eq_false_iff_not, Bool.and_eq_false_iff, not_le, not_lt]
  omega

theorem mkfsAg_count (layout : Layout g) (bound : ag < g.agCount) :
    (mkfsAg g ag).freeCount = (g.freeIn {g.rootCnode} ag).card := by
  have start := layout.agBlock_lt bound
  have room := layout.room
  have size := layout.agSize
  have isRoot := layout.root
  have isFree : g.freeIn {g.rootCnode} ag = Finset.Ico (if ag = 0 then 2 else 1)
        (min (g.agBlock ag + g.agSize) g.backupSb - g.agBlock ag) := by
    ext i
    rw [Geometry.mem_freeIn, mem_Ico, Set.mem_singleton_iff]
    unfold Geometry.agBlock at start ⊢
    cases ag with
    | zero =>
      simp only [Nat.zero_mul, Nat.add_zero, if_true]
      omega
    | succ ag =>
      rw [if_neg (Nat.succ_ne_zero ag), Nat.add_mul]
      omega
  rw [isFree, Nat.card_Ico]
  unfold Geometry.agBlock at start ⊢
  unfold mkfsAg
  dsimp only
  cases ag with
  | zero =>
    rw [if_pos (by simp only [decide_eq_true_eq]; omega), if_pos rfl]
  | succ ag =>
    rw [Nat.add_mul] at start ⊢
    rw [if_neg (by simp only [decide_eq_true_eq]; omega), if_neg (Nat.succ_ne_zero ag)]

theorem MkfsImage.books {opts : MkfsOpts} {disk : Nat → Block}
    (layout : Layout g) (image : MkfsImage g opts disk) :
    Books g disk (mkfsSuper g opts).freeBlocks {g.rootCnode} where
  ag := fun bound => AgHolds.of_sealed (image.ag bound) rfl
    (mkfsAg_testBit layout bound) (mkfsAg_count layout bound)
  total := by
    exact sum_congr rfl fun ag listed =>
      mkfsAg_count layout (mem_range.mp listed)

end Fresh

end CaraOS.Carafs
