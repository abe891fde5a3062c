import Mathlib.Algebra.Group.Nat.Defs
import Mathlib.Data.List.Basic
import CaraOS.Mm.PageTable

namespace CaraOS.Mm.PageMap

/-!
# `Page_Map` on machine words

`PageTable.lean` knows an entry by what it means and a protection by its mask.
Here the entries are the words of `arch_pte.h` and `prot` is any word, for both
encodings the kernel is built with.
-/

open BitVec (eq_of_getLsbD_eq getLsbD_and getLsbD_or getLsbD_shiftLeft)
open Action (wp_bind wp_mono wp_read)
open List
open Function (update update_of_ne update_self)
open Carafs (Err)

/-- A `u64`. -/
abbrev Word : Type :=
  BitVec 64

/-- The mask of `n` bits from bit `low` on. -/
def field (low n : Nat) : Word :=
  BitVec.ofNat 64 (2 ^ n - 1) <<< low

theorem getLsbD_field (low n i : Nat) :
    (field low n).getLsbD i = decide (i < 64 ∧ low ≤ i ∧ i < low + n) := by
  simp only [field, getLsbD_shiftLeft, BitVec.getLsbD_ofNat, Nat.testBit_two_pow_sub_one]
  grind

/-- `arch_pte_valid`; bit 0 is `PTE_V` in both encodings. -/
def archPteValid (pte : Word) : Bool :=
  pte &&& 1 != 0

theorem archPteValid_iff (pte : Word) : archPteValid pte = pte.getLsbD 0 := by
  have isBit : pte &&& 1 = if pte.getLsbD 0 then 1 else 0 := by
    apply eq_of_getLsbD_eq
    intro i bound
    split <;> grind
  unfold archPteValid
  rw [isBit]
  cases pte.getLsbD 0 <;> rfl

/-! ## Encodings -/

/--
The functions of an `arch_pte.h`.  A leaf consists of the bits of `prot` and
of bits of its own: the address, and a type where the architecture has one.
-/
structure Encoding where
  archPteLeaf : Word → Word → Word
  archPteTable : Word → Word
  archPteIsLeaf : Word → Bool
  archPteChildPa : Word → Word
  /-- The bits of a leaf that `prot` is not meant to set. -/
  own : Word
  /-- The bits of the addresses that an entry can hold. -/
  reach : Word
  valid_table : ∀ pa, archPteValid (archPteTable pa) = true
  isLeaf_table : ∀ pa, archPteIsLeaf (archPteTable pa) = false
  childPa_table : ∀ pa, pa &&& reach = pa → archPteChildPa (archPteTable pa) = pa
  valid_leaf : ∀ pa prot, archPteValid prot = true → archPteValid (archPteLeaf pa prot) = true
  leaf_rights : ∀ pa prot, pa &&& reach = pa → archPteLeaf pa prot &&& ~~~own = prot &&& ~~~own
  childPa_leaf : ∀ pa prot, pa &&& reach = pa → prot &&& own = 0 →
      archPteChildPa (archPteLeaf pa prot) = pa

namespace Sv39

/-- `arch_pte_leaf` for riscv64. -/
def archPteLeaf (pa prot : Word) : Word :=
  ((pa >>> 12) <<< 10) ||| prot

/-- `arch_pte_table` for riscv64. -/
def archPteTable (childPa : Word) : Word :=
  ((childPa >>> 12) <<< 10) ||| 1

/-- `arch_pte_is_leaf` for riscv64: one of `PTE_R`, `PTE_W` and `PTE_X`. -/
def archPteIsLeaf (pte : Word) : Bool :=
  pte &&& 0xE != 0

/-- `arch_pte_child_pa` for riscv64. -/
def archPteChildPa (pte : Word) : Word :=
  ((pte >>> 10) &&& 0x0FFFFFFFFFFF) <<< 12

theorem childPa_leaf (pa prot : Word) (fits : pa &&& field 12 44 = pa)
    (apart : prot &&& field 10 44 = 0) : archPteChildPa (archPteLeaf pa prot) = pa := by
  have isField : (0x0FFFFFFFFFFF : Word) = field 0 44 := by decide
  apply eq_of_getLsbD_eq
  intro i bound
  have paBit := congrArg (BitVec.getLsbD · i) fits
  have protBit := congrArg (BitVec.getLsbD · (10 + (i - 12))) apart
  simp only [archPteChildPa, archPteLeaf, isField, getLsbD_shiftLeft,
    getLsbD_and, getLsbD_or, BitVec.getLsbD_ushiftRight, getLsbD_field] at paBit protBit ⊢
  grind

theorem leaf_rights (pa prot : Word) (fits : pa &&& field 12 44 = pa) :
    archPteLeaf pa prot &&& ~~~field 10 44 = prot &&& ~~~field 10 44 := by
  apply eq_of_getLsbD_eq
  intro i bound
  have paBit := congrArg (BitVec.getLsbD · (12 + (i - 10))) fits
  simp only [archPteLeaf, getLsbD_shiftLeft, getLsbD_and,
    getLsbD_or, BitVec.getLsbD_ushiftRight, getLsbD_field, BitVec.getLsbD_not] at paBit ⊢
  grind

theorem valid_leaf (pa prot : Word) (valid : archPteValid prot = true) :
    archPteValid (archPteLeaf pa prot) = true := by
  rw [archPteValid_iff] at valid ⊢
  simp [archPteLeaf, valid]

theorem isLeaf_table (pa : Word) : archPteIsLeaf (archPteTable pa) = false := by
  have isField : (0xE : Word) = field 1 3 := by decide
  have isZero : archPteTable pa &&& 0xE = 0 := by
    apply eq_of_getLsbD_eq
    intro i bound
    simp only [archPteTable, isField, getLsbD_and, getLsbD_or, getLsbD_shiftLeft, getLsbD_field]
    grind
  unfold archPteIsLeaf
  rw [isZero]
  rfl

/-- riscv64, and the default. -/
def encoding : Encoding where
  archPteLeaf := archPteLeaf
  archPteTable := archPteTable
  archPteIsLeaf := archPteIsLeaf
  archPteChildPa := archPteChildPa
  own := field 10 44
  reach := field 12 44
  valid_table pa := valid_leaf pa 1 (by decide)
  isLeaf_table := isLeaf_table
  childPa_table pa fits := childPa_leaf pa 1 fits (by decide)
  valid_leaf := valid_leaf
  leaf_rights := leaf_rights
  childPa_leaf := childPa_leaf

end Sv39

namespace Arm64

def pteOaMask : Word :=
  0x0000FFFFFFFFF000

/-- `arch_pte_leaf` for arm64; 2 is `PTE_TYPE_TABLE`. -/
def archPteLeaf (pa prot : Word) : Word :=
  (pa &&& pteOaMask) ||| prot ||| 2

/-- `arch_pte_table` for arm64. -/
def archPteTable (childPa : Word) : Word :=
  (childPa &&& pteOaMask) ||| 1 ||| 2

/-- `arch_pte_is_leaf` for arm64. -/
def archPteIsLeaf (pte : Word) : Bool :=
  pte &&& 2 == 0

/-- `arch_pte_child_pa` for arm64. -/
def archPteChildPa (pte : Word) : Word :=
  pte &&& pteOaMask

theorem pteOaMask_eq : pteOaMask = field 12 36 := by
  decide

theorem two_eq : (2 : Word) = field 1 1 := by
  decide

theorem childPa_leaf (pa prot : Word) (fits : pa &&& pteOaMask = pa)
    (apart : prot &&& (pteOaMask ||| 2) = 0) : archPteChildPa (archPteLeaf pa prot) = pa := by
  apply eq_of_getLsbD_eq
  intro i bound
  have paBit := congrArg (BitVec.getLsbD · i) fits
  have protBit := congrArg (BitVec.getLsbD · i) apart
  simp only [archPteChildPa, archPteLeaf, pteOaMask_eq, two_eq,
    getLsbD_and, getLsbD_or, getLsbD_field]
    at paBit protBit ⊢
  grind

theorem leaf_rights (pa prot : Word) :
    archPteLeaf pa prot &&& ~~~(pteOaMask ||| 2) =
      prot &&& ~~~(pteOaMask ||| 2) := by
  apply eq_of_getLsbD_eq
  intro i bound
  simp only [archPteLeaf, pteOaMask_eq, two_eq, getLsbD_and,
    getLsbD_or, getLsbD_field, BitVec.getLsbD_not]
  grind

theorem valid_leaf (pa prot : Word) (valid : archPteValid prot = true) :
    archPteValid (archPteLeaf pa prot) = true := by
  rw [archPteValid_iff] at valid ⊢
  simp [archPteLeaf, valid]

theorem isLeaf_table (pa : Word) : archPteIsLeaf (archPteTable pa) = false := by
  have isBit : (archPteTable pa &&& 2).getLsbD 1 = true := by
    simp only [archPteTable, two_eq, getLsbD_and, getLsbD_or, getLsbD_field]
    grind
  unfold archPteIsLeaf
  rw [beq_eq_false_iff_ne]
  intro isZero
  rw [isZero] at isBit
  nomatch isBit

/-- arm64. -/
def encoding : Encoding where
  archPteLeaf := archPteLeaf
  archPteTable := archPteTable
  archPteIsLeaf := archPteIsLeaf
  archPteChildPa := archPteChildPa
  own := pteOaMask ||| 2
  reach := pteOaMask
  valid_table pa := valid_leaf pa 1 (by decide)
  isLeaf_table := isLeaf_table
  childPa_table pa fits := childPa_leaf pa 1 fits (by decide)
  valid_leaf := valid_leaf
  leaf_rights pa prot _ := leaf_rights pa prot
  childPa_leaf := childPa_leaf

end Arm64

/-! ## The walk -/

/-- Table pages by physical address, and the pages that are free. -/
structure PtMem where
  tables : Word → Fin 512 → Word
  pool : List Word

/-- An action on table pages. -/
abbrev PtAction (α : Type) : Type :=
  Action Err PtMem α

/-- Write an entry. -/
def PtMem.setEntry (table : Word) (i : Fin 512) (pte : Word) (mem : PtMem) : PtMem :=
  { mem with
    tables := update mem.tables table (update (mem.tables table) i pte) }

/-- A page leaves the pool and is zeroed. -/
def PtMem.take (page : Word) (rest : List Word) (mem : PtMem) : PtMem where
  tables := update mem.tables page fun _ => 0
  pool := rest

def allocPtPage : PtAction Word :=
  fun mem =>
    match mem.pool with
    | [] => (.error .enomem, mem)
    | page :: rest => (.ok page, mem.take page rest)

/-- One level of `Page_Map`: the table below an entry, made if need be. -/
def descend (enc : Encoding) (table : Word) (i : Fin 512) : PtAction Word := do
  let mem ← Action.read
  let pte := mem.tables table i
  if archPteValid pte then
    if enc.archPteIsLeaf pte then
      Action.fail .einval
    else
      return enc.archPteChildPa pte
  else do
    let child ← allocPtPage
    Action.modify (PtMem.setEntry table i (enc.archPteTable child))
    return child

/-- The end of `Page_Map`. -/
def setLeaf (enc : Encoding) (table : Word) (i : Fin 512) (pa prot : Word) :
    PtAction Unit := do
  let mem ← Action.read
  if archPteValid (mem.tables table i) then
    Action.fail .einval
  else
    Action.modify (PtMem.setEntry table i (enc.archPteLeaf pa prot))

/-- `i2`, `i1` and `i0` of `Page_Map`. -/
def indexes (va : Nat) : Fin 512 × Fin 512 × Fin 512 :=
  (⟨l2Index va, Nat.mod_lt _ (by decide)⟩, ⟨l1Index va, Nat.mod_lt _ (by decide)⟩,
    ⟨l0Index va, Nat.mod_lt _ (by decide)⟩)

/-- `Page_Map` of a table that is there. -/
def pageMap (enc : Encoding) (root : Word) (va : Nat) (pa prot : Word) : PtAction Unit :=
  if va % pageSize ≠ 0 ∨ pa &&& 0xFFF ≠ 0 then
    Action.fail .einval
  else if archPteValid prot = false then
    Action.fail .einval
  else do
    let l1 ← descend enc root (indexes va).1
    let l0 ← descend enc l1 (indexes va).2.1
    setLeaf enc l0 (indexes va).2.2 pa prot

/-! ## The lookup -/

/-- The table an entry of an upper level leads to. -/
def Encoding.child (enc : Encoding) (pte : Word) : Option Word :=
  if archPteValid pte ∧ enc.archPteIsLeaf pte = false then
    some (enc.archPteChildPa pte)
  else
    none

/-- What an entry without a table below shows of an address: a page, which is
large where indexes are left, and its rights. -/
def Encoding.page (enc : Encoding) (va : Nat) (left : List (Fin 512))
    (pte : Word) : Option (Word × Word) :=
  if archPteValid pte then
    some (enc.archPteChildPa pte +
      BitVec.ofNat 64 (va % 2 ^ (12 + 9 * left.length)), pte &&& ~~~enc.own)
  else
    none

/-- The indexes of an address, from the root on. -/
def path (va : Nat) : List (Fin 512) :=
  [(indexes va).1, (indexes va).2.1, (indexes va).2.2]

/-- The three-level lookup: the physical address and the rights. -/
def lookup (enc : Encoding) (mem : PtMem) (root : Word) (va : Nat) : Option (Word × Word) :=
  Radix.resolve enc.child (enc.page va) mem.tables root (path va)

/-- The tables form a tree: no table page is referenced twice. -/
def IsTree (enc : Encoding) (mem : PtMem) (root : Word) : Prop :=
  Radix.IsTree enc.child mem.tables root 2

/-- What the page allocator keeps: its pages are no tables of this tree. -/
structure Supply (enc : Encoding) (mem : PtMem) (root : Word) : Prop where
  nodup : mem.pool.Nodup
  fits : ∀ page ∈ mem.pool, page &&& enc.reach = page
  apart : ∀ p page, p.length ≤ 2 →
      Radix.walk enc.child mem.tables root p = some page → page ∉ mem.pool

variable {va : Nat} {left : List (Fin 512)} {page : Word}

section Entries

variable {enc : Encoding}

@[simp] theorem child_invalid {pte : Word} (invalid : archPteValid pte = false) :
    enc.child pte = none := by
  simp [Encoding.child, invalid]

@[simp] theorem page_invalid {pte : Word}
    (invalid : archPteValid pte = false) : enc.page va left pte = none := by
  simp [Encoding.page, invalid]

@[simp] theorem child_zero : enc.child 0 = none :=
  child_invalid (by decide)

@[simp] theorem page_zero : enc.page va left 0 = none :=
  page_invalid (by decide)

theorem child_table (fits : page &&& enc.reach = page) :
    enc.child (enc.archPteTable page) = some page := by
  rw [Encoding.child, if_pos ⟨enc.valid_table page, enc.isLeaf_table page⟩,
    enc.childPa_table page fits]

theorem page_leaf {pa prot : Word} (aligned : va % pageSize = 0) (fits : pa &&& enc.reach = pa)
    (valid : archPteValid prot = true) :
    enc.page va [] (enc.archPteLeaf pa prot) = some (pa, prot) ↔
      prot &&& enc.own = 0 := by
  have offset : va % 2 ^ (12 + 9 * 0) = 0 := aligned
  rw [Encoding.page, if_pos (enc.valid_leaf pa prot valid),
    enc.leaf_rights pa prot fits, length_nil, offset]
  have rights : prot &&& ~~~enc.own = prot ↔ prot &&& enc.own = 0 := by
    constructor <;> intro same <;> apply eq_of_getLsbD_eq <;>
      intro i bound
    · grind
    · have bit := congrArg (BitVec.getLsbD · i) same
      grind
  constructor
  · intro shown
    exact rights.mp (Prod.mk.inj (Option.some.inj shown)).2
  · intro apart
    rw [rights.mpr apart, enc.childPa_leaf pa prot fits apart]
    simp

theorem path_inj {other : Nat} (low : va < 2 ^ 39) (otherLow : other < 2 ^ 39)
    (same : path va = path other) : va / pageSize = other / pageSize := by
  simp only [path, indexes, List.cons.injEq, Fin.mk.injEq, l2Index, l1Index,
    l0Index, and_true] at same
  unfold pageSize
  omega

end Entries

/-! ## What the walk keeps -/

/-- A step that shows nothing new and keeps the tree. -/
structure Quiet (enc : Encoding) (root : Word) (mem after : PtMem) : Prop where
  tree : IsTree enc after root
  supply : Supply enc after root
  same : ∀ va, lookup enc after root va = lookup enc mem root va

/-- A step that changes what one path shows, and keeps the tree. -/
structure Maps (enc : Encoding) (root : Word) (va : Nat) (pte : Word)
    (mem after : PtMem) : Prop where
  tree : IsTree enc after root
  supply : Supply enc after root
  shown : lookup enc after root va = enc.page va [] pte
  others : ∀ other, path other ≠ path va → lookup enc after root other = lookup enc mem root other

section Steps

variable {enc : Encoding} {mem : PtMem} {root table : Word} {i : Fin 512} {p : List (Fin 512)}

theorem wp_allocPtPage {post : Word → PtMem → Prop} {failed : Err → PtMem → Prop}
    (gaveUp : failed .enomem mem)
    (took : ∀ page rest, mem.pool = page :: rest → post page (mem.take page rest)) :
    allocPtPage.wp post failed mem := by
  cases isPool : mem.pool with
  | nil =>
    have failing : allocPtPage mem = (.error .enomem, mem) := by
      simp [allocPtPage, isPool]
    unfold Action.wp
    rwa [failing]
  | cons page rest =>
    refine (Action.wp_of_ok ?_).mpr (took page rest isPool)
    simp [allocPtPage, isPool]

section

variable (tree : IsTree enc mem root)
include tree

section

variable (supply : Supply enc mem root)
include supply

theorem quiet_link {rest : List Word} (short : p.length ≤ 1)
    (reached : Radix.walk enc.child mem.tables root p = some table)
    (invalid : archPteValid (mem.tables table i) = false) (isPool : mem.pool = page :: rest) :
    Quiet enc root mem
        ((mem.take page rest).setEntry table i (enc.archPteTable page)) ∧
      Radix.walk enc.child
        ((mem.take page rest).setEntry table i (enc.archPteTable page)).tables
        root (p ++ [i]) = some page := by
  have listed : page ∈ mem.pool := by simp [isPool]
  have fits := supply.fits page listed
  have nodup := supply.nodup
  rw [isPool, nodup_cons] at nodup
  have notPage {q : List (Fin 512)} {t : Word} (bound : q.length ≤ 2)
      (isAt : Radix.walk enc.child mem.tables root q = some t) : t ≠ page := by
    rintro rfl
    exact supply.apart q t bound isAt listed
  have different : table ≠ page := notPage (by omega) reached
  set after := (mem.take page rest).setEntry table i (enc.archPteTable page)
    with isAfter
  have isTables : after.tables = update (update mem.tables page fun _ => 0) table
        (update (mem.tables table) i (enc.archPteTable page)) := by
    simp only [isAfter, PtMem.setEntry, PtMem.take, update_of_ne different]
  have entry : after.tables table i = enc.archPteTable page := by
    rw [isTables, update_self, update_self]
  have blank (j : Fin 512) : after.tables page j = 0 := by
    rw [isTables, update_of_ne different.symm, update_self]
  have linked : enc.child (after.tables table i) = some page := by
    rw [entry, child_table fits]
  have blankChild (j : Fin 512) : enc.child (after.tables page j) = none := by
    rw [blank, child_zero]
  -- the walk meets neither the new page nor, off its path, the entry
  have but : Radix.SameBut enc.child mem.tables after.tables root 2 (p ++ [i]) := by
    intro q j t bound isAt off
    rw [← tree.sameBut (by omega) reached q j t bound isAt off, isTables]
    by_cases isTable : t = table
    · rw [isTable, update_self, update_self]
    · rw [update_of_ne isTable, update_of_ne isTable, update_of_ne (notPage bound isAt)]
  have reached' : Radix.walk enc.child after.tables root p = some table := by
    rw [but.walk_eq (by omega), reached]
    intro within
    have := within.length_le
    simp at this
  have atEnd : Radix.walk enc.child after.tables root (p ++ [i]) = some page := by
    rw [Radix.walk_append, reached']
    simp only [Option.bind_some, Radix.walk, linked]
  refine ⟨⟨?_, ⟨nodup.2, fun q isRest => ?_, fun q t bound isAt => ?_⟩, fun va => ?_⟩, atEnd⟩
  · exact but.isTree_link tree reached' linked blankChild fun q bound isAt =>
      notPage bound isAt rfl
  · exact supply.fits q (by rw [isPool]; exact mem_cons_of_mem _ isRest)
  · rcases but.walk_link (by omega) reached' linked blankChild isAt with
      ⟨-, rfl⟩ | before
    · exact nodup.1
    · intro isRest
      refine supply.apart q t bound before ?_
      rw [isPool]
      exact mem_cons_of_mem _ isRest
  · refine Radix.resolve_link table page i (fun q j t within isAt off => ?_) (child_invalid invalid)
      (fun _ => page_invalid invalid) linked blankChild (fun j left => ?_) fun q isPath isAt => ?_
    · have bound := within.length_le
      simp only [path, length_append, length_cons, length_nil] at bound
      refine but q j t (by omega) isAt fun isSlot => off ?_
      obtain ⟨rfl, isI⟩ := append_inj' isSlot rfl
      exact ⟨Option.some.inj (isAt.symm.trans reached), List.cons.inj isI |>.1⟩
    · rw [blank, page_zero]
    · have size := congrArg length isPath
      simp only [path, length_append, length_cons, length_nil] at size
      rw [tree q p table (by omega) (by omega) isAt reached] at size
      omega

theorem wp_descend (short : p.length ≤ 1)
    (reached : Radix.walk enc.child mem.tables root p = some table) :
    (descend enc table i).wp
      (fun below after => Quiet enc root mem after ∧
        Radix.walk enc.child after.tables root (p ++ [i]) = some below)
      (fun _ after => after = mem) mem := by
  unfold descend
  simp only [wp_bind, wp_read]
  by_cases valid : archPteValid (mem.tables table i) = true
  · rw [if_pos valid]
    by_cases leaf : enc.archPteIsLeaf (mem.tables table i) = true
    · rw [if_pos leaf]
      exact rfl
    · rw [if_neg leaf]
      refine ⟨⟨tree, supply, fun _ => rfl⟩, ?_⟩
      rw [Radix.walk_append, reached]
      simp [Radix.walk, Encoding.child, valid, leaf]
  · rw [if_neg valid]
    rw [Bool.not_eq_true] at valid
    simp only [wp_bind]
    refine wp_allocPtPage rfl fun page rest isPool => ?_
    exact quiet_link tree supply short reached valid isPool

theorem wp_setLeaf {pa prot : Word} (reached : Radix.walk enc.child mem.tables root
        [(indexes va).1, (indexes va).2.1] = some table) :
    (setLeaf enc table (indexes va).2.2 pa prot).wp
      (fun _ => Maps enc root va (enc.archPteLeaf pa prot) mem)
      (fun _ after => after = mem) mem := by
  unfold setLeaf
  simp only [wp_bind, wp_read]
  by_cases valid : archPteValid (mem.tables table (indexes va).2.2) = true
  · rw [if_pos valid]
    exact rfl
  · rw [if_neg valid]
    set after := mem.setEntry table (indexes va).2.2 (enc.archPteLeaf pa prot)
    have but : Radix.SameBut enc.child mem.tables after.tables root 2 (path va) :=
      tree.sameBut (by simp) reached
    have sameWalk {q : List (Fin 512)} (bound : q.length ≤ 2) :
        Radix.walk enc.child after.tables root q = Radix.walk enc.child mem.tables root q := by
      refine but.walk_eq (by omega) fun within => ?_
      have := within.length_le
      simp only [path, length_cons, length_nil] at this
      omega
    refine ⟨but.isTree (by simp [path]) tree, ⟨supply.nodup, supply.fits,
      fun q t bound isAt => ?_⟩, ?_, fun other different => ?_⟩
    · rw [sameWalk bound] at isAt
      exact supply.apart q t bound isAt
    · have atTable := (sameWalk (by simp)).trans reached
      refine (Radix.resolve_append _ [] atTable).trans ?_
      simp only [Radix.resolve, after, PtMem.setEntry, update_self]
    · refine but.resolve_eq (by simp [path]) fun within => ?_
      exact different (within.eq_of_length (by simp [path])).symm

end

end

end Steps

/-! ## The whole of `Page_Map` -/

theorem wp_pageMap {enc : Encoding} {mem : PtMem} {root : Word}
    (va : Nat) (pa prot : Word) (tree : IsTree enc mem root) (supply : Supply enc mem root) :
    (pageMap enc root va pa prot).wp
      (fun _ => Maps enc root va (enc.archPteLeaf pa prot) mem)
      (fun _ after => Quiet enc root mem after) mem := by
  have quiet : Quiet enc root mem mem := ⟨tree, supply, fun _ => rfl⟩
  unfold pageMap
  split
  · exact quiet
  split
  · exact quiet
  rw [wp_bind]
  have atRoot : Radix.walk enc.child mem.tables root [] = some root := rfl
  refine wp_mono (wp_descend tree supply (by simp) atRoot)
    (fun l1 mem1 ⟨quiet1, reached1⟩ => ?_) (fun _ _ isMem => isMem ▸ quiet)
  rw [wp_bind]
  refine wp_mono (wp_descend quiet1.tree quiet1.supply (by simp)
    reached1) (fun l0 mem2 ⟨quiet2, reached2⟩ => ?_) (fun _ _ isMem => isMem ▸ quiet1)
  have same (a : Nat) : lookup enc mem2 root a = lookup enc mem root a :=
    (quiet2.same a).trans (quiet1.same a)
  refine wp_mono (wp_setLeaf quiet2.tree quiet2.supply reached2) (fun _ after maps => ?_)
    (fun _ _ isMem => isMem ▸ ⟨quiet2.tree, quiet2.supply, same⟩)
  exact { maps with
    others := fun other different =>
      (maps.others other different).trans (same other) }

/--
`Page_Map` changes one translation and keeps the tree.  The new translation is
the one asked for unless `prot` has bits that belong to the entry itself.
-/
theorem pageMap_exact (enc : Encoding) (mem : PtMem) (root : Word) (va : Nat) (pa prot : Word)
    (tree : IsTree enc mem root) (supply : Supply enc mem root)
    (aligned : va % pageSize = 0) (low : va < 2 ^ 39)
    (fits : pa &&& enc.reach = pa) (valid : archPteValid prot = true) :
    ((pageMap enc root va pa prot mem).1 = .ok () →
      (lookup enc (pageMap enc root va pa prot mem).2 root va =
        some (pa, prot) ↔ prot &&& enc.own = 0) ∧
      ∀ other, other < 2 ^ 39 → other / pageSize ≠ va / pageSize →
        lookup enc (pageMap enc root va pa prot mem).2 root other =
          lookup enc mem root other) ∧
    (∀ code, (pageMap enc root va pa prot mem).1 = .error code →
      ∀ other, lookup enc (pageMap enc root va pa prot mem).2 root other =
        lookup enc mem root other) ∧
    IsTree enc (pageMap enc root va pa prot mem).2 root ∧
    Supply enc (pageMap enc root va pa prot mem).2 root := by
  have spec := wp_pageMap va pa prot tree supply
  refine ⟨fun succeeded => ?_, fun code gaveUp => ?_, ?_⟩
  · have maps := Action.wp_succeeded spec succeeded
    refine ⟨?_, fun other otherLow different =>
      maps.others other fun same => ?_⟩
    · rw [maps.shown]
      exact page_leaf aligned fits valid
    · exact different (path_inj otherLow low same)
  · exact (Action.wp_failed spec gaveUp).same
  · exact Action.wp_state (fun after => IsTree enc after root ∧ Supply enc after root)
      (wp_mono spec (fun _ _ maps => ⟨maps.tree, maps.supply⟩)
        (fun _ _ quiet => ⟨quiet.tree, quiet.supply⟩))

/-- A memory whose tables are empty. -/
def emptyMem (pool : List Word) : PtMem where
  tables _ _ := 0
  pool := pool

variable {pool : List Word}

theorem walk_emptyMem {enc : Encoding} {root : Word} {p : List (Fin 512)}
    (reached : Radix.walk enc.child (emptyMem pool).tables root p = some page) :
    p = [] ∧ page = root := by
  cases p with
  | nil => exact ⟨rfl, (Option.some.inj reached).symm⟩
  | cons i p =>
    simp only [Radix.walk, emptyMem, child_zero] at reached
    cases reached

theorem isTree_emptyMem (enc : Encoding) (root : Word) (pool : List Word) :
    IsTree enc (emptyMem pool) root := by
  intro p q page _ _ reachedP reachedQ
  rw [(walk_emptyMem reachedP).1, (walk_emptyMem reachedQ).1]

theorem supply_emptyMem {enc : Encoding} {root : Word}
    (nodup : pool.Nodup) (fits : ∀ page ∈ pool, page &&& enc.reach = page)
    (apart : root ∉ pool) : Supply enc (emptyMem pool) root := by
  refine ⟨nodup, fits, fun p page _ reached => ?_⟩
  rwa [(walk_emptyMem reached).2]

theorem pageMap_exact_user :
    lookup Sv39.encoding
        (pageMap Sv39.encoding 0x1000 0x40000000 0x5000 0xD7
          (emptyMem [0x2000, 0x3000])).2 0x1000 0x40000000 =
      some (0x5000, 0xD7) :=
  (((pageMap_exact Sv39.encoding (emptyMem [0x2000, 0x3000]) 0x1000 0x40000000
    0x5000 0xD7 (isTree_emptyMem _ _ _)
    (supply_emptyMem (by simp) (by simp; decide) (by simp)) (by decide)
    (by decide) (by decide) (by decide)).1 rfl).1).mpr (by decide)

/--
Bit 10 of `prot` lies in the address: page 0 is asked for and page 1 appears.
-/
theorem pageMap_stray_bit :
    archPteValid 0x403 = true ∧
      IsTree Sv39.encoding (emptyMem [0x2000, 0x3000]) 0x1000 ∧
      Supply Sv39.encoding (emptyMem [0x2000, 0x3000]) 0x1000 ∧
      (pageMap Sv39.encoding 0x1000 0 0 0x403 (emptyMem [0x2000, 0x3000])).1 = .ok () ∧
      lookup Sv39.encoding
        (pageMap Sv39.encoding 0x1000 0 0 0x403
          (emptyMem [0x2000, 0x3000])).2 0x1000 0 = some (0x1000, 0x003) :=
  ⟨by decide, isTree_emptyMem _ _ _,
    supply_emptyMem (by simp) (by simp; decide) (by simp), rfl, by decide⟩

end CaraOS.Mm.PageMap
