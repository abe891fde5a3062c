import CaraOS.Lib.Action
import CaraOS.Lib.Radix
import CaraOS.Carafs.Format

namespace CaraOS.Mm

/-!
# Page tables

`pt.c` and the parts of `shared.c` and `image.c` that put shared mappings into
a table.  A page table is a tree of table pages, known by their physical
addresses; the pages themselves come from the page allocator, whose pages are
handed out in any order.  Tables and the bytes of mapped pages are kept apart.

Address translation is that of the hardware (Sv39): 39 bits in three indexes,
the upper bits a copy of bit 38.
-/

open Action (of_bind_ok wp wp_bind wp_mono)
open List
open Function (update update_of_ne update_self)
open Radix (resolve walk)
open Carafs (Err)

def pageSize : Nat :=
  4096

/-- The composed `PTE_*` masks. -/
inductive Prot where
  | kernelRw
  | kernelRwx
  | userRo
  | userRw
  | userRx
  | userRwx
  deriving DecidableEq

/-- An entry: not valid, a table below, or a page. -/
inductive Pte where
  | none
  | table (child : Nat)
  | leaf (pa : Nat) (prot : Prot)
  deriving DecidableEq

/-- Table pages, bytes of pages, and the pages that are free. -/
structure MmSys where
  tables : Nat → Nat → Pte
  frames : Nat → Nat → BitVec 8
  pool : List Nat

/-- An action on the memory system. -/
abbrev MmAction (α : Type) : Type :=
  Action Err MmSys α

/-- Write an entry. -/
def MmSys.setEntry (table i : Nat) (pte : Pte) (sys : MmSys) : MmSys :=
  { sys with
    tables := update sys.tables table (update (sys.tables table) i pte) }

/-- A page leaves the pool and is zeroed. -/
def MmSys.take (page : Nat) (rest : List Nat) (sys : MmSys) : MmSys where
  tables := update sys.tables page fun _ => .none
  frames := update sys.frames page fun _ => 0
  pool := rest

/-- `Page_Alloc` of one page. -/
def pageAlloc : MmAction Nat :=
  fun sys =>
    match sys.pool with
    | [] => (.error .enomem, sys)
    | page :: rest => (.ok page, sys.take page rest)

/-- `Page_Free` of one page. -/
def pageFree (page : Nat) : MmAction Unit :=
  Action.modify fun sys => { sys with pool := page :: sys.pool }

/-- `i2` of `Page_Map`. -/
def l2Index (va : Nat) : Nat :=
  va / 2 ^ 30 % 512

/-- `i1` of `Page_Map`. -/
def l1Index (va : Nat) : Nat :=
  va / 2 ^ 21 % 512

/-- `i0` of `Page_Map`. -/
def l0Index (va : Nat) : Nat :=
  va / 2 ^ 12 % 512

/-- One level of the walk of `Page_Map`: the table below, made if need be. -/
def descend (table i : Nat) : MmAction Nat :=
  fun sys =>
    match sys.tables table i with
    | .none =>
      match pageAlloc sys with
      | (.ok child, sys) => (.ok child, sys.setEntry table i (.table child))
      | (.error code, sys) => (.error code, sys)
    | .leaf .. => (.error .einval, sys)
    | .table child => (.ok child, sys)

/-- The end of `Page_Map`: a free entry becomes a page. -/
def setLeaf (table i pa : Nat) (prot : Prot) : MmAction Unit :=
  fun sys =>
    match sys.tables table i with
    | .none => (.ok (), sys.setEntry table i (.leaf pa prot))
    | _ => (.error .einval, sys)

/-- `Page_Map`; every mask has `PTE_V`. -/
def pageMap (root va pa : Nat) (prot : Prot) : MmAction Unit :=
  if va % pageSize ≠ 0 ∨ pa % pageSize ≠ 0 then
    Action.fail .einval
  else do
    let l1 ← descend root (l2Index va)
    let l0 ← descend l1 (l1Index va)
    setLeaf l0 (l0Index va) pa prot

def sharedL2Index : Nat :=
  4

/-- `Croi_NewKernelPT`: the root of a table with the kernel half. -/
def newKernelPT : MmAction Nat := do
  let root ← pageAlloc
  Action.modify (MmSys.setEntry root 256 (.leaf 0 .kernelRw))
  Action.modify (MmSys.setEntry root 257 (.leaf 0x40000000 .kernelRw))
  Action.modify (MmSys.setEntry root 258 (.leaf 0x80000000 .kernelRwx))
  Action.modify (MmSys.setEntry root 259 (.leaf 0xC0000000 .kernelRw))
  return root

def execLibUserVa : Nat :=
  0x40000000

/-- The loop of `Croi_ExecLib_InstallMapping`, `n` pages from page `i` on. -/
def execLibInstall (root lma : Nat) : Nat → Nat → MmAction Unit
  | 0, _ => pure ()
  | n + 1, i => do
      pageMap root (execLibUserVa + i * pageSize) (lma + i * pageSize) .userRwx
      execLibInstall root lma n (i + 1)

/-- `Croi_Shared_InstallMapping`; `l1` is the shared subtree. -/
def sharedInstall (root l1 : Nat) : MmAction Unit :=
  Action.modify (MmSys.setEntry root sharedL2Index (.table l1))

/-- The table of a new user task, before anything is loaded. -/
def newTaskTable (lma imagePages l1 : Nat) : MmAction Nat := do
  let root ← newKernelPT
  execLibInstall root lma imagePages 0
  sharedInstall root l1
  return root

/-! ## Translation -/

/-- The addresses that Sv39 translates. -/
def Canonical (va : Nat) : Prop :=
  va < 2 ^ 38 ∨ (2 ^ 64 - 2 ^ 38 ≤ va ∧ va < 2 ^ 64)
  deriving Decidable

/-- The physical address behind an address, and the rights. -/
def MmSys.translate (sys : MmSys) (root va : Nat) : Option (Nat × Prot) :=
  if Canonical va then
    match sys.tables root (l2Index va) with
    | .none => none
    | .leaf pa prot => some (pa + va % 2 ^ 30, prot)
    | .table l1 =>
      match sys.tables l1 (l1Index va) with
      | .none => none
      | .leaf pa prot => some (pa + va % 2 ^ 21, prot)
      | .table l0 =>
        match sys.tables l0 (l0Index va) with
        | .leaf pa prot => some (pa + va % 2 ^ 12, prot)
        | _ => none
  else
    none

/-- The address at which `Page_Map` of `va` makes a page appear. -/
def canon (va : Nat) : Nat :=
  if l2Index va < 256 then va % 2 ^ 39
  else va % 2 ^ 39 + (2 ^ 64 - 2 ^ 39)

/-- The table an entry leads to. -/
def Pte.child : Pte → Option Nat
  | .table child => some child
  | _ => .none

/-- What an entry shows of an address when some indexes are left. -/
def Pte.page (va : Nat) (left : List Nat) : Pte → Option (Nat × Prot)
  | .leaf pa prot => some (pa + va % 2 ^ (12 + 9 * left.length), prot)
  | _ => .none

/-- What an entry holds. -/
def Pte.held (_ : List Nat) : Pte → Option Pte
  | .none => .none
  | pte => some pte

/-- The indexes by which an address is looked up. -/
def indexes (va : Nat) : List Nat :=
  [l2Index va, l1Index va, l0Index va]

/-- The entry at the end of a path is empty, or an entry before it is. -/
def MmSys.vacant (sys : MmSys) (root : Nat) (path : List Nat) : Bool :=
  (resolve Pte.child Pte.held sys.tables root path).isNone

section Entries

variable {sys after : MmSys} {table i page root va : Nat} {rest p q : List Nat} {pte : Pte}

theorem setEntry_self : (sys.setEntry table i pte).tables table i = pte := by
  unfold MmSys.setEntry
  dsimp only
  rw [update_self, update_self]

theorem setEntry_other {t j : Nat} (other : ¬ (t = table ∧ j = i)) :
    (sys.setEntry table i pte).tables t j = sys.tables t j := by
  unfold MmSys.setEntry
  dsimp only
  by_cases same : t = table
  · subst same
    rw [update_self, update_of_ne fun isI => other ⟨rfl, isI⟩]
  · rw [update_of_ne same]

theorem take_self (i : Nat) : (sys.take page rest).tables page i = .none := by
  unfold MmSys.take
  dsimp only
  rw [update_self]

theorem take_other {t : Nat} (other : t ≠ page) : (sys.take page rest).tables t = sys.tables t := by
  unfold MmSys.take
  dsimp only
  rw [update_of_ne other]

theorem of_setEntry {q j c : Nat} (isTable : (sys.setEntry table i pte).tables q j = .table c) :
    (q = table ∧ j = i ∧ pte = .table c) ∨ sys.tables q j = .table c := by
  by_cases same : q = table ∧ j = i
  · obtain ⟨rfl, rfl⟩ := same
    rw [setEntry_self] at isTable
    exact .inl ⟨rfl, rfl, isTable⟩
  · rw [setEntry_other same] at isTable
    exact .inr isTable

theorem of_take {q j c : Nat} (isPool : sys.pool = page :: rest) (notRest : q ∉ rest)
    (isTable : (sys.take page rest).tables q j = .table c) :
    q ≠ page ∧ q ∉ sys.pool ∧ sys.tables q j = .table c := by
  by_cases same : q = page
  · rw [same, take_self] at isTable
    nomatch isTable
  · rw [take_other same] at isTable
    rw [isPool]
    exact ⟨same, not_mem_cons_of_ne_of_not_mem same notRest, isTable⟩

theorem walk_cons :
    walk Pte.child sys.tables root (i :: p) = some table ↔
      ∃ below, sys.tables root i = .table below ∧
        walk Pte.child sys.tables below p = some table := by
  rw [walk]
  cases sys.tables root i <;> simp [Pte.child]

theorem walk_concat {child : Nat} (reached : walk Pte.child sys.tables root p = some table)
    (isEntry : sys.tables table i = .table child) :
    walk Pte.child sys.tables root (p ++ [i]) = some child := by
  rw [Radix.walk_append, reached]
  exact walk_cons.mpr ⟨child, isEntry, rfl⟩

/-- The translation is a lookup along the indexes. -/
theorem translate_eq :
    sys.translate root va =
      if Canonical va then resolve Pte.child (Pte.page va) sys.tables root (indexes va)
      else none := by
  unfold MmSys.translate indexes
  split
  · cases isL1 : sys.tables root (l2Index va) with
    | none => simp [resolve, isL1, Pte.child, Pte.page]
    | leaf pa prot => simp [resolve, isL1, Pte.child, Pte.page]
    | table l1 =>
      cases isL0 : sys.tables l1 (l1Index va) with
      | none => simp [resolve, isL1, isL0, Pte.child, Pte.page]
      | leaf pa prot => simp [resolve, isL1, isL0, Pte.child, Pte.page]
      | table l0 =>
        cases isLeaf : sys.tables l0 (l0Index va) <;>
          simp [resolve, isL1, isL0, isLeaf, Pte.child, Pte.page]
  · rfl

/-- A lookup depends on the entries it reads. -/
theorem translate_congr
    (same : ∀ p i t, p ++ [i] <+: indexes va → walk Pte.child sys.tables root p = some t →
      after.tables t i = sys.tables t i) :
    after.translate root va = sys.translate root va := by
  rw [translate_eq, translate_eq, Radix.resolve_congr same]

/-- A lookup that reads an empty entry finds nothing. -/
theorem translate_of_empty (reached : walk Pte.child sys.tables root p = some table)
    (within : p ++ [i] <+: indexes va) (empty : sys.tables table i = .none) :
    sys.translate root va = none := by
  rw [translate_eq, Radix.resolve_eq_none reached within (by rw [empty]; rfl)
    fun _ => by rw [empty]; rfl]
  exact ite_self _

end Entries

/-! ## A free page -/

/-- What the page allocator keeps: no page in use leads to a free one. -/
structure Tidy (sys : MmSys) : Prop where
  nodup : sys.pool.Nodup
  closed : ∀ page, page ∉ sys.pool → ∀ i c, sys.tables page i = .table c → c ∉ sys.pool

/-- No way from a page in use leads to a free one. -/
theorem Tidy.walk_used {sys : MmSys} {root table : Nat} {p : List Nat}
    (tidy : Tidy sys)
    (used : root ∉ sys.pool)
    (reached : walk Pte.child sys.tables root p = some table) :
    table ∉ sys.pool := by
  induction p generalizing root with
  | nil =>
    cases reached
    exact used
  | cons i p ih =>
    obtain ⟨below, isEntry, reached⟩ := walk_cons.mp reached
    exact ih (tidy.closed root used i below isEntry) reached

/-! ## The tree of one table -/

/-- Where a page stands in the tree of a table. -/
inductive Place where
  | root
  | l1 (i : Nat)
  | l0 (i j : Nat)

/-- The place of a child; the shared subtree has none. -/
def childPlace : Option Place → Nat → Option Place
  | some .root, i => if i = sharedL2Index then none else some (.l1 i)
  | some (.l1 i), j => some (.l0 i j)
  | _, _ => none

/-- The place at the end of a path. -/
def placeAt : List Nat → Option Place
  | [] => some .root
  | [i] => if i = sharedL2Index then none else some (.l1 i)
  | [i, j] => if i = sharedL2Index then none else some (.l0 i j)
  | _ => none

/-- Two paths to one place of the table's own are the same. -/
theorem placeAt_inj {p q : List Nat} (own : placeAt q ≠ none) (same : placeAt p = placeAt q) :
    p = q := by
  unfold placeAt at same own
  split at same <;> split at same <;> grind

/--
The pages of a table that belong to it alone, and their places.  All other
pages in use lead only to other pages.
-/
structure Labelled (sys : MmSys) (root : Nat) (label : Nat → Option Place) :
    Prop where
  tidy : Tidy sys
  free : ∀ page ∈ sys.pool, label page = none
  isRoot : label root = some .root
  child : ∀ page, page ∉ sys.pool → (∀ i j, label page ≠ some (.l0 i j)) →
      ∀ i c, sys.tables page i = .table c → label c = childPlace (label page) i

/-- Nothing that was visible has changed. -/
structure Unseen (sys after : MmSys) : Prop where
  pool : ∀ page ∈ after.pool, page ∈ sys.pool
  same : ∀ root, root ∉ sys.pool → ∀ va, after.translate root va = sys.translate root va
  kept : ∀ page, page ∉ sys.pool → ∀ i, sys.tables page i ≠ .none →
      after.tables page i = sys.tables page i
  frames : ∀ page, page ∉ sys.pool → after.frames page = sys.frames page

theorem Unseen.refl (sys : MmSys) : Unseen sys sys :=
  ⟨fun _ => id, fun _ _ _ => rfl, fun _ _ _ _ => rfl, fun _ _ => rfl⟩

section Unseen

variable {sys mid after : MmSys}

theorem Unseen.used (unseen : Unseen sys after) {page : Nat} (inUse : page ∉ sys.pool) :
    page ∉ after.pool :=
  fun listed => inUse (unseen.pool page listed)

theorem Unseen.trans (first : Unseen sys mid) (second : Unseen mid after) : Unseen sys after := by
  refine ⟨fun page listed => first.pool page (second.pool page listed),
    fun root inUse va => ?_, fun page inUse i isSome => ?_, fun page inUse => ?_⟩
  · rw [second.same root (first.used inUse), first.same root inUse]
  · have isKept := first.kept page inUse i isSome
    rw [second.kept page (first.used inUse) i (by rw [isKept]; exact isSome), isKept]
  · rw [second.frames page (first.used inUse), first.frames page inUse]

/-- The tables on a way are still there. -/
theorem Tidy.walk_kept {root table : Nat} {p : List Nat}
    (tidy : Tidy sys)
    (kept : ∀ page, page ∉ sys.pool → ∀ i, sys.tables page i ≠ .none →
      after.tables page i = sys.tables page i)
    (inUse : root ∉ sys.pool)
    (reached : walk Pte.child sys.tables root p = some table) :
    walk Pte.child after.tables root p = some table := by
  induction p generalizing root with
  | nil => exact reached
  | cons i p ih =>
    obtain ⟨below, isEntry, reached⟩ := walk_cons.mp reached
    refine walk_cons.mpr ⟨below, ?_, ih (tidy.closed root inUse i below isEntry) reached⟩
    rw [kept root inUse i (by simp [isEntry]), isEntry]

end Unseen

namespace Labelled

variable {sys : MmSys} {root table i page pa : Nat} {prot : Prot}
  {rest p q : List Nat} {label : Nat → Option Place}

variable (labelled : Labelled sys root label)
include labelled

theorem root_used : root ∉ sys.pool := by
  intro listed
  have isNone := labelled.free root listed
  rw [labelled.isRoot] at isNone
  nomatch isNone

/-- The place of a table is that of the way to it. -/
theorem walk_place (short : p.length ≤ 2)
    (reached : walk Pte.child sys.tables root p = some table) :
    label table = placeAt p := by
  match p with
  | [] =>
    cases reached
    exact labelled.isRoot
  | i :: p =>
    obtain ⟨l1, isL1, reached⟩ := walk_cons.mp reached
    have used := labelled.tidy.closed root labelled.root_used i l1 isL1
    have placeL1 : label l1 = placeAt [i] := by
      rw [labelled.child root labelled.root_used (by simp [labelled.isRoot]) i l1 isL1,
        labelled.isRoot]
      rfl
    match p with
    | [] =>
      cases reached
      exact placeL1
    | [j] =>
      obtain ⟨l0, isL0, reached⟩ := walk_cons.mp reached
      cases reached
      rw [labelled.child l1 used (by rw [placeL1]; grind [placeAt]) j _ isL0, placeL1]
      simp only [placeAt]
      split <;> rfl

/-- A table of the table's own is reached in one way only. -/
theorem walk_unique (short : p.length ≤ 2) (own : placeAt p ≠ none)
    (reached : walk Pte.child sys.tables root p = some table)
    (shortQ : q.length ≤ 2) (reachedQ : walk Pte.child sys.tables root q = some table) :
    q = p := by
  refine placeAt_inj own ?_
  rw [← labelled.walk_place shortQ reachedQ, labelled.walk_place short reached]

/-- Other tables lead to other tables. -/
theorem walk_foreign {r : Nat} (used : r ∉ sys.pool) (foreign : label r = none)
    (reached : walk Pte.child sys.tables r p = some table) :
    label table = none := by
  induction p generalizing r with
  | nil =>
    cases reached
    exact foreign
  | cons i p ih =>
    obtain ⟨below, isEntry, reached⟩ := walk_cons.mp reached
    refine ih (labelled.tidy.closed r used i below isEntry) ?_ reached
    rw [labelled.child r used (by simp [foreign]) i below isEntry, foreign]
    rfl

theorem take (isPool : sys.pool = page :: rest) :
    Labelled (sys.take page rest) root label ∧
      Unseen sys (sys.take page rest) := by
  have tidy := labelled.tidy
  have nodup := tidy.nodup
  rw [isPool, nodup_cons] at nodup
  have free : page ∈ sys.pool := by simp [isPool]
  have other {q : Nat} (used : q ∉ sys.pool) : q ≠ page := by
    rintro rfl
    exact used free
  have inPool {q : Nat} (listed : q ∈ rest) : q ∈ sys.pool := by
    rw [isPool]
    exact mem_cons_of_mem _ listed
  refine ⟨⟨⟨nodup.2, fun q notRest j c isTable => ?_⟩, fun q listed => labelled.free q (inPool listed),
    labelled.isRoot, fun q notRest notL0 j c isTable => ?_⟩, fun q => inPool,
    fun r inUse va => ?_, fun q inUse j _ => ?_, fun q inUse => update_of_ne (other inUse) ..⟩
  · obtain ⟨-, inUse, isTable⟩ := of_take isPool notRest isTable
    exact fun listed => tidy.closed q inUse j c isTable (inPool listed)
  · obtain ⟨-, inUse, isTable⟩ := of_take isPool notRest isTable
    exact labelled.child q inUse notL0 j c isTable
  · exact translate_congr fun p i t _ reached => by rw [take_other (other (tidy.walk_used inUse reached))]
  · rw [take_other (other inUse)]

theorem link (inUse : table ∉ sys.pool) (notL0 : ∀ i j, label table ≠ some (.l0 i j))
    (empty : sys.tables table i = .none) (isPool : sys.pool = page :: rest) :
    Labelled ((sys.take page rest).setEntry table i (.table page)) root
        (update label page (childPlace (label table) i)) ∧
      Unseen sys ((sys.take page rest).setEntry table i (.table page)) := by
  obtain ⟨taken, unseen⟩ := labelled.take isPool
  have free : page ∈ sys.pool := by simp [isPool]
  have notTable : page ≠ table := by
    rintro rfl
    exact inUse free
  have emptyTaken : (sys.take page rest).tables table i = .none := by
    rwa [take_other notTable.symm]
  have nodup := labelled.tidy.nodup
  rw [isPool, nodup_cons] at nodup
  refine ⟨⟨⟨nodup.2, fun q notRest j c isTable => ?_⟩, fun q listed => ?_, ?_,
    fun q notRest isPlace j c isTable => ?_⟩, unseen.trans ⟨fun q => id, fun r _ va => ?_,
      fun q _ j isSome => ?_, fun _ _ => rfl⟩⟩
  · rcases of_setEntry isTable with ⟨-, -, isPage⟩ | isTable
    · cases isPage
      exact nodup.1
    · exact taken.tidy.closed q notRest j c isTable
  · rw [update_of_ne]
    · exact taken.free q listed
    · rintro rfl
      exact nodup.1 listed
  · rw [update_of_ne]
    · exact labelled.isRoot
    · rintro rfl
      exact labelled.root_used free
  · rcases of_setEntry isTable with ⟨rfl, rfl, isPage⟩ | isTable
    · cases isPage
      rw [update_self, update_of_ne notTable.symm]
    · obtain ⟨notPage, inUse, before⟩ := of_take isPool notRest isTable
      have notChild : c ≠ page := by
        rintro rfl
        exact labelled.tidy.closed q inUse j c before free
      rw [update_of_ne notPage] at isPlace ⊢
      rw [update_of_ne notChild]
      exact taken.child q notRest isPlace j c isTable
  · have blank (j : Nat) : ((sys.take page rest).setEntry table i (.table page)).tables page j =
        .none := by
      rw [setEntry_other fun same => notTable same.1, take_self]
    rw [translate_eq, translate_eq, Radix.resolve_link table page i
      (fun _ _ _ _ _ off => setEntry_other off) (by rw [emptyTaken]; rfl)
      (fun _ => by rw [emptyTaken]; rfl) (by rw [setEntry_self]; rfl) (fun j => by rw [blank]; rfl)
      (fun j _ => by rw [blank]; rfl) fun _ _ _ => by rw [setEntry_self]; rfl]
  · rw [setEntry_other]
    rintro ⟨rfl, rfl⟩
    exact isSome emptyTaken

/-- A new table below a table of its own fills the entry that leads to it. -/
theorem vacant_link {after : MmSys}
    (isAfter : after = (sys.take page rest).setEntry table i (.table page))
    (short : p.length ≤ 1)
    (own : placeAt p ≠ none)
    (reached : walk Pte.child sys.tables root p = some table)
    (reached' : walk Pte.child after.tables root p = some table)
    (empty : sys.tables table i = .none)
    (isPool : sys.pool = page :: rest)
    (within : q.length ≤ 3) :
    after.vacant root q = (sys.vacant root q && q != p ++ [i]) := by
  have different {p : List Nat} {t : Nat} (reached : walk Pte.child sys.tables root p = some t) :
      t ≠ page := by
    rintro rfl
    exact labelled.tidy.walk_used labelled.root_used reached (by simp [isPool])
  have linked : after.tables table i = .table page := by
    rw [isAfter, setEntry_self]
  have blank (j : Nat) : after.tables page j = .none := by
    rw [isAfter, setEntry_other fun same => different reached same.1.symm, take_self]
  unfold MmSys.vacant
  by_cases isSlot : q = p ++ [i]
  · rw [isSlot, Radix.resolve_append i [] reached']
    simp [resolve, linked, Pte.held]
  · have same : resolve Pte.child Pte.held after.tables root q =
        resolve Pte.child Pte.held sys.tables root q := by
      refine Radix.resolve_link table page i (fun p j t _ reachedT off => ?_) (by rw [empty]; rfl)
        (fun _ => by rw [empty]; rfl) (by rw [linked]; rfl) (fun j => by rw [blank]; rfl)
        (fun j _ => by rw [blank]; rfl) fun r isPath reachedR => ?_
      · rw [isAfter, setEntry_other off, take_other (different reachedT)]
      · have size := congrArg length isPath
        rw [length_append, length_singleton] at size
        rw [labelled.walk_unique (by omega) own reached (by omega) reachedR] at isPath
        exact absurd isPath isSlot
    rw [same]
    simp [isSlot]

theorem leaf (table i pa : Nat) (prot : Prot) :
    Labelled (sys.setEntry table i (.leaf pa prot)) root label := by
  have entry {q j c : Nat} (isTable : (sys.setEntry table i (.leaf pa prot)).tables q j =
        .table c) : sys.tables q j = .table c :=
    (of_setEntry isTable).resolve_left nofun
  exact ⟨⟨labelled.tidy.nodup, fun q used j c isTable =>
      labelled.tidy.closed q used j c (entry isTable)⟩, labelled.free,
    labelled.isRoot, fun q used notL0 j c isTable =>
      labelled.child q used notL0 j c (entry isTable)⟩

end Labelled

/-! ## Mapping a page -/

section Canon

variable {sys : MmSys} {root va : Nat}

theorem canon_spec (va : Nat) :
    Canonical (canon va) ∧ indexes (canon va) = indexes va ∧ canon va % pageSize = va % pageSize := by
  unfold canon Canonical indexes l2Index l1Index l0Index pageSize
  simp only [List.cons.injEq, and_true]
  split <;> omega

theorem canon_of_lt (low : va < 2 ^ 38) : canon va = va := by
  unfold canon l2Index
  split <;> omega

theorem lt_of_l2Index_lt (canonical : Canonical va) (low : l2Index va < 256) :
    va < 2 ^ 38 ∧ va / 2 ^ 30 = l2Index va := by
  unfold Canonical at canonical
  unfold l2Index at *
  omega

theorem translate_not_canonical (notCanonical : ¬ Canonical va) : sys.translate root va = none :=
  if_neg notCanonical

/-- The addresses of a page lie one behind the other. -/
theorem translate_page {phys : Nat} {prot : Prot} (low : va < 2 ^ 38)
    (found : sys.translate root (va / pageSize * pageSize) = some (phys, prot)) :
    sys.translate root va = some (phys + va % pageSize, prot) := by
  have sameIndexes : indexes (va / pageSize * pageSize) = indexes va := by
    unfold indexes l2Index l1Index l0Index pageSize
    simp only [List.cons.injEq, and_true]
    omega
  have shift (left : List Nat) (pte : Pte) : Pte.page va left pte =
      (Pte.page (va / pageSize * pageSize) left pte).map
        fun answer => (answer.1 + va % pageSize, answer.2) := by
    cases pte with
    | none => rfl
    | table child => rfl
    | leaf pa prot =>
      have wide : va / 4096 * 4096 % 2 ^ (12 + 9 * left.length) + va % 4096 =
          va % 2 ^ (12 + 9 * left.length) := by
        rw [Nat.pow_add, show 2 ^ 12 = 4096 from rfl, Nat.mul_comm (va / 4096),
          Nat.mul_mod_mul_left, Nat.mod_mul, Nat.add_comm]
      simp only [Pte.page, Option.map_some, pageSize, ← wide, Nat.add_assoc]
  rw [translate_eq, if_pos (.inl (by unfold pageSize; omega)), sameIndexes] at found
  rw [translate_eq, if_pos (.inl low), Radix.resolve_map _ shift, found]
  rfl

end Canon

/-- One level of the way of `Page_Map`, to the table at the end of a path. -/
structure Steps (sys after : MmSys) (root : Nat) (label label' : Nat → Option Place)
    (path : List Nat) (child : Nat) : Prop where
  labelled : Labelled after root label'
  unseen : Unseen sys after
  labels : ∀ page, page ∉ sys.pool → label' page = label page
  reached : walk Pte.child after.tables root path = some child
  vacant : placeAt path ≠ none → ∀ q, q.length ≤ 3 →
    after.vacant root q = (sys.vacant root q && q != path)

/-- What a successful `Page_Map` does to the tables. -/
structure Mapped (sys after : MmSys) (root va pa : Nat) (prot : Prot)
    (label label' : Nat → Option Place) : Prop where
  labelled : Labelled after root label'
  pool : ∀ page ∈ after.pool, page ∈ sys.pool
  labels : ∀ page, page ∉ sys.pool → label' page = label page
  frames : ∀ page, page ∉ sys.pool → after.frames page = sys.frames page
  fresh : sys.translate root (canon va) = none
  here : after.translate root (canon va) = some (pa, prot)
  grows : ∀ r, r ∉ sys.pool → ∀ a answer, sys.translate r a = some answer →
      after.translate r a = some answer
  foreign : l2Index va ≠ sharedL2Index → ∀ r, r ∉ sys.pool → label r = none →
      ∀ a, after.translate r a = sys.translate r a
  own : l2Index va ≠ sharedL2Index → ∀ a, indexes a ≠ indexes va →
      after.translate root a = sys.translate root a
  vacant : l2Index va ≠ sharedL2Index → ∀ q, q ≠ [] → q.length ≤ 3 →
      after.vacant root q = (sys.vacant root q && !q.isPrefixOf (indexes va))

section Map

variable {sys after : MmSys} {root table i va pa : Nat} {prot : Prot} {p : List Nat}
  {label : Nat → Option Place}

theorem wp_descend {post : Nat → MmSys → Prop} {failed : Err → MmSys → Prop} :
    wp (descend table i) post failed sys ↔
      match sys.tables table i, sys.pool with
      | .none, [] => failed .enomem sys
      | .none, page :: rest =>
        post page ((sys.take page rest).setEntry table i (.table page))
      | .leaf .., _ => failed .einval sys
      | .table child, _ => post child sys := by
  unfold wp descend pageAlloc
  cases sys.tables table i with
  | none => cases sys.pool <;> rfl
  | leaf pa prot => rfl
  | table child => rfl

theorem wp_setLeaf {post : Unit → MmSys → Prop} {failed : Err → MmSys → Prop} :
    wp (setLeaf table i pa prot) post failed sys ↔
      if sys.tables table i = .none then post () (sys.setEntry table i (.leaf pa prot))
      else failed .einval sys := by
  unfold wp setLeaf
  cases sys.tables table i <;> rfl

/-- A level of the way is taken, or nothing has happened. -/
theorem Labelled.descend_spec (labelled : Labelled sys root label) (short : p.length ≤ 1)
    (reached : walk Pte.child sys.tables root p = some table) :
    wp (Mm.descend table i)
      (fun child after => ∃ label', Steps sys after root label label' (p ++ [i]) child)
      (fun _ after => after = sys) sys := by
  have used := labelled.tidy.walk_used labelled.root_used reached
  have place := labelled.walk_place (by omega) reached
  rw [wp_descend]
  cases isEntry : sys.tables table i with
  | leaf pa prot => rfl
  | table child =>
    have reachedChild := walk_concat reached isEntry
    refine ⟨label, labelled, .refl sys, fun _ _ => rfl, reachedChild, fun _ q _ => ?_⟩
    have full : sys.vacant root (p ++ [i]) = false := by
      unfold MmSys.vacant
      rw [Radix.resolve_append i [] reached]
      simp [resolve, isEntry, Pte.held]
    by_cases same : q = p ++ [i]
    · simp [same, full]
    · simp [same]
  | none =>
    cases isPool : sys.pool with
    | nil => rfl
    | cons page rest =>
      have notL0 : ∀ i j, label table ≠ some (.l0 i j) := by
        rw [place]
        rcases p with _ | ⟨j, _ | _⟩ <;> grind [placeAt]
      obtain ⟨linked, unseen⟩ := labelled.link used notL0 isEntry isPool
      have reached' := labelled.tidy.walk_kept unseen.kept labelled.root_used reached
      refine ⟨_, linked, unseen, fun q inUse => ?_, walk_concat reached' setEntry_self,
        fun own q within => ?_⟩
      · refine update_of_ne ?_ ..
        rintro rfl
        exact inUse (by simp [isPool])
      · refine labelled.vacant_link rfl short ?_ reached reached' isEntry isPool within
        rcases p with _ | ⟨j, _ | _⟩ <;> grind [placeAt]

/-- The end of the way: the entry of the page is filled. -/
theorem Steps.mapped {sys1 sys2 : MmSys} {l1 l0 : Nat} {label1 label2 : Nat → Option Place}
    (labelled : Labelled sys root label)
    (aligned : va % pageSize = 0)
    (first : Steps sys sys1 root label label1 [l2Index va] l1)
    (second : Steps sys1 sys2 root label1 label2 [l2Index va, l1Index va] l0)
    (empty : sys2.tables l0 (l0Index va) = .none) :
    Mapped sys (sys2.setEntry l0 (l0Index va) (.leaf pa prot)) root va pa prot label label2 := by
  obtain ⟨canonical, sameIndexes, sameOffset⟩ := canon_spec va
  have unseen := first.unseen.trans second.unseen
  have tidy := second.labelled.tidy
  have rootUsed := second.labelled.root_used
  have within : [l2Index va, l1Index va] ++ [l0Index va] <+: indexes va := prefix_refl _
  set after := sys2.setEntry l0 (l0Index va) (.leaf pa prot)
  have reached : walk Pte.child after.tables root [l2Index va, l1Index va] = some l0 := by
    refine tidy.walk_kept (fun t _ j isSome => setEntry_other ?_) rootUsed second.reached
    rintro ⟨rfl, rfl⟩
    exact isSome empty
  -- the one way to the entry, in the table's own part
  have only {p q : List Nat} (notShared : l2Index va ≠ sharedL2Index) (short : q.length ≤ 3)
      (way : p ++ [l0Index va] <+: q) (isAt : walk Pte.child sys2.tables root p = some l0) :
      q = indexes va := by
    have bound := way.length_le
    rw [length_append, length_singleton] at bound
    have isPath := second.labelled.walk_unique (by simp) (by simp [placeAt, notShared])
      second.reached (by omega) isAt
    rw [isPath] at way
    exact (way.eq_of_length_le (by simpa using short)).symm
  refine ⟨second.labelled.leaf .., unseen.pool, fun page used => ?_, unseen.frames, ?_, ?_,
    fun r used a answer found => ?_, fun notShared r used isForeign a => ?_,
    fun notShared a different => ?_, fun notShared q some short => ?_⟩
  · rw [second.labels page (first.unseen.used used), first.labels page used]
  · rw [← unseen.same root labelled.root_used]
    exact translate_of_empty second.reached (by rw [sameIndexes]; exact within) empty
  · have offset : canon va % 4096 = 0 := sameOffset.trans aligned
    rw [translate_eq, if_pos canonical, sameIndexes]
    refine (Radix.resolve_append (l0Index va) [] reached).trans ?_
    simp [resolve, after, setEntry_self, Pte.page, offset]
  · rw [← unseen.same r used] at found
    rw [← found]
    refine translate_congr fun p i t way isAt => setEntry_other ?_
    rintro ⟨rfl, rfl⟩
    rw [translate_of_empty isAt way empty] at found
    cases found
  · rw [← unseen.same r used]
    refine translate_congr fun p i t _ isAt => setEntry_other ?_
    rintro ⟨rfl, rfl⟩
    have isNone := second.labelled.walk_foreign (unseen.used used)
      (by rw [second.labels r (first.unseen.used used), first.labels r used, isForeign]) isAt
    rw [second.labelled.walk_place (by simp) second.reached] at isNone
    simp [placeAt, notShared] at isNone
  · rw [← unseen.same root labelled.root_used]
    refine translate_congr fun p i t way isAt => setEntry_other ?_
    rintro ⟨rfl, rfl⟩
    exact different (only notShared (by simp [indexes]) way isAt)
  · have leaf : after.vacant root q = (sys2.vacant root q && q != indexes va) := by
      unfold MmSys.vacant
      by_cases isPage : q = indexes va
      · rw [isPage]
        show (resolve _ _ _ root ([l2Index va, l1Index va] ++ [l0Index va])).isNone = _
        rw [Radix.resolve_append _ [] reached]
        simp [resolve, after, setEntry_self, Pte.held]
      · rw [Radix.resolve_congr fun p i t way isAt => setEntry_other ?_]
        · simp [isPage]
        · rintro ⟨rfl, rfl⟩
          exact isPage (only notShared short way isAt)
    rw [leaf, second.vacant (by simp [placeAt, notShared]) q short,
      first.vacant (by simp [placeAt, notShared]) q short]
    rcases q with _ | ⟨i, _ | ⟨j, _ | ⟨k, _ | _⟩⟩⟩ <;> grind [indexes, isPrefixOf]

/-- `Page_Map` maps the page, or does nothing that can be seen. -/
theorem pageMap_spec (pa : Nat) (prot : Prot) (va : Nat) (labelled : Labelled sys root label) :
    wp (pageMap root va pa prot)
      (fun _ after => va % pageSize = 0 ∧ pa % pageSize = 0 ∧
        ∃ label', Mapped sys after root va pa prot label label')
      (fun _ after => Unseen sys after) sys := by
  unfold pageMap
  split
  · exact .refl sys
  rename_i aligned
  rw [not_or, not_not, not_not] at aligned
  rw [wp_bind]
  refine wp_mono (labelled.descend_spec (p := []) (by simp) rfl)
    (fun l1 sys1 ⟨label1, first⟩ => ?_) fun code after same => ?_
  · rw [wp_bind]
    refine wp_mono (first.labelled.descend_spec (by simp) first.reached)
      (fun l0 sys2 ⟨label2, second⟩ => ?_) fun code after same => ?_
    · rw [wp_setLeaf]
      split
      · rename_i empty
        exact ⟨aligned.1, aligned.2, label2, first.mapped labelled aligned.1 second empty⟩
      · exact first.unseen.trans second.unseen
    · rw [same]
      exact first.unseen
  · rw [same]
    exact .refl sys

end Map

/-! ## A new table -/

section New

variable {sys after : MmSys} {root l1 : Nat} {rest : List Nat} {label : Nat → Option Place}

theorem Tidy.newRoot (tidy : Tidy sys) (isPool : sys.pool = root :: rest) :
    Labelled (sys.take root rest) root
      (update (fun _ => none) root (some .root)) := by
  have nodup := tidy.nodup
  rw [isPool, nodup_cons] at nodup
  have notRoot {c : Nat} (used : c ∉ sys.pool) : c ≠ root := by
    rintro rfl
    exact used (by rw [isPool]; exact mem_cons_self ..)
  refine ⟨⟨nodup.2, fun q notRest j c isTable listed => ?_⟩,
    fun q listed => ?_, update_self .., fun q notRest _ j c isTable =>
      ?_⟩
  · obtain ⟨-, inUse, isTable⟩ := of_take isPool notRest isTable
    exact tidy.closed q inUse j c isTable (by rw [isPool]; exact mem_cons_of_mem _ listed)
  · rw [update_of_ne]
    rintro rfl
    exact nodup.1 listed
  · obtain ⟨other, inUse, isTable⟩ := of_take isPool notRest isTable
    rw [update_of_ne (notRoot (tidy.closed q inUse j c isTable)), update_of_ne other]
    rfl

theorem Labelled.shared (labelled : Labelled sys root label) (used : l1 ∉ sys.pool)
    (foreign : label l1 = none) :
    Labelled (sys.setEntry root sharedL2Index (.table l1)) root label := by
  refine ⟨⟨labelled.tidy.nodup, fun q inUse j c isTable => ?_⟩, labelled.free,
    labelled.isRoot, fun q inUse notL0 j c isTable => ?_⟩
  · rcases of_setEntry isTable with ⟨-, -, isL1⟩ | isTable
    · cases isL1
      exact used
    · exact labelled.tidy.closed q inUse j c isTable
  · rcases of_setEntry isTable with ⟨rfl, rfl, isL1⟩ | isTable
    · cases isL1
      rw [foreign, labelled.isRoot]
      rfl
    · exact labelled.child q inUse notL0 j c isTable

theorem execLibInstall_labelled {lma n i : Nat} (labelled : Labelled sys root label)
    (installed : execLibInstall root lma n i sys = (.ok (), after)) :
    ∃ label', Labelled after root label' ∧
      ∀ page, page ∉ sys.pool → label' page = label page ∧
        page ∉ after.pool := by
  induction n generalizing sys i label with
  | zero =>
    obtain rfl := (Prod.mk.inj installed).2
    exact ⟨label, labelled, fun _ used => ⟨rfl, used⟩⟩
  | succ n ih =>
    obtain ⟨_, mid, isMap, installed⟩ := of_bind_ok installed
    obtain ⟨-, -, label1, mapped⟩ := Action.wp_ok (pageMap_spec (lma + i * pageSize) .userRwx
      (execLibUserVa + i * pageSize) labelled) isMap
    obtain ⟨label2, done, labels⟩ := ih mapped.labelled installed
    refine ⟨label2, done, fun page used => ?_⟩
    obtain ⟨same, left⟩ := labels page fun listed => used (mapped.pool page listed)
    exact ⟨same.trans (mapped.labels page used), left⟩

theorem newTaskTable_labelled {lma imagePages : Nat} (tidy : Tidy sys) (usedL1 : l1 ∉ sys.pool)
    (made : newTaskTable lma imagePages l1 sys = (.ok root, after)) :
    ∃ label, Labelled after root label ∧
      ∀ page, page ∉ sys.pool → label page = none ∧ page ∉ after.pool := by
  obtain ⟨page, built, isKernel, made⟩ := of_bind_ok made
  obtain ⟨_, mid, isInstall, made⟩ := of_bind_ok made
  obtain ⟨isRoot, rfl⟩ := Prod.mk.inj made
  cases isRoot
  obtain ⟨page, taken, isAlloc, isBuilt⟩ := of_bind_ok isKernel
  unfold pageAlloc at isAlloc
  cases isPool : sys.pool with
  | nil =>
    rw [isPool] at isAlloc
    nomatch isAlloc
  | cons free rest =>
    rw [isPool] at isAlloc
    cases isAlloc
    cases isBuilt
    have kernel := ((((tidy.newRoot isPool).leaf root 256 0 .kernelRw).leaf
      root 257 0x40000000 .kernelRw).leaf root 258 0x80000000 .kernelRwx).leaf
        root 259 0xC0000000 .kernelRw
    obtain ⟨label, installed, labels⟩ := execLibInstall_labelled kernel isInstall
    have foreign (q : Nat) (used : q ∉ sys.pool) : label q = none ∧ q ∉ mid.pool := by
      rw [isPool, mem_cons, not_or] at used
      obtain ⟨other, notRest⟩ := used
      obtain ⟨same, left⟩ := labels q notRest
      rw [same, update_of_ne other]
      exact ⟨rfl, left⟩
    obtain ⟨noPlace, left⟩ := foreign l1 usedL1
    exact ⟨label, installed.shared left noPlace, fun q used =>
      foreign q (by rw [isPool]; exact used)⟩

end New

end CaraOS.Mm
