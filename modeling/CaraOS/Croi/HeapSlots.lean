import Mathlib.Data.List.Pairwise
import Mathlib.Tactic.Tauto
import CaraOS.Croi.Heap

namespace CaraOS.Croi

/-!
# The slots of the heap

Every range of pages the heaps have is cut into a header and slots: the
objects of a slab, or the one block of a large allocation.  Slots do not
overlap, and no slot overlaps a header.
-/

open ByteMem List

def classSize (cid : Nat) : Nat :=
  classSizes.getD cid 0

/-- What the arithmetic of `slab_grow` comes to. -/
structure ClassShape (cid : Nat) : Prop where
  small : 16 ≤ classSize cid
  large : classSize cid ≤ 2048
  first : slabHeaderSize ≤ firstOff (classSize cid)
  some : 0 < nObjs (classSize cid)
  fits : firstOff (classSize cid) + nObjs (classSize cid) * classSize cid ≤ pageSize

theorem classShape {cid : Nat} (known : cid < 8) : ClassShape cid := by
  have shapes : ∀ cid < 8, 16 ≤ classSize cid ∧ classSize cid ≤ 2048 ∧
      slabHeaderSize ≤ firstOff (classSize cid) ∧ 0 < nObjs (classSize cid) ∧
      firstOff (classSize cid) + nObjs (classSize cid) * classSize cid ≤ pageSize := by
    decide
  obtain ⟨small, large, first, some, fits⟩ := shapes cid known
  exact ⟨small, large, first, some, fits⟩

variable {size : Nat}

theorem sizeToClass_spec {cid : Nat} (isClass : sizeToClass size = some cid) :
    cid < 8 ∧ size ≤ classSize cid := by
  obtain ⟨known, fits, -⟩ := List.findIdx?_eq_some_iff_getElem.mp isClass
  refine ⟨known, ?_⟩
  rw [classSize, getD_eq_getElem?_getD, List.getElem?_eq_getElem known]
  exact of_decide_eq_true fits

theorem sizeToClass_none (isLarge : sizeToClass size = none) : 2048 < size := by
  have last := List.findIdx?_eq_none_iff.mp isLarge 2048 (by decide)
  exact Nat.lt_of_not_le (of_decide_eq_false last)

theorem pagesFor_spec (small : size < 2 ^ 32) :
    size + largeHeaderSize ≤ pagesFor size * pageSize ∧
      0 < pagesFor size ∧ pagesFor size < 2 ^ 32 := by
  unfold pagesFor largeHeaderSize pageSize
  omega

theorem le_capacity (small : size < 2 ^ 32) : size ≤ capacity size := by
  unfold capacity
  cases isClass : sizeToClass size with
  | some cid => exact (sizeToClass_spec isClass).2
  | none =>
    have room := (pagesFor_spec small).1
    dsimp only
    omega

/-! ## Slots -/

/-- A place for one block. -/
structure Slot where
  heap : HeapId
  cls : Option Nat
  ptr : Nat
  size : Nat
  deriving DecidableEq

def Block.slot (b : Block) : Slot where
  heap := b.heap
  cls := sizeToClass b.size
  ptr := b.ptr
  size := capacity b.size

/-- A range of pages: a slab of a class, or a large block. -/
structure Grant where
  heap : HeapId
  page : Nat
  nPages : Nat
  cls : Option Nat
  deriving DecidableEq

namespace Grant

/-- The address of an object of a slab. -/
def objectAt (page cid i : Nat) : Nat :=
  page + firstOff (classSize cid) + i * classSize cid

/-- What the range is cut into. -/
def slots (g : Grant) : List Slot :=
  match g.cls with
  | some cid =>
    (List.range (nObjs (classSize cid))).map fun i =>
      ⟨g.heap, some cid, objectAt g.page cid i, classSize cid⟩
  | none =>
    [⟨g.heap, none, g.page + largeHeaderSize, g.nPages * pageSize - largeHeaderSize⟩]

def headerSize (g : Grant) : Nat :=
  match g.cls with
  | some _ => slabHeaderSize
  | none => largeHeaderSize

/-- The range is where its heap may have pages. -/
def InWindow (g : Grant) (lo hi : Nat) : Prop :=
  match g.heap with
  | .shared => lo ≤ g.page ∧ g.page + g.nPages * pageSize ≤ hi
  | .kernel => g.page + g.nPages * pageSize ≤ lo ∨ hi ≤ g.page

/-- A range the page allocator has handed out. -/
structure Valid (g : Grant) (lo hi : Nat) : Prop where
  notNull : g.page ≠ 0
  aligned : g.page % pageSize = 0
  small : g.page + g.nPages * pageSize ≤ 2 ^ 64
  count : 0 < g.nPages ∧ g.nPages < 2 ^ 32
  known : ∀ {cid}, g.cls = some cid → cid < 8 ∧ g.nPages = 1
  window : g.InWindow lo hi

/-- The header says what the range is. -/
def Header (g : Grant) (m : Mem) : Prop :=
  match g.cls with
  | some cid => read m g.page 4 = slabMagic ∧ read m (g.page + 4) 1 = cid
  | none =>
    read m g.page 4 = largeMagic ∧ read m (g.page + 4) 4 = g.nPages

section Geometry

variable {g : Grant} {lo hi : Nat} {s t : Slot}

theorem Header.frame {m m' : Mem} (header : g.Header m) (same : Same m m' g.page 8) :
    g.Header m' := by
  have word : Same m m' g.page 4 := same.sub le_rfl (by omega)
  have next (n : Nat) (small : n ≤ 4) : Same m m' (g.page + 4) n := same.sub (by omega) (by omega)
  unfold Header at *
  cases isClass : g.cls with
  | some cid =>
    rw [isClass] at header
    rwa [word.read_eq, (next 1 (by decide)).read_eq]
  | none =>
    rw [isClass] at header
    rwa [word.read_eq, (next 4 le_rfl).read_eq]

theorem mem_slots_slab {cid : Nat} (isClass : g.cls = some cid) :
    s ∈ g.slots ↔ ∃ i < nObjs (classSize cid),
      s = ⟨g.heap, some cid, objectAt g.page cid i, classSize cid⟩ := by
  unfold slots
  rw [isClass]
  simp only [mem_map, mem_range, eq_comm]

theorem mem_slots_large (isLarge : g.cls = none) :
    s ∈ g.slots ↔ s = ⟨g.heap, none, g.page + largeHeaderSize,
      g.nPages * pageSize - largeHeaderSize⟩ := by
  unfold slots
  rw [isLarge]
  exact mem_singleton

theorem heap_of_mem (listed : s ∈ g.slots) : s.heap = g.heap ∧ s.cls = g.cls := by
  cases isClass : g.cls with
  | some cid =>
    obtain ⟨i, -, rfl⟩ := (mem_slots_slab isClass).mp listed
    exact ⟨rfl, rfl⟩
  | none =>
    obtain rfl := (mem_slots_large isClass).mp listed
    exact ⟨rfl, rfl⟩

/-- A slot lies between the header and the end of its grant. -/
theorem slot_inside (valid : g.Valid lo hi) (listed : s ∈ g.slots) :
    g.page + g.headerSize ≤ s.ptr ∧
      s.ptr + s.size ≤ g.page + g.nPages * pageSize ∧ 16 ≤ s.size := by
  unfold headerSize
  cases isClass : g.cls with
  | some cid =>
    obtain ⟨known, one⟩ := valid.known isClass
    obtain ⟨i, below, rfl⟩ := (mem_slots_slab isClass).mp listed
    have shape := classShape known
    have first := shape.first
    have fits := shape.fits
    have end_ : (i + 1) * classSize cid ≤ nObjs (classSize cid) * classSize cid :=
      Nat.mul_le_mul_right _ below
    rw [Nat.add_mul] at end_
    refine ⟨?_, ?_, shape.small⟩
    · show g.page + slabHeaderSize ≤ objectAt g.page cid i
      unfold objectAt
      omega
    · show objectAt g.page cid i + classSize cid ≤ _
      rw [one]
      unfold objectAt
      omega
  | none =>
    obtain rfl := (mem_slots_large isClass).mp listed
    obtain ⟨positive, -⟩ := valid.count
    unfold pageSize largeHeaderSize at *
    dsimp only
    omega

theorem slots_apart (isS : s ∈ g.slots) (isT : t ∈ g.slots) (different : s ≠ t) :
    Apart s.ptr s.size t.ptr t.size := by
  cases isClass : g.cls with
  | some cid =>
    obtain ⟨i, -, rfl⟩ := (mem_slots_slab isClass).mp isS
    obtain ⟨j, -, rfl⟩ := (mem_slots_slab isClass).mp isT
    have notSame : i ≠ j := by
      rintro rfl
      exact different rfl
    unfold Apart objectAt
    dsimp only
    rcases Nat.lt_or_gt_of_ne notSame with before | behind
    · have step : (i + 1) * classSize cid ≤ j * classSize cid := Nat.mul_le_mul_right _ before
      rw [Nat.add_mul] at step
      omega
    · have step : (j + 1) * classSize cid ≤ i * classSize cid := Nat.mul_le_mul_right _ behind
      rw [Nat.add_mul] at step
      omega
  | none =>
    rw [mem_slots_large isClass] at isS isT
    exact absurd (isS.trans isT.symm) different

theorem page_of_slot (valid : g.Valid lo hi) (listed : s ∈ g.slots) :
    s.ptr - s.ptr % pageSize = g.page := by
  obtain ⟨low, high, size⟩ := slot_inside valid listed
  have aligned := valid.aligned
  have near : s.ptr < g.page + pageSize := by
    cases isClass : g.cls with
    | some cid =>
      rw [(valid.known isClass).2] at high
      omega
    | none =>
      obtain rfl := (mem_slots_large isClass).mp listed
      exact Nat.add_lt_add_left (by decide) _
  unfold pageSize at *
  omega

end Geometry

end Grant

/-! ## How the slots are used -/

/-- A free object of a class. -/
def Idle (free : HeapId → Nat → List Nat) (s : Slot) : Prop :=
  ∃ cid, s.cls = some cid ∧ s.size = classSize cid ∧ s.ptr ∈ free s.heap cid

/-- Change the free objects of one class. -/
def setFree (free : HeapId → Nat → List Nat) (id : HeapId) (cid : Nat)
    (xs : List Nat) : HeapId → Nat → List Nat :=
  Function.update free id (Function.update (free id) cid xs)

/-- Every slot is either free or the slot of one block in use. -/
structure Carved (grants : List Grant) (live : List Block)
    (free : HeapId → Nat → List Nat) (lo hi : Nat) : Prop where
  valid : ∀ {g}, g ∈ grants → g.Valid lo hi
  apart : grants.Pairwise fun g h =>
      Apart g.page (g.nPages * pageSize) h.page (h.nPages * pageSize)
  known : ∀ {s}, (∃ g ∈ grants, s ∈ g.slots) ↔ Idle free s ∨ s ∈ live.map Block.slot
  nodupFree : ∀ id cid, (free id cid).Nodup
  nodupLive : (live.map Block.slot).Nodup
  split : ∀ {s}, Idle free s → s ∉ live.map Block.slot
  small : ∀ {b}, b ∈ live → b.size < 2 ^ 32

section Free

variable {free : HeapId → Nat → List Nat} {id : HeapId} {cid : Nat} {xs : List Nat} {s : Slot}

@[simp] theorem setFree_self : setFree free id cid xs id cid = xs := by
  simp [setFree]

theorem setFree_other {id' : HeapId} {cid' : Nat} (other : ¬ (id' = id ∧ cid' = cid)) :
    setFree free id cid xs id' cid' = free id' cid' := by
  unfold setFree
  by_cases isId : id' = id
  · subst isId
    rw [Function.update_self, Function.update_of_ne fun isCid => other ⟨rfl, isCid⟩]
  · rw [Function.update_of_ne isId]

/-- The slot of an object of a class. -/
def slotOf (id : HeapId) (cid x : Nat) : Slot :=
  ⟨id, some cid, x, classSize cid⟩

theorem idle_slotOf {x : Nat} : Idle free (slotOf id cid x) ↔ x ∈ free id cid := by
  constructor
  · rintro ⟨cid', same, -, listed⟩
    cases same
    exact listed
  · exact fun listed => ⟨cid, rfl, rfl, listed⟩

theorem idle_iff :
    Idle free s ↔
      ∃ id cid x, s = slotOf id cid x ∧ x ∈ free id cid := by
  constructor
  · rintro ⟨cid, isClass, isSize, listed⟩
    refine ⟨s.heap, cid, s.ptr, ?_, listed⟩
    rw [slotOf, ← isClass, ← isSize]
  · rintro ⟨id, cid, x, rfl, listed⟩
    exact idle_slotOf.mpr listed

theorem idle_setFree (free : HeapId → Nat → List Nat) (id : HeapId) (cid : Nat) (xs : List Nat) :
    Idle (setFree free id cid xs) s ↔
      (∃ x ∈ xs, s = slotOf id cid x) ∨
        (Idle free s ∧ ¬ (s.heap = id ∧ s.cls = some cid)) := by
  constructor
  · intro idle
    obtain ⟨id', cid', x, rfl, listed⟩ := idle_iff.mp idle
    by_cases same : id' = id ∧ cid' = cid
    · obtain ⟨rfl, rfl⟩ := same
      rw [setFree_self] at listed
      exact .inl ⟨x, listed, rfl⟩
    · rw [setFree_other same] at listed
      refine .inr ⟨idle_slotOf.mpr listed, fun isSame => same ?_⟩
      exact ⟨isSame.1, Option.some.inj isSame.2⟩
  · rintro (⟨x, listed, rfl⟩ | ⟨idle, other⟩)
    · rwa [idle_slotOf, setFree_self]
    · obtain ⟨id', cid', x, rfl, listed⟩ := idle_iff.mp idle
      rw [idle_slotOf, setFree_other fun same => other ?_]
      · exact listed
      · exact ⟨same.1, congrArg some same.2⟩

end Free

namespace Carved

variable {grants : List Grant} {live : List Block}
  {free : HeapId → Nat → List Nat} {lo hi : Nat} {g h : Grant} {s t : Slot}
  {id : HeapId} {cid x : Nat} {b : Block}

theorem empty (lo hi : Nat) : Carved [] [] (fun _ _ => []) lo hi where
  valid := nofun
  apart := .nil
  known := by
    intro s
    constructor
    · rintro ⟨g, listed, -⟩
      cases listed
    · rintro (⟨cid, -, -, listed⟩ | listed)
      · cases listed
      · cases listed
  nodupFree := fun _ _ => .nil
  nodupLive := .nil
  split := fun idle => by
    obtain ⟨cid, -, -, listed⟩ := idle
    cases listed
  small := nofun

variable (carved : Carved grants live free lo hi)
include carved

theorem grant_of_live (isLive : b ∈ live) : ∃ g ∈ grants, b.slot ∈ g.slots :=
  carved.known.mpr (.inr (mem_map_of_mem isLive))

theorem grant_of_free (isFree : x ∈ free id cid) : ∃ g ∈ grants, slotOf id cid x ∈ g.slots :=
  carved.known.mpr (.inl (idle_slotOf.mpr isFree))

theorem ranges_apart (isG : g ∈ grants) (isH : h ∈ grants) (different : g ≠ h) :
    Apart g.page (g.nPages * pageSize) h.page (h.nPages * pageSize) := by
  have symmetric : Std.Symm fun g h : Grant =>
      Apart g.page (g.nPages * pageSize) h.page (h.nPages * pageSize) :=
    ⟨fun _ _ apart => apart.symm⟩
  exact carved.apart.forall isG isH different

theorem slots_apart (isS : ∃ g ∈ grants, s ∈ g.slots)
    (isT : ∃ g ∈ grants, t ∈ g.slots) (different : s ≠ t) : Apart s.ptr s.size t.ptr t.size := by
  obtain ⟨g, isG, inG⟩ := isS
  obtain ⟨h, isH, inH⟩ := isT
  by_cases same : g = h
  · subst same
    exact Grant.slots_apart inG inH different
  · have apart := carved.ranges_apart isG isH same
    obtain ⟨lowS, highS, -⟩ := Grant.slot_inside (carved.valid isG) inG
    obtain ⟨lowT, highT, -⟩ := Grant.slot_inside (carved.valid isH) inH
    exact ((apart.sub (by omega) highT).symm.sub (by omega) highS).symm

theorem header_apart (isG : g ∈ grants) (isS : ∃ g ∈ grants, s ∈ g.slots) :
    Apart g.page g.headerSize s.ptr s.size := by
  obtain ⟨h, isH, inH⟩ := isS
  obtain ⟨low, high, -⟩ := Grant.slot_inside (carved.valid isH) inH
  by_cases same : g = h
  · subst same
    exact .inl low
  · have apart := (carved.ranges_apart isG isH same).sub (by omega) high
    have inside : g.headerSize ≤ g.nPages * pageSize := by
      have positive := (carved.valid isG).count.1
      have one : pageSize ≤ g.nPages * pageSize := Nat.le_mul_of_pos_left _ positive
      refine le_trans ?_ one
      unfold Grant.headerSize
      split <;> decide
    exact (apart.symm.sub le_rfl (by omega)).symm

/-- A free object becomes live. -/
theorem take {rest : List Nat} (isFree : free id cid = x :: rest)
    (isClass : sizeToClass size = some cid) (small : size < 2 ^ 32) :
    Carved grants (⟨id, x, size⟩ :: live) (setFree free id cid rest) lo hi := by
  have isSlot : Block.slot ⟨id, x, size⟩ = slotOf id cid x := by
    unfold Block.slot capacity
    rw [isClass]
    rfl
  have wasFree : Idle free (slotOf id cid x) := by
    rw [idle_slotOf, isFree]
    exact mem_cons_self ..
  have nodup := carved.nodupFree id cid
  rw [isFree] at nodup
  obtain ⟨new, restNodup⟩ := nodup_cons.mp nodup
  have idle_iff_before {s : Slot} : Idle free s ↔
      s = slotOf id cid x ∨ Idle (setFree free id cid rest) s := by
    rw [idle_setFree]
    constructor
    · intro idle
      by_cases here : s.heap = id ∧ s.cls = some cid
      · obtain ⟨id', cid', y, rfl, listed⟩ := idle_iff.mp idle
        obtain ⟨rfl, sameClass⟩ := here
        obtain rfl := Option.some.inj sameClass
        replace listed : y ∈ free id' cid' := listed
        rw [show free id' cid' = x :: rest from isFree] at listed
        rcases mem_cons.mp listed with rfl | later
        · exact .inl rfl
        · exact .inr (.inl ⟨y, later, rfl⟩)
      · exact .inr (.inr ⟨idle, here⟩)
    · rintro (rfl | ⟨y, later, rfl⟩ | ⟨idle, -⟩)
      · exact wasFree
      · rw [idle_slotOf, isFree]
        exact mem_cons_of_mem _ later
      · exact idle
  refine ⟨carved.valid, carved.apart, ?_, ?_, ?_, ?_, ?_⟩
  · intro s
    rw [carved.known, idle_iff_before, map_cons, mem_cons, isSlot]
    tauto
  · intro id' cid'
    by_cases same : id' = id ∧ cid' = cid
    · obtain ⟨rfl, rfl⟩ := same
      rwa [setFree_self]
    · rw [setFree_other same]
      exact carved.nodupFree id' cid'
  · rw [map_cons, nodup_cons, isSlot]
    exact ⟨carved.split wasFree, carved.nodupLive⟩
  · intro s idle listed
    rw [map_cons, mem_cons, isSlot] at listed
    rcases listed with rfl | listed
    · rw [idle_slotOf, setFree_self] at idle
      exact new idle
    · exact carved.split (idle_iff_before.mpr (.inr idle)) listed
  · intro b isLive
    rcases mem_cons.mp isLive with rfl | isLive
    · exact small
    · exact carved.small isLive

theorem live_erase (isLive : b ∈ live) :
    s ∈ (live.erase b).map Block.slot ↔
      s ∈ live.map Block.slot ∧ s ≠ b.slot := by
  have perm := (perm_cons_erase isLive).map Block.slot
  have nodup := (perm.nodup_iff).mp carved.nodupLive
  rw [map_cons, nodup_cons] at nodup
  rw [perm.mem_iff, map_cons, mem_cons]
  constructor
  · intro listed
    refine ⟨.inr listed, ?_⟩
    rintro rfl
    exact nodup.1 listed
  · rintro ⟨isFirst | listed, other⟩
    · exact absurd isFirst other
    · exact listed

theorem nodup_erase (isLive : b ∈ live) : ((live.erase b).map Block.slot).Nodup := by
  have perm := (perm_cons_erase isLive).map Block.slot
  have nodup := (perm.nodup_iff).mp carved.nodupLive
  rw [map_cons, nodup_cons] at nodup
  exact nodup.2

/-- A live object becomes free. -/
theorem give (isLive : b ∈ live) (isClass : sizeToClass b.size = some cid) :
    Carved grants (live.erase b)
      (setFree free b.heap cid (b.ptr :: free b.heap cid)) lo hi := by
  have isSlot : b.slot = slotOf b.heap cid b.ptr := by
    unfold Block.slot capacity
    rw [isClass]
    rfl
  have inUse : slotOf b.heap cid b.ptr ∈ live.map Block.slot := by
    rw [← isSlot]
    exact mem_map_of_mem isLive
  have notFree : ¬ Idle free (slotOf b.heap cid b.ptr) := fun idle =>
    carved.split idle inUse
  have idle_iff_after {s : Slot} : Idle (setFree free b.heap cid (b.ptr :: free b.heap cid)) s ↔
        s = slotOf b.heap cid b.ptr ∨ Idle free s := by
    rw [idle_setFree]
    constructor
    · rintro (⟨y, listed, rfl⟩ | ⟨idle, -⟩)
      · rcases mem_cons.mp listed with rfl | later
        · exact .inl rfl
        · exact .inr (idle_slotOf.mpr later)
      · exact .inr idle
    · rintro (rfl | idle)
      · exact .inl ⟨b.ptr, mem_cons_self .., rfl⟩
      · by_cases here : s.heap = b.heap ∧ s.cls = some cid
        · obtain ⟨id', cid', y, rfl, listed⟩ := idle_iff.mp idle
          obtain ⟨isHeap, sameClass⟩ := here
          cases sameClass
          obtain rfl : id' = b.heap := isHeap
          exact .inl ⟨y, mem_cons_of_mem _ listed, rfl⟩
        · exact .inr ⟨idle, here⟩
  refine ⟨carved.valid, carved.apart, ?_, ?_, carved.nodup_erase isLive, ?_,
    fun still => carved.small (mem_of_mem_erase still)⟩
  · intro s
    rw [carved.known, idle_iff_after, carved.live_erase isLive, isSlot]
    constructor
    · rintro (idle | listed)
      · exact .inl (.inr idle)
      · by_cases same : s = slotOf b.heap cid b.ptr
        · exact .inl (.inl same)
        · exact .inr ⟨listed, same⟩
    · rintro ((rfl | idle) | ⟨listed, -⟩)
      · exact .inr inUse
      · exact .inl idle
      · exact .inr listed
  · intro id' cid'
    by_cases same : id' = b.heap ∧ cid' = cid
    · obtain ⟨rfl, rfl⟩ := same
      rw [setFree_self, nodup_cons]
      refine ⟨fun listed => notFree ?_, carved.nodupFree ..⟩
      exact idle_slotOf.mpr listed
    · rw [setFree_other same]
      exact carved.nodupFree id' cid'
  · intro s idle listed
    rw [carved.live_erase isLive, isSlot] at listed
    rcases idle_iff_after.mp idle with rfl | idle
    · exact listed.2 rfl
    · exact carved.split idle listed.1

theorem new_slot (valid : g.Valid lo hi)
    (apart : ∀ h ∈ grants, Apart g.page (g.nPages * pageSize) h.page (h.nPages * pageSize))
    (inNew : s ∈ g.slots) : ¬ ∃ h ∈ grants, s ∈ h.slots := by
  rintro ⟨h, isH, inOld⟩
  obtain ⟨lowNew, highNew, size⟩ := Grant.slot_inside valid inNew
  obtain ⟨lowOld, highOld, -⟩ := Grant.slot_inside (carved.valid isH) inOld
  have different := apart h isH
  unfold Apart at different
  omega

/-- A new slab brings free objects. -/
theorem addSlab {objects : List Nat} (valid : g.Valid lo hi)
    (apart : ∀ h ∈ grants, Apart g.page (g.nPages * pageSize) h.page (h.nPages * pageSize))
    (isClass : g.cls = some cid) (none : free g.heap cid = []) (nodup : objects.Nodup)
    (isObject : ∀ {x}, x ∈ objects ↔ ∃ i < nObjs (classSize cid), x = Grant.objectAt g.page cid i) :
    Carved (g :: grants) live (setFree free g.heap cid objects) lo hi := by
  have inNew {s : Slot} : s ∈ g.slots ↔ ∃ x ∈ objects, s = slotOf g.heap cid x := by
    rw [Grant.mem_slots_slab isClass]
    constructor
    · rintro ⟨i, below, rfl⟩
      exact ⟨_, isObject.mpr ⟨i, below, rfl⟩, rfl⟩
    · rintro ⟨x, listed, rfl⟩
      obtain ⟨i, below, rfl⟩ := isObject.mp listed
      exact ⟨i, below, rfl⟩
  have idle_iff_after {s : Slot} : Idle (setFree free g.heap cid objects) s ↔
        s ∈ g.slots ∨ Idle free s := by
    rw [idle_setFree, inNew]
    refine or_congr_right ⟨fun idle => idle.1, fun idle => ⟨idle, ?_⟩⟩
    rintro ⟨isHeap, sameClass⟩
    obtain ⟨id', cid', y, rfl, listed⟩ := idle_iff.mp idle
    cases sameClass
    obtain rfl : id' = g.heap := isHeap
    rw [none] at listed
    cases listed
  refine ⟨?_, pairwise_cons.mpr ⟨apart, carved.apart⟩, ?_, ?_, carved.nodupLive, ?_, carved.small⟩
  · intro h listed
    rcases mem_cons.mp listed with rfl | listed
    · exact valid
    · exact carved.valid listed
  · intro s
    rw [idle_iff_after, exists_mem_cons_iff, carved.known, or_assoc]
  · intro id' cid'
    by_cases same : id' = g.heap ∧ cid' = cid
    · obtain ⟨rfl, rfl⟩ := same
      rwa [setFree_self]
    · rw [setFree_other same]
      exact carved.nodupFree id' cid'
  · intro s idle listed
    rcases idle_iff_after.mp idle with isNew | idle
    · exact carved.new_slot valid apart isNew (carved.known.mpr (.inr listed))
    · exact carved.split idle listed

theorem addLarge (valid : g.Valid lo hi)
    (apart : ∀ h ∈ grants, Apart g.page (g.nPages * pageSize) h.page (h.nPages * pageSize))
    (isLarge : g.cls = none) (isSlot : b.slot ∈ g.slots)
    (small : b.size < 2 ^ 32) : Carved (g :: grants) (b :: live) free lo hi := by
  have only {s : Slot} : s ∈ g.slots ↔ s = b.slot := by
    rw [Grant.mem_slots_large isLarge] at isSlot ⊢
    rw [isSlot]
  have isNew := carved.new_slot valid apart isSlot
  refine ⟨?_, pairwise_cons.mpr ⟨apart, carved.apart⟩, ?_, carved.nodupFree, ?_, ?_, ?_⟩
  · intro h listed
    rcases mem_cons.mp listed with rfl | listed
    · exact valid
    · exact carved.valid listed
  · intro s
    rw [exists_mem_cons_iff, carved.known, only, map_cons, mem_cons]
    tauto
  · rw [map_cons, nodup_cons]
    exact ⟨fun listed => isNew (carved.known.mpr (.inr listed)), carved.nodupLive⟩
  · intro s idle listed
    rw [map_cons, mem_cons] at listed
    rcases listed with rfl | listed
    · exact isNew (carved.known.mpr (.inl idle))
    · exact carved.split idle listed
  · intro c isLive
    rcases mem_cons.mp isLive with rfl | isLive
    · exact small
    · exact carved.small isLive

/-- A freed large block takes its grant along. -/
theorem dropLarge (isLive : b ∈ live)
    (isG : g ∈ grants) (isLarge : g.cls = none) (isSlot : b.slot ∈ g.slots) :
    Carved (grants.filter fun h => (h.page, h.nPages) ≠ (g.page, g.nPages))
      (live.erase b) free lo hi := by
  have only {s : Slot} : s ∈ g.slots ↔ s = b.slot := by
    rw [Grant.mem_slots_large isLarge] at isSlot ⊢
    rw [isSlot]
  -- ranges are told apart by their pages
  have stays {h : Grant} (isH : h ∈ grants) :
      h ∈ grants.filter (fun h => (h.page, h.nPages) ≠ (g.page, g.nPages)) ↔ h ≠ g := by
    rw [mem_filter, decide_eq_true_eq]
    constructor
    · rintro ⟨-, different⟩ rfl
      exact different rfl
    · intro different
      refine ⟨isH, fun same => ?_⟩
      have apart := carved.ranges_apart isH isG different
      obtain ⟨samePage, sameCount⟩ := Prod.mk.inj same
      have positive := (carved.valid isG).count.1
      have one : pageSize ≤ g.nPages * pageSize := Nat.le_mul_of_pos_left _ positive
      have some : 0 < pageSize := by decide
      rw [sameCount] at apart
      unfold Apart at apart
      omega
  have inUse : b.slot ∈ live.map Block.slot := mem_map_of_mem isLive
  have covered {s : Slot} : (∃ h ∈ grants.filter fun h => (h.page, h.nPages) ≠ (g.page, g.nPages),
        s ∈ h.slots) ↔ (∃ h ∈ grants, s ∈ h.slots) ∧ s ≠ b.slot := by
    constructor
    · rintro ⟨h, kept, listed⟩
      have isH := (mem_filter.mp kept).1
      refine ⟨⟨h, isH, listed⟩, ?_⟩
      rintro rfl
      have different := (stays isH).mp kept
      have apart := carved.ranges_apart isH isG different
      obtain ⟨low, high, size⟩ := Grant.slot_inside (carved.valid isH) listed
      obtain ⟨low', high', -⟩ := Grant.slot_inside (carved.valid isG) isSlot
      unfold Apart at apart
      omega
    · rintro ⟨⟨h, isH, listed⟩, other⟩
      refine ⟨h, (stays isH).mpr ?_, listed⟩
      rintro rfl
      exact other (only.mp listed)
  refine ⟨fun listed => carved.valid (mem_filter.mp listed).1,
    carved.apart.filter _, ?_, carved.nodupFree, carved.nodup_erase isLive, ?_,
    fun still => carved.small (mem_of_mem_erase still)⟩
  · intro s
    rw [covered, carved.known, carved.live_erase isLive]
    constructor
    · rintro ⟨idle | listed, other⟩
      · exact .inl idle
      · exact .inr ⟨listed, other⟩
    · rintro (idle | ⟨listed, other⟩)
      · refine ⟨.inl idle, ?_⟩
        rintro rfl
        exact carved.split idle inUse
      · exact ⟨.inr listed, other⟩
  · intro s idle listed
    exact carved.split idle ((carved.live_erase isLive).mp listed).1

end Carved

end CaraOS.Croi
