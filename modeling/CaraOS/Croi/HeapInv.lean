import Mathlib.Algebra.BigOperators.Group.List.Basic
import CaraOS.Croi.HeapSlots

namespace CaraOS.Croi

/-!
# The invariant of the heap

The slots, the page headers, the free lists that run through the free objects
and the counters fit together, and every call keeps it so.
-/

open BitVec (ofNat_add)
open ByteMem List

/-! ## Counters -/

/-- The counters are those of the blocks in use, as far as they can count. -/
structure Counts (heaps : HeapId → Heap) (live : List Block) : Prop where
  small : ∀ id cid, ((heaps id).classes cid).inFlight = BitVec.ofNat 32 (smallCount live id cid)
  large : ∀ id, (heaps id).largeInFlight = BitVec.ofNat 32 (largeCount live id)
  bytes : ∀ id, (heaps id).bytesInFlight = BitVec.ofNat 64 (liveBytes live id)

structure Counted (before after : HeapId → Heap) (b : Block) : Prop where
  small : ∀ id cid, ((after id).classes cid).inFlight =
      ((before id).classes cid).inFlight + BitVec.ofNat 32
          (if b.heap = id ∧ sizeToClass b.size = some cid then 1 else 0)
  large : ∀ id, (after id).largeInFlight = (before id).largeInFlight +
      BitVec.ofNat 32 (if b.heap = id ∧ sizeToClass b.size = none then 1 else 0)
  bytes : ∀ id, (after id).bytesInFlight = (before id).bytesInFlight +
      BitVec.ofNat 64 (if b.heap = id then chargeOf b.size else 0)

section Counts

variable {before after : HeapId → Heap} {live : List Block} {b : Block}

/-- One heap's counters moved, each by the block's own share. -/
theorem Counted.of_heap
    (others : ∀ id, id ≠ b.heap → after id = before id)
    (small : ∀ cid, ((after b.heap).classes cid).inFlight = ((before b.heap).classes cid).inFlight +
          BitVec.ofNat 32 (if sizeToClass b.size = some cid then 1 else 0))
    (large : (after b.heap).largeInFlight = (before b.heap).largeInFlight +
        BitVec.ofNat 32 (if sizeToClass b.size = none then 1 else 0))
    (bytes : (after b.heap).bytesInFlight =
        (before b.heap).bytesInFlight + BitVec.ofNat 64 (chargeOf b.size)) :
    Counted before after b := by
  refine ⟨fun id cid => ?_, fun id => ?_, fun id => ?_⟩
  · by_cases isHeap : b.heap = id
    · simpa [← isHeap] using small cid
    · simp [others id (Ne.symm isHeap), isHeap]
  · by_cases isHeap : b.heap = id
    · simpa [← isHeap] using large
    · simp [others id (Ne.symm isHeap), isHeap]
  · by_cases isHeap : b.heap = id
    · simpa [← isHeap] using bytes
    · simp [others id (Ne.symm isHeap), isHeap]

theorem smallCount_cons
    (id : HeapId)
    (cid : Nat) :
    smallCount (b :: live) id cid = smallCount live id cid +
      if b.heap = id ∧ sizeToClass b.size = some cid then 1 else 0 := by
  unfold smallCount
  rw [countP_cons]
  simp only [decide_eq_true_eq]

theorem largeCount_cons (id : HeapId) :
    largeCount (b :: live) id = largeCount live id +
      if b.heap = id ∧ sizeToClass b.size = none then 1 else 0 := by
  unfold largeCount
  rw [countP_cons]
  simp only [decide_eq_true_eq]

theorem liveBytes_cons (id : HeapId) :
    liveBytes (b :: live) id = liveBytes live id +
      if b.heap = id then chargeOf b.size else 0 := by
  unfold liveBytes
  rw [map_cons, sum_cons, Nat.add_comm]

section

variable (counts : Counts before live)
include counts

/-- The counters follow a block that is taken. -/
theorem Counts.add (counted : Counted before after b) : Counts after (b :: live) where
  small := fun id cid => by
    rw [counted.small, counts.small, smallCount_cons, ofNat_add]
  large := fun id => by
    rw [counted.large, counts.large, largeCount_cons, ofNat_add]
  bytes := fun id => by
    rw [counted.bytes, counts.bytes, liveBytes_cons, ofNat_add]

theorem Counts.perm
    {other : List Block}
    (perm : live.Perm other) :
    Counts before other where
  small := fun id cid => by
    rw [counts.small, smallCount, perm.countP_eq, smallCount]
  large := fun id => by
    rw [counts.large, largeCount, perm.countP_eq, largeCount]
  bytes := fun id => by
    rw [counts.bytes, liveBytes, (perm.map _).sum_eq, liveBytes]

/-- The counters follow a block that is freed. -/
theorem Counts.sub
    (isLive : b ∈ live)
    (counted : Counted after before b) :
    Counts after (live.erase b) := by
  have whole := counts.perm (perm_cons_erase isLive)
  refine ⟨fun id cid => ?_, fun id => ?_, fun id => ?_⟩
  · have total := whole.small id cid
    rw [counted.small, smallCount_cons, ofNat_add] at total
    exact (BitVec.add_left_inj _).mp total
  · have total := whole.large id
    rw [counted.large, largeCount_cons, ofNat_add] at total
    exact (BitVec.add_left_inj _).mp total
  · have total := whole.bytes id
    rw [counted.bytes, liveBytes_cons, ofNat_add] at total
    exact (BitVec.add_left_inj _).mp total

end

end Counts

/-! ## Assignments -/

namespace HeapSys

variable {sys : HeapSys} {id id' : HeapId} {cid cid' : Nat}

theorem setHeap_self (change : Heap → Heap) :
    (sys.setHeap id change).heaps id = change (sys.heaps id) :=
  Function.update_self ..

theorem setHeap_other
    (other : id' ≠ id)
    (change : Heap → Heap) :
    (sys.setHeap id change).heaps id' = sys.heaps id' :=
  Function.update_of_ne other ..

theorem setClass_self (change : HeapClass → HeapClass) :
    ((sys.setClass id cid change).heaps id).classes cid =
      change ((sys.heaps id).classes cid) := by
  unfold setClass
  rw [setHeap_self]
  exact Function.update_self ..

theorem setClass_other
    (other : ¬ (id' = id ∧ cid' = cid))
    (change : HeapClass → HeapClass) :
    ((sys.setClass id cid change).heaps id').classes cid' =
      (sys.heaps id').classes cid' := by
  unfold setClass
  by_cases isId : id' = id
  · subst isId
    rw [setHeap_self]
    exact Function.update_of_ne (fun isCid => other ⟨rfl, isCid⟩) ..
  · rw [setHeap_other isId]

theorem setHeap_classes
    (change : Heap → Heap)
    (same : ∀ h, (change h).classes = h.classes)
    (id' : HeapId) :
    ((sys.setHeap id change).heaps id').classes =
      (sys.heaps id').classes := by
  by_cases isId : id' = id
  · subst isId
    rw [setHeap_self, same]
  · rw [setHeap_other isId]

theorem setClass_counters
    (id' : HeapId)
    (change : HeapClass → HeapClass) :
    ((sys.setClass id cid change).heaps id').largeInFlight =
        (sys.heaps id').largeInFlight ∧
      ((sys.setClass id cid change).heaps id').bytesInFlight =
        (sys.heaps id').bytesInFlight := by
  unfold setClass
  by_cases isId : id' = id
  · subst isId
    rw [setHeap_self]
    exact ⟨rfl, rfl⟩
  · rw [setHeap_other isId]
    exact ⟨rfl, rfl⟩

end HeapSys

/-! ## The invariant -/

/-- What holds between two calls. -/
structure HeapInv (sys : HeapSys) (live : List Block) (grants : List Grant)
    (free : HeapId → Nat → List Nat) : Prop where
  carved : Carved grants live free sys.sharedLo sys.sharedHi
  ranges : sys.ranges = grants.map fun g => (g.page, g.nPages)
  header : ∀ {g}, g ∈ grants → g.Header sys.mem
  chain : ∀ id cid, Chain sys.mem ((sys.heaps id).classes cid).freeHead (free id cid)
  sizes : ∀ id cid, ((sys.heaps id).classes cid).objSize = classSize cid
  tails : ∀ id cid, ((sys.heaps id).classes cid).slabTailPred =
          ((sys.heaps id).classes cid).slabList ∨
        ∃ g ∈ grants, g.cls ≠ none ∧ ((sys.heaps id).classes cid).slabTailPred = g.page + 8
  counts : Counts sys.heaps live

/-- The bytes of the blocks are what they were. -/
def Kept (before after : Mem) (live : List Block) : Prop :=
  ∀ b ∈ live, Same before after b.ptr (capacity b.size)

variable {x : Nat}

namespace HeapInv

variable {sys : HeapSys} {live : List Block} {grants : List Grant}
  {free : HeapId → Nat → List Nat} {id : HeapId} {cid : Nat}

/-- A heap without grants is sound. -/
theorem init
    (mem : Mem)
    (lists : HeapId → Nat → Nat)
    (lo hi : Nat) :
    HeapInv (HeapRun.init mem lists lo hi).sys [] [] fun _ _ => [] where
  carved := .empty lo hi
  ranges := rfl
  header := nofun
  chain := fun _ _ => rfl
  sizes := fun _ _ => rfl
  tails := fun _ _ => .inl rfl
  counts := ⟨fun _ _ => rfl, fun _ => rfl, fun _ => rfl⟩

/-- The heap reads only its headers and its free objects. -/
theorem setMem
    {mem : Mem}
    (inv : HeapInv sys live grants free)
    (headers : ∀ g ∈ grants, Same sys.mem mem g.page 8)
    (objects : ∀ id cid, ∀ x ∈ free id cid, Same sys.mem mem x 8) :
    HeapInv (sys.setMem mem) live grants free :=
  { inv with
    header := fun listed => (inv.header listed).frame (headers _ listed)
    chain := fun id cid => (inv.chain id cid).frame (objects id cid) }

theorem header_le (g : Grant) : 8 ≤ g.headerSize := by
  unfold Grant.headerSize
  split <;> decide

section

variable (inv : HeapInv sys live grants free)
include inv

/-- A free object lies in a slot, with room for its link. -/
theorem object_slot (isFree : x ∈ free id cid) :
    (∃ g ∈ grants, slotOf id cid x ∈ g.slots) ∧ 8 ≤ (slotOf id cid x).size := by
  obtain ⟨g, isG, inG⟩ := inv.carved.grant_of_free isFree
  have large := (Grant.slot_inside (inv.carved.valid isG) inG).2.2
  exact ⟨⟨g, isG, inG⟩, le_trans (by decide) large⟩

/-- A write inside a busy slot is harmless. -/
theorem setSlot
    {mem : Mem}
    {s : Slot}
    (isSlot : ∃ g ∈ grants, s ∈ g.slots)
    (busy : ¬ Idle free s)
    (inside : ∀ a, ¬ (s.ptr ≤ a ∧ a < s.ptr + s.size) → mem a = sys.mem a) :
    HeapInv (sys.setMem mem) live grants free := by
  have same {a n : Nat} (apart : Apart a n s.ptr s.size) : Same sys.mem mem a n := by
    intro at_ low high
    unfold Apart at apart
    exact inside at_ (by omega)
  refine inv.setMem (fun g listed => ?_) fun id cid x isFree => ?_
  · have apart := inv.carved.header_apart listed isSlot
    have size := header_le g
    exact (same apart).sub le_rfl (by omega)
  · obtain ⟨isObject, size⟩ := inv.object_slot isFree
    have different : slotOf id cid x ≠ s := by
      rintro rfl
      exact busy (idle_slotOf.mpr isFree)
    have apart := inv.carved.slots_apart isObject isSlot different
    exact (same apart).sub le_rfl (Nat.add_le_add_left size _)

/-- A store into a live block is harmless. -/
theorem store
    {b : Block}
    {at_ : Nat}
    (isLive : b ∈ live)
    (low : b.ptr ≤ at_)
    (high : at_ < b.ptr + b.size)
    (value : BitVec 8) :
    HeapInv (sys.setMem (Function.update sys.mem at_ value)) live grants
      free := by
  refine inv.setSlot (inv.carved.grant_of_live isLive) (fun idle => ?_) ?_
  · exact inv.carved.split idle (mem_map_of_mem isLive)
  · intro a outside
    refine Function.update_of_ne (fun same => outside ?_) ..
    subst same
    have room := le_capacity (inv.carved.small isLive)
    exact ⟨low, high.trans_le (Nat.add_le_add_left room _)⟩

/-- A free object is a word of memory, never null. -/
theorem object_bounds (isFree : x ∈ free id cid) : cid < 8 ∧ x ≠ 0 ∧ x < 256 ^ 8 := by
  obtain ⟨g, listed, inG⟩ := inv.carved.grant_of_free isFree
  have valid := inv.carved.valid listed
  obtain ⟨-, isClass⟩ := Grant.heap_of_mem inG
  obtain ⟨low, high, size⟩ := Grant.slot_inside valid inG
  have small := valid.small
  have notNull := valid.notNull
  refine ⟨(valid.known isClass.symm).1, ?_, ?_⟩
  · rintro rfl
    exact notNull (by
      have reached : g.page ≤ 0 := by
        show g.page ≤ (slotOf id cid 0).ptr
        omega
      omega)
  · show (slotOf id cid x).ptr < _
    omega

theorem freeHead_lt
    (id : HeapId)
    (cid : Nat) :
    ((sys.heaps id).classes cid).freeHead < 256 ^ 8 := by
  have chain := inv.chain id cid
  cases isFree : free id cid with
  | nil =>
    rw [isFree] at chain
    rw [show _ = 0 from chain]
    decide
  | cons x rest =>
    rw [isFree] at chain
    have listed : x ∈ free id cid := by simp [isFree]
    rw [chain.1]
    exact (inv.object_bounds listed).2.2

end

/-- A class that a call leaves alone. -/
structure ClassKept (before after : HeapSys) (free free' : HeapId → Nat → List Nat) (id : HeapId)
    (cid : Nat) : Prop where
  cls : (after.heaps id).classes cid = (before.heaps id).classes cid
  list : free' id cid = free id cid
  links : ∀ x ∈ free id cid, Same before.mem after.mem x 8

/-- A class that gets another free list, and perhaps another slab. -/
structure ClassMoved (before after : HeapClass) (mem : Mem) (list : List Nat)
    (grants : List Grant) : Prop where
  objSize : after.objSize = before.objSize
  chain : Chain mem after.freeHead list
  tail : (after.slabTailPred = before.slabTailPred ∧ after.slabList = before.slabList) ∨
    ∃ g ∈ grants, g.cls ≠ none ∧ after.slabTailPred = g.page + 8

/-- The invariant is kept if every class is left alone or moved, and the slabs stay. -/
theorem move
    {after : HeapSys}
    {live' : List Block}
    {grants' : List Grant}
    {free' : HeapId → Nat → List Nat}
    (inv : HeapInv sys live grants free)
    (carved : Carved grants' live' free' after.sharedLo after.sharedHi)
    (ranges : after.ranges = grants'.map fun g => (g.page, g.nPages))
    (header : ∀ {g}, g ∈ grants' → g.Header after.mem)
    (slabs : ∀ g ∈ grants, g.cls ≠ none → g ∈ grants')
    (classes : ∀ id cid, ClassKept sys after free free' id cid ∨
      ClassMoved ((sys.heaps id).classes cid) ((after.heaps id).classes cid) after.mem
        (free' id cid) grants')
    (counts : Counts after.heaps live') :
    HeapInv after live' grants' free' := by
  refine ⟨carved, ranges, header, fun id cid => ?_, fun id cid => ?_, fun id cid => ?_, counts⟩
  · rcases classes id cid with kept | moved
    · rw [kept.cls, kept.list]
      exact (inv.chain id cid).frame kept.links
    · exact moved.chain
  · rcases classes id cid with kept | moved
    · rw [kept.cls, inv.sizes]
    · rw [moved.objSize, inv.sizes]
  · have there {tail : Nat} : (∃ g ∈ grants, g.cls ≠ none ∧ tail = g.page + 8) →
        ∃ g ∈ grants', g.cls ≠ none ∧ tail = g.page + 8 :=
      fun ⟨g, isG, slab, isTail⟩ => ⟨g, slabs g isG slab, slab, isTail⟩
    rcases classes id cid with kept | ⟨-, -, ⟨tail, list⟩ | new⟩
    · rw [kept.cls]
      exact (inv.tails id cid).imp_right there
    · rw [tail, list]
      exact (inv.tails id cid).imp_right there
    · exact .inr new

/-- The first free object is live, zeroed, and moves no other block. -/
theorem takeObject
    {size : Nat}
    {rest : List Nat}
    (inv : HeapInv sys live grants free)
    (isFree : free id cid = x :: rest)
    (isClass : sizeToClass size = some cid)
    (small : size < 2 ^ 32) :
    (takeObject id cid sys).1 = x ∧ x ≠ 0 ∧
      HeapInv (takeObject id cid sys).2 (⟨id, x, size⟩ :: live) grants
        (setFree free id cid rest) ∧
      (∀ a, x ≤ a → a < x + capacity size → (takeObject id cid sys).2.mem a = 0) ∧
      Kept sys.mem (takeObject id cid sys).2.mem live := by
  have chain := inv.chain id cid
  rw [isFree] at chain
  obtain ⟨isHead, notNull, chainRest⟩ := chain
  have size_eq : capacity size = classSize cid := by
    unfold capacity
    rw [isClass]
    rfl
  have carved := inv.carved.take isFree isClass small
  have listed : x ∈ free id cid := by simp [isFree]
  have isSlot := inv.carved.grant_of_free listed
  have busy : ¬ Idle (setFree free id cid rest) (slotOf id cid x) := by
    have nodup := inv.carved.nodupFree id cid
    rw [isFree] at nodup
    rw [idle_slotOf, setFree_self]
    exact (nodup_cons.mp nodup).1
  unfold CaraOS.Croi.takeObject
  dsimp only
  rw [isHead, inv.sizes id cid]
  set cls := (sys.heaps id).classes cid with isCls
  set taken := sys.setClass id cid ({ · with
    freeHead := read sys.mem x 8
    inFlight := cls.inFlight + 1
    peakInFlight :=
      if cls.peakInFlight < cls.inFlight + 1 then cls.inFlight + 1
      else cls.peakInFlight }) with isTaken
  have classes (id' : HeapId) (cid' : Nat) :
      ((taken.setHeap id (Heap.charge (classSize cid))).heaps id').classes
        cid' = (taken.heaps id').classes cid' :=
    congrFun (HeapSys.setHeap_classes (Heap.charge _) (fun _ => rfl) id') cid'
  refine ⟨rfl, notNull, ?_, ?_, ?_⟩
  · refine HeapInv.setSlot ?_ isSlot busy ?_
    · refine inv.move carved inv.ranges inv.header (fun _ isG _ => isG) (fun id' cid' => ?_)
        (inv.counts.add (.of_heap (fun id' other => ?_) (fun cid' => ?_) ?_ ?_))
      · rw [classes]
        by_cases same : id' = id ∧ cid' = cid
        · obtain ⟨rfl, rfl⟩ := same
          rw [isTaken, HeapSys.setClass_self, setFree_self]
          exact .inr ⟨rfl, chainRest, .inl ⟨rfl, rfl⟩⟩
        · refine .inl ⟨?_, setFree_other same, fun _ _ => Same.refl _ _ _⟩
          rw [classes, HeapSys.setClass_other same]
      · rw [HeapSys.setHeap_other other]
        exact HeapSys.setHeap_other other _
      · rw [classes, isClass]
        by_cases same : cid' = cid
        · rw [same, HeapSys.setClass_self, if_pos rfl]
          rfl
        · rw [HeapSys.setClass_other fun both => same both.2,
            if_neg fun both => same (Option.some.inj both).symm, BitVec.add_zero]
      · rw [HeapSys.setHeap_self, isClass, if_neg (nomatch ·), BitVec.add_zero]
        exact (HeapSys.setClass_counters ..).1
      · rw [HeapSys.setHeap_self, Heap.charge, (HeapSys.setClass_counters ..).2, chargeOf, isClass]
        rfl
    · intro a outside
      exact if_neg outside
  · intro a low high
    rw [size_eq] at high
    exact fill_self low high
  · intro b isLive
    have different : slotOf id cid x ≠ b.slot := by
      intro same
      refine inv.carved.split (idle_slotOf.mpr listed) ?_
      rw [same]
      exact mem_map_of_mem isLive
    exact same_fill _ (inv.carved.slots_apart isSlot (inv.carved.grant_of_live isLive) different)

end HeapInv

/-! ## A new slab -/

/-- The objects of a new slab, in the order of the free list. -/
def seeded (first size : Nat) : Nat → List Nat
  | 0 => []
  | n + 1 => (first + n * size) :: seeded first size n

section Seed

variable {m : Mem} {first size n : Nat}

theorem mem_seeded : x ∈ seeded first size n ↔ ∃ i < n, x = first + i * size := by
  induction n with
  | zero => simp [seeded]
  | succ n ih =>
    rw [seeded, mem_cons, ih]
    constructor
    · rintro (rfl | ⟨i, below, rfl⟩)
      · exact ⟨n, Nat.lt_succ_self n, rfl⟩
      · exact ⟨i, Nat.lt_succ_of_lt below, rfl⟩
    · rintro ⟨i, below, rfl⟩
      rcases Nat.lt_succ_iff_lt_or_eq.mp below with earlier | rfl
      · exact .inr ⟨i, earlier, rfl⟩
      · exact .inl rfl

theorem seeded_lt
    (positive : 0 < size)
    (listed : x ∈ seeded first size n) :
    x < first + n * size := by
  obtain ⟨i, below, rfl⟩ := mem_seeded.mp listed
  exact Nat.add_lt_add_left (Nat.mul_lt_mul_of_pos_right below positive) _

theorem seeded_nodup (positive : 0 < size) : (seeded first size n).Nodup := by
  induction n with
  | zero => exact .nil
  | succ n ih =>
    refine nodup_cons.mpr ⟨fun listed => ?_, ih⟩
    exact Nat.lt_irrefl _ (seeded_lt positive listed)

/-- Seeding writes inside the slab only. -/
theorem seedFreelist_same
    {a k : Nat}
    (room : 8 ≤ size)
    (apart : Apart first (n * size) a k) :
    Same m (seedFreelist m first size n).1 a k := by
  induction n with
  | zero => exact Same.refl m a k
  | succ n ih =>
    have whole : (n + 1) * size = n * size + size := Nat.succ_mul n size
    unfold Apart at apart ih
    refine (ih (by omega)).trans (same_write _ _ ?_)
    unfold Apart
    omega

/-- A seeded slab is one chain of all its objects. -/
theorem seedFreelist_chain
    (room : 8 ≤ size)
    (notNull : first ≠ 0)
    (small : first + n * size ≤ 256 ^ 8) :
    Chain (seedFreelist m first size n).1 (seedFreelist m first size n).2
        (seeded first size n) ∧
      (seedFreelist m first size n).2 < 256 ^ 8 := by
  induction n with
  | zero => exact ⟨rfl, show 0 < 256 ^ 8 by decide⟩
  | succ n ih =>
    have whole : (n + 1) * size = n * size + size := Nat.succ_mul n size
    obtain ⟨chain, below⟩ := ih (by omega)
    refine ⟨chain.push (by omega) below fun y listed => ?_, ?_⟩
    · obtain ⟨i, earlier, rfl⟩ := mem_seeded.mp listed
      have step : (i + 1) * size ≤ n * size := Nat.mul_le_mul_right _ earlier
      rw [Nat.succ_mul] at step
      unfold Apart
      omega
    · show first + n * size < _
      omega

end Seed

section Grow

variable {sys : HeapSys} {id : HeapId} {cid page : Nat}

/-- Linking a slab writes its node and the old tail. -/
theorem addSlab_same
    {a n : Nat}
    (node : Apart (page + 8) 16 a n)
    (tail : ((sys.heaps id).classes cid).slabTailPred = ((sys.heaps id).classes cid).slabList ∨
        Apart ((sys.heaps id).classes cid).slabTailPred 8 a n) :
    Same sys.mem (addSlab id cid page sys).mem a n := by
  have succ : Apart (page + 8) 8 a n := (node.symm.sub le_rfl (by omega)).symm
  have pred : Apart (page + 8 + 8) 8 a n := (node.symm.sub (by omega) (by omega)).symm
  have links : Same sys.mem (write (write sys.mem (page + 8) 8
      (((sys.heaps id).classes cid).slabList + 8)) (page + 8 + 8) 8
        ((sys.heaps id).classes cid).slabTailPred) a n :=
    (same_write _ _ succ).trans (same_write _ _ pred)
  unfold addSlab
  dsimp only
  split
  · exact links
  · rename_i notFirst
    exact links.trans (same_write _ _ (tail.resolve_left notFirst))

/-- Linking a slab changes its class's tail alone. -/
theorem addSlab_heaps
    (sys : HeapSys)
    (id : HeapId)
    (cid page : Nat) :
    (let cls := ((addSlab id cid page sys).heaps id).classes cid
      let old := (sys.heaps id).classes cid
      cls.objSize = old.objSize ∧ cls.slabList = old.slabList ∧
        cls.inFlight = old.inFlight ∧ cls.slabTailPred = page + 8) ∧
      (∀ id' cid', ¬ (id' = id ∧ cid' = cid) → ((addSlab id cid page sys).heaps id').classes cid' =
          (sys.heaps id').classes cid') ∧
      ∀ id', ((addSlab id cid page sys).heaps id').largeInFlight = (sys.heaps id').largeInFlight ∧
        ((addSlab id cid page sys).heaps id').bytesInFlight = (sys.heaps id').bytesInFlight := by
  unfold addSlab
  dsimp only
  split
  · refine ⟨?_, fun id' cid' other => ?_, fun id' => ?_⟩
    · rw [HeapSys.setClass_self, HeapSys.setClass_self]
      exact ⟨rfl, rfl, rfl, rfl⟩
    · rw [HeapSys.setClass_other other, HeapSys.setClass_other other]
      rfl
    · rw [(HeapSys.setClass_counters ..).1, (HeapSys.setClass_counters ..).2,
        (HeapSys.setClass_counters ..).1, (HeapSys.setClass_counters ..).2]
      exact ⟨rfl, rfl⟩
  · refine ⟨?_, fun id' cid' other => ?_, fun id' => ?_⟩
    · rw [HeapSys.setClass_self]
      exact ⟨rfl, rfl, rfl, rfl⟩
    · rw [HeapSys.setClass_other other]
      rfl
    · rw [(HeapSys.setClass_counters ..).1, (HeapSys.setClass_counters ..).2]
      exact ⟨rfl, rfl⟩

theorem addSlab_rest
    (sys : HeapSys)
    (id : HeapId)
    (cid page : Nat) :
    (addSlab id cid page sys).sharedLo = sys.sharedLo ∧
      (addSlab id cid page sys).sharedHi = sys.sharedHi ∧
      (addSlab id cid page sys).ranges = sys.ranges := by
  unfold addSlab
  dsimp only
  split <;> exact ⟨rfl, rfl, rfl⟩

namespace HeapInv

variable {live : List Block} {grants : List Grant} {free : HeapId → Nat → List Nat}

variable (inv : HeapInv sys live grants free)
include inv

theorem page_le
    {g : Grant}
    (isG : g ∈ grants) :
    pageSize ≤ g.nPages * pageSize :=
  Nat.le_mul_of_pos_left _ (inv.carved.valid isG).count.1

/-- A fresh range lies apart from every grant. -/
theorem fresh_apart
    {nPages : Nat}
    {g : Grant}
    (fresh : FreshRange sys id page nPages)
    (isG : g ∈ grants) :
    Apart page (nPages * pageSize) g.page (g.nPages * pageSize) := by
  refine fresh.apart (g.page, g.nPages) ?_
  rw [inv.ranges]
  exact mem_map.mpr ⟨g, isG, rfl⟩

theorem fresh_header
    {nPages : Nat}
    {g : Grant}
    (fresh : FreshRange sys id page nPages)
    (isG : g ∈ grants) :
    Apart page (nPages * pageSize) g.page 8 := by
  have one := inv.page_le isG
  exact (inv.fresh_apart fresh isG).sub le_rfl (Nat.add_le_add_left (le_trans (by decide) one) _)

theorem fresh_slot
    {nPages : Nat}
    {s : Slot}
    (fresh : FreshRange sys id page nPages)
    (isSlot : ∃ g ∈ grants, s ∈ g.slots) :
    Apart page (nPages * pageSize) s.ptr s.size := by
  obtain ⟨g, isG, inG⟩ := isSlot
  obtain ⟨low, high, -⟩ := Grant.slot_inside (inv.carved.valid isG) inG
  exact (inv.fresh_apart fresh isG).sub (le_trans (Nat.le_add_right ..) low) high

/-- The tail node lies apart from headers and slots. -/
theorem tail_apart
    (fresh : FreshRange sys id page 1)
    (other : ((sys.heaps id).classes cid).slabTailPred ≠ ((sys.heaps id).classes cid).slabList) :
    let tail := ((sys.heaps id).classes cid).slabTailPred
    Apart tail 8 page 8 ∧ (∀ g ∈ grants, Apart tail 8 g.page 8) ∧
      ∀ s, (∃ g ∈ grants, s ∈ g.slots) → Apart tail 8 s.ptr s.size := by
  obtain ⟨g, isG, slab, isTail⟩ := (inv.tails id cid).resolve_left other
  have one := inv.page_le isG
  have header : g.headerSize = 24 := by
    unfold Grant.headerSize
    split
    · rfl
    · rename_i isLarge
      exact absurd isLarge slab
  rw [isTail]
  refine ⟨?_, fun h isH => ?_, fun s isSlot => ?_⟩
  · have apart := inv.fresh_apart fresh isG
    unfold Apart pageSize at *
    omega
  · by_cases same : h = g
    · subst same
      exact .inr le_rfl
    · have apart := inv.carved.ranges_apart isG isH (Ne.symm same)
      unfold Apart pageSize at *
      omega
  · have apart := inv.carved.header_apart isG isSlot
    exact (apart.symm.sub (by omega) (by omega)).symm

/-- A fresh page becomes a slab of free objects. -/
theorem slabGrow
    (known : cid < 8)
    (none : free id cid = [])
    (fresh : FreshRange sys id page 1) :
    ∃ after, slabGrow id cid (some page) sys = some after ∧
      HeapInv after live (⟨id, page, 1, some cid⟩ :: grants)
        (setFree free id cid (seeded (page + firstOff (classSize cid))
          (classSize cid) (nObjs (classSize cid)))) ∧
      Kept sys.mem after.mem live := by
  have shape := classShape known
  have room : 8 ≤ classSize cid := le_trans (by decide) shape.small
  have first : 24 ≤ firstOff (classSize cid) := shape.first
  have fits := shape.fits
  have small := fresh.small
  set marked : HeapSys :=
    { sys with
      mem := write (write (fill sys.mem page (1 * pageSize)) page 4 slabMagic) (page + 4) 1 cid
      ranges := (page, 1) :: sys.ranges } with isMarked
  set linked := addSlab id cid page marked with isLinked
  obtain ⟨⟨objSize, slabList, inFlight, tailPred⟩, others, counters⟩ :=
    addSlab_heaps marked id cid page
  obtain ⟨lo, hi, ranges⟩ := addSlab_rest marked id cid page
  have isSize : ((linked.heaps id).classes cid).objSize = classSize cid :=
    objSize.trans (inv.sizes id cid)
  set seeds := seedFreelist linked.mem (page + firstOff (classSize cid))
    (classSize cid) (nObjs (classSize cid)) with isSeeds
  have isGrown : CaraOS.Croi.slabGrow id cid (some page) sys =
      some ((linked.setMem seeds.1).setClass id cid ({ · with freeHead := seeds.2 })) := by
    show some (seedSlab id cid page (addSlab id cid page marked)) = _
    unfold seedSlab
    rw [isSize]
  have otherClass {id' : HeapId} {cid' : Nat} (other : ¬ (id' = id ∧ cid' = cid)) :
      (((linked.setMem seeds.1).setClass id cid
        ({ · with freeHead := seeds.2 })).heaps id').classes cid' = (sys.heaps id').classes cid' :=
    (HeapSys.setClass_other other _).trans (others id' cid' other)
  -- what is apart from the page and from the list stays as it is
  have linkedSame {a n : Nat} (node : Apart (page + 8) 16 a n)
      (tail : ((sys.heaps id).classes cid).slabTailPred ≠ ((sys.heaps id).classes cid).slabList →
        Apart ((sys.heaps id).classes cid).slabTailPred 8 a n) :
      Same marked.mem linked.mem a n := by
    refine addSlab_same node ?_
    by_cases first : ((sys.heaps id).classes cid).slabTailPred =
      ((sys.heaps id).classes cid).slabList
    · exact .inl first
    · exact .inr (tail first)
  have markedSame {a n : Nat} (new : Apart page pageSize a n) : Same sys.mem marked.mem a n := by
    refine ((same_fill _ new).trans (same_write _ _ ?_)).trans (same_write _ _ ?_)
    · exact (new.symm.sub le_rfl (by omega)).symm
    · exact (new.symm.sub (by omega) (by omega)).symm
  have seedsSame {a n : Nat} (apart : Apart (page + firstOff (classSize cid))
        (nObjs (classSize cid) * classSize cid) a n) : Same linked.mem seeds.1 a n :=
    seedFreelist_same room apart
  have frame {a n : Nat} (new : Apart page pageSize a n)
      (tail : ((sys.heaps id).classes cid).slabTailPred ≠ ((sys.heaps id).classes cid).slabList →
        Apart ((sys.heaps id).classes cid).slabTailPred 8 a n) : Same sys.mem seeds.1 a n :=
    ((markedSame new).trans (linkedSame (new.symm.sub (by omega) (by omega)).symm tail)).trans
        (seedsSame (new.symm.sub (by omega) (by omega)).symm)
  have newHeader : Same marked.mem seeds.1 page 8 := by
    refine (linkedSame (.inr le_rfl) fun other => ?_).trans (seedsSame (.inr (by omega)))
    exact (inv.tail_apart fresh other).1
  have valid : Grant.Valid ⟨id, page, 1, some cid⟩ sys.sharedLo sys.sharedHi := by
    refine ⟨fresh.notNull, fresh.aligned, fresh.small,
      ⟨Nat.one_pos, by simp⟩, fun isClass => ?_, fresh.window⟩
    cases isClass
    exact ⟨known, rfl⟩
  have slotFrame {s : Slot} (isSlot : ∃ g ∈ grants, s ∈ g.slots) :
      Same sys.mem seeds.1 s.ptr s.size :=
    frame (inv.fresh_slot fresh isSlot) fun other => (inv.tail_apart fresh other).2.2 s isSlot
  refine ⟨_, isGrown, ?_, fun b isLive =>
    slotFrame (inv.carved.grant_of_live isLive)⟩
  · refine inv.move ?_ ?_ ?_ (fun _ isG _ => mem_cons_of_mem _ isG) (fun id' cid' => ?_) ?_
    · show Carved _ live _ linked.sharedLo linked.sharedHi
      rw [lo, hi]
      exact inv.carved.addSlab valid (fun _ isG => inv.fresh_apart fresh isG) rfl none
        (seeded_nodup (by omega)) mem_seeded
    · show linked.ranges = _
      rw [ranges, isMarked, map_cons, inv.ranges]
    · intro g listed
      rcases mem_cons.mp listed with rfl | listed
      · refine Grant.Header.frame ?_ newHeader
        refine ⟨?_, read_write (by omega)⟩
        rw [(same_write _ _ (.inr le_rfl)).read_eq]
        exact read_write (by decide)
      · exact (inv.header listed).frame (frame (inv.fresh_header fresh listed) fun other =>
          (inv.tail_apart fresh other).2.1 g listed)
    · by_cases same : id' = id ∧ cid' = cid
      · obtain ⟨rfl, rfl⟩ := same
        rw [setFree_self, HeapSys.setClass_self]
        exact .inr ⟨objSize, (seedFreelist_chain room (by omega) (by omega)).1,
          .inr ⟨_, mem_cons_self .., nofun, tailPred⟩⟩
      · refine .inl ⟨otherClass same, setFree_other same, fun x isFree => ?_⟩
        obtain ⟨isSlot, size⟩ := inv.object_slot isFree
        exact (slotFrame isSlot).sub le_rfl (Nat.add_le_add_left size _)
    · refine ⟨fun id' cid' => ?_, fun id' => ?_, fun id' => ?_⟩
      · by_cases same : id' = id ∧ cid' = cid
        · obtain ⟨rfl, rfl⟩ := same
          rw [HeapSys.setClass_self]
          exact inFlight.trans (inv.counts.small id' cid')
        · rw [otherClass same]
          exact inv.counts.small id' cid'
      · rw [(HeapSys.setClass_counters ..).1]
        exact (counters id').1.trans (inv.counts.large id')
      · rw [(HeapSys.setClass_counters ..).2]
        exact (counters id').2.trans (inv.counts.bytes id')

/-- A large block has pages of its own, zeroed. -/
theorem allocLarge
    {size : Nat}
    (isLarge : sizeToClass size = none)
    (small : size < 2 ^ 32)
    (fresh : FreshRange sys id page (pagesFor size)) :
    (allocLarge id size (some page) sys).1 = page + largeHeaderSize ∧
      HeapInv (allocLarge id size (some page) sys).2
        (⟨id, page + largeHeaderSize, size⟩ :: live)
        (⟨id, page, pagesFor size, none⟩ :: grants) free ∧
      (∀ a, page + largeHeaderSize ≤ a → a < page + largeHeaderSize + capacity size →
        (allocLarge id size (some page) sys).2.mem a = 0) ∧
      Kept sys.mem (allocLarge id size (some page) sys).2.mem live := by
  obtain ⟨room, positive, few⟩ := pagesFor_spec small
  have size_eq : capacity size = pagesFor size * pageSize - largeHeaderSize := by
    unfold capacity
    rw [isLarge]
  have header : largeHeaderSize = 8 := rfl
  have isSize : pageSize = 4096 := rfl
  set mem := write (write (fill sys.mem page (pagesFor size * pageSize)) page 4
    largeMagic) (page + 4) 4 (pagesFor size) with isMem
  have frame {a n : Nat} (apart : Apart page (pagesFor size * pageSize) a n) :
      Same sys.mem mem a n := by
    refine ((same_fill _ apart).trans (same_write _ _ ?_)).trans (same_write _ _ ?_)
    · exact (apart.symm.sub le_rfl (by omega)).symm
    · exact (apart.symm.sub (by omega) (by omega)).symm
  have valid : Grant.Valid ⟨id, page, pagesFor size, none⟩ sys.sharedLo sys.sharedHi :=
    ⟨fresh.notNull, fresh.aligned, fresh.small, ⟨positive, few⟩, nofun, fresh.window⟩
  have isSlot : Block.slot ⟨id, page + largeHeaderSize, size⟩ ∈
      Grant.slots ⟨id, page, pagesFor size, none⟩ := by
    rw [Grant.mem_slots_large rfl]
    unfold Block.slot
    rw [isLarge, size_eq]
  set start : HeapSys :=
    { sys with
      mem := mem
      ranges := (page, pagesFor size) :: sys.ranges } with isStart
  have sameClasses (id' : HeapId) : ((start.setHeap id (Heap.chargeLarge (pagesFor size))).heaps
        id').classes = (sys.heaps id').classes := by
    apply HeapSys.setHeap_classes
    exact fun _ => rfl
  have slotFrame {s : Slot} (isSlot : ∃ g ∈ grants, s ∈ g.slots) : Same sys.mem mem s.ptr s.size :=
    frame (inv.fresh_slot fresh isSlot)
  refine ⟨rfl, ?_, ?_, fun b isLive =>
    slotFrame (inv.carved.grant_of_live isLive)⟩
  · show HeapInv (start.setHeap id (Heap.chargeLarge (pagesFor size))) _ _ _
    refine inv.move ?_ ?_ ?_ (fun _ isG _ => mem_cons_of_mem _ isG)
      (fun id' cid' => .inl ⟨congrFun (sameClasses id') cid', rfl, fun x isFree => ?_⟩) ?_
    · exact inv.carved.addLarge valid (fun _ isG => inv.fresh_apart fresh isG) rfl isSlot small
    · show (page, pagesFor size) :: sys.ranges = _
      rw [map_cons, inv.ranges]
    · intro g listed
      rcases mem_cons.mp listed with rfl | listed
      · refine ⟨?_, read_write (lt_of_lt_of_le few (by decide))⟩
        show read mem page 4 = _
        rw [(same_write _ _ (.inr le_rfl)).read_eq]
        exact read_write (by decide)
      · exact (inv.header listed).frame (frame (inv.fresh_header fresh listed))
    · obtain ⟨isSlot, size⟩ := inv.object_slot isFree
      exact (slotFrame isSlot).sub le_rfl (Nat.add_le_add_left size _)
    · refine inv.counts.add (.of_heap (fun id' other => ?_) (fun cid' => ?_) ?_ ?_)
      · rw [HeapSys.setHeap_other other]
      · rw [sameClasses, isLarge, if_neg (nomatch ·), BitVec.add_zero]
      · rw [HeapSys.setHeap_self, isLarge]
        rfl
      · rw [HeapSys.setHeap_self, chargeOf, isLarge]
        rfl
  · intro a low high
    show mem a = 0
    rw [isMem, write, if_neg (by omega), write, if_neg (by omega)]
    exact fill_self (by omega) (by omega)

end HeapInv

end Grow

/-! ## Giving back -/

section Give

variable {sys : HeapSys} {live : List Block} {grants : List Grant}
  {free : HeapId → Nat → List Nat} {b : Block} {cid : Nat}

namespace HeapInv

section

variable (inv : HeapInv sys live grants free)
include inv

/-- A pointer names the heap it came from. -/
theorem routeFree_eq (isLive : b ∈ live) : routeFree b.ptr sys = b.heap := by
  obtain ⟨g, isG, inG⟩ := inv.carved.grant_of_live isLive
  have valid := inv.carved.valid isG
  obtain ⟨low, high, large⟩ := Grant.slot_inside valid inG
  have isHeap : b.heap = g.heap := (Grant.heap_of_mem inG).1
  have window := valid.window
  replace low : g.page + g.headerSize ≤ b.ptr := low
  replace high : b.ptr + b.slot.size ≤ _ := high
  unfold Grant.InWindow at window
  rw [isHeap]
  cases heap : g.heap with
  | shared =>
    rw [heap] at window
    exact if_pos ⟨by omega, by omega⟩
  | kernel =>
    rw [heap] at window
    exact if_neg (by omega)

/-- The header of its page tells what a block is. -/
theorem live_grant (isLive : b ∈ live) :
    ∃ g ∈ grants, b.slot ∈ g.slots ∧ g.cls = sizeToClass b.size ∧ b.ptr ≠ 0 ∧
      b.ptr - b.ptr % pageSize = g.page ∧ 8 ≤ b.slot.size := by
  obtain ⟨g, isG, inG⟩ := inv.carved.grant_of_live isLive
  have valid := inv.carved.valid isG
  obtain ⟨low, -, large⟩ := Grant.slot_inside valid inG
  have notNull := valid.notNull
  refine ⟨g, isG, inG, (Grant.heap_of_mem inG).2.symm, fun isNull => notNull ?_,
    Grant.page_of_slot valid inG, le_trans (by decide) large⟩
  replace low : g.page + g.headerSize ≤ b.ptr := low
  omega

/-- A small block goes back to its own free list. -/
theorem freeSmall
    (isLive : b ∈ live)
    (isClass : sizeToClass b.size = some cid) :
    HeapInv (croiFree b.ptr sys) (live.erase b) grants
        (setFree free b.heap cid (b.ptr :: free b.heap cid)) ∧
      Kept sys.mem (croiFree b.ptr sys).mem (live.erase b) := by
  obtain ⟨g, isG, inG, isCls, notNull, page, large⟩ := inv.live_grant isLive
  have header := inv.header isG
  unfold Grant.Header at header
  rw [isCls, isClass] at header
  obtain ⟨magic, isCid⟩ := header
  have busy : ¬ Idle free b.slot := fun idle =>
    inv.carved.split idle (mem_map_of_mem isLive)
  have headLt := inv.freeHead_lt b.heap cid
  have inside {a n : Nat} (apart : Apart a n b.ptr b.slot.size) : Apart b.ptr 8 a n :=
    (apart.sub le_rfl (Nat.add_le_add_left large _)).symm
  have objects (id' : HeapId) (cid' : Nat) (x : Nat)
      (isFree : x ∈ free id' cid') : Apart b.ptr 8 x 8 := by
    have different : slotOf id' cid' x ≠ b.slot := by
      intro same
      rw [← same] at busy
      exact busy (idle_slotOf.mpr isFree)
    obtain ⟨isObject, size⟩ := inv.object_slot isFree
    have apart := inv.carved.slots_apart isObject ⟨g, isG, inG⟩ different
    exact (inside apart).sub le_rfl (Nat.add_le_add_left size _)
  unfold croiFree
  dsimp only
  rw [if_neg notNull, inv.routeFree_eq isLive, page, if_pos magic, isCid]
  set cls := (sys.heaps b.heap).classes cid with isCls
  set given := (sys.setMem (write sys.mem b.ptr 8 cls.freeHead)).setClass
    b.heap cid ({ · with freeHead := b.ptr, inFlight := cls.inFlight - 1 })
    with isGiven
  have classes (id' : HeapId) (cid' : Nat) : ((given.setHeap b.heap fun h =>
        { h with
          bytesInFlight := h.bytesInFlight - BitVec.ofNat 64 cls.objSize
          }).heaps id').classes cid' = (given.heaps id').classes cid' := by
    rw [HeapSys.setHeap_classes]
    exact fun _ => rfl
  have counters (id' : HeapId) : (given.heaps id').largeInFlight = (sys.heaps id').largeInFlight ∧
        (given.heaps id').bytesInFlight = (sys.heaps id').bytesInFlight := by
    apply HeapSys.setClass_counters
  refine ⟨?_, fun c isC => ?_⟩
  rotate_left
  · have different : c.slot ≠ b.slot :=
      ((inv.carved.live_erase isLive).mp (mem_map_of_mem isC)).2
    exact same_write _ _ (inside (inv.carved.slots_apart
      (inv.carved.grant_of_live (mem_of_mem_erase isC)) ⟨g, isG, inG⟩ different))
  refine inv.move (inv.carved.give isLive isClass) inv.ranges (fun {h} isH => ?_)
    (fun _ isG _ => isG) (fun id' cid' => ?_)
    (inv.counts.sub isLive (.of_heap (fun id' other => ?_) (fun cid' => ?_) ?_ ?_))
  · have apart := inv.carved.header_apart isH ⟨g, isG, inG⟩
    have size := header_le h
    exact (inv.header isH).frame (same_write _ _ ((inside apart).sub le_rfl (by omega)))
  · rw [classes]
    by_cases same : id' = b.heap ∧ cid' = cid
    · obtain ⟨rfl, rfl⟩ := same
      rw [isGiven, HeapSys.setClass_self, setFree_self]
      exact .inr ⟨rfl, (inv.chain _ _).push notNull headLt (objects _ _), .inl ⟨rfl, rfl⟩⟩
    · refine .inl ⟨?_, setFree_other same, fun x isFree => same_write _ _ (objects id' cid' x isFree)⟩
      rw [classes, HeapSys.setClass_other same]
      rfl
  · rw [HeapSys.setHeap_other other, isGiven, HeapSys.setClass, HeapSys.setHeap_other other]
    rfl
  · rw [classes, isClass]
    by_cases same : cid' = cid
    · rw [same, HeapSys.setClass_self, if_pos rfl]
      exact (BitVec.sub_add_cancel ..).symm
    · rw [HeapSys.setClass_other fun both => same both.2,
        if_neg fun both => same (Option.some.inj both).symm, BitVec.add_zero]
      rfl
  · rw [HeapSys.setHeap_self, isClass, if_neg (nomatch ·), BitVec.add_zero]
    exact (counters b.heap).1.symm
  · rw [HeapSys.setHeap_self, chargeOf, isClass, ← (counters b.heap).2, inv.sizes b.heap cid]
    exact (BitVec.sub_add_cancel ..).symm

/-- A large block gives its pages back. -/
theorem freeLarge
    (isLive : b ∈ live)
    (isLarge : sizeToClass b.size = none) :
    (∃ grants', HeapInv (croiFree b.ptr sys) (live.erase b) grants' free) ∧
      Kept sys.mem (croiFree b.ptr sys).mem (live.erase b) := by
  obtain ⟨g, isG, inG, isCls, notNull, page, -⟩ := inv.live_grant isLive
  have grantLarge : g.cls = none := isCls.trans isLarge
  have header := inv.header isG
  unfold Grant.Header at header
  rw [grantLarge] at header
  obtain ⟨magic, count⟩ := header
  have pages : g.nPages = pagesFor b.size := by
    have isSlot := (Grant.mem_slots_large grantLarge).mp inG
    have sameSize := congrArg Slot.size isSlot
    have size_eq : b.slot.size = pagesFor b.size * pageSize - largeHeaderSize := by
      show capacity b.size = _
      unfold capacity
      rw [isLarge]
    rw [size_eq] at sameSize
    replace sameSize : pagesFor b.size * pageSize - largeHeaderSize =
      g.nPages * pageSize - largeHeaderSize := sameSize
    unfold pageSize largeHeaderSize at sameSize
    omega
  have notSlab : ¬ largeMagic = slabMagic := by decide
  have kept {h : Grant} (slab : h.cls ≠ none) (isH : h ∈ grants) :
      h ∈ grants.filter fun h => (h.page, h.nPages) ≠ (g.page, g.nPages) := by
    rw [mem_filter, decide_eq_true_eq]
    refine ⟨isH, fun same => ?_⟩
    have different : h ≠ g := by
      rintro rfl
      exact slab grantLarge
    have apart := inv.carved.ranges_apart isH isG different
    obtain ⟨samePage, sameCount⟩ := Prod.mk.inj same
    have positive := (inv.carved.valid isG).count.1
    unfold Apart pageSize at apart
    omega
  unfold croiFree
  dsimp only
  rw [if_neg notNull, inv.routeFree_eq isLive, page, magic, if_neg notSlab, if_pos rfl, count]
  unfold pageFree
  have sameClasses (id' : HeapId) : ((sys.setHeap b.heap fun h =>
        { h with
          largeInFlight := h.largeInFlight - 1
          bytesInFlight :=
            h.bytesInFlight - BitVec.ofNat 64 (g.nPages * pageSize)
          }).heaps id').classes = (sys.heaps id').classes := by
    apply HeapSys.setHeap_classes
    exact fun _ => rfl
  refine ⟨⟨grants.filter fun h => (h.page, h.nPages) ≠ (g.page, g.nPages),
    ?_⟩, fun c _ => Same.refl _ _ _⟩
  refine inv.move (inv.carved.dropLarge isLive isG grantLarge inG) ?_
    (fun listed => inv.header (mem_filter.mp listed).1) (fun _ isH slab => kept slab isH)
    (fun id' cid' => .inl ⟨congrFun (sameClasses id') cid', rfl, fun _ _ => Same.refl _ _ _⟩) ?_
  · show sys.ranges.filter _ = _
    rw [inv.ranges, filter_map]
    rfl
  · refine inv.counts.sub isLive (.of_heap (fun id' other => ?_) (fun cid' => ?_) ?_ ?_)
    · rw [HeapSys.setHeap_other other]
    · rw [sameClasses, isLarge, if_neg (nomatch ·), BitVec.add_zero]
    · rw [HeapSys.setHeap_self, isLarge]
      exact (BitVec.sub_add_cancel ..).symm
    · rw [HeapSys.setHeap_self, chargeOf, isLarge, pages]
      exact (BitVec.sub_add_cancel ..).symm

end

end HeapInv

end Give

end CaraOS.Croi
