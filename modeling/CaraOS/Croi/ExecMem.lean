import CaraOS.Croi.HeapRun

namespace CaraOS.Croi

/-!
# AllocMem and AllocVec

`mem.c`: public memory comes from the shared heap, and `AllocVec` puts the
size in front of it, so that `FreeVec` needs the pointer alone.
-/

open ByteMem List

/-- `Croi_AllocMem_Impl`; `clear` is `MEMF_CLEAR`, the only flag with effect. -/
def croiAllocMem (size : Nat) (clear : Bool) (grant : Option Nat) (sys : HeapSys) : Nat × HeapSys :=
  if size = 0 then
    (0, sys)
  else
    let (p, sys) := allocFrom .shared size grant sys
    if p = 0 then (0, sys)
    else if clear then (p, sys.setMem (fill sys.mem p size))
    else (p, sys)

/-- `Croi_FreeMem_Impl`, which does not look at the size. -/
def croiFreeMem (addr : Nat) (sys : HeapSys) : HeapSys :=
  if addr ≠ 0 then croiFree addr sys else sys

/-- `total` of `Croi_AllocVec_Impl`, a `ULONG`. -/
def vecTotal (size : Nat) : Nat :=
  (size + 8) % 2 ^ 32

/-- `Croi_AllocVec_Impl`. -/
def croiAllocVec (size : Nat) (clear : Bool) (grant : Option Nat) (sys : HeapSys) : Nat × HeapSys :=
  if size = 0 ∨ 0xFFFFFFF0 < size then
    (0, sys)
  else
    let (base, sys) := croiAllocMem (vecTotal size) clear grant sys
    if base = 0 then (0, sys)
    else (base + 8, sys.setMem (write sys.mem base 8 (vecTotal size)))

/-- `Croi_FreeVec_Impl`. -/
def croiFreeVec (mem : Nat) (sys : HeapSys) : HeapSys :=
  if mem = 0 then sys else croiFreeMem (mem - 8) sys

namespace HeapRun.Inv

variable {r : HeapRun} {b c : Block}

section

variable (inv : r.Inv)
include inv

section

variable (isB : b ∈ r.live)
include isB

theorem erase_apart (isC : c ∈ r.live.erase b) :
    Apart b.ptr (capacity b.size) c.ptr (capacity c.size) := by
  obtain ⟨grants, free, inv⟩ := inv
  have different : c.slot ≠ b.slot := ((inv.carved.live_erase isB).mp (mem_map_of_mem isC)).2
  exact inv.carved.slots_apart (inv.carved.grant_of_live isB)
    (inv.carved.grant_of_live (mem_of_mem_erase isC)) different.symm

theorem setInside (mem : Mem)
    (outside : ∀ a, ¬ (b.ptr ≤ a ∧ a < b.ptr + capacity b.size) → mem a = r.sys.mem a) :
    HeapRun.Inv ⟨r.sys.setMem mem, r.live⟩ ∧
      Kept r.sys.mem mem (r.live.erase b) := by
  refine ⟨?_, fun c isC a low high => outside a ?_⟩
  · obtain ⟨grants, free, inv⟩ := inv
    refine ⟨grants, free, inv.setSlot (inv.carved.grant_of_live isB) (fun idle => ?_) outside⟩
    exact inv.carved.split idle (mem_map_of_mem isB)
  · have apart := inv.erase_apart isB isC
    unfold Apart at apart
    omega

theorem capacity_le : b.size ≤ capacity b.size ∧ 16 ≤ capacity b.size := by
  obtain ⟨grants, free, inv⟩ := inv
  refine ⟨le_capacity (inv.carved.small isB), ?_⟩
  obtain ⟨g, isG, inG⟩ := inv.carved.grant_of_live isB
  exact (Grant.slot_inside (inv.carved.valid isG) inG).2.2

theorem ptr_ne_zero : b.ptr ≠ 0 := by
  obtain ⟨grants, free, inv⟩ := inv
  obtain ⟨g, isG, inG⟩ := inv.carved.grant_of_live isB
  have valid := inv.carved.valid isG
  have low : g.page + g.headerSize ≤ b.ptr := (Grant.slot_inside valid inG).1
  have notNull := valid.notNull
  omega

theorem ptr_mod : b.ptr % 16 = if sizeToClass b.size = none then 8 else 0 := by
  obtain ⟨grants, free, inv⟩ := inv
  obtain ⟨g, isG, inG⟩ := inv.carved.grant_of_live isB
  have valid := inv.carved.valid isG
  have aligned : g.page % 4096 = 0 := valid.aligned
  have isClass : sizeToClass b.size = g.cls := (Grant.heap_of_mem inG).2
  rw [isClass]
  cases cls : g.cls with
  | none =>
    rw [if_pos rfl]
    have isSlot := (Grant.mem_slots_large cls).mp inG
    have isPtr : b.ptr = g.page + 8 := congrArg Slot.ptr isSlot
    omega
  | some cid =>
    rw [if_neg (Option.some_ne_none cid)]
    obtain ⟨i, -, isSlot⟩ := (Grant.mem_slots_slab cls).mp inG
    have isPtr : b.ptr = g.page + firstOff (classSize cid) +
        i * classSize cid := congrArg Slot.ptr isSlot
    have known := (valid.known cls).1
    have even : ∀ cid < 8, firstOff (classSize cid) % 16 = 0 ∧ classSize cid % 16 = 0 := by decide
    obtain ⟨first, size⟩ := even cid known
    have objects : i * classSize cid % 16 = 0 := by
      rw [Nat.mul_mod, size, Nat.mul_zero]
    omega

end

end

end HeapRun.Inv

section Vec

variable {r : HeapRun} {size : Nat} {grant : Option Nat}

/-- `AllocVec` takes the size for none of its own, or the heap has no room. -/
def VecRefused (size : Nat) (grant : Option Nat) (sys : HeapSys) : Prop :=
  size = 0 ∨ 0xFFFFFFF0 < size ∨ NoRoom .shared (vecTotal size) grant sys

/-- A block that `AllocVec` made, behind its size. -/
structure VecServed (r : HeapRun) (size : Nat) (answer : Nat × HeapSys) :
    Prop where
  notNull : answer.1 ≠ 0
  size_le : size ≠ 0 ∧ size ≤ 0xFFFFFFF0
  ptr_le : 8 ≤ answer.1
  inv : HeapRun.Inv ⟨answer.2, ⟨.shared, answer.1 - 8, vecTotal size⟩ :: r.live⟩
  kept : Kept r.sys.mem answer.2.mem r.live

theorem croiAllocMem_served
    (clear : Bool)
    (inv : r.Inv)
    (small : size < 2 ^ 32)
    (good : GoodGrant r.sys .shared size grant) :
    let answer := croiAllocMem size clear grant r.sys
    (NoRoom .shared size grant r.sys ∧ answer = (0, r.sys)) ∨
      (¬ NoRoom .shared size grant r.sys ∧ answer.1 ≠ 0 ∧
        HeapRun.Inv ⟨answer.2, ⟨.shared, answer.1, size⟩ :: r.live⟩ ∧
        Kept r.sys.mem answer.2.mem r.live) := by
  obtain ⟨grants, free, inv⟩ := inv
  have served := inv.allocFrom small good
  unfold croiAllocMem
  dsimp only
  split
  · exact .inl ⟨.inl ‹_›, rfl⟩
  rcases served with ⟨noRoom, same⟩ | ⟨room, isPtr, after, zero, kept⟩
  · rw [same, if_pos rfl]
    exact .inl ⟨noRoom, rfl⟩
  rw [if_neg isPtr]
  refine .inr ⟨room, ?_⟩
  split
  · have large := (after.capacity_le (mem_cons_self ..)).1
    obtain ⟨inside, others⟩ := after.setInside (mem_cons_self ..)
      (fill (allocFrom .shared size grant r.sys).2.mem (allocFrom .shared size grant r.sys).1 size)
      fun a out => if_neg fun isIn => out ⟨isIn.1, isIn.2.trans_le (Nat.add_le_add_left large _)⟩
    rw [erase_cons_head] at others
    exact ⟨isPtr, inside, fun b isLive => (kept b isLive).trans (others b isLive)⟩
  · exact ⟨isPtr, after, kept⟩

theorem croiAllocVec_served
    (clear : Bool)
    (inv : r.Inv)
    (good : GoodGrant r.sys .shared (vecTotal size) grant) :
    let answer := croiAllocVec size clear grant r.sys
    (VecRefused size grant r.sys ∧ answer = (0, r.sys)) ∨
      (¬ VecRefused size grant r.sys ∧ VecServed r size answer) := by
  have small : vecTotal size < 2 ^ 32 := Nat.mod_lt _ (by decide)
  have served := croiAllocMem_served clear inv small good
  unfold croiAllocVec
  dsimp only at *
  split
  case isTrue bad => exact .inl ⟨bad.elim .inl fun large => .inr (.inl large), rfl⟩
  case isFalse fits =>
  obtain ⟨positive, small⟩ := not_or.mp fits
  rcases served with ⟨noRoom, same⟩ | ⟨room, isPtr, after, kept⟩
  · rw [same, if_pos rfl]
    exact .inl ⟨.inr (.inr noRoom), rfl⟩
  rw [if_neg isPtr]
  have large := (after.capacity_le (mem_cons_self ..)).2
  set base := croiAllocMem (vecTotal size) clear grant r.sys
  obtain ⟨inside, others⟩ := after.setInside (mem_cons_self ..)
    (write base.2.mem base.1 8 (vecTotal size)) fun a out => if_neg fun isIn => out
        ⟨isIn.1, isIn.2.trans_le (Nat.add_le_add_left (by omega) _)⟩
  rw [erase_cons_head] at others
  refine .inr ⟨not_or.mpr ⟨positive, not_or.mpr ⟨small, room⟩⟩, Nat.succ_ne_zero _,
    ⟨positive, Nat.le_of_not_lt small⟩, Nat.le_add_left .., ?_,
    fun b isLive => (kept b isLive).trans (others b isLive)⟩
  rwa [Nat.add_sub_cancel]

theorem croiFreeVec_eq {b : Block} {sys : HeapSys} (notNull : b.ptr ≠ 0) :
    croiFreeVec (b.ptr + 8) sys = croiFree b.ptr sys := by
  unfold croiFreeVec croiFreeMem
  rw [if_neg (Nat.succ_ne_zero _), Nat.add_sub_cancel, if_pos notNull]

end Vec

end CaraOS.Croi
