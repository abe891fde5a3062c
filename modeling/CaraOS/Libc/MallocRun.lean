import CaraOS.Libc.Malloc

namespace CaraOS.Libc

/-!
# Runs of malloc

A call that asks for at most what a `ULONG` can say keeps the program's blocks
inside blocks of the heap of their own.  The pointer is 16-aligned only when
the block is a large one: the two headers are 24 bytes, the objects of a slab
are 16-aligned, and a large block starts 8 bytes into its page.
-/

open ByteMem Croi List

variable {size : Nat}

section Sizes

variable {n : Nat}

theorem le_payloadSize (n : Nat) : n ≤ payloadSize n ∧ 0 < payloadSize n := by
  unfold payloadSize
  split <;> omega

theorem payloadSize_eq (positive : 0 < n) : payloadSize n = n :=
  if_neg positive.ne'

theorem vecTotal_vecSize (small : n + 24 < 2 ^ 32) : vecTotal (vecSize n) = payloadSize n + 24 := by
  have header : mallocHdr = 16 := rfl
  have isSize : payloadSize n = n ∨ payloadSize n = 1 := by
    unfold payloadSize
    split
    · exact .inr rfl
    · exact .inl rfl
  unfold vecTotal vecSize
  rw [Nat.mod_eq_of_lt (by omega), Nat.mod_eq_of_lt (by omega), Nat.mod_eq_of_lt (by omega), header]

theorem sizeToClass_none_iff : sizeToClass size = none ↔ 2048 < size := by
  refine ⟨sizeToClass_none, fun large => ?_⟩
  cases isClass : sizeToClass size with
  | none => rfl
  | some cid =>
    obtain ⟨known, fits⟩ := sizeToClass_spec isClass
    have bound := (classShape known).large
    omega

end Sizes

/-! ## One call of malloc -/

variable {sys : HeapSys}

section Malloc

variable {r : HeapRun} {n : Nat} {grant : Option Nat} {answer : Nat × HeapSys}

/-- A block that `malloc(n)` made, with its header. -/
structure MallocServed (r : HeapRun) (n : Nat) (answer : Nat × HeapSys) :
    Prop where
  notNull : answer.1 ≠ 0
  size_le : vecSize n ≤ 0xFFFFFFF0
  ptr_le : 24 ≤ answer.1
  inv : HeapRun.Inv ⟨answer.2, Payload.block ⟨answer.1, n⟩ :: r.live⟩
  kept : Kept r.sys.mem answer.2.mem r.live
  header : read answer.2.mem (answer.1 - 16) 8 = payloadSize n

theorem malloc_served
    (inv : r.Inv)
    (small : n < 2 ^ 64)
    (good : GoodGrant r.sys .shared (vecTotal (vecSize n)) grant) :
    let answer := malloc n grant r.sys
    (Refused n grant r.sys ∧ answer = (0, r.sys)) ∨
      (¬ Refused n grant r.sys ∧ MallocServed r n answer) := by
  have served := croiAllocVec_served false inv good
  unfold malloc
  dsimp only at *
  rcases served with ⟨refused, same⟩ | ⟨room, isPtr, ⟨-, size_le⟩, ptr_le, after, kept⟩
  · rw [same, if_pos rfl]
    exact .inl ⟨refused, rfl⟩
  rw [if_neg isPtr]
  have large := (after.capacity_le (mem_cons_self ..)).2
  set raw := croiAllocVec (vecSize n) false grant r.sys
  obtain ⟨inside, others⟩ := after.setInside (mem_cons_self ..)
    (write raw.2.mem raw.1 8 (payloadSize n)) fun a out => if_neg
      fun isIn => out ⟨le_trans (Nat.sub_le ..) isIn.1, by
        dsimp only at *
        omega⟩
  rw [erase_cons_head] at others
  have isBlock : Payload.block ⟨raw.1 + mallocHdr, n⟩ =
      ⟨.shared, raw.1 - 8, vecTotal (vecSize n)⟩ := by
    unfold Payload.block
    rw [show raw.1 + mallocHdr - 24 = raw.1 - 8 from Nat.add_sub_add_right ..]
  refine .inr ⟨room, Nat.succ_ne_zero _, size_le, Nat.add_le_add_right ptr_le 16, ?_,
    fun b isLive => (kept b isLive).trans (others b isLive), ?_⟩
  · rwa [isBlock]
  · refine read_write ?_
    unfold payloadSize
    split
    · exact Nat.one_lt_pow (by decide) (by decide)
    · exact small

namespace MallocServed

theorem inside (served : MallocServed r n answer) (small : n + 24 < 2 ^ 32) :
    (Payload.block ⟨answer.1, n⟩).ptr + 24 = answer.1 ∧
      answer.1 + payloadSize n ≤ (Payload.block ⟨answer.1, n⟩).ptr +
        capacity (Payload.block ⟨answer.1, n⟩).size := by
  have isPtr : (Payload.block ⟨answer.1, n⟩).ptr + 24 = answer.1 := Nat.sub_add_cancel served.ptr_le
  refine ⟨isPtr, ?_⟩
  have room := (served.inv.capacity_le (mem_cons_self ..)).1
  have size : (Payload.block ⟨answer.1, n⟩).size = payloadSize n + 24 := vecTotal_vecSize small
  omega

theorem setInside (served : MallocServed r n answer) (small : n + 24 < 2 ^ 32) (mem : Mem)
    (outside : ∀ a, ¬ (answer.1 ≤ a ∧ a < answer.1 + n) → mem a = answer.2.mem a) :
    MallocServed r n (answer.1, answer.2.setMem mem) := by
  obtain ⟨isPtr, room⟩ := served.inside small
  have size := (le_payloadSize n).1
  obtain ⟨after, others⟩ := served.inv.setInside (mem_cons_self ..) mem
    fun a out => outside a fun isIn => out ⟨by omega, by omega⟩
  rw [erase_cons_head] at others
  refine ⟨served.notNull, served.size_le, served.ptr_le, after, fun b isLive =>
    (served.kept b isLive).trans (others b isLive), ?_⟩
  have same : Same answer.2.mem mem (answer.1 - 16) 8 := by
    intro a _ high
    exact outside a (by omega)
  exact same.read_eq.trans served.header

end MallocServed

end Malloc

/-! ## What the program holds -/

/-- What holds of a pointer the program holds. -/
structure Owned (heap : HeapRun) (p : Payload) : Prop where
  isLive : p.block ∈ heap.live
  small : p.size + 24 < 2 ^ 32
  ptr_le : 24 ≤ p.ptr
  header : read heap.sys.mem (p.ptr - 16) 8 = payloadSize p.size

structure LibcRun.Inv (r : LibcRun) : Prop where
  heap : r.heap.Inv
  owned : ∀ p ∈ r.held, Owned r.heap p
  distinct : (r.held.map Payload.block).Nodup

section Held

variable {r : LibcRun} {p q : Payload} {n : Nat} {answer : Nat × HeapSys} {heap after : HeapRun}

namespace Owned

theorem inside (owned : Owned heap p) (inv : heap.Inv) :
    p.block.ptr + 24 = p.ptr ∧
      p.ptr + payloadSize p.size ≤
        p.block.ptr + capacity p.block.size := by
  have isPtr : p.block.ptr + 24 = p.ptr := Nat.sub_add_cancel owned.ptr_le
  refine ⟨isPtr, ?_⟩
  have room := (inv.capacity_le owned.isLive).1
  have size : p.block.size = payloadSize p.size + 24 := vecTotal_vecSize owned.small
  omega

theorem frame (owned : Owned heap p) (inv : heap.Inv) (isLive : p.block ∈ after.live)
    (same : Same heap.sys.mem after.sys.mem p.block.ptr (capacity p.block.size)) :
    Owned after p := by
  refine ⟨isLive, owned.small, owned.ptr_le, ?_⟩
  obtain ⟨isPtr, room⟩ := owned.inside inv
  have header : Same heap.sys.mem after.sys.mem (p.ptr - 16) 8 := same.sub (by omega) (by omega)
  exact header.read_eq.trans owned.header

end Owned

namespace LibcRun.Inv

section

variable (inv : r.Inv)
include inv

theorem block_mem_erase (isHeld : p ∈ r.held) (isQ : q ∈ r.held.erase p) :
    q.block ∈ r.heap.live.erase p.block := by
  have isHeldQ := mem_of_mem_erase isQ
  refine (mem_erase_of_ne fun same => ?_).mpr (inv.owned q isHeldQ).isLive
  obtain rfl := inj_on_of_nodup_map inv.distinct isHeldQ isHeld same
  exact (List.Nodup.not_mem_erase (inv.distinct.of_map _)) isQ

theorem update (heap : after.Inv) (listed : ∀ p ∈ r.held, p.block ∈ after.live)
    (kept : ∀ p ∈ r.held, Same r.heap.sys.mem after.sys.mem p.block.ptr (capacity p.block.size)) :
    LibcRun.Inv { r with heap := after } :=
  ⟨heap, fun p isHeld => (inv.owned p isHeld).frame inv.heap
    (listed p isHeld) (kept p isHeld), inv.distinct⟩

theorem take (served : MallocServed r.heap n answer)
    (small : n + 24 < 2 ^ 32) : (r.take n answer).Inv := by
  unfold LibcRun.take
  rw [if_neg served.notNull]
  refine ⟨served.inv, fun q isHeld => ?_, ?_⟩
  · rcases mem_cons.mp isHeld with rfl | isOld
    · exact ⟨mem_cons_self .., small, served.ptr_le, served.header⟩
    · have owned := inv.owned q isOld
      exact owned.frame inv.heap (mem_cons_of_mem _ owned.isLive) (served.kept q.block owned.isLive)
  · rw [map_cons, nodup_cons]
    refine ⟨fun listed => ?_, inv.distinct⟩
    obtain ⟨q, isHeld, same⟩ := mem_map.mp listed
    -- The new block is apart from all live ones, and it is not empty.
    have isLive := (inv.owned q isHeld).isLive
    rw [same] at isLive
    have apart := served.inv.erase_apart (mem_cons_self ..) (by rw [erase_cons_head]; exact isLive)
    have room := (served.inv.capacity_le (mem_cons_self ..)).2
    unfold Apart at apart
    omega

theorem freed (isHeld : p ∈ r.held) :
    LibcRun.Inv
        { heap := ⟨free p.ptr r.heap.sys, r.heap.live.erase p.block⟩
          held := r.held.erase p } ∧
      Kept r.heap.sys.mem (free p.ptr r.heap.sys).mem (r.heap.live.erase p.block) := by
  have owned := inv.owned p isHeld
  have isPtr := (owned.inside inv.heap).1
  have notNull := inv.heap.ptr_ne_zero owned.isLive
  have isFree : free p.ptr r.heap.sys = croiFree p.block.ptr r.heap.sys := by
    unfold free
    rw [if_pos (by omega), ← croiFreeVec_eq notNull]
    congr 1
    show p.ptr - 16 = _
    omega
  obtain ⟨grants, lists, heapInv⟩ := inv.heap
  obtain ⟨after, kept⟩ := heapInv.croiFree owned.isLive
  rw [isFree]
  refine ⟨⟨after, fun q isQ => ?_, ?_⟩, kept⟩
  · have isBlock := inv.block_mem_erase isHeld isQ
    exact (inv.owned q (mem_of_mem_erase isQ)).frame inv.heap isBlock (kept q.block isBlock)
  · exact inv.distinct.sublist ((erase_sublist ..).map _)

theorem store {at_ : Nat} (isHeld : p ∈ r.held) (low : p.ptr ≤ at_)
    (high : at_ < p.ptr + p.size) (value : BitVec 8) :
    LibcRun.Inv
      { r with heap :=
        ⟨r.heap.sys.setMem (Function.update r.heap.sys.mem at_ value), r.heap.live⟩ } := by
  have owned := inv.owned p isHeld
  obtain ⟨isPtr, room⟩ := owned.inside inv.heap
  have size := (le_payloadSize p.size).1
  obtain ⟨after, kept⟩ := inv.heap.setInside owned.isLive
    (Function.update r.heap.sys.mem at_ value) fun a out =>
      Function.update_of_ne (fun same => out ⟨by omega, by omega⟩) ..
  refine ⟨after, fun q isQ => ?_, inv.distinct⟩
  by_cases same : q = p
  · subst same
    refine ⟨owned.isLive, owned.small, owned.ptr_le, ?_⟩
    have header : Same r.heap.sys.mem
        (Function.update r.heap.sys.mem at_ value) (q.ptr - 16) 8 := by
      intro a _ below
      exact Function.update_of_ne (by omega) ..
    exact header.read_eq.trans owned.header
  · have isBlock := inv.block_mem_erase isHeld ((mem_erase_of_ne same).mpr isQ)
    exact (inv.owned q isQ).frame inv.heap (inv.owned q isQ).isLive (kept q.block isBlock)

theorem other {op : HeapOp} (step : op.Step r.heap after) (foreign : Foreign r.held op) :
    LibcRun.Inv { r with heap := after } := by
  have heapAfter := step.keeps inv.heap
  cases step with
  | alloc small good =>
    obtain ⟨grants, lists, heapInv⟩ := inv.heap
    rcases heapInv.allocFrom small good with ⟨-, same⟩ | ⟨-, served⟩
    · rw [same] at heapAfter ⊢
      exact inv.update heapAfter (fun p isHeld => (inv.owned p isHeld).isLive)
        fun p _ => Same.refl _ _ _
    · refine inv.update heapAfter (fun p isHeld => ?_) fun p isHeld =>
        served.kept p.block (inv.owned p isHeld).isLive
      rw [if_neg served.notNull]
      exact mem_cons_of_mem _ (inv.owned p isHeld).isLive
  | free isLive =>
    rename_i b
    obtain ⟨grants, lists, heapInv⟩ := inv.heap
    obtain ⟨-, kept⟩ := heapInv.croiFree isLive
    have left (p : Payload) (isHeld : p ∈ r.held) : p.block ∈ r.heap.live.erase b := by
      refine (mem_erase_of_ne fun same => ?_).mpr (inv.owned p isHeld).isLive
      exact foreign p isHeld (congrArg Block.ptr same)
    exact inv.update heapAfter left fun p isHeld =>
      kept p.block (left p isHeld)
  | store isLive low high =>
    refine inv.update heapAfter (fun p isHeld => (inv.owned p isHeld).isLive)
      fun p isHeld a isLow isHigh => ?_
    refine Function.update_of_ne (fun same => foreign p isHeld ?_) ..
    subst same
    exact ⟨isLow, isHigh⟩

end

end LibcRun.Inv

end Held

/-! ## The contract of one call -/

section Contract

variable {r last : LibcRun} {op : LibcOp} {p : Payload} {n : Nat}
  {grant : Option Nat} {answer other : Nat × HeapSys}

theorem LibcRun.take_live (r : LibcRun) (n : Nat) (answer : Nat × HeapSys) :
    (r.take n answer).heap.live =
      if answer.1 = 0 then r.heap.live
      else Payload.block ⟨answer.1, n⟩ :: r.heap.live := by
  unfold LibcRun.take
  split <;> rfl

theorem Granted.congr (granted : Granted r n answer) (same : answer.1 = other.1) :
    Granted r n other := by
  obtain ⟨representable, aligned, usable, apart⟩ := granted
  rw [LibcRun.take_live] at usable
  rw [same] at aligned usable apart
  refine ⟨representable, aligned, ?_, apart⟩
  rwa [LibcRun.take_live]

theorem MallocServed.granted_iff (inv : r.Inv) (served : MallocServed r.heap n answer) :
    Granted r n answer ↔ Sized n := by
  have residue := served.inv.ptr_mod (mem_cons_self ..)
  have isBlock (small : n + 24 < 2 ^ 32) :
      (Payload.block ⟨answer.1, n⟩).size = payloadSize n + 24 :=
    vecTotal_vecSize small
  constructor
  · intro granted
    have small := granted.representable
    have aligned := granted.aligned
    obtain ⟨isPtr, -⟩ := served.inside small
    refine ⟨?_, small⟩
    by_cases isLarge : sizeToClass (Payload.block ⟨answer.1, n⟩).size = none
    · rw [sizeToClass_none_iff, isBlock small] at isLarge
      unfold payloadSize at isLarge
      split at isLarge <;> omega
    · rw [if_neg isLarge] at residue
      omega
  · rintro ⟨large, small⟩
    obtain ⟨isPtr, room⟩ := served.inside small
    rw [payloadSize_eq (by omega)] at room
    have isLarge : sizeToClass (Payload.block ⟨answer.1, n⟩).size = none := by
      rw [sizeToClass_none_iff, isBlock small, payloadSize_eq (by omega)]
      omega
    rw [if_pos isLarge] at residue
    have apart (b : Block) (isLive : b ∈ r.heap.live) :
        Apart answer.1 n b.ptr (capacity b.size) := by
      have apart := served.inv.erase_apart (mem_cons_self ..)
        (by rw [erase_cons_head]; exact isLive)
      exact (apart.symm.sub (by omega) room).symm
    refine ⟨small, by omega, ?_, fun q isHeld => ?_⟩
    · rw [LibcRun.take_live, if_neg served.notNull]
      refine ⟨_, mem_cons_self .., by omega, room, ?_⟩
      rwa [erase_cons_head]
    · have owned := inv.owned q isHeld
      obtain ⟨isPtrQ, roomQ⟩ := owned.inside inv.heap
      have size := (le_payloadSize q.size).1
      exact (apart q.block owned.isLive).sub (by omega) (by omega)

theorem malloc_contract (inv : r.Inv) (small : n < 2 ^ 64)
    (good : GoodGrant r.heap.sys .shared (vecTotal (vecSize n)) grant) :
    (malloc n grant r.heap.sys).1 = 0 ∨
        Granted r n (malloc n grant r.heap.sys) ↔
      Refused n grant r.heap.sys ∨ Sized n := by
  rcases malloc_served inv.heap small good with ⟨refused, same⟩ | ⟨room, served⟩
  · exact iff_of_true (.inl (congrArg Prod.fst same)) (.inl refused)
  · rw [or_iff_right served.notNull, or_iff_right room, served.granted_iff inv]

theorem calloc_overflow {nmemb : Nat} (big : 2 ^ 64 ≤ nmemb * size) :
    calloc nmemb size grant sys = (0, sys) := by
  refine if_pos ⟨?_, fun same => ?_⟩
  · rintro rfl
    rw [Nat.zero_mul] at big
    exact absurd big (by decide)
  · have bound : nmemb * size ≤ nmemb * size % 2 ^ 64 := by
      conv_lhs => rw [← same]
      exact Nat.mul_div_le ..
    omega

theorem calloc_eq {nmemb : Nat} (small : nmemb * size < 2 ^ 64) :
    calloc nmemb size grant sys =
      let (p, sys) := malloc (nmemb * size) grant sys
      if p ≠ 0 then (p, sys.setMem (fill sys.mem p (nmemb * size)))
      else (p, sys) := by
  unfold calloc
  rw [Nat.mod_eq_of_lt small]
  refine if_neg ?_
  rintro ⟨some, different⟩
  exact different (Nat.mul_div_cancel_left _ (Nat.pos_of_ne_zero some))

theorem calloc_contract {nmemb : Nat} (inv : r.Inv)
    (good : GoodGrant r.heap.sys .shared (vecTotal (vecSize (nmemb * size % 2 ^ 64))) grant) :
    (LibcOp.calloc nmemb size grant).Contract r ↔
      (LibcOp.calloc nmemb size grant).Fits r := by
  unfold LibcOp.Contract LibcOp.Fits LibcOp.Within
  dsimp only
  by_cases big : 2 ^ 64 ≤ nmemb * size
  · rw [calloc_overflow big]
    exact iff_of_true (.inl rfl) (.inl big)
  have small := Nat.lt_of_not_le big
  rw [Nat.mod_eq_of_lt small] at good
  rw [or_iff_right big, ← malloc_contract inv small good, calloc_eq small]
  dsimp only
  by_cases isNull : (malloc (nmemb * size) grant r.heap.sys).1 = 0
  · rw [if_neg (not_not.mpr isNull)]
    exact iff_of_true (.inl isNull) (.inl isNull)
  · rw [if_pos isNull]
    constructor
    · rintro (isZero | ⟨-, granted, -⟩)
      · exact .inl isZero
      · exact .inr (granted.congr rfl)
    · rintro (isZero | granted)
      · exact .inl isZero
      · refine .inr ⟨small, granted.congr rfl, fun i below => ?_⟩
        exact fill_self (Nat.le_add_right ..) (Nat.add_lt_add_left below _)

theorem LibcRun.Inv.reallocated (len : Nat) (inv : r.Inv) (isHeld : p ∈ r.held)
    (served : MallocServed r.heap n answer)
    (small : n + 24 < 2 ^ 32) (new : len ≤ n) (old : len ≤ payloadSize p.size) :
    let sys := answer.2.setMem (copy answer.2.mem answer.1 p.ptr len)
    ((r.take n (answer.1, free p.ptr sys)).drop p).Inv ∧
      ∀ i < len, (free p.ptr sys).mem (answer.1 + i) = r.heap.sys.mem (p.ptr + i) := by
  obtain ⟨isPtr, room⟩ := served.inside small
  have owned := inv.owned p isHeld
  obtain ⟨isPtrP, roomP⟩ := owned.inside inv.heap
  have size := (le_payloadSize n).1
  set mem := copy answer.2.mem answer.1 p.ptr len
  have copied : MallocServed r.heap n (answer.1, answer.2.setMem mem) := by
    refine served.setInside small mem fun a out => ?_
    refine same_copy _ (k := 1) ?_ a (le_refl a) (Nat.lt_succ_self a)
    unfold Apart
    omega
  have taken := inv.take copied small
  unfold LibcRun.take at taken
  rw [if_neg served.notNull] at taken
  obtain ⟨after, kept⟩ := taken.freed (mem_cons_of_mem _ isHeld)
  have isNew : (⟨answer.1, n⟩ : Payload) ∈ ((⟨answer.1, n⟩ : Payload) :: r.held).erase p := by
    refine (mem_erase_of_ne ?_).mpr (mem_cons_self ..)
    rintro rfl
    have fresh := (nodup_cons.mp taken.distinct).1
    exact fresh (mem_map_of_mem isHeld)
  have isBlock := taken.block_mem_erase (mem_cons_of_mem _ isHeld) isNew
  refine ⟨?_, fun i below => ?_⟩
  · unfold LibcRun.take
    rwa [if_neg served.notNull]
  · have apart : Apart answer.1 len p.ptr len := by
      have blocks := served.inv.erase_apart (mem_cons_self ..)
        (by rw [erase_cons_head]; exact owned.isLive)
      unfold Apart at *
      omega
    calc (free p.ptr (answer.2.setMem mem)).mem (answer.1 + i) = mem (answer.1 + i) :=
          kept _ isBlock _ (by omega) (by omega)
      _ = answer.2.mem (p.ptr + i) := copy_get apart below
      _ = r.heap.sys.mem (p.ptr + i) :=
          served.kept _ owned.isLive _ (by omega) (by omega)

theorem realloc_eq (held : p.ptr ≠ 0) (some : n ≠ 0) :
    realloc p.ptr n grant sys =
      let old := read sys.mem (p.ptr - mallocHdr) 8
      let (np, sys) := malloc n grant sys
      if np ≠ 0 then
        (np, free p.ptr (sys.setMem (copy sys.mem np p.ptr (if old < n then old else n))))
      else
        (np, sys) := by
  unfold realloc
  rw [if_neg held, if_neg some]

theorem realloc_contract (inv : r.Inv) (isHeld : p ∈ r.held) (small : n < 2 ^ 64)
    (good : GoodGrant r.heap.sys .shared (vecTotal (vecSize n)) grant) :
    (LibcOp.realloc (some p) n grant).Contract r ↔
      (LibcOp.realloc (some p) n grant).Fits r := by
  have owned := inv.owned p isHeld
  have held : p.ptr ≠ 0 := by
    have low := owned.ptr_le
    omega
  have header : read r.heap.sys.mem (p.ptr - mallocHdr) 8 = payloadSize p.size := owned.header
  unfold LibcOp.Contract LibcOp.Fits LibcOp.Within
  dsimp only
  by_cases none : n = 0
  · subst none
    unfold realloc
    rw [if_neg held]
    exact iff_of_true (.inl rfl) (.inl rfl)
  have served := malloc_served inv.heap small good
  rw [or_iff_right none, ← malloc_contract inv small good, realloc_eq held none, header]
  dsimp only at *
  rcases served with ⟨-, same⟩ | ⟨-, served⟩
  · rw [same, if_neg (not_not.mpr rfl)]
    exact iff_of_true (.inl rfl) (.inl rfl)
  rw [if_pos served.notNull]
  constructor
  · rintro (isZero | ⟨granted, -⟩)
    · exact .inl isZero
    · exact .inr (granted.congr rfl)
  · rintro (isZero | granted)
    · exact .inl isZero
    · refine .inr ⟨granted.congr rfl, fun i below => ?_⟩
      have size := (le_payloadSize p.size).1
      have kept := (inv.reallocated
        (if payloadSize p.size < n then payloadSize p.size else n) isHeld
        served granted.representable (by split <;> omega) (by split <;> omega)).2
      exact kept i (by split <;> omega)

theorem LibcOp.Step.contract_iff (step : op.Step r last) (inv : r.Inv) :
    op.Contract r ↔ op.Fits r := by
  cases step with
  | malloc small good => exact malloc_contract inv small good
  | calloc _ _ good => exact calloc_contract inv good
  | first small good => exact malloc_contract inv small good
  | realloc isHeld small good => exact realloc_contract inv isHeld small good
  | free _ => exact Iff.rfl
  | store _ _ _ => exact Iff.rfl
  | other _ _ => exact Iff.rfl

end Contract

/-! ## Runs -/

/-- A size whose request a `ULONG` can say. -/
def Representable (n : Nat) : Prop :=
  n + 24 < 2 ^ 32

section Run

variable {r last : LibcRun} {op : LibcOp} {trace : List (LibcRun × LibcOp)}
  {n : Nat} {grant : Option Nat}

theorem LibcOp.Fits.within (fits : op.Fits r) : op.Within Representable r := by
  cases op with
  | malloc n grant => exact fits.imp_right And.right
  | calloc nmemb size grant =>
    exact fits.imp_right fun rest => rest.imp_right And.right
  | realloc old n grant =>
    cases old with
    | none => exact fits.imp_right And.right
    | some p => exact fits.imp_right fun rest => rest.imp_right And.right
  | free p => trivial
  | store at_ value => trivial
  | other op => trivial

theorem LibcRun.take_null : r.take n (0, r.heap.sys) = r := by
  unfold LibcRun.take
  rw [if_pos rfl]

theorem LibcRun.Inv.malloc (inv : r.Inv) (small : n < 2 ^ 64)
    (good : GoodGrant r.heap.sys .shared (vecTotal (vecSize n)) grant)
    (within : Refused n grant r.heap.sys ∨ Representable n) :
    (r.take n (malloc n grant r.heap.sys)).Inv := by
  rcases malloc_served inv.heap small good with ⟨-, same⟩ | ⟨room, served⟩
  · rwa [same, LibcRun.take_null]
  · exact inv.take served (within.resolve_left room)

theorem LibcRun.Inv.calloc {nmemb : Nat} (inv : r.Inv)
    (good : GoodGrant r.heap.sys .shared (vecTotal (vecSize (nmemb * size % 2 ^ 64))) grant)
    (within : (LibcOp.calloc nmemb size grant).Within Representable r) :
    (r.take (nmemb * size % 2 ^ 64) (calloc nmemb size grant r.heap.sys)).Inv := by
  by_cases big : 2 ^ 64 ≤ nmemb * size
  · rwa [calloc_overflow big, LibcRun.take_null]
  have small := Nat.lt_of_not_le big
  rw [Nat.mod_eq_of_lt small] at good ⊢
  have served := malloc_served inv.heap small good
  have rest := within.resolve_left big
  rw [calloc_eq small]
  dsimp only at *
  rcases served with ⟨-, same⟩ | ⟨room, served⟩
  · rwa [same, if_neg (not_not.mpr rfl), LibcRun.take_null]
  rw [if_pos served.notNull]
  have representable := rest.resolve_left room
  exact inv.take (served.setInside representable _ fun a out => if_neg out) representable

theorem LibcRun.Inv.realloc {p : Payload} (inv : r.Inv) (isHeld : p ∈ r.held) (small : n < 2 ^ 64)
    (good : GoodGrant r.heap.sys .shared (vecTotal (vecSize n)) grant)
    (within : (LibcOp.realloc (some p) n grant).Within Representable r) :
    (r.exchange p n (realloc p.ptr n grant r.heap.sys)).Inv := by
  have owned := inv.owned p isHeld
  have held : p.ptr ≠ 0 := by
    have low := owned.ptr_le
    omega
  have header : read r.heap.sys.mem (p.ptr - mallocHdr) 8 = payloadSize p.size := owned.header
  by_cases none : n = 0
  · subst none
    unfold CaraOS.Libc.realloc
    rw [if_neg held]
    exact (inv.freed isHeld).1
  have served := malloc_served inv.heap small good
  have rest := within.resolve_left none
  rw [realloc_eq held none]
  dsimp only at *
  rcases served with ⟨-, same⟩ | ⟨room, served⟩
  · rw [same, if_neg (not_not.mpr rfl), LibcRun.exchange, if_pos ⟨none, rfl⟩, LibcRun.take_null]
    exact inv
  rw [if_pos served.notNull, LibcRun.exchange, if_neg fun both => served.notNull both.2]
  exact (inv.reallocated _ isHeld served (rest.resolve_left room)
    (by split <;> omega) (by split <;> omega)).1

theorem LibcOp.Step.keeps
    (step : op.Step r last) (within : op.Within Representable r) (inv : r.Inv) : last.Inv := by
  cases step with
  | malloc small good => exact inv.malloc small good within
  | calloc _ _ good => exact inv.calloc good within
  | first small good => exact inv.malloc small good within
  | realloc isHeld small good => exact inv.realloc isHeld small good within
  | free isHeld => exact (inv.freed isHeld).1
  | store isHeld low high => exact inv.store isHeld low high _
  | other step foreign => exact inv.other step foreign

theorem LibcRun.Run.keeps (run : r.Run trace last)
    (within : ∀ e ∈ trace, e.2.Within Representable e.1) (inv : r.Inv) : last.Inv := by
  induction run with
  | nil => exact inv
  | snoc before step ih =>
    obtain ⟨earlier, latest⟩ := forall_mem_append.mp within
    exact step.keeps (latest _ (mem_singleton_self _)) (ih earlier)

theorem LibcRun.init_inv (mem : Mem) (lists : HeapId → Nat → Nat) (lo hi : Nat) :
    (LibcRun.init mem lists lo hi).Inv :=
  ⟨HeapRun.init_inv mem lists lo hi, nofun, .nil⟩

/--
In a run with representable sizes the program's blocks never overlap, whatever
everybody else does, and each is as large as it was asked for: only the
alignment is lost for small sizes.
-/
theorem held_apart {mem : Mem} {lists : HeapId → Nat → Nat} {lo hi : Nat}
    (run : (LibcRun.init mem lists lo hi).Run trace last)
    (within : ∀ e ∈ trace, e.2.Within Representable e.1) :
    last.held.Pairwise (fun p q => Apart p.ptr p.size q.ptr q.size) ∧
      ∀ p ∈ last.held, p.block ∈ last.heap.live ∧
        p.ptr + p.size ≤ p.block.ptr + capacity p.block.size := by
  have inv := run.keeps within (LibcRun.init_inv mem lists lo hi)
  have inside (p : Payload) (isHeld : p ∈ last.held) : p.block.ptr ≤ p.ptr ∧
        p.ptr + p.size ≤ p.block.ptr + capacity p.block.size := by
    obtain ⟨isPtr, room⟩ := (inv.owned p isHeld).inside inv.heap
    have size := (le_payloadSize p.size).1
    exact ⟨by omega, by omega⟩
  refine ⟨?_, fun p isHeld =>
    ⟨(inv.owned p isHeld).isLive, (inside p isHeld).2⟩⟩
  refine (pairwise_map.mp inv.distinct).imp_of_mem ?_
  intro p q isP isQ different
  have apart := inv.heap.erase_apart (inv.owned p isP).isLive
    ((mem_erase_of_ne different.symm).mpr (inv.owned q isQ).isLive)
  obtain ⟨lowP, highP⟩ := inside p isP
  obtain ⟨lowQ, highQ⟩ := inside q isQ
  exact ((apart.sub lowQ highQ).symm.sub lowP highP).symm

/--
Every call of a run meets its contract exactly if every call is refused or
asks for more than 2024 bytes and for no more than a `ULONG` can say.
-/
theorem malloc_contract_iff {mem : Mem} {lists : HeapId → Nat → Nat} {lo hi : Nat}
    (run : (LibcRun.init mem lists lo hi).Run trace last) :
    (∀ e ∈ trace, e.2.Contract e.1) ↔ ∀ e ∈ trace, e.2.Fits e.1 := by
  have inv := LibcRun.init_inv mem lists lo hi
  induction run with
  | nil => exact iff_of_true (forall_mem_nil _) (forall_mem_nil _)
  | snoc before step ih =>
    rw [forall_mem_append, forall_mem_append]
    refine (and_congr_left' ih).trans (and_congr_right fun fits => ?_)
    -- Up to here all sizes fitted, so the invariant holds before the step.
    have here := before.keeps (fun e listed => (fits e listed).within) inv
    rw [forall_mem_singleton, forall_mem_singleton]
    exact step.contract_iff here

end Run

/-- The shared heap as the kernel sets it up: 8 MiB from 0x100000000. -/
def LibcRun.fresh : LibcRun :=
  .init (fun _ => 0) (fun _ _ => 0) 0x100000000 0x100800000

theorem fresh_grant (one : pagesNeeded .shared size LibcRun.fresh.heap.sys = 1) :
    GoodGrant LibcRun.fresh.heap.sys .shared size (some 0x100000000) := by
  intro _
  rw [one]
  exact ⟨by decide, by decide, by decide, nofun, by decide, by decide⟩

/-- A program asks for 4000 bytes. -/
theorem malloc_contract_iff_large :
    ∃ last, LibcRun.fresh.Run
        [(.fresh, .malloc 4000 (some 0x100000000))] last ∧
      (LibcOp.malloc 4000 (some 0x100000000)).Contract .fresh := by
  have run := LibcRun.Run.snoc .nil (LibcOp.Step.malloc (n := 4000)
    (by decide) (fresh_grant (by decide)))
  refine ⟨_, run, ?_⟩
  refine (malloc_contract_iff run).mpr ?_ (.fresh, _) (mem_singleton_self _)
  intro e listed
  rw [nil_append, mem_singleton] at listed
  subst listed
  exact .inr ⟨by decide, by decide⟩

/-- Two blocks, the first one freed, and a third in its place. -/
theorem held_apart_reused :
    ∃ trace last, LibcRun.fresh.Run trace last ∧
      trace.map Prod.snd = [.malloc 24 (some 0x100000000), .malloc 40 none,
        .free ⟨0x100000fd8, 24⟩, .malloc 30 none] ∧
      last.held = [⟨0x100000fd8, 30⟩, ⟨0x100000f98, 40⟩] ∧
      last.held.Pairwise fun p q => Apart p.ptr p.size q.ptr q.size := by
  have unasked (sys : HeapSys) (size : Nat) : GoodGrant sys .shared size none := trivial
  have one := LibcRun.Run.snoc .nil (.malloc (n := 24) (by decide) (fresh_grant (by decide)))
  have two := one.snoc (.malloc (n := 40) (by decide) (unasked ..))
  have freed := two.snoc (.free (p := ⟨0x100000fd8, 24⟩) (by decide +kernel))
  have run := freed.snoc (.malloc (n := 30) (by decide) (unasked ..))
  refine ⟨_, _, run, rfl, by decide +kernel, (held_apart run ?_).1⟩
  simp only [nil_append, cons_append, forall_mem_cons]
  exact ⟨.inr (by unfold Representable; decide), .inr (by unfold Representable; decide), trivial,
    .inr (by unfold Representable; decide), nofun⟩

/--
`malloc(1)` gives an address that is 8 modulo 16, and `malloc(2^32)` one in a
block of 32 bytes.
-/
theorem malloc_contract_broken :
    let page := some 0x100000000
    let sys := LibcRun.fresh.heap.sys
    (GoodGrant sys .shared (vecTotal (vecSize 1)) page ∧ (malloc 1 page sys).1 % 16 = 8 ∧
      ¬ (LibcOp.malloc 1 page).Contract .fresh) ∧
    (GoodGrant sys .shared (vecTotal (vecSize (2 ^ 32))) page ∧
      (LibcRun.fresh.take (2 ^ 32) (malloc (2 ^ 32) page sys)).heap.live =
        [⟨.shared, (malloc (2 ^ 32) page sys).1 - 24, 24⟩] ∧
      capacity 24 = 32 ∧
      ¬ (LibcOp.malloc (2 ^ 32) page).Contract .fresh) := by
  have residue : (malloc 1 (some 0x100000000) LibcRun.fresh.heap.sys).1 % 16 = 8 := by
    decide +kernel
  refine ⟨⟨fresh_grant (by decide), residue, ?_⟩,
    fresh_grant (by decide), by decide +kernel, by decide, ?_⟩
  · rintro (isNull | granted)
    · rw [isNull] at residue
      exact absurd residue (by decide)
    · rw [granted.aligned] at residue
      exact absurd residue (by decide)
  · rintro (isNull | granted)
    · exact absurd isNull (by decide +kernel)
    · exact absurd granted.representable (by decide)

end CaraOS.Libc
