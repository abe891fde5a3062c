import CaraOS.Lib.ByteMem

namespace CaraOS.Croi

/-!
# The kernel heap

`heap.c`: eight classes of small objects in slab pages and whole pages for
large ones.  The free objects of a class are linked through their own first
eight bytes, and the kind of a block is read from the header of its page.

The page allocator is the environment: a call that needs pages is given its
answer.  Addresses are those by which the heap knows its pages (`heap_p2v`).
There are two heaps, and the registered window of addresses tells `Croi_Free`
which one a pointer belongs to; without a shared heap the window is empty.
-/

open ByteMem

def pageSize : Nat :=
  4096

def slabMagic : Nat :=
  0x534C4142

def largeMagic : Nat :=
  0x4C415247

/-- `sizeof(struct SlabHeader)`: magic, class and list node. -/
def slabHeaderSize : Nat :=
  24

/-- `sizeof(struct LargeHeader)`: magic and number of pages. -/
def largeHeaderSize : Nat :=
  8

def classSizes : List Nat :=
  [16, 32, 64, 128, 256, 512, 1024, 2048]

/-- Which heap: `g_active_heap` or `g_shared_heap`. -/
inductive HeapId where
  | kernel
  | shared
  deriving DecidableEq

/-- `struct HeapClass`; `slabList` is the address of its `slab_pages`. -/
structure HeapClass where
  objSize : Nat
  inFlight : BitVec 32 := 0
  peakInFlight : BitVec 32 := 0
  freeHead : Nat := 0
  slabList : Nat
  slabHead : Nat
  slabTailPred : Nat

/-- `struct Heap`, but for its page allocator and translation. -/
structure Heap where
  classes : Nat → HeapClass
  largeInFlight : BitVec 32 := 0
  largePeak : BitVec 32 := 0
  bytesInFlight : BitVec 64 := 0
  peakBytesInFlight : BitVec 64 := 0

/-- `Heap_Init`, with the addresses of the slab lists. -/
def heapInit (lists : Nat → Nat) : Heap where
  classes := fun cid =>
    { objSize := classSizes.getD cid 0
      slabList := lists cid
      slabHead := lists cid + 8
      slabTailPred := lists cid }

/-- Memory, both heaps, the shared window and the ranges of pages in use. -/
structure HeapSys where
  mem : Mem
  heaps : HeapId → Heap
  sharedLo : Nat
  sharedHi : Nat
  ranges : List (Nat × Nat)

namespace HeapSys

/-- Assign to fields of a heap. -/
def setHeap (sys : HeapSys) (id : HeapId) (change : Heap → Heap) : HeapSys :=
  { sys with heaps := Function.update sys.heaps id (change (sys.heaps id)) }

/-- Assign to fields of a class of a heap. -/
def setClass (sys : HeapSys) (id : HeapId) (cid : Nat) (change : HeapClass → HeapClass) : HeapSys :=
  sys.setHeap id fun h =>
    { h with classes := Function.update h.classes cid (change (h.classes cid)) }

/-- Assign to memory. -/
def setMem (sys : HeapSys) (mem : Mem) : HeapSys :=
  { sys with mem := mem }

end HeapSys

/-- `Page_Alloc`, given its answer: it hands out zeroed pages. -/
def pageAlloc (grant : Option Nat) (nPages : Nat) (sys : HeapSys) : Option (Nat × HeapSys) :=
  grant.map fun page =>
    (page, { sys with
      mem := fill sys.mem page (nPages * pageSize)
      ranges := (page, nPages) :: sys.ranges })

def pageFree (page nPages : Nat) (sys : HeapSys) : HeapSys :=
  { sys with ranges := sys.ranges.filter fun r => r ≠ (page, nPages) }

/-- `size_to_class`; `none` is the sentinel. -/
def sizeToClass (size : Nat) : Option Nat :=
  classSizes.findIdx? fun limit => size ≤ limit

/-- Where the objects of a slab start: behind the header, aligned. -/
def firstOff (objSize : Nat) : Nat :=
  let objSize := BitVec.ofNat 32 objSize
  let off := BitVec.ofNat 32 slabHeaderSize
  if off &&& (objSize - 1) ≠ 0 then
    ((off + objSize - 1) &&& ~~~ (objSize - 1)).toNat
  else
    off.toNat

/-- How many objects a slab has. -/
def nObjs (objSize : Nat) : Nat :=
  (pageSize - firstOff objSize) / objSize

/-- `MinList_AddTail` of the node in a slab header. -/
def addSlab (id : HeapId) (cid page : Nat) (sys : HeapSys) : HeapSys :=
  let cls := (sys.heaps id).classes cid
  let node := page + 8
  let sys := sys.setMem (write sys.mem node 8 (cls.slabList + 8))
  let sys := sys.setMem (write sys.mem (node + 8) 8 cls.slabTailPred)
  let sys :=
    if cls.slabTailPred = cls.slabList then
      sys.setClass id cid ({ · with slabHead := node })
    else
      sys.setMem (write sys.mem cls.slabTailPred 8 node)
  sys.setClass id cid ({ · with slabTailPred := node })

/-- The loop of `slab_grow` after `n` objects: memory and `prev`. -/
def seedFreelist (mem : Mem) (first size : Nat) : Nat → Mem × Nat
  | 0 => (mem, 0)
  | n + 1 =>
    let (mem, prev) := seedFreelist mem first size n
    let obj := first + n * size
    (write mem obj 8 prev, obj)

/-- The magic and the class of a new slab. -/
def markSlab (cid page : Nat) (sys : HeapSys) : HeapSys :=
  let sys := sys.setMem (write sys.mem page 4 slabMagic)
  sys.setMem (write sys.mem (page + 4) 1 cid)

/-- The objects of a new slab become the free list. -/
def seedSlab (id : HeapId) (cid page : Nat) (sys : HeapSys) : HeapSys :=
  let objSize := ((sys.heaps id).classes cid).objSize
  let (mem, prev) := seedFreelist sys.mem (page + firstOff objSize) objSize (nObjs objSize)
  (sys.setMem mem).setClass id cid ({ · with freeHead := prev })

/-- `slab_grow`; `none` is `CARA_ENOMEM`. -/
def slabGrow (id : HeapId) (cid : Nat) (grant : Option Nat) (sys : HeapSys) : Option HeapSys :=
  (pageAlloc grant 1 sys).map fun (page, sys) =>
    seedSlab id cid page (addSlab id cid page (markSlab cid page sys))

/-- Count an allocation in the bytes of a heap. -/
def Heap.charge (bytes : Nat) (h : Heap) : Heap :=
  let total := h.bytesInFlight + BitVec.ofNat 64 bytes
  { h with
    bytesInFlight := total
    peakBytesInFlight :=
      if h.peakBytesInFlight < total then total else h.peakBytesInFlight }

/-- The end of the slab path of `alloc_from`: take the first free object. -/
def takeObject (id : HeapId) (cid : Nat) (sys : HeapSys) : Nat × HeapSys :=
  let cls := (sys.heaps id).classes cid
  let obj := cls.freeHead
  let count := cls.inFlight + 1
  let sys := sys.setClass id cid ({ · with
      freeHead := read sys.mem obj 8
      inFlight := count
      peakInFlight :=
        if cls.peakInFlight < count then count else cls.peakInFlight })
  let sys := sys.setHeap id (Heap.charge cls.objSize)
  (obj, sys.setMem (fill sys.mem obj cls.objSize))

/-- The pages of a large block, as `alloc_from` computes them. -/
def pagesFor (size : Nat) : Nat :=
  ((size + largeHeaderSize) % 2 ^ 64 + pageSize - 1) % 2 ^ 64 / pageSize % 2 ^ 32

/-- The counters of the large path: one more block of `nPages` pages. -/
def Heap.chargeLarge (nPages : Nat) (h : Heap) : Heap :=
  let count := h.largeInFlight + 1
  Heap.charge (nPages * pageSize) { h with
      largeInFlight := count
      largePeak := if h.largePeak < count then count else h.largePeak }

/-- The large path of `alloc_from`. -/
def allocLarge (id : HeapId) (size : Nat) (grant : Option Nat) (sys : HeapSys) : Nat × HeapSys :=
  let nPages := pagesFor size
  match pageAlloc grant nPages sys with
  | none => (0, sys)
  | some (page, sys) =>
    let sys := sys.setMem (write sys.mem page 4 largeMagic)
    let sys := sys.setMem (write sys.mem (page + 4) 4 nPages)
    (page + largeHeaderSize, sys.setHeap id (Heap.chargeLarge nPages))

/-- `alloc_from`, which is `Croi_HeapAlloc`; 0 is the null pointer. -/
def allocFrom (id : HeapId) (size : Nat) (grant : Option Nat) (sys : HeapSys) : Nat × HeapSys :=
  if size = 0 then
    (0, sys)
  else
    match sizeToClass size with
    | some cid =>
      if ((sys.heaps id).classes cid).freeHead = 0 then
        match slabGrow id cid grant sys with
        | none => (0, sys)
        | some sys => takeObject id cid sys
      else
        takeObject id cid sys
    | none => allocLarge id size grant sys

/-- The heap `Croi_Free` routes a pointer to. -/
def routeFree (ptr : Nat) (sys : HeapSys) : HeapId :=
  if sys.sharedLo ≤ ptr ∧ ptr < sys.sharedHi then .shared else .kernel

def croiFree (ptr : Nat) (sys : HeapSys) : HeapSys :=
  if ptr = 0 then
    sys
  else
    let id := routeFree ptr sys
    let page := ptr - ptr % pageSize
    let magic := read sys.mem page 4
    if magic = slabMagic then
      let cid := read sys.mem (page + 4) 1
      let cls := (sys.heaps id).classes cid
      let sys := sys.setMem (write sys.mem ptr 8 cls.freeHead)
      let sys := sys.setClass id cid ({ · with freeHead := ptr, inFlight := cls.inFlight - 1 })
      sys.setHeap id fun h =>
        { h with
          bytesInFlight := h.bytesInFlight - BitVec.ofNat 64 cls.objSize }
    else if magic = largeMagic then
      let nPages := read sys.mem (page + 4) 4
      let sys := sys.setHeap id fun h =>
        { h with
          largeInFlight := h.largeInFlight - 1
          bytesInFlight :=
            h.bytesInFlight - BitVec.ofNat 64 (nPages * pageSize) }
      pageFree page nPages sys
    else
      sys

/-! ## Runs -/

/-- A pointer somebody holds, with the size that was asked for. -/
structure Block where
  heap : HeapId
  ptr : Nat
  size : Nat
  deriving DecidableEq

/-- How many bytes a block of that size has. -/
def capacity (size : Nat) : Nat :=
  match sizeToClass size with
  | some cid => classSizes.getD cid 0
  | none => pagesFor size * pageSize - largeHeaderSize

/-- What a block of that size counts for in `bytes_in_flight`. -/
def chargeOf (size : Nat) : Nat :=
  match sizeToClass size with
  | some cid => classSizes.getD cid 0
  | none => pagesFor size * pageSize

/-- How many blocks of a class of a heap are in use. -/
def smallCount (live : List Block) (id : HeapId) (cid : Nat) : Nat :=
  live.countP fun b => b.heap = id ∧ sizeToClass b.size = some cid

def largeCount (live : List Block) (id : HeapId) : Nat :=
  live.countP fun b => b.heap = id ∧ sizeToClass b.size = none

/-- What the blocks of a heap that are in use count for. -/
def liveBytes (live : List Block) (id : HeapId) : Nat :=
  (live.map fun b => if b.heap = id then chargeOf b.size else 0).sum

/-- Both heaps and the blocks in use. -/
structure HeapRun where
  sys : HeapSys
  live : List Block

def pagesNeeded (id : HeapId) (size : Nat) (sys : HeapSys) : Nat :=
  match sizeToClass size with
  | some cid => if ((sys.heaps id).classes cid).freeHead = 0 then 1 else 0
  | none => pagesFor size

/-- The heap has no block of that size, and there are no pages for one. -/
def NoRoom (id : HeapId) (size : Nat) (grant : Option Nat) (sys : HeapSys) : Prop :=
  size = 0 ∨ (pagesNeeded id size sys ≠ 0 ∧ grant = none)

/-- What the page allocator may answer. -/
structure FreshRange (sys : HeapSys) (id : HeapId) (page nPages : Nat) :
    Prop where
  notNull : page ≠ 0
  aligned : page % pageSize = 0
  small : page + nPages * pageSize ≤ 2 ^ 64
  apart : ∀ r ∈ sys.ranges, Apart page (nPages * pageSize) r.1 (r.2 * pageSize)
  window :
    match id with
    | .shared =>
      sys.sharedLo ≤ page ∧ page + nPages * pageSize ≤ sys.sharedHi
    | .kernel =>
      page + nPages * pageSize ≤ sys.sharedLo ∨ sys.sharedHi ≤ page

/-- The answer is good if pages are asked for. -/
def GoodGrant (sys : HeapSys) (id : HeapId) (size : Nat) :
    Option Nat → Prop
  | none => True
  | some page =>
    pagesNeeded id size sys ≠ 0 →
      FreshRange sys id page (pagesNeeded id size sys)

/-- What the users of the heaps do. -/
inductive HeapOp where
  | alloc (id : HeapId) (size : Nat) (grant : Option Nat)
  | free (ptr : Nat)
  | store (at_ : Nat) (value : BitVec 8)

/--
One step: a call of `Croi_HeapAlloc` with a size below 2^32, a call of
`Croi_Free` with a live pointer, or a store into a live block.
-/
inductive HeapOp.Step : HeapOp → HeapRun → HeapRun → Prop
  | alloc {id : HeapId} {size : Nat} {grant : Option Nat} {r : HeapRun}
      (small : size < 2 ^ 32)
      (good : GoodGrant r.sys id size grant) :
      Step (.alloc id size grant) r
        { sys := (allocFrom id size grant r.sys).2
          live :=
            if (allocFrom id size grant r.sys).1 = 0 then r.live
            else ⟨id, (allocFrom id size grant r.sys).1, size⟩ :: r.live }
  | free {b : Block} {r : HeapRun}
      (isLive : b ∈ r.live) :
      Step (.free b.ptr) r { sys := croiFree b.ptr r.sys, live := r.live.erase b }
  | store {b : Block} {at_ : Nat} {value : BitVec 8} {r : HeapRun}
      (isLive : b ∈ r.live)
      (low : b.ptr ≤ at_)
      (high : at_ < b.ptr + b.size) :
      Step (.store at_ value) r { r with sys := r.sys.setMem (Function.update r.sys.mem at_ value) }

/-- A finite sequence of steps. -/
inductive HeapRun.Reaches : HeapRun → List HeapOp → HeapRun → Prop
  | nil {r : HeapRun} : Reaches r [] r
  | snoc {r mid last : HeapRun} {ops : List HeapOp} {op : HeapOp}
      (before : Reaches r ops mid)
      (step : op.Step mid last) :
      Reaches r (ops ++ [op]) last

/-- Both heaps after `Heap_Init`, whatever is in memory. -/
def HeapRun.init (mem : Mem) (lists : HeapId → Nat → Nat) (lo hi : Nat) : HeapRun where
  sys :=
    { mem := mem
      heaps := fun id => heapInit (lists id)
      sharedLo := lo
      sharedHi := hi
      ranges := [] }
  live := []

end CaraOS.Croi
