import CaraOS.Lib.Action
import CaraOS.Carafs.Format

namespace CaraOS.Carafs

/-!
# Block device, block cache and transaction membership

The state of a mounted volume and the functions of `cache.c` on it.  The bdev
keeps, beside its blocks, the ordered stream of the writes and flushes it was
given (the recording device of the crash tests) and a plan of which of its
calls fail.

The entry table is the list `ents` in slot order; `lru` lists the slots from
the most to the least recently used.  The bucket chains only serve to find the
entry of a block, so `indexFind` searches the table.
-/

/-- One request of the recorded stream. -/
inductive Io where
  | write (block : Nat) (image : Block)
  | flush
  deriving DecidableEq

/-- `struct CarafsBdev` over a block array, with its history and fault plan. -/
structure Bdev where
  blockSize : Nat
  nBlocks : Nat
  disk : Nat → Block
  stream : List Io := []
  calls : Nat := 0
  fault : Nat → Option Err := fun _ => none

/-- One block of the array replaced. -/
def setBlock (disk : Nat → Block) (block : Nat) (image : Block) : Nat → Block :=
  fun query => if query = block then image else disk query

namespace Bdev

/-- `bdev->read` of one block. -/
def read (block : Nat) : Action Err Bdev Block :=
  fun dev =>
    let next := { dev with calls := dev.calls + 1 }
    match dev.fault dev.calls with
    | some code => (.error code, next)
    | none =>
      if block + 1 > dev.nBlocks then
        (.error .erange, next)
      else
        (.ok (dev.disk block), next)

/-- `bdev->write` of one block; a failed write changes nothing. -/
def write (block : Nat) (image : Block) : Action Err Bdev Unit :=
  fun dev =>
    let next := { dev with calls := dev.calls + 1 }
    match dev.fault dev.calls with
    | some code => (.error code, next)
    | none =>
      if block + 1 > dev.nBlocks then
        (.error .erange, next)
      else
        (.ok (), { next with
          disk := setBlock dev.disk block image
          stream := dev.stream ++ [.write block image] })

/-- `bdev->flush`. -/
def flush : Action Err Bdev Unit :=
  fun dev =>
    let next := { dev with calls := dev.calls + 1 }
    match dev.fault dev.calls with
    | some code => (.error code, next)
    | none => (.ok (), { next with stream := dev.stream ++ [.flush] })

end Bdev

/-- `struct CarafsCacheEnt`: an empty slot has no block. -/
structure Ent where
  block : Option Nat := none
  dirty : Bool := false
  txn : Bool := false
  pins : Nat := 0
  data : Block := default

instance : Inhabited Ent :=
  ⟨{}⟩

/--
`struct CarafsMount`.  `txn_n` is the length of `txnBlocks`.  The clock answers
its `n`-th reading; a mount without a clock reads zero.
-/
structure Mount where
  bdev : Bdev
  blockSize : Nat
  readonly : Bool := false
  mounted : Bool := false
  sb : Superblock
  ents : List Ent
  lru : List Nat
  inTxn : Bool := false
  txnBlocks : List Nat := []
  sbAtTxn : Superblock
  jLogBlocks : Nat := 0
  jHead : Nat := 0
  jHeadSeq : Nat := 0
  jTail : Nat := 0
  jNextSeq : Nat := 0
  statCheckpoints : Nat := 0
  clock : Nat → Nat := fun _ => 0
  ticks : Nat := 0

/-- An action of the driver on a mounted volume. -/
abbrev M (α : Type) := Action Err Mount α

/-- A device request made by the driver. -/
def onBdev {α : Type} (request : Action Err Bdev α) : M α :=
  Action.within Mount.bdev (fun dev m => { m with bdev := dev }) request

/-! ## Entries -/

/-- The entry in a slot. -/
def Mount.ent (m : Mount) (idx : Nat) : Ent :=
  m.ents.getD idx default

/-- Replace the entry in a slot. -/
def Mount.setEnt (m : Mount) (idx : Nat) (e : Ent) : Mount :=
  { m with ents := m.ents.set idx e }

/-- `index_find`: the slot that caches a block. -/
def indexFind (m : Mount) (block : Nat) : Option Nat :=
  m.ents.findIdx? fun e => e.block == some block

def Mount.modifyBlock (m : Mount) (block : Nat) (change : Ent → Ent) : Mount :=
  match indexFind m block with
  | none => m
  | some idx => m.setEnt idx (change (m.ent idx))

/-- The cached image of a block: what a pinned data pointer refers to. -/
def Mount.cached (m : Mount) (block : Nat) : Block :=
  match indexFind m block with
  | none => default
  | some idx => (m.ent idx).data

/-- `ent_writeback`: write an entry home and clear its DIRTY flag. -/
def entWriteback (idx : Nat) : M Unit := do
  let m ← Action.read
  let e := m.ent idx
  onBdev (Bdev.write (e.block.getD 0) e.data)
  Action.modify fun m => m.setEnt idx { m.ent idx with dirty := false }

/-- An entry `ent_obtain` may take: empty, or unpinned and outside the txn. -/
def Ent.obtainable (e : Ent) : Bool :=
  e.block == none || (e.pins == 0 && !e.txn)

/-- `ent_obtain`: the coldest slot that can be taken, emptied. -/
def entObtain : M Nat := do
  let m ← Action.read
  match m.lru.reverse.find? fun idx => (m.ent idx).obtainable with
  | none => Action.fail .enomem
  | some idx =>
    if (m.ent idx).block == none then
      return idx
    else do
      if (m.ent idx).dirty then
        entWriteback idx
      Action.modify fun m =>
        m.setEnt idx { m.ent idx with block := none }
      return idx

/-- `CARAFS_GET_READ` and `CARAFS_GET_ZERO`. -/
inductive GetMode where
  | read
  | zero
  deriving DecidableEq

/-- Pin a slot and move it to the hot end of the LRU list. -/
def pinMru (idx : Nat) (m : Mount) : Mount :=
  let m := m.setEnt idx { m.ent idx with pins := (m.ent idx).pins + 1 }
  { m with lru := idx :: m.lru.erase idx }

/-- `carafs_cache_get`: pin a block, loading it on a miss; reports a load. -/
def cacheGet (block : Nat) (mode : GetMode) : M Bool := do
  let m ← Action.read
  if m.bdev.nBlocks ≤ block then
    Action.fail .erange
  else
    match indexFind m block with
    | some idx => do
        Action.modify (pinMru idx)
        return false
    | none => do
        let idx ← entObtain
        let image ←
          match mode with
          | .zero => pure (zeroBlock m.blockSize)
          | .read => onBdev (Bdev.read block)
        Action.modify fun m =>
          m.setEnt idx { m.ent idx with
            block := some block
            dirty := mode == .zero
            txn := false
            data := image }
        Action.modify (pinMru idx)
        return true

def cachePut (block : Nat) (m : Mount) : Mount :=
  m.modifyBlock block fun e => { e with pins := e.pins - 1 }

def cacheDirty (block : Nat) (m : Mount) : Mount :=
  m.modifyBlock block fun e => { e with dirty := true }

/-- `carafs_cache_invalidate`: pinned and txn entries are never dropped. -/
def cacheInvalidate (block : Nat) (m : Mount) : Mount :=
  m.modifyBlock block fun e =>
    if e.pins > 0 || e.txn then
      e
    else
      { e with block := none, dirty := false, txn := false }

/-- A store through the data pointer of a pinned block. -/
def cacheStore (block : Nat) (image : Block) (m : Mount) : Mount :=
  m.modifyBlock block fun e => { e with data := image }

/--
The write-back loop over the entry table: home-write every cached entry that
is selected, and report whether any was.
-/
def writebackWhere (selected : Ent → Bool) : List Nat → M Bool
  | [] => pure false
  | idx :: rest => do
      let m ← Action.read
      if (m.ent idx).block != none && selected (m.ent idx) then do
        entWriteback idx
        let _ ← writebackWhere selected rest
        return true
      else
        writebackWhere selected rest

/-- The slots of the entry table in order. -/
def Mount.slots (m : Mount) : List Nat :=
  List.range m.ents.length

/-- `carafs_cache_sync`: write back every dirty entry, then flush. -/
def cacheSync : M Unit := do
  let m ← Action.read
  let _ ← writebackWhere (fun e => e.dirty) m.slots
  onBdev Bdev.flush

/-! ## Transactions -/

def txnBegin (m : Mount) : Mount :=
  { m with inTxn := true, txnBlocks := [] }

def txnDirty (block : Nat) : M Unit := do
  let m ← Action.read
  match indexFind m block with
  | none => Action.fail .einval
  | some idx => do
      Action.modify fun m =>
        m.setEnt idx { m.ent idx with dirty := true }
      if !m.inTxn then
        pure ()
      else if (m.ent idx).txn then
        pure ()
      else if m.txnBlocks.length ≥ txnMaxBlocks then
        Action.fail .eoverflow
      else
        Action.modify fun m =>
          { m.setEnt idx { m.ent idx with txn := true } with
            txnBlocks := m.txnBlocks ++ [block] }

/-- `writeback_data`: the ordered-data barrier before a commit record. -/
def writebackData : M Unit := do
  let m ← Action.read
  let wrote ← writebackWhere (fun e => e.dirty && !e.txn) m.slots
  if wrote then
    onBdev Bdev.flush

def releaseTxn (blocks : List Nat) (m : Mount) : Mount :=
  blocks.foldl (fun m block => m.modifyBlock block fun e => { e with txn := false }) m

/-- Drop the entries of the aborted blocks. -/
def dropTxn (blocks : List Nat) (m : Mount) : Mount :=
  blocks.foldl (fun m block =>
      m.modifyBlock block fun e =>
        { e with block := none, dirty := false, txn := false, pins := 0 })
    m

def txnAbort (m : Mount) : Mount :=
  { dropTxn m.txnBlocks m with inTxn := false, txnBlocks := [] }

end CaraOS.Carafs
