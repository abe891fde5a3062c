import CaraOS.Carafs.Geometry
import CaraOS.Carafs.Journal
import CaraOS.Carafs.Program

namespace CaraOS.Carafs

/-!
# Making, mounting and operating a volume

`mkfs.c` and `mount.c`: laying out an empty volume, the mount with its journal
replay, sync and unmount, and the bracket every mutating operation runs in.
-/

/-! ## Superblock images -/

/-- `sb_serialize`: the image of the in-memory superblock. -/
def Mount.sbImage (m : Mount) : Block :=
  Block.putCrc m.blockSize (.super m.sb)

/-- `sb_write_direct`: write the superblock straight home, then flush. -/
def sbWriteDirect : M Unit := do
  let _ ← cacheGet 0 .read
  let m ← Action.read
  Action.modify (cacheStore 0 m.sbImage)
  let wrote ← Action.attempt (onBdev (Bdev.write 0 m.sbImage))
  Action.modify (cachePut 0)
  Action.settle wrote
  onBdev Bdev.flush

/-- `carafs_sb_write`: log the superblock with the open transaction. -/
def sbWrite (bs : Nat) : Fs Unit := do
  let _ ← Fs.get 0 .read
  let sb ← Fs.sb
  Fs.store 0 (Block.putCrc bs (.super sb))
  let joined ← Fs.attempt (Fs.txnDirty 0)
  Fs.put 0
  Fs.settle joined

/-! ## The operation bracket -/

/-- `carafs_mark_dirty`: the first write of a mount makes the volume DIRTY. -/
def markDirty : M Unit := do
  let m ← Action.read
  if m.sb.state = .dirty then
    pure ()
  else do
    Action.modify fun m => { m with sb := { m.sb with state := .dirty } }
    let wrote ← Action.attempt sbWriteDirect
    match wrote with
    | .ok () => pure ()
    | .error code => do
        Action.modify fun m =>
          { m with sb := { m.sb with state := .clean } }
        Action.fail code

def opBegin : M Unit := do
  let m ← Action.read
  if !m.mounted || m.readonly then
    Action.fail .einval
  else do
    markDirty
    Action.modify fun m => txnBegin { m with sbAtTxn := m.sb }

def opAbort (m : Mount) : Mount :=
  { txnAbort m with sb := m.sbAtTxn }

def opCommit : M Unit := do
  let m ← Action.read
  let outcome ← Action.attempt do
    Fs.run (sbWrite m.blockSize)
    txnCommit
  match outcome with
  | .ok () => pure ()
  | .error code => do
      Action.modify opAbort
      Action.fail code

/-- One mutating operation: begin, the body, then commit or abort. -/
def bracket {α : Type} (body : Fs α) : M α := do
  opBegin
  let outcome ← Action.attempt (Fs.run body)
  match outcome with
  | .ok value => do
      opCommit
      return value
  | .error code => do
      Action.modify opAbort
      Action.fail code

/-! ## Mount, sync, unmount -/

/-- `struct CarafsMountOpts`, with the arena given as a number of entries. -/
structure MountOpts where
  nEnts : Nat
  readonly : Bool := false
  clock : Nat → Nat := fun _ => 0

/-- A superblock with every field zero. -/
def zeroSb : Superblock where
  version := 0
  blockSizeLog2 := 0
  state := .clean
  agSizeBlocks := 0
  totalBlocks := 0
  journalStart := 0
  journalBlocks := 0
  agCount := 0
  agFirstBlock := 0
  rootCnode := 0
  freeBlocks := 0
  backupSb := 0
  uuid := []
  name := []
  createdNs := 0
  modifiedNs := 0

/-- The mount object before the superblock has been read. -/
def mountInit (opts : MountOpts) (dev : Bdev) : Mount where
  bdev := dev
  blockSize := dev.blockSize
  readonly := opts.readonly
  sb := zeroSb
  sbAtTxn := zeroSb
  ents := List.replicate opts.nEnts {}
  lru := List.range opts.nEnts
  clock := opts.clock

/-- The geometry fields of a superblock agree with the canonical layout. -/
def sbMatches (sb : Superblock) (g : Geometry) : Bool :=
  sb.journalStart == g.journalStart && sb.journalBlocks == g.journalBlocks &&
    sb.agFirstBlock == g.agFirst && sb.agSizeBlocks == g.agSize &&
    sb.agCount == g.agCount && sb.backupSb == g.backupSb &&
    decide (g.agFirst ≤ sb.rootCnode) &&
    decide (sb.rootCnode < g.backupSb)

/-- The tests `Carafs_Mount` makes on block 0. -/
def sbAccepted (bs nBlocks : Nat) (image : Block) : Except Err Superblock :=
  match image with
  | .super sb =>
    if !Block.crcOk bs (.super sb) then
      .error .ebadmagic
    else if sb.version != 1 || sb.incompat != 0 then
      .error .ebadversion
    else if 2 ^ sb.blockSizeLog2 != bs ||
        decide (nBlocks < sb.totalBlocks) then
      .error .einval
    else
      match geometry bs sb.totalBlocks with
      | .error _ => .error .einval
      | .ok g => if sbMatches sb g then .ok sb else .error .einval
  | _ => .error .ebadmagic

/-- Take over a superblock read from block 0. -/
def loadSb (m : Mount) : Mount :=
  match m.cached 0 with
  | .super sb => { m with sb := sb }
  | _ => m

/-- The replay branch of `Carafs_Mount`: recover, then mark clean. -/
def mountReplay : M Unit := do
  journalReplay
  let _ ← cacheGet 0 .read
  Action.modify loadSb
  Action.modify (cachePut 0)
  Action.modify fun m => { m with sb := { m.sb with state := .clean } }
  sbWriteDirect

/-- The first half of `Carafs_Mount`: read and check the superblock. -/
def mountSuper : M Unit := do
  let m ← Action.read
  if m.ents.length < cacheMinBlocks then
    Action.fail .enomem
  else do
    let _ ← cacheGet 0 .read
    let m ← Action.read
    match sbAccepted m.blockSize m.bdev.nBlocks (m.cached 0) with
    | .error code => do
        Action.modify (cachePut 0)
        Action.fail code
    | .ok sb => do
        Action.modify fun m =>
          { m with
            readonly := m.readonly || sb.roCompat != 0
            sb := sb }
        Action.modify (cachePut 0)
        Action.modify (cacheInvalidate 0)
        Action.modify fun m =>
          { m with jLogBlocks := m.sb.journalBlocks - 1 }

/-- `Carafs_Mount` on a freshly cleared mount object. -/
def carafsMount : M Unit := do
  mountSuper
  let m ← Action.read
  if m.sb.state = .dirty ∧ m.readonly = false then
    mountReplay
  else
    journalInit
  Action.modify fun m => { m with mounted := true }

def carafsSync : M Unit := do
  let m ← Action.read
  if !m.mounted then
    Action.fail .einval
  else if m.readonly then
    cacheSync
  else
    journalCheckpoint

/-! ## Mkfs -/

/-- `struct CarafsMkfsOpts` and the size of the scratch buffer. -/
structure MkfsOpts where
  blockSizeLog2 : Nat := 0
  name : List UInt8
  uuid : Option (List UInt8) := none
  nowNs : Nat := 0
  scratchBytes : Nat

def fillSuperblock (g : Geometry) (opts : MkfsOpts) (freeBlocks : Nat) : Superblock where
  version := 1
  blockSizeLog2 := Nat.log2 g.blockSize
  state := .clean
  agSizeBlocks := g.agSize
  totalBlocks := g.totalBlocks
  journalStart := g.journalStart
  journalBlocks := g.journalBlocks
  agCount := g.agCount
  agFirstBlock := g.agFirst
  rootCnode := g.rootCnode
  freeBlocks := freeBlocks
  backupSb := g.backupSb
  uuid :=
    match opts.uuid with
    | some uuid => uuid
    | none =>
      let h1 := nameHash opts.name
      let h2 := ((h1 ^^^ opts.nowNs) * 1099511628211) % 2 ^ 64
      leBytes 8 h1 ++ leBytes 8 h2
  name := opts.name
  createdNs := opts.nowNs
  modifiedNs := opts.nowNs

/-- The bitmap block `Carafs_Mkfs` writes for one AG. -/
def mkfsAg (g : Geometry) (ag : Nat) : AgHeader :=
  let start := g.agFirst + ag * g.agSize
  let stop := min (start + g.agSize) g.backupSb
  let covered := stop - start
  let hasRoot := decide (start ≤ g.rootCnode ∧ g.rootCnode < stop)
  let rootBit := if hasRoot then 2 ^ (g.rootCnode - start) else 0
  { blockNo := start
    freeCount := covered - (if hasRoot then 2 else 1)
    rotor := 0
    bits := 1 ||| rootBit ||| bitRange covered g.agSize }

/-- The AG loop of `Carafs_Mkfs`; returns the free blocks of all AGs. -/
def mkfsAgs (g : Geometry) : Nat → Nat → Nat → Action Err Bdev Nat
  | 0, _, freeTotal => pure freeTotal
  | remaining + 1, ag, freeTotal => do
      let header := mkfsAg g ag
      Bdev.write header.blockNo (Block.putCrc g.blockSize (.ag header))
      mkfsAgs g remaining (ag + 1) (freeTotal + header.freeCount)

/-- The empty root directory. -/
def mkfsRoot (g : Geometry) (nowNs : Nat) : Cnode where
  blockNo := g.rootCnode
  generation := 1
  type := .dir
  linkCount := 1
  createdNs := nowNs
  modifiedNs := nowNs
  changedNs := nowNs

def carafsMkfs (opts : MkfsOpts) : Action Err Bdev Unit := do
  let dev ← Action.read
  let bs := dev.blockSize
  let log2 := if opts.blockSizeLog2 = 0 then 12 else opts.blockSizeLog2
  if log2 < 9 || 16 < log2 || 2 ^ log2 != bs then
    Action.fail .einval
  else if opts.scratchBytes < bs then
    Action.fail .einval
  else if opts.name.length < 1 || 63 < opts.name.length ||
      !nameValid opts.name then
    Action.fail .einval
  else
    match geometry bs dev.nBlocks with
    | .error code => Action.fail code
    | .ok g => do
        Bdev.write g.journalStart (Block.putCrc bs (.jsb { seq := 1, head := 1 }))
        let freeTotal ← mkfsAgs g g.agCount 0 0
        Bdev.write g.rootCnode (Block.putCrc bs (.cnode (mkfsRoot g opts.nowNs)))
        let image := Block.putCrc bs (.super (fillSuperblock g opts freeTotal))
        Bdev.write g.backupSb image
        Bdev.write 0 image
        Bdev.flush

end CaraOS.Carafs
