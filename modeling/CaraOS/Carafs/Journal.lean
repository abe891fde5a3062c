import CaraOS.Carafs.Cache

namespace CaraOS.Carafs

/-!
# The metadata write-ahead log

The functions of `journal.c`, and `carafs_txn_commit` of `cache.c`, which
appends to the log.  A committed transaction occupies the log blocks

```text
DESC | image[0] | ... | image[n-1] | COMMIT
```

at consecutive ring offsets in `[1, j_log_blocks]`; offset 0 of the region is
the JSB.
-/

/-- `j_phys`: the physical block of a log offset. -/
def jPhys (m : Mount) (off : Nat) : Nat :=
  m.sb.journalStart + off

/-- The successor of a 64-bit sequence number. -/
def nextSeq (seq : Nat) : Nat :=
  (seq + 1) % 2 ^ 64

/-- The wrapping loop of `j_adv`. -/
def jWrap (logBlocks : Nat) : Nat → Nat → Nat
  | 0, o => o
  | fuel + 1, o =>
    if o > logBlocks then jWrap logBlocks fuel (o - logBlocks) else o

/-- `j_adv`: advance a log offset, wrapping within `[1, j_log_blocks]`. -/
def jAdv (logBlocks off k : Nat) : Nat :=
  jWrap logBlocks (off + k) (off + k)

/-- `j_used`: the distance from head to tail around the ring. -/
def jUsed (m : Mount) : Nat :=
  if m.jTail ≥ m.jHead then
    m.jTail - m.jHead
  else
    m.jTail + m.jLogBlocks - m.jHead

/-- The JSB that records the head and its sequence number. -/
def Mount.jsbImage (m : Mount) : Block :=
  Block.putCrc m.blockSize (.jsb { seq := m.jHeadSeq, head := m.jHead })

/-- `jsb_write`: persist the head and its sequence number, then flush. -/
def jsbWrite : M Unit := do
  let m ← Action.read
  onBdev (Bdev.write m.sb.journalStart m.jsbImage)
  onBdev Bdev.flush

/-- The cursors after the whole log has been dropped. -/
def Mount.checkpointed (m : Mount) : Mount :=
  { m with
    jHead := m.jTail
    jHeadSeq := m.jNextSeq
    statCheckpoints := m.statCheckpoints + 1 }

/-- `carafs_journal_checkpoint`: everything home, then drop the whole log. -/
def journalCheckpoint : M Unit := do
  cacheSync
  Action.modify Mount.checkpointed
  jsbWrite

/-- `carafs_journal_maybe_checkpoint`: checkpoint a half-full log. -/
def journalMaybeCheckpoint : M Unit := do
  let m ← Action.read
  if jUsed m ≥ m.jLogBlocks / 2 then
    journalCheckpoint

/--
The image loop of `carafs_journal_append`: copy the cached images of the
listed blocks to the log offsets after `off`, chaining their checksum.
-/
def appendImages (off : Nat) : Nat → List Nat → Nat → M Nat
  | _, [], txnCrc => pure txnCrc
  | i, block :: rest, txnCrc => do
      let _ ← cacheGet block .read
      let m ← Action.read
      let image := m.cached block
      let wrote ← Action.attempt (onBdev (Bdev.write
          (jPhys m (jAdv m.jLogBlocks off (1 + i))) image))
      Action.modify (cachePut block)
      Action.settle wrote
      appendImages off (i + 1) rest (crc32c txnCrc (image.bytes m.blockSize))

/-- The room test of `carafs_journal_append`, with its checkpoint. -/
def journalMakeRoom : M Unit := do
  let m ← Action.read
  let need := m.txnBlocks.length + 2
  if need > m.jLogBlocks then
    Action.fail .eoverflow
  else if jUsed m + need > m.jLogBlocks then
    journalCheckpoint

/-- The DESC record of the open transaction. -/
def Mount.descImage (m : Mount) : Block :=
  Block.putCrc m.blockSize (.jdesc { seq := m.jNextSeq, targets := m.txnBlocks })

/-- The COMMIT record of the open transaction. -/
def Mount.commitImage (m : Mount) (txnCrc : Nat) : Block :=
  Block.putCrc m.blockSize (.jcommit {
      seq := m.jNextSeq
      txnCrc := txnCrc
      nBlocks := m.txnBlocks.length })

/-- The cursors after the open transaction has been logged. -/
def Mount.appended (m : Mount) : Mount :=
  { m with
    jTail := jAdv m.jLogBlocks m.jTail (m.txnBlocks.length + 2)
    jNextSeq := nextSeq m.jNextSeq }

/-- The DESC, image and COMMIT writes of `carafs_journal_append`. -/
def journalWriteTxn : M Unit := do
  let m ← Action.read
  let n := m.txnBlocks.length
  onBdev (Bdev.write (jPhys m m.jTail) m.descImage)
  let txnCrc ← appendImages m.jTail 0 m.txnBlocks 0
  onBdev (Bdev.write (jPhys m (jAdv m.jLogBlocks m.jTail (1 + n))) (m.commitImage txnCrc))
  onBdev Bdev.flush
  Action.modify Mount.appended

def journalAppend : M Unit := do
  journalMakeRoom
  journalWriteTxn

/-- The end of a committed transaction: its blocks are ordinary again. -/
def txnRelease (m : Mount) : Mount :=
  { releaseTxn m.txnBlocks m with inTxn := false, txnBlocks := [] }

def txnCommit : M Unit := do
  writebackData
  journalAppend
  Action.modify txnRelease
  let _ ← Action.attempt journalMaybeCheckpoint

/-- `jsb_read`: read and validate the JSB. -/
def jsbRead : M Jsb := do
  Action.modify fun m => { m with jLogBlocks := m.sb.journalBlocks - 1 }
  let m ← Action.read
  let image ← onBdev (Bdev.read m.sb.journalStart)
  match image with
  | .jsb j =>
    if !Block.crcOk m.blockSize (.jsb j) then
      Action.fail .ebadmagic
    else if j.head < 1 || j.head > m.jLogBlocks then
      Action.fail .einval
    else
      pure j
  | _ => Action.fail .ebadmagic

/-- Set the in-memory cursors to an empty log at the given place. -/
def setJournal (head seq : Nat) (m : Mount) : Mount :=
  { m with
    jHead := head
    jHeadSeq := seq
    jTail := head
    jNextSeq := seq }

/-- `carafs_journal_init`: a clean volume has an empty log. -/
def journalInit : M Unit := do
  let j ← jsbRead
  Action.modify (setJournal j.head j.seq)

/-- Pass 1 of replay: chain the checksum of the logged images. -/
def replayCrc (off : Nat) : Nat → Nat → Nat → M Nat
  | 0, _, txnCrc => pure txnCrc
  | remaining + 1, i, txnCrc => do
      let m ← Action.read
      let image ← onBdev
        (Bdev.read (jPhys m (jAdv m.jLogBlocks off (1 + i))))
      replayCrc off remaining (i + 1)
        (crc32c txnCrc (image.bytes m.blockSize))

/-- Pass 2 of replay: write the logged images home. -/
def replayApply (off : Nat) : Nat → List Nat → M Unit
  | _, [] => pure ()
  | i, target :: rest => do
      let m ← Action.read
      let image ← onBdev
        (Bdev.read (jPhys m (jAdv m.jLogBlocks off (1 + i))))
      onBdev (Bdev.write target image)
      replayApply off (i + 1) rest

/-- The tests replay makes on a block that should be a DESC record. -/
def descAccepted (bs totalBlocks seq : Nat) (image : Block) : Option (List Nat) :=
  match image with
  | .jdesc d =>
    if Block.crcOk bs (.jdesc d) && d.seq == seq && d.targets.length != 0 &&
        decide (d.targets.length ≤ txnMaxBlocks) &&
        d.targets.all (fun t => decide (t < totalBlocks)) then
      some d.targets
    else
      none
  | _ => none

/-- The tests replay makes on a block that should be a COMMIT record. -/
def commitAccepted (bs seq n : Nat) (txnCrc : Nat) (image : Block) : Bool :=
  match image with
  | .jcommit c =>
    Block.crcOk bs (.jcommit c) && c.seq == seq && c.nBlocks == n && c.txnCrc == txnCrc
  | _ => false

/--
The transaction loop of `carafs_journal_replay`.  It returns where the chain
ends, or nothing when the fuel ran out before the end was found.
-/
def replayLoop : Nat → Nat → Nat → M (Option (Nat × Nat))
  | 0, _, _ => pure none
  | fuel + 1, off, seq => do
      let m ← Action.read
      let descImage ← onBdev (Bdev.read (jPhys m off))
      match descAccepted m.blockSize m.sb.totalBlocks seq descImage with
      | none => pure (some (off, seq))
      | some targets => do
          let n := targets.length
          let txnCrc ← replayCrc off n 0 0
          let commitImage ← onBdev (Bdev.read (jPhys m (jAdv m.jLogBlocks off (1 + n))))
          if commitAccepted m.blockSize seq n txnCrc commitImage then do
            replayApply off 0 targets
            replayLoop fuel (jAdv m.jLogBlocks off (n + 2)) (nextSeq seq)
          else
            pure (some (off, seq))

/--
`carafs_journal_replay`.  Every accepted DESC record has the next sequence
number and replay only copies blocks, so the loop ends within one round more
than the device has blocks.
-/
def journalReplay : M Unit := do
  let j ← jsbRead
  let m ← Action.read
  let chainEnd ← replayLoop (m.bdev.nBlocks + 1) j.head j.seq
  match chainEnd with
  | none => Action.fail .eio
  | some (off, seq) => do
      onBdev Bdev.flush
      Action.modify (setJournal off seq)
      jsbWrite

end CaraOS.Carafs
