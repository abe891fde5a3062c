import CaraOS.Carafs.Program

namespace CaraOS.Carafs

/-!
# The block allocator

The functions of `alloc.c`.  Every AG starts with its bitmap block; bit `i` of
the bitmap is set when block `i` of the AG is taken.
-/

def agBlockOf (sb : Superblock) (ag : Nat) : Nat :=
  sb.agFirstBlock + ag * sb.agSizeBlocks

/--
`ag_get`: pin a bitmap block and verify it when it was freshly loaded.  A
cached block of another kind has no header to read.
-/
def agGet (bs ag : Nat) : Fs AgHeader := do
  let sb ← Fs.sb
  let block := agBlockOf sb ag
  let fresh ← Fs.get block .read
  match ← Fs.load block with
  | .ag header =>
    if fresh && !(header.blockNo == block && Block.crcOk bs (.ag header)) then
      Fs.release block .ebadmagic
    else
      return header
  | _ => Fs.release block .ebadmagic

/--
`scan_free`: the first clear bit at or after `i`, or `agSize`.  Whole bytes of
set bits are skipped.
-/
def scanFree (bits agSize : Nat) : Nat → Nat → Nat
  | 0, _ => agSize
  | fuel + 1, i =>
    if i < agSize then
      if i % 8 = 0 ∧ (bits >>> i) % 256 = 255 then
        scanFree bits agSize fuel (i + 8)
      else if bits.testBit i then
        scanFree bits agSize fuel (i + 1)
      else
        i
    else
      agSize

/-- The first clear bit from the rotor on, wrapping once. -/
def findFree (bits agSize rotor : Nat) : Option Nat :=
  let rotor := if rotor < agSize then rotor else 0
  let rel := scanFree bits agSize agSize rotor
  if rel < agSize then
    some rel
  else
    let rel := scanFree bits agSize agSize 0
    if rel < agSize then some rel else none

/-- The run of clear bits at `rel`: its length from `got` on, up to `want`. -/
def runLength (bits agSize rel want : Nat) : Nat → Nat → Nat
  | 0, got => got
  | fuel + 1, got =>
    if got < want ∧ rel + got < agSize ∧
        bits.testBit (rel + got) = false then
      runLength bits agSize rel want fuel (got + 1)
    else
      got

/-- Drop the stale cache entries of a granted run. -/
def invalidateRun (start : Nat) : Nat → Fs Unit
  | 0 => pure ()
  | count + 1 => do
      Fs.invalidate start
      invalidateRun (start + 1) count

def AgHeader.granted (header : AgHeader) (agSize rel got : Nat) : AgHeader :=
  { header with
    freeCount := header.freeCount - got
    rotor := if rel + got < agSize then rel + got else 0
    bits := header.bits ||| bitRange rel (rel + got) }

/-- `ag_try_alloc`: the first free run of one AG, up to `want` blocks. -/
def agTryAlloc (bs ag want : Nat) : Fs (Nat × Nat) := do
  let header ← agGet bs ag
  let sb ← Fs.sb
  let agBlock := agBlockOf sb ag
  let agSize := sb.agSizeBlocks
  if header.freeCount = 0 then
    Fs.release agBlock .enotfound
  else
    match findFree header.bits agSize header.rotor with
    | none => Fs.release agBlock .ebadmagic
    | some rel => do
        let got := runLength header.bits agSize rel want want 1
        Fs.store agBlock (Block.putCrc bs (.ag (header.granted agSize rel got)))
        Fs.joinPut agBlock
        Fs.setSb { sb with freeBlocks := sb.freeBlocks - got }
        invalidateRun (agBlock + rel) got
        return (agBlock + rel, got)

/-- The AG loop of `carafs_alloc_extent`; AG numbers are 32-bit. -/
def allocFrom (bs want ag0 agCount : Nat) : Nat → Nat → Fs (Nat × Nat)
  | 0, _ => throw .enomem
  | remaining + 1, i => do
      let ag := (ag0 + i) % 2 ^ 32 % agCount
      match ← Fs.attempt (agTryAlloc bs ag want) with
      | .ok run => return run
      | .error .enotfound => allocFrom bs want ag0 agCount remaining (i + 1)
      | .error code => throw code

/-- `carafs_alloc_extent`: a run of up to `want` blocks near `hint`. -/
def allocExtent (bs hint want : Nat) : Fs (Nat × Nat) := do
  if want = 0 then
    throw .einval
  else
    let sb ← Fs.sb
    let ag0 :=
      if sb.agFirstBlock ≤ hint ∧ hint < sb.backupSb then
        (hint - sb.agFirstBlock) / sb.agSizeBlocks % 2 ^ 32
      else
        0
    allocFrom bs want ag0 sb.agCount sb.agCount 0

def allocBlock (bs hint : Nat) : Fs Nat := do
  let run ← allocExtent bs hint 1
  return run.1

def AgHeader.freed (header : AgHeader) (rel count : Nat) : AgHeader :=
  { header with
    freeCount := header.freeCount + count
    bits := Nat.xor header.bits (Nat.land header.bits (bitRange rel (rel + count))) }

/--
`carafs_free_extent`.  The end of the range is a 64-bit sum, the number of the
AG and the place in it are cut to 32 bits.
-/
def freeExtent (bs start count : Nat) : Fs Unit := do
  let sb ← Fs.sb
  if count = 0 ∨ start < sb.agFirstBlock ∨ sb.backupSb < (start + count) % 2 ^ 64 then
    throw .einval
  else
    let ag := (start - sb.agFirstBlock) / sb.agSizeBlocks % 2 ^ 32
    let agBlock := agBlockOf sb ag
    let rel := (start + 2 ^ 64 - agBlock) % 2 ^ 32
    if rel = 0 ∨ sb.agSizeBlocks < (rel + count) % 2 ^ 32 then
      throw .einval
    else
      let header ← agGet bs ag
      if (List.range count).all fun i => header.bits.testBit (rel + i) then
        Fs.store agBlock (Block.putCrc bs (.ag (header.freed rel count)))
        Fs.joinPut agBlock
        let sb ← Fs.sb
        Fs.setSb { sb with freeBlocks := sb.freeBlocks + count }
      else
        Fs.release agBlock .einval

end CaraOS.Carafs
