import CaraOS.Carafs.CnodeLife

namespace CaraOS.Carafs

/-!
# File content

The functions of `file.c`.  Offsets and sizes are unsigned 64-bit numbers; the
sums that can wrap are reduced where the source lets them wrap.
-/

/-- `struct FileMap`: `phys = 0` is a hole. -/
structure FileMap where
  phys : Nat := 0
  run : Nat := 2 ^ 64 - 1
  unwritten : Bool := false
  fresh : Bool := false
  deriving DecidableEq

/-- `flags & CARAFS_EXT_UNWRITTEN`. -/
def isUnwritten (flags : Nat) : Bool :=
  flags.testBit 0

/-- The inline loop of `map_lookup` from a file block on. -/
def inlineLookup (fblk : Nat) : Nat → List Extent → FileMap
  | _, [] => {}
  | fo, extent :: rest =>
    if fblk < fo + extent.count then
      if extent.start ≠ 0 then
        { phys := extent.start + (fblk - fo)
          run := fo + extent.count - fblk
          unwritten := isUnwritten extent.flags }
      else
        { run := fo + extent.count - fblk }
    else
      inlineLookup fblk (fo + extent.count) rest

/-- The hole branch of `map_lookup`: bounded by the next mapped extent. -/
def holeLookup (bs root fblk : Nat) : Fs FileMap := do
  match ← Fs.attempt (etreeNext bs root fblk) with
  | .ok extent => return { run := extent.fileOff - fblk }
  | .error .enotfound => return {}
  | .error code => throw code

def mapLookup (bs : Nat) (cn : Cnode) (fblk : Nat) : Fs FileMap := do
  if cn.treeRoot ≠ 0 then
    match ← Fs.attempt (etreeFloor bs cn.treeRoot fblk) with
    | .ok extent =>
      if fblk < extent.fileOff + extent.count then
        return {
          phys := extent.start + (fblk - extent.fileOff)
          run := extent.fileOff + extent.count - fblk
          unwritten := isUnwritten extent.flags }
      else
        holeLookup bs cn.treeRoot fblk
    | .error .enotfound => holeLookup bs cn.treeRoot fblk
    | .error code => throw code
  else
    return inlineLookup fblk 0 cn.ext

/-! ## Inline extents -/

def inlineMappedEnd (exts : List Extent) : Nat :=
  (exts.map Extent.count).sum

/-- The last inline extent takes a run that continues it. -/
def appendMerges (last : Extent) (start count : Nat) : Bool :=
  last.start != 0 && last.start + last.count == start &&
    decide (last.count + count ≤ 0xFFFFFFFF)

/-- The hole an inline run falls into: its index and first file block. -/
def findHole (fo : Nat) : Nat → Nat → List Extent → Option (Nat × Nat × Extent)
  | _, _, [] => none
  | i, hs, extent :: rest =>
    if fo < hs + extent.count then
      some (i, hs, extent)
    else
      findHole fo (i + 1) (hs + extent.count) rest

/-- The extents a run leaves in the place of the hole it fills. -/
def fillHole (hs holeCount fo start count : Nat) : List Extent :=
  let pre := fo - hs
  let post := hs + holeCount - (fo + count)
  (if pre ≠ 0 then [{ start := 0, count := pre }] else []) ++
    [{ start := start, count := count }] ++
    (if post ≠ 0 then [{ start := 0, count := post }] else [])

/-- What `inline_insert` decides to do. -/
inductive InlineChoice where
  | exts (exts : List Extent)
  | spill
  | fail
  deriving DecidableEq

/-- The case analysis of `inline_insert` on the inline array. -/
def inlineChoice (exts : List Extent) (fo start count : Nat) : InlineChoice :=
  let n := exts.length
  let mappedEnd := inlineMappedEnd exts
  if fo = mappedEnd then
    if (exts.getLast?).any fun last => appendMerges last start count then
      .exts (exts.modify (n - 1) fun last =>
        { last with count := last.count + count })
    else if n = inlineExtents then
      .spill
    else
      .exts (exts ++ [{ start := start, count := count }])
  else if mappedEnd < fo then
    if n + 2 > inlineExtents ∨ fo - mappedEnd > 0xFFFFFFFF then
      .spill
    else
      .exts (exts ++ [{ start := 0, count := fo - mappedEnd }, { start := start, count := count }])
  else
    match findHole fo 0 0 exts with
    | none => .fail
    | some (i, hs, hole) =>
      if hole.start ≠ 0 ∨ hs + hole.count < fo + count then
        .fail
      else
        let filled := fillHole hs hole.count fo start count
        if n - 1 + filled.length > inlineExtents then
          .spill
        else
          .exts (exts.take i ++ filled ++ exts.drop (i + 1))

def inlineInsert (bs cnode fo start count : Nat) : Fs Unit := do
  let cn ← loadCnode cnode
  match inlineChoice cn.ext fo start count with
  | .exts exts => Fs.store cnode (.cnode { cn with ext := exts })
  | .spill => do
      etreeSpill bs cnode
      etreeInsert bs cnode { fileOff := fo, start := start, count := count }
  | .fail => throw .einval

/-- `ensure_mapped`: map a file block, allocating when it is a hole. -/
def ensureMapped (bs cnode fblk want : Nat) : Fs FileMap := do
  let cn ← loadCnode cnode
  let map ← mapLookup bs cn fblk
  if map.phys ≠ 0 then
    return { map with run := min map.run want }
  else
    let ask := min (min want map.run) 0x80000000
    let (start, got) ← allocExtent bs cn.blockNo ask
    if cn.treeRoot ≠ 0 then
      etreeInsert bs cnode { fileOff := fblk, start := start, count := got }
    else
      inlineInsert bs cnode fblk start got
    let cn ← loadCnode cnode
    Fs.store cnode (.cnode { cn with blocksUsed := cn.blocksUsed + got })
    return { phys := start, run := got, fresh := true }

/-! ## Block-mapped writes -/

/--
The inner loop of `blocks_write`: copy into the blocks of one run.  Returns
the offset and the bytes that are left.
-/
def writeRun (bs oldSize fblk : Nat) (map : FileMap) :
    Nat → Nat → Nat → List UInt8 → Fs (Nat × List UInt8)
  | 0, _, off, src => return (off, src)
  | run + 1, b, off, src =>
    if src = [] then
      return (off, src)
    else do
      let boff := off % bs
      let chunk := min (bs - boff) src.length
      let zero := map.fresh || decide (chunk = bs) ||
        decide (oldSize ≤ (fblk + b) * bs % 2 ^ 64)
      let _ ← Fs.get (map.phys + b) (if zero then .zero else .read)
      let image ← Fs.load (map.phys + b)
      Fs.store (map.phys + b) (.data (splice (image.bytes bs) boff (src.take chunk)))
      Fs.dirty (map.phys + b)
      Fs.put (map.phys + b)
      writeRun bs oldSize fblk map run (b + 1) ((off + chunk) % 2 ^ 64) (src.drop chunk)

/-- The outer loop of `blocks_write`; every round copies some bytes. -/
def blocksWriteFrom (bs cnode oldSize lastBlk : Nat) :
    Nat → Nat → List UInt8 → Fs Unit
  | _, _, [] => pure ()
  | 0, _, _ => throw .overrun
  | fuel + 1, off, src => do
      let fblk := off / bs
      let want := (lastBlk + 2 ^ 64 - fblk + 1) % 2 ^ 64
      let map ← ensureMapped bs cnode fblk want
      let (off, src) ← writeRun bs oldSize fblk map map.run 0 off src
      blocksWriteFrom bs cnode oldSize lastBlk fuel off src

def blocksWrite (bs cnode off : Nat) (src : List UInt8) (oldSize : Nat) : Fs Unit :=
  blocksWriteFrom bs cnode oldSize ((off + src.length - 1) % 2 ^ 64 / bs) src.length off src

/-- The inline-data item after a write, if the item area can hold it. -/
def inlineWrite (bs : Nat) (cn : Cnode) (off : Nat) (buf : List UInt8)
    (newSize : Nat) : Except Err Cnode :=
  if 0xFFFF < newSize then
    .error .eoverflow
  else
    let current := (itemFind cn .inlineData).elim [] Payload.content
    itemResize bs cn .inlineData (.bytes (splice (resizeBytes current newSize) off buf))

/-- The promotion of inline data: stream it out, then drop the item. -/
def promoteInline (bs cnode : Nat) : Fs Unit := do
  let cn ← loadCnode cnode
  let current := (itemFind cn .inlineData).elim [] Payload.content
  if current ≠ [] then
    blocksWrite bs cnode 0 current 0
  let cn ← loadCnode cnode
  Fs.store cnode (.cnode (itemRemove cn .inlineData))

/-- The part of `Carafs_FileWrite` that places the bytes. -/
def placeBytes (bs cnode off : Nat) (buf : List UInt8) (newSize : Nat) :
    Fs Unit := do
  let cn ← loadCnode cnode
  if cn.treeRoot ≠ 0 ∨ cn.ext ≠ [] then
    blocksWrite bs cnode off buf cn.sizeBytes
  else
    match inlineWrite bs cn off buf newSize with
    | .ok written =>
      -- the copy into the item is not checked against its length
      if newSize < off + buf.length then
        throw .overrun
      else
        Fs.store cnode (.cnode written)
    | .error _ => do
        promoteInline bs cnode
        blocksWrite bs cnode off buf cn.sizeBytes

/-- The body of `Carafs_FileWrite` on a pinned cnode. -/
def fileWriteLocked (bs cnode off : Nat) (buf : List UInt8) :
    Fs Unit := do
  let cn ← loadCnode cnode
  if cn.type ≠ .file then
    throw .einval
  else do
    let newSize := max cn.sizeBytes ((off + buf.length) % 2 ^ 64)
    placeBytes bs cnode off buf newSize
    let now ← Fs.now
    let cn ← loadCnode cnode
    Fs.store cnode (.cnode { cn with
      sizeBytes := newSize
      modifiedNs := now
      changedNs := now })
    cnodeDirty bs cnode

/-- `Carafs_FileWrite` between the ends of its bracket. -/
def fileWrite (bs cnode off : Nat) (buf : List UInt8) : Fs Unit := do
  let _ ← cnodeGet bs cnode
  let wrote ← Fs.attempt (fileWriteLocked bs cnode off buf)
  Fs.put cnode
  Fs.settle wrote

/-- `Carafs_FileWrite`; an empty write opens no transaction. -/
def carafsFileWrite (cnode off : Nat) (buf : List UInt8) : M Unit := do
  if buf = [] then
    pure ()
  else do
    let m ← Action.read
    bracket (fileWrite m.blockSize cnode off buf)

/-! ## Reads -/

/-- The block loop of `Carafs_FileRead`; every round copies some bytes. -/
def readBlocks (bs : Nat) (cn : Cnode) : Nat → Nat → Nat → Fs (List UInt8)
  | _, _, 0 => return []
  | 0, _, _ => throw .overrun
  | fuel + 1, off, todo => do
      let boff := off % bs
      let chunk := min (bs - boff) todo
      let map ← mapLookup bs cn (off / bs)
      let bytes ←
        if map.phys = 0 ∨ map.unwritten = true then
          pure (List.replicate chunk 0)
        else do
          let _ ← Fs.get map.phys .read
          let image ← Fs.load map.phys
          Fs.put map.phys
          pure (((image.bytes bs).drop boff).take chunk)
      let rest ← readBlocks bs cn fuel (off + chunk) (todo - chunk)
      return bytes ++ rest

/-- The part of `Carafs_FileRead` that copies bytes of a pinned cnode. -/
def fileReadLocked (bs : Nat) (cn : Cnode) (off len : Nat) :
    Fs (List UInt8) := do
  if cn.type ≠ .file then
    throw .einval
  else if cn.sizeBytes ≤ off then
    return []
  else
    let todo := min len (cn.sizeBytes - off)
    match itemFind cn .inlineData with
    | some payload =>
      -- the copy relies on the size being the length of the item
      if payload.content.length < off + todo then
        throw .overrun
      else
        return (payload.content.drop off).take todo
    | none => readBlocks bs cn todo off todo

/-- `Carafs_FileRead` on a mounted volume. -/
def fileRead (bs cnode off len : Nat) : Fs (List UInt8) := do
  let cn ← cnodeGet bs cnode
  let outcome ← Fs.attempt (fileReadLocked bs cn off len)
  Fs.put cnode
  Fs.settle outcome

/-- `Carafs_FileRead`; `*read_out` is the number of bytes returned. -/
def carafsFileRead (cnode off len : Nat) : M (List UInt8) :=
  reading fun bs => fileRead bs cnode off len

end CaraOS.Carafs
