import CaraOS.Carafs.Alloc

namespace CaraOS.Carafs

/-!
# Cnodes and their item area

The getters, the TLV item area and the allocation of `cnode.c`.  A pinned
cnode pointer is the number of its block; every read through the pointer is a
load of the block and every assignment a store.
-/

/-- What a pinned cnode pointer refers to. -/
def loadCnode (block : Nat) : Fs Cnode := do
  match ← Fs.load block with
  | .cnode cn => return cn
  | _ => throw .ebadmagic

/-- `carafs_cnode_get`: pin and verify a cnode block. -/
def cnodeGet (bs block : Nat) : Fs Cnode := do
  let fresh ← Fs.get block .read
  match ← Fs.load block with
  | .cnode cn =>
    if cn.blockNo ≠ block then
      Fs.release block .ebadmagic
    else if fresh && !Block.crcOk bs (.cnode cn) then
      Fs.release block .ebadmagic
    else if cn.linkCount = 0 then
      Fs.release block .enoent
    else
      return cn
  | _ => Fs.release block .ebadmagic

/-- `carafs_cnode_dirty`: refresh the checksum, then join the transaction. -/
def cnodeDirty (bs block : Nat) : Fs Unit := do
  let cn ← loadCnode block
  Fs.store block (Block.putCrc bs (.cnode cn))
  Fs.txnDirty block

/-- A cnode with the checksum of its other fields. -/
def Cnode.sealed (bs : Nat) (cn : Cnode) : Cnode :=
  { cn with
    crc32c := blockCrc (Block.bytes bs (.cnode cn)) (Block.crcOff (.cnode cn)) }

theorem Cnode.crcOk_sealed (bs : Nat) (cn : Cnode) :
    Block.crcOk bs (.cnode (cn.sealed bs)) = true :=
  crcOk_putCrc bs (.cnode cn) (List.cons_ne_nil _ _)

/-! ## Items -/

def itemBytes (items : List Item) : Nat :=
  (items.map fun item => itemStride item.payload.len).sum

def itemFind (cn : Cnode) (kind : ItemKind) : Option Payload :=
  (cn.items.find? fun item => item.kind == kind).map Item.payload

/-- Replace the payload of the first item of a kind, or append the item. -/
def putItem (kind : ItemKind) (payload : Payload) :
    List Item → List Item
  | [] => [{ kind := kind, payload := payload }]
  | item :: rest =>
    if item.kind = kind then
      { item with payload := payload } :: rest
    else
      item :: putItem kind payload rest

def dropItem (kind : ItemKind) (items : List Item) : List Item :=
  items.eraseP fun item => item.kind == kind

/--
`carafs_item_resize` together with the copy into the payload it returns: the
item gets the given payload if the area can hold it.
-/
def itemResize (bs : Nat) (cn : Cnode) (kind : ItemKind) (payload : Payload) : Except Err Cnode :=
  let strideOld :=
    match itemFind cn kind with
    | none => 0
    | some old => itemStride old.len
  if itemBytes cn.items - strideOld + itemStride payload.len > bs - cnodeItemsOff then
    .error .eoverflow
  else
    .ok { cn with items := putItem kind payload cn.items }

def itemRemove (cn : Cnode) (kind : ItemKind) : Cnode :=
  { cn with items := dropItem kind cn.items }

/-- A byte payload after a resize: cut off, or grown by zeroes. -/
def resizeBytes (content : List UInt8) (newLen : Nat) : List UInt8 :=
  padTo newLen (content.take newLen)

/-- The bytes of a payload; a packed list of dirents reads as its images. -/
def Payload.content : Payload → List UInt8
  | .bytes content => content
  | .dirents entries => (entries.map Dirent.image).flatten

def splice (bytes : List UInt8) (offset : Nat) (chunk : List UInt8) : List UInt8 :=
  bytes.take offset ++ chunk ++ bytes.drop (offset + chunk.length)

/-! ## Allocation -/

/-- The generation of a new cnode: continue the one of a legible cnode. -/
def nextGeneration (bs block : Nat) (old : Block) : Nat :=
  match old with
  | .cnode cn =>
    if cn.blockNo = block ∧ Block.crcOk bs (.cnode cn) = true then
      cn.generation + 1
    else
      1
  | _ => 1

def cnodeAlloc (bs : Nat) (type : CnodeType) (hint : Nat) : Fs Nat := do
  let block ← allocBlock bs hint
  let _ ← Fs.get block .read
  let old ← Fs.load block
  let now ← Fs.now
  Fs.store block (.cnode {
    blockNo := block
    generation := nextGeneration bs block old
    type := type
    linkCount := 1
    createdNs := now
    modifiedNs := now
    changedNs := now })
  let joined ← Fs.attempt (cnodeDirty bs block)
  Fs.put block
  Fs.settle joined
  return block

end CaraOS.Carafs
