import CaraOS.Carafs.File

namespace CaraOS.Carafs

/-!
# Directories

The functions of `dir.c`.  The hash that assigns a name its place is a
parameter: the source uses `Carafs_NameHash`, and nothing in this file depends
on which hash it is.
-/

open Fs (attempt now put settle store)

/-- The entries of the inline item; none when there is no item. -/
def inlineDirents (cn : Cnode) : List Dirent :=
  match itemFind cn .inlineDirents with
  | some (.dirents entries) => entries
  | _ => []

/-- The inline loop of `dir_probe`. -/
def inlineScan (hash : Nat) (name : List UInt8) (entries : List Dirent) : Scan :=
  entries.foldl (fun scan entry =>
      if entry.hash = hash then scan.note name entry else scan)
    {}

/-- `dir_probe`: whether a name is taken, and a free sequence number. -/
def dirProbe (bs : Nat) (cn : Cnode) (hash : Nat) (name : List UInt8) :
    Fs (Bool × Nat) := do
  let scan ←
    if cn.treeRoot ≠ 0 then
      dtreeScan bs cn.treeRoot hash name
    else
      pure (inlineScan hash name (inlineDirents cn))
  let seq ← settle (freeSeq scan.used)
  return (scan.found.isSome, seq)

def dirFind (bs : Nat) (cn : Cnode) (hash : Nat) (name : List UInt8) :
    Fs Dirent := do
  if cn.treeRoot ≠ 0 then
    dtreeLookup bs cn.treeRoot hash name
  else
    match (inlineDirents cn).find? fun entry =>
        decide (entry.hash = hash) && nameEq entry.name name with
    | some entry => return entry
    | none => throw .enotfound

/-- `dir_insert_entry`: inline while the item area holds it, else the tree. -/
def dirInsertEntry (bs dir : Nat) (entry : Dirent) : Fs Unit := do
  let cn ← loadCnode dir
  if cn.treeRoot ≠ 0 then
    dtreeInsert bs dir entry
  else
    match itemResize bs cn .inlineDirents (.dirents (insertDirent entry (inlineDirents cn))) with
    | .ok grown => store dir (.cnode grown)
    | .error _ => do
        dtreeSpill bs dir (inlineDirents cn)
        let cn ← loadCnode dir
        store dir (.cnode (itemRemove cn .inlineDirents))
        dtreeInsert bs dir entry

def dirRemoveEntry (bs dir : Nat) (key : Key) : Fs Unit := do
  let cn ← loadCnode dir
  if cn.treeRoot ≠ 0 then
    dtreeRemove bs dir key
  else
    let entries := inlineDirents cn
    if entries.any fun entry => entry.key == key then
      let left := entries.eraseP fun entry => entry.key == key
      if left = [] then
        store dir (.cnode (itemRemove cn .inlineDirents))
      else
        match itemResize bs cn .inlineDirents (.dirents left) with
        | .ok shrunk => store dir (.cnode shrunk)
        | .error code => throw code
    else
      throw .enotfound

/-- `dir_inline_next`: the first entry past the cursor. -/
def dirInlineNext (cn : Cnode) (started : Bool) (key : Key) : Option Dirent :=
  (inlineDirents cn).find? fun entry =>
    !started || decide (key < entry.key)

/-- The NAME item and the parent of a new child, under a pin of its own. -/
def nameChild (bs dir child : Nat) (name : List UInt8) : Fs Unit := do
  let cn ← cnodeGet bs child
  match itemResize bs cn .name (.bytes name) with
  | .ok named => do
      store child (.cnode { named with parentCnode := dir })
      let joined ← attempt (cnodeDirty bs child)
      put child
      settle joined
  | .error code => Fs.release child code

/-- One more entry in a pinned directory, at the present time. -/
def countEntry (dir : Nat) (change : Nat → Nat) : Fs Unit := do
  let now ← now
  let cn ← loadCnode dir
  store dir (.cnode { cn with
    sizeBytes := change cn.sizeBytes
    modifiedNs := now
    changedNs := now })

def getDir (bs dir : Nat) : Fs Cnode := do
  let cn ← cnodeGet bs dir
  if cn.type ≠ .dir then
    Fs.release dir .einval
  else
    return cn

/-- `struct CarafsDirCursor`. -/
structure DirCursor where
  key : Key := ⟨0, 0⟩
  started : Bool := false
  deriving DecidableEq

section Names

variable (hash : List UInt8 → Nat)

/-- `dir_link_new`: allocate a child and link it under a name. -/
def dirLinkNew (bs dir : Nat) (type : CnodeType) (name : List UInt8) :
    Fs Nat := do
  let cn ← loadCnode dir
  let (taken, seq) ← dirProbe bs cn (hash name) name
  if taken then
    throw .eexist
  else do
    let child ← cnodeAlloc bs type cn.blockNo
    nameChild bs cn.blockNo child name
    dirInsertEntry bs dir
      { hash := hash name, cnode := child, type := type, seq := seq, name := name }
    countEntry dir (· + 1)
    return child

/-- `Carafs_DirLookup` on a mounted volume. -/
def dirLookup (bs dir : Nat) (name : List UInt8) :
    Fs (Nat × CnodeType) := do
  let cn ← getDir bs dir
  let found ← attempt (dirFind bs cn (hash name) name)
  put dir
  match found with
  | .ok entry => return (entry.cnode, entry.type)
  | .error .enotfound => throw .enoent
  | .error code => throw code

/-- `Carafs_DirCreate` between the ends of its bracket. -/
def dirCreate (bs dir : Nat) (name : List UInt8) (type : CnodeType) :
    Fs Nat := do
  let _ ← getDir bs dir
  let linked ← attempt do
    let child ← dirLinkNew hash bs dir type name
    cnodeDirty bs dir
    return child
  put dir
  settle linked

/-- The SYMLINK_TARGET item of a new link, under a pin of its own. -/
def storeTarget (bs child : Nat) (target : List UInt8) : Fs Unit := do
  let cn ← cnodeGet bs child
  match itemResize bs cn .symlinkTarget (.bytes target) with
  | .ok pointed => do
      store child (.cnode { pointed with sizeBytes := target.length })
      let joined ← attempt (cnodeDirty bs child)
      put child
      settle joined
  | .error code => Fs.release child code

/-- `Carafs_DirSymlink` between the ends of its bracket. -/
def dirSymlink (bs dir : Nat) (name target : List UInt8) : Fs Nat := do
  let _ ← getDir bs dir
  let linked ← attempt do
    let child ← dirLinkNew hash bs dir .symlink name
    cnodeDirty bs dir
    storeTarget bs child target
    return child
  put dir
  settle linked

/-- `link_count++` on a pinned target. -/
def countLink (target : Nat) : Fs Unit := do
  let cn ← loadCnode target
  let now ← now
  store target (.cnode { cn with
    parentCnode := if cn.linkCount = 1 then 0 else cn.parentCnode
    linkCount := (cn.linkCount + 1) % 2 ^ 32
    changedNs := now })

/-- `Carafs_DirLink` on a pinned directory and a pinned target. -/
def dirLinkLocked (bs dir : Nat) (name : List UInt8) (target : Nat) :
    Fs Unit := do
  let tcn ← loadCnode target
  if tcn.type ≠ .file then
    throw .einval
  else do
    let dcn ← loadCnode dir
    let (taken, seq) ← dirProbe bs dcn (hash name) name
    if taken then
      throw .eexist
    else do
      dirInsertEntry bs dir
        { hash := hash name, cnode := target, type := tcn.type, seq := seq, name := name }
      countLink target
      countEntry dir (· + 1)
      cnodeDirty bs target
      cnodeDirty bs dir

/-- `Carafs_DirLink` between the ends of its bracket. -/
def dirLink (bs dir : Nat) (name : List UInt8) (target : Nat) :
    Fs Unit := do
  let _ ← getDir bs dir
  let linked ← attempt do
    let _ ← cnodeGet bs target
    let linked ← attempt (dirLinkLocked hash bs dir name target)
    put target
    settle linked
  put dir
  settle linked

/-- `link_count--` on a pinned child. -/
def dropLink (bs child : Nat) : Fs Unit := do
  let cn ← loadCnode child
  if cn.linkCount ≤ 1 then
    cnodeFreeLocked bs child
  else do
    let now ← now
    store child (.cnode { cn with
      linkCount := cn.linkCount - 1
      changedNs := now })
    cnodeDirty bs child

/-- `Carafs_DirRemove` on a pinned directory and a pinned child. -/
def dirRemoveLocked (bs dir : Nat) (entry : Dirent) : Fs Unit := do
  let ccn ← loadCnode entry.cnode
  if ccn.type = .dir ∧ ccn.sizeBytes ≠ 0 then
    throw .enotempty
  else do
    dirRemoveEntry bs dir entry.key
    countEntry dir (· - 1)
    dropLink bs entry.cnode
    cnodeDirty bs dir

/-- The entry `Carafs_DirRemove` is about. -/
def dirRemoveFind (bs dir : Nat) (name : List UInt8) : Fs Dirent := do
  let cn ← loadCnode dir
  match ← attempt (dirFind bs cn (hash name) name) with
  | .ok entry => return entry
  | .error .enotfound => throw .enoent
  | .error code => throw code

/-- `Carafs_DirRemove` between the ends of its bracket. -/
def dirRemove (bs dir : Nat) (name : List UInt8) : Fs Unit := do
  let _ ← getDir bs dir
  let removed ← attempt do
    let entry ← dirRemoveFind hash bs dir name
    let _ ← cnodeGet bs entry.cnode
    let removed ← attempt (dirRemoveLocked bs dir entry)
    put entry.cnode
    settle removed
  put dir
  settle removed

/-- `Carafs_DirNext` on a mounted volume. -/
def dirNext (bs dir : Nat) (cursor : DirCursor) : Fs Dirent := do
  let cn ← getDir bs dir
  let found ← attempt do
    if cn.treeRoot ≠ 0 then
      dtreeNext bs cn.treeRoot cursor.key cursor.started
    else
      match dirInlineNext cn cursor.started cursor.key with
      | some entry => return entry
      | none => throw .enotfound
  put dir
  match found with
  | .ok entry => return entry
  | .error .enotfound => throw .enoent
  | .error code => throw code

/-! ## The public calls -/

def carafsDirLookup (dir : Nat) (name : List UInt8) :
    M (Nat × CnodeType) := do
  if !nameValid name then
    Action.fail .einval
  else
    reading fun bs => dirLookup hash bs dir name

def carafsDirCreate (dir : Nat) (name : List UInt8) (type : CnodeType) :
    M Nat := do
  if !nameValid name then
    Action.fail .einval
  else do
    let m ← Action.read
    bracket (dirCreate hash m.blockSize dir name type)

def carafsDirSymlink (dir : Nat) (name target : List UInt8) :
    M Nat := do
  if target = [] ∨ 0xFFFF < target.length ∨ nameValid name = false then
    Action.fail .einval
  else do
    let m ← Action.read
    bracket (dirSymlink hash m.blockSize dir name target)

def carafsDirLink (dir : Nat) (name : List UInt8) (target : Nat) :
    M Unit := do
  if !nameValid name then
    Action.fail .einval
  else do
    let m ← Action.read
    bracket (dirLink hash m.blockSize dir name target)

def carafsDirRemove (dir : Nat) (name : List UInt8) : M Unit := do
  if !nameValid name then
    Action.fail .einval
  else do
    let m ← Action.read
    bracket (dirRemove hash m.blockSize dir name)

end Names

/-- `Carafs_DirNext`: the entry, and the cursor that names it. -/
def carafsDirNext (dir : Nat) (cursor : DirCursor) :
    M (Dirent × DirCursor) := do
  let entry ← reading fun bs => dirNext bs dir cursor
  return (entry, { key := entry.key, started := true })

/-- `Carafs_SymlinkRead`: the bytes copied, and the length of the target. -/
def carafsSymlinkRead (cnode buflen : Nat) : M (List UInt8 × Nat) :=
  reading fun bs => do
    let cn ← cnodeGet bs cnode
    if cn.type ≠ .symlink then
      Fs.release cnode .einval
    else do
      let target := (itemFind cn .symlinkTarget).elim [] Payload.content
      put cnode
      return (target.take buflen, target.length)

end CaraOS.Carafs
