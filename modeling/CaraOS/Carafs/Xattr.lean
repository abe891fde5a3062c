import CaraOS.Carafs.CnodeLife

namespace CaraOS.Carafs

/-!
# Extended attributes

The functions of `xattr.c` over the raw bytes of the XATTR item: records of a
name length, flags, a two-byte value length, the name and the value.
-/

def xattrNameMax : Nat := 255

def xattrValueMax : Nat := 65535

/-- A byte of a payload. -/
def byteAt (bytes : List UInt8) (i : Nat) : Nat :=
  (bytes[i]?).elim 0 UInt8.toNat

def xattrValLen (bytes : List UInt8) (off : Nat) : Nat :=
  byteAt bytes (off + 2) + byteAt bytes (off + 3) * 256

def xattrRecSize (bytes : List UInt8) (off : Nat) : Nat :=
  4 + byteAt bytes off + xattrValLen bytes off

/--
`xattr_find`: the offset of the record for a name.  Records have at least four
bytes, so the length of the payload bounds the scan.
-/
def xattrFindFrom (bytes name : List UInt8) : Nat → Nat → Option Nat
  | 0, _ => none
  | fuel + 1, off =>
    if bytes.length < off + 4 then
      none
    else if bytes.length < off + xattrRecSize bytes off then
      none
    else if byteAt bytes off = name.length ∧
        (bytes.drop (off + 4)).take name.length = name then
      some off
    else
      xattrFindFrom bytes name fuel (off + xattrRecSize bytes off)

def xattrFind (bytes name : List UInt8) : Option Nat :=
  xattrFindFrom bytes name (bytes.length + 1) 0

def xattrBytes (cn : Cnode) : Option (List UInt8) :=
  (itemFind cn .xattr).map Payload.content

/--
The payload after the gap of a dropped record has been closed in place: its
length is unchanged, and the last bytes are left as they were.
-/
def closeGap (bytes : List UInt8) (off size : Nat) : List UInt8 :=
  let kept := bytes.take off ++ bytes.drop (off + size)
  kept ++ bytes.drop kept.length

/-- The record `Carafs_XattrSet` appends. -/
def xattrRecord (name value : List UInt8) : List UInt8 :=
  [UInt8.ofNat name.length, 0, UInt8.ofNat value.length,
    UInt8.ofNat (value.length / 256)] ++ name ++ value

/-- The item payload replaced in place, at its old length. -/
def setXattrBytes (cn : Cnode) (bytes : List UInt8) : Cnode :=
  { cn with items := putItem .xattr (.bytes bytes) cn.items }

/-- Drop the record for a name in place; the bytes that still count. -/
def dropRecord (cnode : Nat) (cn : Cnode) (name : List UInt8) :
    Fs (List UInt8) := do
  match xattrBytes cn with
  | none => return []
  | some bytes =>
    match xattrFind bytes name with
    | none => return bytes
    | some off => do
        let size := xattrRecSize bytes off
        let closed := closeGap bytes off size
        Fs.store cnode (.cnode (setXattrBytes cn closed))
        return closed.take (bytes.length - size)

/-- `Carafs_XattrSet` on a pinned cnode. -/
def xattrSetLocked (bs cnode : Nat) (name value : List UInt8) :
    Fs Unit := do
  let cn ← loadCnode cnode
  let base ← dropRecord cnode cn name
  let newrec := 4 + name.length + value.length
  if xattrValueMax < base.length + newrec then
    throw .eoverflow
  else do
    let cn ← loadCnode cnode
    let grown ← Fs.settle (itemResize bs cn .xattr (.bytes (base ++ xattrRecord name value)))
    Fs.store cnode (.cnode grown)
    cnodeDirty bs cnode

/-- `Carafs_XattrSet` between the ends of its bracket. -/
def xattrSet (bs cnode : Nat) (name value : List UInt8) : Fs Unit := do
  let _ ← cnodeGet bs cnode
  let set ← Fs.attempt (xattrSetLocked bs cnode name value)
  Fs.put cnode
  Fs.settle set

/-- `Carafs_XattrRemove` on a pinned cnode. -/
def xattrRemoveLocked (bs cnode : Nat) (name : List UInt8) :
    Fs Unit := do
  let cn ← loadCnode cnode
  if ((xattrBytes cn).bind (xattrFind · name)).isNone then
    throw .enoent
  else do
    let base ← dropRecord cnode cn name
    let cn ← loadCnode cnode
    if base = [] then
      Fs.store cnode (.cnode (itemRemove cn .xattr))
    else do
      let shrunk ← Fs.settle (itemResize bs cn .xattr (.bytes base))
      Fs.store cnode (.cnode shrunk)
    cnodeDirty bs cnode

/-- `Carafs_XattrRemove` between the ends of its bracket. -/
def xattrRemove (bs cnode : Nat) (name : List UInt8) : Fs Unit := do
  let _ ← cnodeGet bs cnode
  let removed ← Fs.attempt (xattrRemoveLocked bs cnode name)
  Fs.put cnode
  Fs.settle removed

/-- The tests on an attribute name. -/
def xattrNameOk (name : List UInt8) : Bool :=
  decide (1 ≤ name.length) && decide (name.length ≤ xattrNameMax)

/-- `Carafs_XattrGet`: the bytes copied, and the length of the value. -/
def carafsXattrGet (cnode : Nat) (name : List UInt8) (buflen : Nat) :
    M (List UInt8 × Nat) := do
  if !xattrNameOk name then
    Action.fail .einval
  else
    reading fun bs => do
      let cn ← cnodeGet bs cnode
      Fs.put cnode
      match xattrBytes cn with
      | none => throw .enoent
      | some bytes =>
        match xattrFind bytes name with
        | none => throw .enoent
        | some off =>
          let length := xattrValLen bytes off
          let value := bytes.drop (off + 4 + byteAt bytes off)
          return (value.take (min length buflen), length)

def carafsXattrSet (cnode : Nat) (name value : List UInt8) : M Unit := do
  if xattrNameOk name = false ∨ xattrValueMax < value.length then
    Action.fail .einval
  else do
    let m ← Action.read
    bracket (xattrSet m.blockSize cnode name value)

def carafsXattrRemove (cnode : Nat) (name : List UInt8) : M Unit := do
  if !xattrNameOk name then
    Action.fail .einval
  else do
    let m ← Action.read
    bracket (xattrRemove m.blockSize cnode name)

end CaraOS.Carafs
