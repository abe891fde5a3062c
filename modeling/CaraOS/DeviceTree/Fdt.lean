import CaraOS.Lib.Reader

namespace CaraOS.DeviceTree

/-!
# The device-tree reader

`fdt.c`, `fdt_props.c` and `fdt_path.c`.  Numbers are `u32`s that wrap.  Every
byte that is read from the blob goes through `Fdt.byte`, which does not read
beyond `totalsize`; every loop gets a number of turns.  A string of the caller
is the list of its bytes; a string of the blob is the offset of its first byte.
-/

open Reader Outcome

/-- The bytes from the start of the blob on. -/
abbrev Blob :=
  Nat → BitVec 8

/-- The error codes. -/
inductive Err where
  | einval
  | ebadmagic
  | ebadversion
  | erange
  | eoverflow
  | enotfound
  deriving DecidableEq

/-- The conversion to a `u32`. -/
def u32 (x : Nat) : Nat :=
  x % 4294967296

/-- `fdt_be32` on four bytes. -/
def be32 (b0 b1 b2 b3 : BitVec 8) : Nat :=
  b0.toNat * 16777216 + b1.toNat * 65536 + b2.toNat * 256 + b3.toNat

/-- The number at an offset. -/
def word (blob : Blob) (off : Nat) : Nat :=
  be32 (blob off) (blob (off + 1)) (blob (off + 2)) (blob (off + 3))

/-- `struct Fdt`. -/
structure Fdt where
  blob : Blob
  totalsize : Nat
  offStruct : Nat
  sizeStruct : Nat
  offStrings : Nat
  sizeStrings : Nat
  offRsvmap : Nat
  version : Nat
  bootCpuidPhys : Nat

/-- A check that returns an error code. -/
def refuseIf (bad : Prop) [Decidable bad] (code : Err) : Except Err Unit :=
  if bad then .error code else .ok ()

/-- `Fdt_Open` on a blob at an address. -/
def fdtOpen (address : Nat) (blob : Blob) : Except Err Fdt := do
  let totalsize := word blob 4
  let offStruct := word blob 8
  let offStrings := word blob 12
  let offRsvmap := word blob 16
  let version := word blob 20
  let sizeStrings := word blob 32
  let sizeStruct := word blob 36
  refuseIf (address % 4 ≠ 0) .einval
  refuseIf (word blob 0 ≠ 0xD00DFEED) .ebadmagic
  refuseIf (version < 17) .ebadversion
  refuseIf (16 < word blob 24) .ebadversion
  refuseIf (totalsize < 40) .einval
  refuseIf (totalsize < offStruct ∨ totalsize - offStruct < sizeStruct) .erange
  refuseIf (totalsize < offStrings ∨ totalsize - offStrings < sizeStrings) .erange
  refuseIf (totalsize < offRsvmap) .erange
  refuseIf (offStruct % 4 ≠ 0 ∨ sizeStruct < 4) .erange
  refuseIf (offRsvmap % 8 ≠ 0 ∨ totalsize < u32 (offRsvmap + 16)) .erange
  pure ⟨blob, totalsize, offStruct, sizeStruct, offStrings, sizeStrings,
    offRsvmap, version, word blob 28⟩

namespace Fdt

/-! ## Tokens -/

/-- A byte of the blob. -/
def byte (off : Nat) (fdt : Fdt) : Outcome Err (BitVec 8) :=
  if off < fdt.totalsize then pure (fdt.blob off) else .outside

/-- `fdt_be32`. -/
def readBe32 (off : Nat) (fdt : Fdt) : Outcome Err Nat := do
  let b0 ← fdt.byte off
  let b1 ← fdt.byte (off + 1)
  let b2 ← fdt.byte (off + 2)
  let b3 ← fdt.byte (off + 3)
  pure (be32 b0 b1 b2 b3)

/-- `fdt_be64`. -/
def readBe64 (off : Nat) (fdt : Fdt) : Outcome Err Nat := do
  let high ← fdt.readBe32 off
  let low ← fdt.readBe32 (off + 4)
  pure (high * 4294967296 + low)

def align4 (x : Nat) : Nat :=
  u32 (x + 3) / 4 * 4

/-- The tokens of the structure block. -/
inductive Token where
  | beginNode
  | endNode
  | prop
  | nop
  | finish
  deriving DecidableEq

def Token.ofNumber (number : Nat) : Option Token :=
  if number = 1 then some .beginNode
  else if number = 2 then some .endNode
  else if number = 3 then some .prop
  else if number = 4 then some .nop
  else if number = 9 then some .finish
  else none

/-- What `fdt_read_token` finds: the token, its payload and the next token. -/
structure Found where
  token : Token
  payload : Nat
  next : Nat

/-- The end of a node name: the loop of `fdt_read_token` over `i`. -/
def nameEnd (turns payload : Nat) (fdt : Fdt) : Outcome Err Nat :=
  loop (fun i =>
    if u32 (payload + i) < fdt.sizeStruct then do
      let c ← fdt.byte (fdt.offStruct + u32 (payload + i))
      if c ≠ 0 then pure (.next (u32 (i + 1))) else pure (.done i)
    else
      pure (.done i)) turns 0

/-- The token after a node name. -/
def afterName (turns payload : Nat) (fdt : Fdt) : Outcome Err Nat := do
  let i ← fdt.nameEnd turns payload
  if fdt.sizeStruct ≤ u32 (payload + i) then
    .error .erange
  else
    let next := align4 (u32 (payload + i + 1))
    if fdt.sizeStruct < next then .error .erange else pure next

/-- The token after a property. -/
def afterProp (payload : Nat) (fdt : Fdt) : Outcome Err Nat :=
  if fdt.sizeStruct - payload < 8 then
    .error .erange
  else do
    let len ← fdt.readBe32 (fdt.offStruct + payload)
    let dataOff := u32 (payload + 8)
    let padded := align4 len
    if padded < len then
      .error .eoverflow
    else if fdt.sizeStruct < dataOff ∨ fdt.sizeStruct - dataOff < padded then
      .error .erange
    else
      pure (u32 (dataOff + padded))

def readToken (turns off : Nat) (fdt : Fdt) : Outcome Err Found :=
  if fdt.sizeStruct < off ∨ fdt.sizeStruct - off < 4 then
    .error .erange
  else if off % 4 ≠ 0 then
    .error .einval
  else do
    let number ← fdt.readBe32 (fdt.offStruct + off)
    let payload := u32 (off + 4)
    match Token.ofNumber number with
    | some .beginNode => do
        let next ← fdt.afterName turns payload
        pure ⟨.beginNode, payload, next⟩
    | some .prop => do
        let next ← fdt.afterProp payload
        pure ⟨.prop, payload, next⟩
    | some token => pure ⟨token, payload, payload⟩
    | none => .error .einval

/-- The first token of a node; `fdt_node_body` returns what follows. -/
def nodeBody (turns node : Nat) (fdt : Fdt) : Outcome Err Nat := do
  let found ← fdt.readToken turns node
  if found.token ≠ .beginNode then .error .einval else pure found.next

/-- `fdt_skip_node`; the state is the depth and the offset. -/
def skipNode (turns node : Nat) (fdt : Fdt) : Outcome Err Nat := do
  let body ← fdt.nodeBody turns node
  loop (fun (depth, off) =>
    if depth = 0 then
      pure (.done off)
    else do
      let found ← fdt.readToken turns off
      match found.token with
      | .beginNode => pure (.next (depth + 1, found.next))
      | .endNode => pure (.next (depth - 1, found.next))
      | .finish => .error .erange
      | _ => pure (.next (depth, found.next))) turns ((1 : Nat), body)

/-- `Fdt_Root`. -/
def root (turns : Nat) (fdt : Fdt) : Outcome Err Nat :=
  loop (fun off =>
    if off < fdt.sizeStruct then do
      match ← attempt (fdt.readToken turns off) with
      | .error _ => pure (.done 0)
      | .ok found =>
        match found.token with
        | .beginNode => pure (.done off)
        | .nop => pure (.next found.next)
        | _ => pure (.done 0)
    else
      pure (.done 0)) turns 0

/-- `Fdt_NodeName`; no name is a null pointer. -/
def nodeName (turns node : Nat) (fdt : Fdt) : Outcome Err (Option Nat) := do
  match ← attempt (fdt.readToken turns node) with
  | .error _ => pure none
  | .ok found =>
    if found.token ≠ .beginNode then pure none
    else pure (some (fdt.offStruct + found.payload))

/-! ## Properties -/

def stringsGet (turns nameoff : Nat) (fdt : Fdt) : Outcome Err (Option Nat) :=
  if fdt.sizeStrings ≤ nameoff then
    pure none
  else
    loop (fun i =>
      if i < fdt.sizeStrings then do
        let c ← fdt.byte (fdt.offStrings + i)
        if c = 0 then pure (.done (some (fdt.offStrings + nameoff)))
        else pure (.next (u32 (i + 1)))
      else
        pure (.done none)) turns nameoff

/-- `fdt_strcmp` of a string of the blob and one of the caller is zero. -/
def sameString (a : Nat) (fdt : Fdt) : List (BitVec 8) → Outcome Err Bool
  | [] => do
      let x ← fdt.byte a
      pure (decide (x = 0))
  | c :: rest => do
      let x ← fdt.byte a
      if x ≠ 0 ∧ x = c then fdt.sameString (a + 1) rest
      else pure (decide (x = c))

/-- `fdt_find_prop`: the offset and the length of the data. -/
def findProp (turns node : Nat) (name : List (BitVec 8)) (fdt : Fdt) :
    Outcome Err (Nat × Nat) := do
  let body ← fdt.nodeBody turns node
  loop (fun off =>
    if off < fdt.sizeStruct then do
      let found ← fdt.readToken turns off
      match found.token with
      | .prop => do
          let len ← fdt.readBe32 (fdt.offStruct + found.payload)
          let nameoff ← fdt.readBe32 (fdt.offStruct + found.payload + 4)
          match ← fdt.stringsGet turns nameoff with
          | none => .error .einval
          | some propName => do
              if ← fdt.sameString propName name then
                pure (.done (u32 (found.payload + 8), len))
              else
                pure (.next found.next)
      | .nop => pure (.next found.next)
      | _ => .error .enotfound
    else
      .error .enotfound) turns body

/-- `Fdt_PropRaw`; the bytes start at `offStruct` plus the offset. -/
def propRaw (turns node : Nat) (name : List (BitVec 8)) (fdt : Fdt) : Outcome Err (Nat × Nat) :=
  fdt.findProp turns node name

def propU32 (turns node : Nat) (name : List (BitVec 8)) (fdt : Fdt) :
    Outcome Err Nat := do
  let (dataOff, len) ← fdt.propRaw turns node name
  if len ≠ 4 then .error .einval else fdt.readBe32 (fdt.offStruct + dataOff)

/-- `Fdt_PropStrIter`: the string and the next cursor. -/
def propStrIter (turns node : Nat) (name : List (BitVec 8)) (cursor : Nat)
    (fdt : Fdt) : Outcome Err (Nat × Nat) := do
  let (dataOff, len) ← fdt.propRaw turns node name
  let base := fdt.offStruct + dataOff
  if len ≤ cursor then
    .error .enotfound
  else do
    let last ← fdt.byte (base + (len - 1))
    if last ≠ 0 then
      .error .einval
    else do
      let i ← loop (fun i =>
        if i < len then do
          let c ← fdt.byte (base + i)
          if c ≠ 0 then pure (.next (u32 (i + 1))) else pure (.done i)
        else
          pure (.done i)) turns cursor
      if len ≤ i then .error .einval else pure (base + cursor, u32 (i + 1))

def bytes (name : String) : List (BitVec 8) :=
  name.toList.map fun c => BitVec.ofNat 8 c.toNat

def nodeIsCompatible (turns node : Nat) (compat : List (BitVec 8)) (fdt : Fdt) : Outcome Err Bool :=
  loop (fun cursor => do
    match ← attempt (fdt.propStrIter turns node (bytes "compatible") cursor) with
    | .error _ => pure (.done false)
    | .ok (s, cursor) => do
        if ← fdt.sameString s compat then pure (.done true)
        else pure (.next cursor)) turns 0

/-- One turn of `fdt_find_parent`; the innermost ancestor is the first of the list. -/
def parentTurn (turns child : Nat) (fdt : Fdt) :
    List Nat × Nat → Outcome Err (Turn (List Nat × Nat) Nat) :=
  fun (ancestors, off) =>
    if off < fdt.sizeStruct then do
      let found ← fdt.readToken turns off
      match found.token with
      | .beginNode =>
        if off = child then
          match ancestors with
          | [] => .error .enotfound
          | parent :: _ => pure (.done parent)
        else if 16 ≤ ancestors.length then
          .error .erange
        else
          pure (.next (off :: ancestors, found.next))
      | .endNode =>
        match ancestors with
        | [] => .error .einval
        | _ :: outer => pure (.next (outer, found.next))
      | .finish => .error .enotfound
      | _ => pure (.next (ancestors, found.next))
    else
      .error .enotfound

def findParent (turns child : Nat) (fdt : Fdt) : Outcome Err Nat :=
  loop (fdt.parentTurn turns child) turns ([], 0)

/-- `fdt_get_parent_cells`: the numbers of address and size cells. -/
def getParentCells (turns node : Nat) (fdt : Fdt) : Outcome Err (Nat × Nat) := do
  match ← attempt (fdt.findParent turns node) with
  | .error _ => pure (2, 1)
  | .ok parent => do
      let addr ← attempt (fdt.propU32 turns parent (bytes "#address-cells"))
      let size ← attempt (fdt.propU32 turns parent (bytes "#size-cells"))
      pure (addr.toOption.getD 2, size.toOption.getD 1)

/-- A number of so many cells. -/
def readCells (fdt : Fdt) : Nat → Nat → Nat → Outcome Err Nat
  | _, 0, acc => pure acc
  | off, n + 1, acc => do
      let cell ← fdt.readBe32 off
      fdt.readCells (off + 4) n
        ((acc * 4294967296 + cell) % 18446744073709551616)

def propReg (turns node index : Nat) (fdt : Fdt) : Outcome Err (Nat × Nat) := do
  let (addrCells, sizeCells) ← fdt.getParentCells turns node
  if addrCells = 0 ∨ 2 < addrCells ∨ 2 < sizeCells then
    .error .einval
  else do
    let (dataOff, len) ← fdt.propRaw turns node (bytes "reg")
    let cellBytes := (addrCells + sizeCells) * 4
    if cellBytes = 0 ∨ len % cellBytes ≠ 0 then
      .error .einval
    else if len / cellBytes ≤ index then
      .error .enotfound
    else do
      let p := fdt.offStruct + dataOff + u32 (index * cellBytes)
      let base ← fdt.readCells p addrCells 0
      let size ← fdt.readCells (p + addrCells * 4) sizeCells 0
      pure (base, size)

/-! ## Nodes -/

/-- Where `Fdt_ChildIter` starts. -/
def childStart (turns parent cursor : Nat) (fdt : Fdt) : Outcome Err Nat :=
  if cursor = 0 then fdt.nodeBody turns parent else pure cursor

/-- `Fdt_ChildIter`: the child and the next cursor. -/
def childIter (turns parent cursor : Nat) (fdt : Fdt) :
    Outcome Err (Nat × Nat) := do
  let start ← fdt.childStart turns parent cursor
  loop (fun off =>
    if off < fdt.sizeStruct then do
      let found ← fdt.readToken turns off
      match found.token with
      | .prop => pure (.next found.next)
      | .nop => pure (.next found.next)
      | .beginNode => do
          let after ← fdt.skipNode turns off
          pure (.done (off, after))
      | _ => .error .enotfound
    else
      .error .enotfound) turns start

/-- `fdt_segment_matches` with a node name of the blob. -/
def segmentMatches (name : Nat) (fdt : Fdt) : List (BitVec 8) → Outcome Err Bool
  | [] => do
      let x ← fdt.byte name
      pure (decide (x = 0 ∨ x = 0x40))
  | c :: rest => do
      let x ← fdt.byte name
      if x ≠ 0 ∧ x = c then fdt.segmentMatches (name + 1) rest else pure false

def resolveSegment (turns parent : Nat) (seg : List (BitVec 8)) (fdt : Fdt) : Outcome Err Nat :=
  loop (fun cursor => do
    match ← attempt (fdt.childIter turns parent cursor) with
    | .error _ => .error .enotfound
    | .ok (child, cursor) => do
        match ← fdt.nodeName turns child with
        | none => pure (.next cursor)
        | some name => do
            if ← fdt.segmentMatches name seg then pure (.done child)
            else pure (.next cursor)) turns 0

/-- The segments of a path after its first slash; a slash ends a segment. -/
def segments : List (BitVec 8) → List (List (BitVec 8))
  | [] => []
  | c :: rest =>
    if c = 0x2F then
      [] :: segments rest
    else
      match rest with
      | [] => [[c]]
      | next :: others =>
        if next = 0x2F then
          [c] :: segments others
        else
          match segments (next :: others) with
          | [] => [[c]]
          | seg :: more => (c :: seg) :: more

/-- The walk of `Fdt_ResolvePath` along the segments. -/
def resolveSegments (turns : Nat) (fdt : Fdt) :
    Nat → List (List (BitVec 8)) → Outcome Err Nat
  | cur, [] => pure cur
  | cur, seg :: rest =>
    if seg = [] then
      .error .einval
    else do
      let next ← fdt.resolveSegment turns cur seg
      fdt.resolveSegments turns next rest

def resolvePath (turns : Nat) (path : List (BitVec 8)) (fdt : Fdt) : Outcome Err Nat :=
  match path with
  | [] => .error .einval
  | c :: rest =>
    if c ≠ 0x2F then
      .error .einval
    else do
      let cur ← fdt.root turns
      fdt.resolveSegments turns cur (segments rest)

/-- Where `Fdt_FindByCompatible` starts: behind the previous match. -/
def findStart (turns start : Nat) (fdt : Fdt) : Outcome Err Nat :=
  if start = 0 then pure 0 else fdt.skipNode turns start

def findByCompatible (turns : Nat) (compat : List (BitVec 8)) (start : Nat)
    (fdt : Fdt) : Outcome Err Nat := do
  let first ← fdt.findStart turns start
  loop (fun off =>
    if off < fdt.sizeStruct then do
      let found ← fdt.readToken turns off
      match found.token with
      | .beginNode => do
          if ← fdt.nodeIsCompatible turns off compat then pure (.done off)
          else pure (.next found.next)
      | .finish => .error .enotfound
      | _ => pure (.next found.next)
    else
      .error .enotfound) turns first

/-- The offset of an entry of the reservation block. -/
def entryOff (cursor : Nat) (fdt : Fdt) : Nat :=
  u32 (fdt.offRsvmap + u32 (cursor * 16))

/-- `Fdt_RsvIter`: base, size and the next cursor. -/
def rsvIter (cursor : Nat) (fdt : Fdt) : Outcome Err (Nat × Nat × Nat) :=
  let entryOff := fdt.entryOff cursor
  if fdt.totalsize < u32 (entryOff + 16) then
    .error .erange
  else do
    let base ← fdt.readBe64 entryOff
    let size ← fdt.readBe64 (entryOff + 8)
    if base = 0 ∧ size = 0 then .error .enotfound
    else pure (base, size, u32 (cursor + 1))

end Fdt

end CaraOS.DeviceTree
