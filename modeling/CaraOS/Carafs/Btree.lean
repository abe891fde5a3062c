import CaraOS.Lib.Search
import CaraOS.Carafs.Cnode

namespace CaraOS.Carafs

/-!
# The shared B+tree

The functions of `btree.c`.  A walk remembers the block and the index taken at
each interior level; such a path is listed from the deepest level up, in the
order the upward walks use it.
-/

open Fs (attempt orPut put release settle store)

/-- `key_cmp` is the lexicographic order of composite keys. -/
instance : LinearOrder Key :=
  LinearOrder.lift' (fun key : Key => toLex (key.hi, key.lo)) fun a b same =>
    by
      obtain ⟨hi, lo⟩ := a
      obtain ⟨hi', lo'⟩ := b
      simpa using same

def btMaxDepth : Nat := 8

/-- `struct BtPathLvl`. -/
structure BtPathLvl where
  block : Nat
  idx : Nat
  deriving DecidableEq

/-! ## Nodes -/

def btCap (bs : Nat) : Nat :=
  (bs - btBodyOff) / btRecSize

def Dirent.key (entry : Dirent) : Key :=
  ⟨entry.hash, entry.seq⟩

def ExtentRec.key (extent : ExtentRec) : Key :=
  ⟨extent.fileOff, 0⟩

namespace BtBody

def level : BtBody → Nat
  | .interior level _ => level
  | _ => 0

def nRecords : BtBody → Nat
  | .interior _ recs => recs.length
  | .extents recs => recs.length
  | .dirents recs => recs.length

def minKey : BtBody → Key
  | .interior _ (first :: _) => first.key
  | .extents (first :: _) => first.key
  | .dirents (first :: _) => first.key
  | _ => ⟨0, 0⟩

def irecs : BtBody → List InteriorRec
  | .interior _ recs => recs
  | _ => []

def erecs : BtBody → List ExtentRec
  | .extents recs => recs
  | _ => []

/-- The records of a directory leaf. -/
def drecs : BtBody → List Dirent
  | .dirents recs => recs
  | _ => []

/-- The body of a node without records. -/
def empty (level : Nat) (flavour : Flavour) : BtBody :=
  if level = 0 then
    match flavour with
    | .extent => .extents []
    | .dir => .dirents []
  else
    .interior level []

end BtBody

/-- Replace the body of a node; its checksum is stale until it is dirtied. -/
def BtNode.withBody (node : BtNode) (body : BtBody) : BtNode :=
  { node with body := body }

/-- `bt_get`: pin and verify a tree node. -/
def btGet (bs block : Nat) (flavour : Flavour) : Fs BtNode := do
  let fresh ← Fs.get block .read
  match ← Fs.load block with
  | .btnode node =>
    if node.blockNo ≠ block ∨ node.flavour ≠ flavour ∨ btCap bs < node.body.nRecords then
      release block .ebadmagic
    else if fresh && !Block.crcOk bs (.btnode node) then
      release block .ebadmagic
    else
      return node
  | _ => release block .ebadmagic

/-- `bt_dirty`: refresh the checksum, then join the transaction. -/
def btDirty (bs block : Nat) : Fs Unit := do
  match ← Fs.load block with
  | .btnode node => do
      store block (Block.putCrc bs (.btnode node))
      Fs.txnDirty block
  | _ => throw .ebadmagic

/-- `bt_dirty` and then `bt_put`, whatever the outcome. -/
def btDirtyPut (bs block : Nat) : Fs Unit := do
  let joined ← attempt (btDirty bs block)
  put block
  settle joined

/--
`bt_new`: allocate and pin a fresh node.  The function relies on the block
being zero-filled; a stale image would show through the fields it leaves
alone, which an image under one structure cannot express.
-/
def btNew (bs hint level : Nat) (flavour : Flavour) : Fs Nat := do
  let block ← allocBlock bs hint
  let _ ← Fs.get block .zero
  if (← Fs.load block) = zeroBlock bs then
    store block (.btnode {
      blockNo := block
      flavour := flavour
      body := .empty level flavour })
    return block
  else
    release block .overrun

/-- `bt_idescend`: the last record whose key is not past the given one. -/
def btIdescend (recs : List InteriorRec) (key : Key) : Nat :=
  Search.bisect (fun i => (recs[i]?.map InteriorRec.key).any (· ≤ key)) recs.length 0 recs.length

/-- `bt_irecs(n)[i].child`. -/
def childAt (recs : List InteriorRec) (i : Nat) : Nat :=
  (recs[i]?.map InteriorRec.child).getD 0

/-- The key of a record changed in place. -/
def setKeyAt (recs : List InteriorRec) (i : Nat) (key : Key) : List InteriorRec :=
  recs.modify i fun record => { record with key := key }

/-- The first half of a full fixed-record body. -/
def BtBody.lowerHalf : BtBody → BtBody
  | .interior level recs => .interior level (recs.take (recs.length / 2))
  | .extents recs => .extents (recs.take (recs.length / 2))
  | .dirents recs => .dirents recs

/-- The records `node_split_fixed` moves to the right sibling. -/
def BtBody.upperHalf : BtBody → BtBody
  | .interior level recs => .interior level (recs.drop (recs.length / 2))
  | .extents recs => .extents (recs.drop (recs.length / 2))
  | .dirents _ => .dirents []

/--
`node_split_fixed` of a pinned node: the upper half goes to a fresh right
sibling, which is left pinned.
-/
def nodeSplitFixed (bs block : Nat) (node : BtNode) (flavour : Flavour) :
    Fs Nat := do
  let right ← btNew bs block node.body.level flavour
  store right (.btnode {
    blockNo := right
    flavour := flavour
    body := node.body.upperHalf })
  store block (.btnode (node.withBody node.body.lowerHalf))
  return right

/-! ## Upward propagation -/

/-- The smallest key of a child, read through a pin of its own. -/
def childMinKey (bs child : Nat) (flavour : Flavour) : Fs Key := do
  let node ← btGet bs child flavour
  put child
  return node.body.minKey

/--
Insert a carried record into a full parent: split it, place the record in the
half that owns its key, and carry the right half on.
-/
def splitCarry (bs block : Nat) (parent : BtNode) (flavour : Flavour)
    (idx : Nat) (carry : InteriorRec) : Fs InteriorRec := do
  let level := parent.body.level
  let right ← nodeSplitFixed bs block parent flavour
  let lower := parent.body.lowerHalf.irecs
  let upper := parent.body.upperHalf.irecs
  let toRight := decide (parent.body.upperHalf.minKey ≤ carry.key)
  let upper :=
    if toRight then
      upper.insertIdx (idx + 1 - lower.length) carry
    else
      upper
  let lower :=
    if toRight then lower else lower.insertIdx (idx + 1) carry
  store right (.btnode {
    blockNo := right
    flavour := flavour
    body := .interior level upper })
  store block (.btnode (parent.withBody (.interior level lower)))
  btDirtyPut bs right
  return { key := (BtBody.interior level upper).minKey, child := right }

/-- One level of `bt_propagate`; returns the carry for the level above. -/
def propagateLevel (bs : Nat) (flavour : Flavour) (lvl : BtPathLvl)
    (child : Nat) (carry : Option InteriorRec) :
    Fs (Option InteriorRec) := do
  let parent ← btGet bs lvl.block flavour
  let key ← orPut lvl.block (childMinKey bs child flavour)
  let recs := parent.body.irecs
  let stale := decide ((recs[lvl.idx]?.map InteriorRec.key) ≠ some key)
  let fixed := parent.withBody (.interior parent.body.level (setKeyAt recs lvl.idx key))
  if stale then
    store lvl.block (.btnode fixed)
  let parent := if stale then fixed else parent
  match carry with
  | none => do
      if stale then
        orPut lvl.block (btDirty bs lvl.block)
      put lvl.block
      return none
  | some record => do
      let carried ←
        if parent.body.nRecords < btCap bs then do
          store lvl.block (.btnode (parent.withBody (.interior parent.body.level
              (parent.body.irecs.insertIdx (lvl.idx + 1) record))))
          pure none
        else
          some <$> orPut lvl.block (splitCarry bs lvl.block parent flavour lvl.idx record)
      orPut lvl.block (btDirty bs lvl.block)
      put lvl.block
      return carried

/-- The root split of `bt_propagate`: the tree grows a level. -/
def growRoot (bs cnode : Nat) (flavour : Flavour) (carry : InteriorRec) :
    Fs Unit := do
  let cn ← loadCnode cnode
  let oldRoot ← btGet bs cn.treeRoot flavour
  put cn.treeRoot
  let level := oldRoot.body.level + 1
  let root ← btNew bs cn.blockNo level flavour
  store root (.btnode {
    blockNo := root
    flavour := flavour
    body := .interior level [{ key := oldRoot.body.minKey, child := cn.treeRoot }, carry] })
  let joined ← attempt (btDirty bs root)
  store cnode (.cnode { cn with treeRoot := root })
  put root
  settle joined

/--
`bt_propagate`: walk from a changed child to the root, repairing separators
and threading a split-off sibling upward.
-/
def btPropagate (bs cnode : Nat) (flavour : Flavour) :
    List BtPathLvl → Nat → Option InteriorRec → Fs Unit
  | [], _, none => pure ()
  | [], _, some carry => growRoot bs cnode flavour carry
  | lvl :: above, child, carry => do
      let carry ← propagateLevel bs flavour lvl child carry
      btPropagate bs cnode flavour above lvl.block carry

/-! ## Downward walks -/

/--
The descent loop of `dtree_descend`, `carafs_etree_next` and
`carafs_etree_insert`: the path to the leaf that would hold a key, and the
leaf, pinned.
-/
def btDescend (bs : Nat) (flavour : Flavour) (key : Key) :
    Nat → Nat → List BtPathLvl → Fs (List BtPathLvl × Nat × BtNode)
  | 0, _, _ => throw .ebadmagic
  | depth + 1, block, path => do
      let node ← btGet bs block flavour
      match node.body with
      | .interior _ recs => do
          let i := btIdescend recs key
          put block
          btDescend bs flavour key depth (childAt recs i) (⟨block, i⟩ :: path)
      | _ => return (path, block, node)

/-- Climb to the first ancestor with a right sibling; its block, if any. -/
def nextSibling (bs : Nat) (flavour : Flavour) :
    List BtPathLvl → Fs (Option Nat)
  | [] => return none
  | lvl :: above => do
      let node ← btGet bs lvl.block flavour
      put lvl.block
      if node.body.nRecords ≤ lvl.idx + 1 then
        nextSibling bs flavour above
      else
        return some (childAt node.body.irecs (lvl.idx + 1))

/-- The leftmost leaf of a subtree, pinned. -/
def leftmostLeaf (bs : Nat) (flavour : Flavour) :
    Nat → Nat → Fs (Nat × BtNode)
  | 0, _ => throw .ebadmagic
  | depth + 1, block => do
      let node ← btGet bs block flavour
      match node.body with
      | .interior _ recs => do
          put block
          leftmostLeaf bs flavour depth (childAt recs 0)
      | _ => return (block, node)

/-! ## Extent flavour -/

/-- `et_lfloor`: `none` when every record is past the offset. -/
def etLfloor (recs : List ExtentRec) (fblk : Nat) : Option Nat :=
  match recs with
  | [] => none
  | first :: _ =>
    if fblk < first.fileOff then
      none
    else
      some (Search.bisect (fun i => (recs[i]?.map ExtentRec.fileOff).any (· ≤ fblk))
        recs.length 0 recs.length)

/-- `carafs_etree_floor` below a node. -/
def etreeFloorFrom (bs fblk : Nat) : Nat → Nat → Fs ExtentRec
  | 0, _ => throw .ebadmagic
  | depth + 1, block => do
      let node ← btGet bs block .extent
      match node.body with
      | .interior _ recs =>
        if (recs.head?.map InteriorRec.key).any (· ≤ ⟨fblk, 0⟩) then do
          put block
          etreeFloorFrom bs fblk depth
            (childAt recs (btIdescend recs ⟨fblk, 0⟩))
        else
          release block .enotfound
      | body =>
        match (etLfloor body.erecs fblk).bind (body.erecs[·]?) with
        | none => release block .enotfound
        | some extent => do
            put block
            return extent

def etreeFloor (bs root fblk : Nat) : Fs ExtentRec :=
  etreeFloorFrom bs fblk btMaxDepth root

/-- `carafs_etree_next`: the first record past a file block. -/
def etreeNext (bs root fblk : Nat) : Fs ExtentRec := do
  let (path, leaf, node) ←
    btDescend bs .extent ⟨fblk, 0⟩ btMaxDepth root []
  put leaf
  match node.body.erecs.find? fun extent => fblk < extent.fileOff with
  | some extent => return extent
  | none =>
    match ← nextSibling bs .extent path with
    | none => throw .enotfound
    | some sibling => do
        let (next, node) ← leftmostLeaf bs .extent btMaxDepth sibling
        put next
        match node.body.erecs with
        | [] => throw .ebadmagic
        | extent :: _ => return extent

/-- A record that continues its predecessor, on disk and in the file. -/
def mergeable (pred extent : ExtentRec) : Bool :=
  pred.fileOff + pred.count == extent.fileOff && pred.start + pred.count == extent.start &&
    pred.flags == extent.flags &&
    decide (pred.count + extent.count ≤ 0xFFFFFFFF)

/-- The predecessor of a record in a leaf, when the two merge. -/
def mergePos (recs : List ExtentRec) (extent : ExtentRec) : Option Nat :=
  (etLfloor recs extent.fileOff).filter fun pos =>
    (recs[pos]?).any fun pred => mergeable pred extent

def insertPos (recs : List ExtentRec) (fblk : Nat) : Nat :=
  match etLfloor recs fblk with
  | none => 0
  | some pos => pos + 1

/-- The split of a full extent leaf, with the record placed in its half. -/
def splitExtents (recs : List ExtentRec) (pos : Nat)
    (extent : ExtentRec) : List ExtentRec × List ExtentRec :=
  let lower := recs.take (recs.length / 2)
  let upper := recs.drop (recs.length / 2)
  if (BtBody.extents upper).minKey ≤ extent.key then
    (lower, upper.insertIdx (pos - lower.length) extent)
  else
    (lower.insertIdx pos extent, upper)

def etreeInsert (bs cnode : Nat) (extent : ExtentRec) : Fs Unit := do
  let cn ← loadCnode cnode
  let (path, leaf, node) ←
    btDescend bs .extent extent.key btMaxDepth cn.treeRoot []
  let recs := node.body.erecs
  match mergePos recs extent with
  | some pos => do
      store leaf (.btnode (node.withBody (.extents (recs.modify pos fun pred =>
          { pred with count := pred.count + extent.count }))))
      btDirtyPut bs leaf
  | none =>
    let pos := insertPos recs extent.fileOff
    if recs.length < btCap bs then do
      store leaf (.btnode (node.withBody (.extents (recs.insertIdx pos extent))))
      btDirtyPut bs leaf
      btPropagate bs cnode .extent path leaf none
    else do
      let right ← orPut leaf (nodeSplitFixed bs leaf node .extent)
      let (lower, upper) := splitExtents recs pos extent
      store leaf (.btnode (node.withBody (.extents lower)))
      store right (.btnode {
        blockNo := right
        flavour := .extent
        body := .extents upper })
      let first ← attempt (btDirty bs leaf)
      let second ← attempt (btDirty bs right)
      put leaf
      put right
      settle first
      settle second
      btPropagate bs cnode .extent path leaf
        (some { key := (BtBody.extents upper).minKey, child := right })

/-- The records of inline extents from a file block on; holes are absent. -/
def spillRecs : Nat → List Extent → List ExtentRec
  | _, [] => []
  | fo, extent :: rest =>
    if extent.start ≠ 0 then
      { fileOff := fo
        start := extent.start
        count := extent.count
        flags := extent.flags } ::
        spillRecs (fo + extent.count) rest
    else
      spillRecs (fo + extent.count) rest

def etreeSpill (bs cnode : Nat) : Fs Unit := do
  let cn ← loadCnode cnode
  let leaf ← btNew bs cn.blockNo 0 .extent
  store leaf (.btnode {
    blockNo := leaf
    flavour := .extent
    body := .extents (spillRecs 0 cn.ext) })
  btDirtyPut bs leaf
  store cnode (.cnode { cn with treeRoot := leaf, ext := [] })

/-- Return a list of extents to the allocator. -/
def freeExtents (bs : Nat) : List ExtentRec → Fs Unit
  | [] => pure ()
  | extent :: rest => do
      freeExtent bs extent.start extent.count
      freeExtents bs rest

/--
One entry of the stack of `tree_free_all`: free the remaining children of a
node, then the node.  The node is read again after each child, as it is when
the stack returns to it.
-/
def treeFreeChildren (bs : Nat) (flavour : Flavour) (mapped : Bool)
    (visit : Nat → Fs Unit) (block : Nat) : Nat → Nat → Fs Unit
  | 0, _ => throw .ebadmagic
  | fuel + 1, nextChild => do
      let node ← btGet bs block flavour
      match node.body with
      | .interior _ recs =>
        if nextChild < recs.length then do
          put block
          visit (childAt recs nextChild)
          treeFreeChildren bs flavour mapped visit block fuel
            (nextChild + 1)
        else do
          put block
          freeExtent bs block 1
      | body => do
          if mapped then
            orPut block (freeExtents bs body.erecs)
          put block
          freeExtent bs block 1

/--
The stack of `tree_free_all` from one block down; the argument counts the
stack entries left.  A node has at most `bt_cap` children, so its entry is
looked at one time more at most.
-/
def treeFree (bs : Nat) (flavour : Flavour) (mapped : Bool) :
    Nat → Nat → Fs Unit
  | 0, _ => throw .ebadmagic
  | depth + 1, block =>
    treeFreeChildren bs flavour mapped
      (treeFree bs flavour mapped depth) block (btCap bs + 1) 0

def treeFreeAll (bs cnode : Nat) (flavour : Flavour) (mapped : Bool) :
    Fs Unit := do
  let cn ← loadCnode cnode
  treeFree bs flavour mapped btMaxDepth cn.treeRoot
  let cn ← loadCnode cnode
  store cnode (.cnode { cn with treeRoot := 0 })

def etreeFreeAll (bs cnode : Nat) : Fs Unit :=
  treeFreeAll bs cnode .extent true

/-! ## Directory flavour -/

def dtreeDescend (bs root : Nat) (key : Key) : Fs (List BtPathLvl × Nat × BtNode) :=
  btDescend bs .dir key btMaxDepth root []

/-- `dtree_next_leaf`: the leaf to the right of the one a path leads to. -/
def dtreeNextLeaf (bs : Nat) (path : List BtPathLvl) :
    Fs (Option Nat) := do
  match ← nextSibling bs .dir path with
  | none => return none
  | some sibling => do
      let (leaf, _) ← leftmostLeaf bs .dir btMaxDepth sibling
      put leaf
      return some leaf

/-- What a scan has seen of an equal-hash run. -/
structure Scan where
  found : Option Dirent := none
  used : List Nat := []
  deriving DecidableEq

/-- Note one member of the run. -/
def Scan.note (name : List UInt8) (scan : Scan) (entry : Dirent) : Scan :=
  { found :=
      match scan.found with
      | some earlier => some earlier
      | none => if nameEq entry.name name then some entry else none
    used := entry.seq :: scan.used }

/--
The leaf loop of `carafs_dtree_scan`: the members of the run from sequence
number `s` on, and the number to continue with when the last record is one.
-/
def scanLeaf (hash : Nat) (name : List UInt8) (s : Nat) :
    List Dirent → Scan → Scan × Option Nat
  | [], scan => (scan, none)
  | entry :: rest, scan =>
    if entry.hash = hash ∧ s ≤ entry.seq then
      let scan := scan.note name entry
      let next := (entry.seq + 1) % 256
      if rest = [] ∧ next ≠ 0 then
        (scan, some next)
      else
        scanLeaf hash name s rest scan
    else if hash < entry.hash then
      (scan, none)
    else
      scanLeaf hash name s rest scan

/-- The outer loop of `carafs_dtree_scan`; each round has a larger `s`. -/
def dtreeScanFrom (bs root hash : Nat) (name : List UInt8) :
    Nat → Nat → Scan → Fs Scan
  | 0, _, _ => throw .ebadmagic
  | fuel + 1, s, scan => do
      let (_, leaf, node) ← dtreeDescend bs root ⟨hash, s⟩
      put leaf
      match scanLeaf hash name s node.body.drecs scan with
      | (scan, none) => return scan
      | (scan, some next) =>
        dtreeScanFrom bs root hash name fuel next scan

/-- `carafs_dtree_scan`, before the choice of a free sequence number. -/
def dtreeScan (bs root hash : Nat) (name : List UInt8) : Fs Scan :=
  dtreeScanFrom bs root hash name 256 0 {}

/-- The smallest sequence number below 256 that is not used. -/
def freeSeq (used : List Nat) : Except Err Nat :=
  match (List.range 256).find? fun seq => !used.contains seq with
  | some seq => .ok seq
  | none => .error .eoverflow

def dtreeLookup (bs root hash : Nat) (name : List UInt8) : Fs Dirent := do
  let scan ← dtreeScan bs root hash name
  match scan.found with
  | some entry => return entry
  | none => throw .enotfound

def pastCursor (key : Key) (strict : Bool) (entry : Dirent) : Bool :=
  if strict then decide (key < entry.key) else decide (key ≤ entry.key)

def dtreeNext (bs root : Nat) (key : Key) (strict : Bool) :
    Fs Dirent := do
  let (path, leaf, node) ← dtreeDescend bs root key
  match node.body.drecs.find? (pastCursor key strict) with
  | some entry => do
      put leaf
      return entry
  | none => do
      let next ← orPut leaf (dtreeNextLeaf bs path)
      put leaf
      match next with
      | none => throw .enotfound
      | some next => do
          let node ← btGet bs next .dir
          put next
          match node.body.drecs with
          | [] => throw .enotfound
          | entry :: _ => return entry

/-- A dirent placed before the first one with a larger key. -/
def insertDirent (entry : Dirent) (recs : List Dirent) : List Dirent :=
  recs.takeWhile (fun other => other.key ≤ entry.key) ++
    entry :: recs.dropWhile (fun other => other.key ≤ entry.key)

/-- The records up to the byte midpoint of a leaf. -/
def midpoint (used : Nat) : Nat → Nat → List Dirent → Nat
  | _, _, [] => 1
  | acc, i, entry :: rest =>
    if used ≤ (acc + entry.stride) * 2 then
      i + 1
    else
      midpoint used (acc + entry.stride) (i + 1) rest

/-- How many records the left half of a split keeps. -/
def splitKeep (recs : List Dirent) : Nat :=
  min (max (midpoint (direntsBytes recs) 0 0 recs) 1) (recs.length - 1)

/-- The split of a full directory leaf, with the entry placed in its half. -/
def splitDirents (recs : List Dirent) (entry : Dirent) : List Dirent × List Dirent :=
  let lower := recs.take (splitKeep recs)
  let upper := recs.drop (splitKeep recs)
  if (BtBody.dirents upper).minKey ≤ entry.key then
    (lower, insertDirent entry upper)
  else
    (insertDirent entry lower, upper)

def dtreeInsert (bs cnode : Nat) (entry : Dirent) : Fs Unit := do
  let cn ← loadCnode cnode
  let (path, leaf, node) ← dtreeDescend bs cn.treeRoot entry.key
  let recs := node.body.drecs
  let cap := bs - btBodyOff
  if direntsBytes recs + entry.stride ≤ cap then do
    store leaf (.btnode (node.withBody (.dirents (insertDirent entry recs))))
    btDirtyPut bs leaf
    btPropagate bs cnode .dir path leaf none
  else if recs.length < 2 then
    release leaf .eoverflow
  else do
    let right ← orPut leaf (btNew bs leaf 0 .dir)
    let (lower, upper) := splitDirents recs entry
    -- the copy into the chosen half is not checked against the block
    if cap < direntsBytes lower ∨ cap < direntsBytes upper then do
      put leaf
      release right .overrun
    else do
      store leaf (.btnode (node.withBody (.dirents lower)))
      store right (.btnode {
        blockNo := right
        flavour := .dir
        body := .dirents upper })
      let first ← attempt (btDirty bs leaf)
      let second ← attempt (btDirty bs right)
      put leaf
      put right
      settle first
      settle second
      btPropagate bs cnode .dir path leaf
        (some { key := (BtBody.dirents upper).minKey, child := right })

/-- The tree is gone. -/
def clearRoot (cnode : Nat) : Fs Unit := do
  let cn ← loadCnode cnode
  store cnode (.cnode { cn with treeRoot := 0 })

/--
`dtree_collapse`: drop the record of a freed child; free the nodes that empty,
and repair the separators above the first that does not.
-/
def dtreeCollapse (bs cnode : Nat) : List BtPathLvl → Fs Unit
  | [] => clearRoot cnode
  | lvl :: above => do
      let node ← btGet bs lvl.block .dir
      let recs := node.body.irecs.eraseIdx lvl.idx
      store lvl.block (.btnode (node.withBody (.interior node.body.level recs)))
      if recs = [] then do
        put lvl.block
        freeExtent bs lvl.block 1
        dtreeCollapse bs cnode above
      else do
        btDirtyPut bs lvl.block
        btPropagate bs cnode .dir above lvl.block none

def dtreeRemove (bs cnode : Nat) (key : Key) : Fs Unit := do
  let cn ← loadCnode cnode
  let (path, leaf, node) ← dtreeDescend bs cn.treeRoot key
  let recs := node.body.drecs
  let reached := recs.takeWhile fun entry => entry.key ≤ key
  if reached.any fun entry => entry.key == key then do
    let left := recs.eraseP fun entry => entry.key == key
    store leaf (.btnode (node.withBody (.dirents left)))
    if left = [] then do
      put leaf
      freeExtent bs leaf 1
      dtreeCollapse bs cnode path
    else do
      btDirtyPut bs leaf
      btPropagate bs cnode .dir path leaf none
  else
    release leaf .enotfound

def dtreeSpill (bs cnode : Nat) (blob : List Dirent) : Fs Unit := do
  let cn ← loadCnode cnode
  let leaf ← btNew bs cn.blockNo 0 .dir
  store leaf (.btnode {
    blockNo := leaf
    flavour := .dir
    body := .dirents blob })
  btDirtyPut bs leaf
  let cn ← loadCnode cnode
  store cnode (.cnode { cn with treeRoot := leaf })

def dtreeFreeAll (bs cnode : Nat) : Fs Unit :=
  treeFreeAll bs cnode .dir false

end CaraOS.Carafs
