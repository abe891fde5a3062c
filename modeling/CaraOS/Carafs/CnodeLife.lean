import CaraOS.Carafs.Btree
import CaraOS.Carafs.Mount

namespace CaraOS.Carafs

/-!
# The life of a cnode

The rest of `cnode.c`: freeing an object's storage, and the public lifecycle
calls.
-/

/-- The inline extents of a cnode returned to the allocator; holes skipped. -/
def freeInline (bs : Nat) : List Extent → Fs Unit
  | [] => pure ()
  | extent :: rest => do
      if extent.start ≠ 0 then
        freeExtent bs extent.start extent.count
      freeInline bs rest

def tombstone (cn : Cnode) (block now : Nat) : Cnode where
  blockNo := block
  generation := cn.generation + 1
  type := cn.type
  linkCount := 0
  changedNs := now

def freeTree (bs block : Nat) (cn : Cnode) : Fs Unit :=
  if cn.treeRoot ≠ 0 ∧ cn.type = .file then
    etreeFreeAll bs block
  else if cn.treeRoot ≠ 0 ∧ cn.type = .dir then
    dtreeFreeAll bs block
  else
    pure ()

/-- `carafs_cnode_free_locked` of a pinned cnode. -/
def cnodeFreeLocked (bs block : Nat) : Fs Unit := do
  let cn ← loadCnode block
  freeTree bs block cn
  freeInline bs cn.ext
  freeExtent bs block 1
  let now ← Fs.now
  Fs.store block (.cnode (tombstone cn block now))
  cnodeDirty bs block

/-- The body of `Carafs_CnodeDelete`. -/
def cnodeDelete (bs cnode : Nat) : Fs Unit := do
  let _ ← cnodeGet bs cnode
  let freed ← Fs.attempt (cnodeFreeLocked bs cnode)
  Fs.put cnode
  Fs.settle freed

def carafsCnodeCreate (type : CnodeType) (hint : Nat) : M Nat := do
  let m ← Action.read
  bracket (cnodeAlloc m.blockSize type hint)

def carafsCnodeDelete (cnode : Nat) : M Unit := do
  let m ← Action.read
  bracket (cnodeDelete m.blockSize cnode)

/-- A read-only public call: only a mounted volume answers it. -/
def reading {α : Type} (body : Nat → Fs α) : M α := do
  let m ← Action.read
  if !m.mounted then
    Action.fail .einval
  else
    Fs.run (body m.blockSize)

/-- `Carafs_CnodeStat`: the fields of `struct CarafsStat` are the cnode's. -/
def carafsCnodeStat (cnode : Nat) : M Cnode :=
  reading fun bs => do
    let cn ← cnodeGet bs cnode
    Fs.put cnode
    return cn

end CaraOS.Carafs
