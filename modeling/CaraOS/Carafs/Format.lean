import Mathlib.Algebra.Order.Ring.Nat
import Mathlib.Data.Prod.Lex
import Mathlib.Order.Basic
import Mathlib.Tactic.Common

namespace CaraOS.Carafs

/-!
# The CaraFS on-disk format

The structures of `include/cara/carafs.h` and the helpers of `format.c`.  A
block is modelled by the structure it was last written as: a metadata block
carries its fields and its checksum, a file data block carries its bytes.  The
byte layout of every structure is kept in `Block.bytes`, because the checksums
run over it and because a data read of a metadata block would return it.

Magic numbers are implied by the constructor.  Record counts and used-byte
counters of tree nodes and of the item area are the lengths of the lists they
count.
-/

open List

/--
The negative `CARA_E*` return codes; success is `Except.ok`.  `overrun` is no
code of the source: it stands for a copy past the end of a block, after which
nothing is known about the program.
-/
inductive Err where
  | einval
  | enoent
  | erange
  | ebadf
  | eagain
  | enomem
  | ebadmagic
  | ebadversion
  | eoverflow
  | enotfound
  | eio
  | eexist
  | enotempty
  | overrun
  deriving DecidableEq

/-- `CARAFS_STATE_*`. -/
inductive SbState where
  | clean
  | dirty
  deriving DecidableEq

/-- `CARAFS_T_*`. -/
inductive CnodeType where
  | file
  | dir
  | symlink
  deriving DecidableEq

/-- `CARAFS_BT_*`. -/
inductive Flavour where
  | dir
  | extent
  deriving DecidableEq

/-- `CARAFS_ITEM_*`. -/
inductive ItemKind where
  | name
  | comment
  | xattr
  | inlineData
  | inlineDirents
  | symlinkTarget
  | xattrOverflow
  deriving DecidableEq

def inlineExtents : Nat := 16

def cnodeItemsOff : Nat := 360

def direntBase : Nat := 20

def btBodyOff : Nat := 32

/-- `sizeof(struct CarafsBtInteriorRec)`, which is `sizeof(struct CarafsExtentRec)`. -/
def btRecSize : Nat := 24

def agBitsOff : Nat := 64

def txnMaxBlocks : Nat := 60

def cacheMinBlocks : Nat := 16

def nameMax : Nat := 255

/-- `struct CarafsExtent`: `start = 0` encodes a hole. -/
structure Extent where
  start : Nat
  count : Nat
  flags : Nat := 0
  deriving DecidableEq

/-- `struct CarafsSuperblock`; `name_len` is the length of `name`. -/
structure Superblock where
  crc32c : Nat := 0
  version : Nat := 1
  compat : Nat := 0
  roCompat : Nat := 0
  incompat : Nat := 0
  blockSizeLog2 : Nat
  state : SbState
  agSizeBlocks : Nat
  totalBlocks : Nat
  journalStart : Nat
  journalBlocks : Nat
  agCount : Nat
  agFirstBlock : Nat
  rootCnode : Nat
  freeBlocks : Nat
  backupSb : Nat
  uuid : List UInt8
  name : List UInt8
  createdNs : Nat
  modifiedNs : Nat
  deriving DecidableEq

/-- `struct CarafsDirent` with its name; `name_len` is the length of `name`. -/
structure Dirent where
  hash : Nat
  cnode : Nat
  type : CnodeType
  seq : Nat
  name : List UInt8
  deriving DecidableEq

/-- What an item of the TLV area holds after its header. -/
inductive Payload where
  | bytes (content : List UInt8)
  | dirents (entries : List Dirent)
  deriving DecidableEq

/-- One `struct CarafsItem` record of a cnode's item area. -/
structure Item where
  kind : ItemKind
  payload : Payload
  deriving DecidableEq

/--
`struct CarafsCnode`.  `n_inline_extents` is the length of `ext`, and the item
area is the list of its records in order.
-/
structure Cnode where
  crc32c : Nat := 0
  blockNo : Nat
  generation : Nat
  type : CnodeType
  linkCount : Nat
  sizeBytes : Nat := 0
  blocksUsed : Nat := 0
  parentCnode : Nat := 0
  createdNs : Nat := 0
  modifiedNs : Nat := 0
  changedNs : Nat := 0
  fibProtection : Nat := 0
  flags : Nat := 0
  treeRoot : Nat := 0
  ext : List Extent := []
  items : List Item := []
  deriving DecidableEq

/-- The composite `(key_hi, key_lo)` key of a tree record. -/
structure Key where
  hi : Nat
  lo : Nat
  deriving DecidableEq

/-- `struct CarafsBtInteriorRec`. -/
structure InteriorRec where
  key : Key
  child : Nat
  deriving DecidableEq

/-- `struct CarafsExtentRec`. -/
structure ExtentRec where
  fileOff : Nat
  start : Nat
  count : Nat
  flags : Nat := 0
  deriving DecidableEq

/-- The records of a tree node; an interior node has a level above zero. -/
inductive BtBody where
  | interior (level : Nat) (recs : List InteriorRec)
  | extents (recs : List ExtentRec)
  | dirents (recs : List Dirent)
  deriving DecidableEq

/-- `struct CarafsBtNode`. -/
structure BtNode where
  crc32c : Nat := 0
  blockNo : Nat
  flavour : Flavour
  body : BtBody
  deriving DecidableEq

/-- `struct CarafsAgHeader`; bit `i` of `bits` is set when block `i` is taken. -/
structure AgHeader where
  crc32c : Nat := 0
  blockNo : Nat
  freeCount : Nat
  rotor : Nat
  bits : Nat
  deriving DecidableEq

/--
`struct CarafsJsb`.  `slack` is what follows the structure in its block: the
driver leaves it zero, but an image it did not write need not.
-/
structure Jsb where
  crc32c : Nat := 0
  seq : Nat
  head : Nat
  rsvd : Nat := 0
  slack : List UInt8 := []
  deriving DecidableEq

/--
`struct CarafsJdesc`; `n_blocks` is the length of `targets`, and `slack` is
what follows them in the block.
-/
structure Jdesc where
  crc32c : Nat := 0
  seq : Nat
  rsvd : Nat := 0
  targets : List Nat
  slack : List UInt8 := []
  deriving DecidableEq

/-- `struct CarafsJcommit`; `slack` is what follows it in the block. -/
structure Jcommit where
  crc32c : Nat := 0
  seq : Nat
  txnCrc : Nat
  nBlocks : Nat
  slack : List UInt8 := []
  deriving DecidableEq

/-- A block image, under the structure it was written as. -/
inductive Block where
  | data (content : List UInt8)
  | super (sb : Superblock)
  | jsb (record : Jsb)
  | jdesc (record : Jdesc)
  | jcommit (record : Jcommit)
  | cnode (cn : Cnode)
  | btnode (node : BtNode)
  | ag (header : AgHeader)
  deriving DecidableEq

/-- The zero-filled block of `memset(blk, 0, bs)`. -/
def zeroBlock (bs : Nat) : Block :=
  .data (List.replicate bs 0)

instance : Inhabited Block :=
  ⟨.data []⟩

/-! ## CRC-32C

Checksums are numbers below `2 ^ 32`.  The operations are the ones on `Nat`
that evaluate quickly: an exclusive or, and halving for the right shift.
-/

/-- One bit step of `crc_build_table` on the reflected polynomial. -/
def crcBit (c : Nat) : Nat :=
  Nat.xor (Nat.mul 0x82F63B78 (Nat.mod c 2)) (Nat.div c 2)

/-- Entry `i` of `crc_table`: eight bit steps. -/
def crcTable (i : Nat) : Nat :=
  crcBit (crcBit (crcBit (crcBit (crcBit (crcBit (crcBit (crcBit i)))))))

/-- The loop body of `Carafs_Crc32c`. -/
def crcByte (c : Nat) (byte : UInt8) : Nat :=
  Nat.xor (crcTable (Nat.mod (Nat.xor c byte.toNat) 256)) (Nat.div c 256)

/-- `Carafs_Crc32c`: the seed and the result are complemented. -/
def crc32c (seed : Nat) (bytes : List UInt8) : Nat :=
  Nat.xor 0xFFFFFFFF (bytes.foldl crcByte (Nat.xor 0xFFFFFFFF seed))

/--
`Carafs_BlockCrc`: the checksum of the bytes before the crc field, of four
zeroes in its place, and of the bytes after it, chained.
-/
def blockCrc (bytes : List UInt8) (crcOff : Nat) : Nat :=
  crc32c (crc32c (crc32c 0 (bytes.take crcOff)) [0, 0, 0, 0]) (bytes.drop (crcOff + 4))

/-! ## Byte layout -/

/-- The `width` low-order bytes of a number, little-endian. -/
def leBytes : Nat → Nat → List UInt8
  | 0, _ => []
  | width + 1, value =>
    UInt8.ofNat value :: leBytes width (value / 256)

def align8 (n : Nat) : Nat :=
  (n + 7) / 8 * 8

/-- Pad an image with zero bytes to its stride or block size. -/
def padTo (size : Nat) (bytes : List UInt8) : List UInt8 :=
  bytes ++ List.replicate (size - bytes.length) 0

/-- The stored number of a `CARAFS_STATE_*` value. -/
def SbState.code : SbState → Nat
  | .clean => 1
  | .dirty => 2

/-- The stored number of a `CARAFS_T_*` value. -/
def CnodeType.code : CnodeType → Nat
  | .file => 1
  | .dir => 2
  | .symlink => 3

/-- The stored number of a `CARAFS_BT_*` value. -/
def Flavour.code : Flavour → Nat
  | .dir => 1
  | .extent => 2

/-- The stored number of a `CARAFS_ITEM_*` value. -/
def ItemKind.code : ItemKind → Nat
  | .name => 1
  | .comment => 2
  | .xattr => 3
  | .inlineData => 4
  | .inlineDirents => 5
  | .symlinkTarget => 6
  | .xattrOverflow => 7

/-- `dirent_stride` for a name of the given length. -/
def direntStride (nameLen : Nat) : Nat :=
  align8 (direntBase + nameLen)

def Dirent.stride (entry : Dirent) : Nat :=
  direntStride entry.name.length

/-- The bytes taken by a packed run of dirents. -/
def direntsBytes (entries : List Dirent) : Nat :=
  (entries.map Dirent.stride).sum

/-- `len` of an item header. -/
def Payload.len : Payload → Nat
  | .bytes content => content.length
  | .dirents entries => direntsBytes entries

def Dirent.image (entry : Dirent) : List UInt8 :=
  padTo entry.stride (leBytes 8 entry.hash ++ leBytes 8 entry.cnode ++
      leBytes 1 entry.type.code ++ leBytes 1 entry.name.length ++
      leBytes 1 entry.seq ++ [0] ++ entry.name)

/-- The stride of an item record with the given payload length. -/
def itemStride (len : Nat) : Nat :=
  align8 (4 + len)

/-- The packed image of one item record. -/
def Item.image (item : Item) : List UInt8 :=
  padTo (itemStride item.payload.len) (leBytes 2 item.kind.code ++ leBytes 2 item.payload.len ++
      match item.payload with
      | .bytes content => content
      | .dirents entries => (entries.map Dirent.image).flatten)

def Extent.image (extent : Extent) : List UInt8 :=
  leBytes 8 extent.start ++ leBytes 4 extent.count ++ leBytes 2 extent.flags ++ [0, 0]

/-- `n_records`, `used_bytes` and the body image of a tree node. -/
def BtBody.image : BtBody → Nat × Nat × Nat × List UInt8
  | .interior level recs =>
    (level, recs.length, btRecSize * recs.length, (recs.map fun r =>
        leBytes 8 r.key.hi ++ leBytes 8 r.key.lo ++
          leBytes 8 r.child).flatten)
  | .extents recs =>
    (0, recs.length, btRecSize * recs.length, (recs.map fun r =>
        leBytes 8 r.fileOff ++ leBytes 8 r.start ++
          leBytes 4 r.count ++ leBytes 2 r.flags ++
          [0, 0]).flatten)
  | .dirents recs =>
    (0, recs.length, direntsBytes recs, (recs.map Dirent.image).flatten)

/-- The crc field of a metadata block; data blocks have none. -/
def Block.storedCrc : Block → Nat
  | .data _ => 0
  | .super sb => sb.crc32c
  | .jsb record => record.crc32c
  | .jdesc record => record.crc32c
  | .jcommit record => record.crc32c
  | .cnode cn => cn.crc32c
  | .btnode node => node.crc32c
  | .ag header => header.crc32c

/-- Overwrite the crc field of a metadata block. -/
def Block.setCrc (crc : Nat) : Block → Block
  | .data content => .data content
  | .super sb => .super { sb with crc32c := crc }
  | .jsb record => .jsb { record with crc32c := crc }
  | .jdesc record => .jdesc { record with crc32c := crc }
  | .jcommit record => .jcommit { record with crc32c := crc }
  | .cnode cn => .cnode { cn with crc32c := crc }
  | .btnode node => .btnode { node with crc32c := crc }
  | .ag header => .ag { header with crc32c := crc }

/-- The bytes before the crc field: the magic that names the structure. -/
def Block.magic : Block → List UInt8
  | .data _ => []
  | .super _ => [67, 97, 114, 97, 70, 83, 33, 10]
  | .jsb _ => leBytes 4 0x534A4143
  | .jdesc _ => leBytes 4 0x444A4143
  | .jcommit _ => leBytes 4 0x434A4143
  | .cnode _ => leBytes 4 0x444F4E43
  | .btnode _ => leBytes 4 0x54424143
  | .ag _ => leBytes 4 0x4D424143

/-- The bytes after the crc field, up to the zero fill of the block. -/
def Block.fields : Block → List UInt8
  | .data content => content
  | .super sb =>
    leBytes 4 sb.version ++ leBytes 4 sb.compat ++
      leBytes 4 sb.roCompat ++ leBytes 4 sb.incompat ++
      leBytes 4 sb.blockSizeLog2 ++ leBytes 4 sb.state.code ++
      leBytes 4 sb.agSizeBlocks ++ leBytes 8 sb.totalBlocks ++
      leBytes 8 sb.journalStart ++ leBytes 4 sb.journalBlocks ++
      leBytes 4 sb.agCount ++ leBytes 8 sb.agFirstBlock ++
      leBytes 8 sb.rootCnode ++ leBytes 8 sb.freeBlocks ++
      leBytes 8 sb.backupSb ++ padTo 16 sb.uuid ++
      leBytes 1 sb.name.length ++ padTo 63 sb.name ++
      leBytes 8 sb.createdNs ++ leBytes 8 sb.modifiedNs
  | .jsb record =>
    leBytes 8 record.seq ++ leBytes 4 record.head ++
      leBytes 4 record.rsvd ++ record.slack
  | .jdesc record =>
    leBytes 8 record.seq ++ leBytes 4 record.targets.length ++
      leBytes 4 record.rsvd ++ (record.targets.map (leBytes 8)).flatten ++
      record.slack
  | .jcommit record =>
    leBytes 8 record.seq ++ leBytes 4 record.txnCrc ++
      leBytes 4 record.nBlocks ++ record.slack
  | .cnode cn =>
    leBytes 8 cn.blockNo ++ leBytes 8 cn.generation ++
      leBytes 2 cn.type.code ++ leBytes 2 0 ++
      leBytes 4 cn.linkCount ++ leBytes 8 cn.sizeBytes ++
      leBytes 8 cn.blocksUsed ++ leBytes 8 cn.parentCnode ++
      leBytes 8 cn.createdNs ++ leBytes 8 cn.modifiedNs ++
      leBytes 8 cn.changedNs ++ leBytes 4 cn.fibProtection ++
      leBytes 4 cn.flags ++ leBytes 8 cn.treeRoot ++
      leBytes 4 cn.ext.length ++
      leBytes 4 (cn.items.map fun item =>
        itemStride item.payload.len).sum ++
      padTo (16 * inlineExtents) (cn.ext.map Extent.image).flatten ++
      (cn.items.map Item.image).flatten
  | .btnode node =>
    let (level, nRecords, usedBytes, body) := node.body.image
    leBytes 8 node.blockNo ++ leBytes 1 level ++
      leBytes 1 node.flavour.code ++ leBytes 2 nRecords ++
      leBytes 4 usedBytes ++ leBytes 8 0 ++ body
  | .ag header =>
    leBytes 8 header.blockNo ++ leBytes 4 header.freeCount ++
      leBytes 4 header.rotor ++ List.replicate 40 0 ++
      leBytes ((Nat.log2 header.bits + 8) / 8) header.bits

/-- The block's bytes as a reader of raw data sees them. -/
def Block.bytes (bs : Nat) (block : Block) : List UInt8 :=
  match block with
  | .data content => content
  | _ =>
    padTo bs (block.magic ++ leBytes 4 block.storedCrc ++ block.fields)

/-- `offsetof(..., crc32c)`: the superblock's magic is eight bytes long. -/
def Block.crcOff (block : Block) : Nat :=
  block.magic.length

def Block.crcOk (bs : Nat) (block : Block) : Bool :=
  block.storedCrc == blockCrc (block.bytes bs) block.crcOff

def Block.putCrc (bs : Nat) (block : Block) : Block :=
  block.setCrc (blockCrc (block.bytes bs) block.crcOff)

theorem leBytes_length (width value : Nat) : (leBytes width value).length = width := by
  induction width generalizing value with
  | zero =>
    rfl
  | succ width ih =>
    rw [leBytes, length_cons, ih]

theorem blockCrc_setCrc (bs crc : Nat) (block : Block) :
    blockCrc ((block.setCrc crc).bytes bs) block.crcOff =
      blockCrc (block.bytes bs) block.crcOff := by
  have shape (stored : Nat) : padTo bs (block.magic ++ leBytes 4 stored ++ block.fields) =
        block.magic ++ (leBytes 4 stored ++ (block.fields ++ List.replicate
              (bs - (block.magic.length + 4 + block.fields.length)) 0)) := by
    simp only [padTo, append_assoc, length_append, leBytes_length]
    congr 5
    omega
  have summed (stored : Nat) : blockCrc (padTo bs (block.magic ++ leBytes 4 stored ++ block.fields))
          block.magic.length = crc32c (crc32c (crc32c 0 block.magic) [0, 0, 0, 0]) (block.fields ++
            List.replicate (bs - (block.magic.length + 4 + block.fields.length)) 0) := by
    rw [shape, blockCrc, take_left, ← drop_drop, drop_left, drop_left' (leBytes_length ..)]
  cases block with
  | data content =>
    rfl
  | super sb | jsb record | jdesc record | jcommit record | cnode cn
  | btnode node | ag header =>
    exact (summed crc).trans (summed _).symm

theorem crcOk_putCrc (bs : Nat) (block : Block) (metadata : block.magic ≠ []) :
    Block.crcOk bs (Block.putCrc bs block) = true := by
  have same := blockCrc_setCrc bs (blockCrc (block.bytes bs) block.crcOff) block
  cases block with
  | data content =>
    exact absurd rfl metadata
  | super sb | jsb record | jdesc record | jcommit record | cnode cn
  | btnode node | ag header =>
    exact beq_iff_eq.mpr same.symm

/-- The bits `[lower, upper)` of a bitmap. -/
def bitRange (lower upper : Nat) : Nat :=
  2 ^ upper - 2 ^ lower

/-! ## Names -/

/-- `Carafs_FoldByte`: ASCII upper case to lower case. -/
def foldByte (c : UInt8) : UInt8 :=
  if 65 ≤ c ∧ c ≤ 90 then c + 32 else c

/-- `Carafs_NameHash`: FNV-1a 64 over the folded bytes. -/
def nameHash (name : List UInt8) : Nat :=
  name.foldl (fun h c => ((h ^^^ (foldByte c).toNat) * 1099511628211) % 2 ^ 64) 14695981039346656037

/-- `Carafs_NameEq`: folded equality. -/
def nameEq (first second : List UInt8) : Bool :=
  first.map foldByte == second.map foldByte

def nameValid (name : List UInt8) : Bool :=
  decide (1 ≤ name.length) && decide (name.length ≤ nameMax) &&
    name.all fun c => c != 47 && c != 58 && c != 0

end CaraOS.Carafs
