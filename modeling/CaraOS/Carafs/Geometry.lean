import CaraOS.Carafs.Format

namespace CaraOS.Carafs

/-!
# Volume geometry

`carafs_geometry` of `bdev.c`: the canonical layout of a device.
-/

/-- `struct CarafsGeometry`. -/
structure Geometry where
  blockSize : Nat
  totalBlocks : Nat
  journalStart : Nat
  journalBlocks : Nat
  agFirst : Nat
  agSize : Nat
  agCount : Nat
  backupSb : Nat
  rootCnode : Nat
  deriving DecidableEq

def agSize (blockSize : Nat) : Nat :=
  8 * (blockSize - agBitsOff)

/-- The log size in blocks: `clamp(total/64, 1 MiB, 64 MiB)` with the floor
raised above one maximal transaction. -/
def logBlocksFor (blockSize totalBlocks : Nat) : Nat :=
  let jlog := totalBlocks / 64
  let jmin := 2 ^ 20 / blockSize
  let jmin := if jmin < txnMaxBlocks + 4 then txnMaxBlocks + 4 else jmin
  let jmax := 64 * 2 ^ 20 / blockSize
  let jmax := if jmax < jmin then jmin else jmax
  let jlog := if jlog < jmin then jmin else jlog
  if jlog > jmax then jmax else jlog

def geometry (blockSize totalBlocks : Nat) : Except Err Geometry :=
  let journalBlocks := logBlocksFor blockSize totalBlocks + 1
  let agFirst := 1 + journalBlocks
  if totalBlocks < agFirst + 8 + 1 then
    .error .erange
  else
    let backupSb := totalBlocks - 1
    let dataBlocks := backupSb - agFirst
    .ok {
      blockSize := blockSize
      totalBlocks := totalBlocks
      journalStart := 1
      journalBlocks := journalBlocks
      agFirst := agFirst
      agSize := agSize blockSize
      agCount := (dataBlocks + agSize blockSize - 1) / agSize blockSize
      backupSb := backupSb
      rootCnode := agFirst + 1 }

theorem logBlocksFor_lower (blockSize totalBlocks : Nat) :
    64 ≤ logBlocksFor blockSize totalBlocks := by
  unfold logBlocksFor txnMaxBlocks
  dsimp only
  split_ifs <;> omega

theorem logBlocksFor_upper (blockSize totalBlocks : Nat) :
    logBlocksFor blockSize totalBlocks ≤ 2 ^ 26 := by
  have one : 2 ^ 20 / blockSize ≤ 2 ^ 20 := Nat.div_le_self ..
  have all : 64 * 2 ^ 20 / blockSize ≤ 64 * 2 ^ 20 := Nat.div_le_self ..
  unfold logBlocksFor txnMaxBlocks
  dsimp only
  split_ifs <;> omega

variable {blockSize totalBlocks : Nat}

theorem geometry_log {g : Geometry} (laidOut : geometry blockSize totalBlocks = .ok g) :
    64 ≤ g.journalBlocks - 1 ∧ g.journalStart = 1 ∧
      g.journalBlocks + 10 ≤ g.totalBlocks ∧
      g.journalBlocks - 1 ≤ 2 ^ 26 := by
  have lower := logBlocksFor_lower blockSize totalBlocks
  have upper := logBlocksFor_upper blockSize totalBlocks
  unfold geometry at laidOut
  dsimp only at laidOut
  split at laidOut
  · exact absurd laidOut (by simp)
  cases laidOut
  refine ⟨?_, rfl, ?_, ?_⟩
  · dsimp only
    omega
  · dsimp only
    omega
  · dsimp only
    omega

theorem geometry_fields {g : Geometry} (laidOut : geometry blockSize totalBlocks = .ok g) :
    g.blockSize = blockSize ∧ g.totalBlocks = totalBlocks ∧
      g.agSize = agSize blockSize := by
  unfold geometry at laidOut
  dsimp only at laidOut
  split at laidOut
  · exact absurd laidOut (by simp)
  · cases laidOut
    exact ⟨rfl, rfl, rfl⟩

/-- The block sizes `CARAFS_MIN_BLOCK_LOG2 .. CARAFS_MAX_BLOCK_LOG2` allow. -/
def legalBlockSize (blockSize : Nat) : Prop :=
  ∃ log2, 9 ≤ log2 ∧ log2 ≤ 16 ∧ blockSize = 2 ^ log2

/-- What a layout of a legal block size promises. -/
structure Layout (g : Geometry) : Prop where
  journalStart : g.journalStart = 1
  agFirst : g.agFirst = 1 + g.journalBlocks
  large : 65 ≤ g.journalBlocks
  room : g.agFirst + 8 ≤ g.backupSb
  last : g.backupSb + 1 = g.totalBlocks
  agSize : 3584 ≤ g.agSize
  agCount : g.agCount = (g.backupSb - g.agFirst + g.agSize - 1) / g.agSize
  root : g.rootCnode = g.agFirst + 1

section Layout

variable {g : Geometry}

theorem agSize_lower (legal : legalBlockSize blockSize) : 3584 ≤ agSize blockSize := by
  obtain ⟨log2, lower, -, rfl⟩ := legal
  have large : 2 ^ 9 ≤ 2 ^ log2 := Nat.pow_le_pow_right (by decide) lower
  unfold agSize agBitsOff
  omega

theorem geometry_layout (legal : legalBlockSize blockSize)
    (laidOut : geometry blockSize totalBlocks = .ok g) : Layout g := by
  have lower := logBlocksFor_lower blockSize totalBlocks
  have groups := agSize_lower legal
  unfold geometry at laidOut
  dsimp only at laidOut
  split at laidOut
  · exact absurd laidOut (by simp)
  · cases laidOut
    constructor <;> dsimp only <;> omega

/-- The block of the bitmap of an AG. -/
def Geometry.agBlock (g : Geometry) (ag : Nat) : Nat :=
  g.agFirst + ag * g.agSize

section

variable (layout : Layout g)
include layout

theorem Layout.agBlock_lt {ag : Nat} (bound : ag < g.agCount) : g.agBlock ag < g.backupSb := by
  have size := layout.agSize
  rw [layout.agCount, Nat.lt_div_iff_mul_lt (by omega)] at bound
  unfold Geometry.agBlock
  omega

theorem Layout.ag_lt {block : Nat} (lower : g.agFirst ≤ block) (upper : block < g.backupSb) :
    (block - g.agFirst) / g.agSize < g.agCount := by
  have size := layout.agSize
  rw [layout.agCount, Nat.div_lt_iff_lt_mul (by omega)]
  have split := Nat.div_add_mod (g.backupSb - g.agFirst + g.agSize - 1) g.agSize
  have small := Nat.mod_lt (g.backupSb - g.agFirst + g.agSize - 1) (show 0 < g.agSize by omega)
  rw [Nat.mul_comm] at split
  omega

theorem Layout.agBlock_split {block : Nat} (lower : g.agFirst ≤ block) :
    (block - g.agFirst) % g.agSize < g.agSize ∧
      block = g.agBlock ((block - g.agFirst) / g.agSize) + (block - g.agFirst) % g.agSize := by
  have size := layout.agSize
  have split := Nat.div_add_mod' (block - g.agFirst) g.agSize
  refine ⟨Nat.mod_lt _ (by omega), ?_⟩
  unfold Geometry.agBlock
  omega

theorem Layout.agBlock_inj {first second : Nat}
    (same : g.agBlock first = g.agBlock second) : first = second := by
  have size := layout.agSize
  exact Nat.eq_of_mul_eq_mul_right (by omega) (Nat.add_left_cancel same)

theorem Layout.root_ne_agBlock (ag : Nat) : g.agBlock ag ≠ g.rootCnode := by
  have size := layout.agSize
  rw [layout.root]
  unfold Geometry.agBlock
  rcases Nat.eq_zero_or_pos ag with rfl | positive
  · omega
  · have : 1 * g.agSize ≤ ag * g.agSize := Nat.mul_le_mul_right _ positive
    omega

end

end Layout

end CaraOS.Carafs
