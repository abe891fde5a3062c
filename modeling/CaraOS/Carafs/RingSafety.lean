import Mathlib.Data.List.Nodup
import Mathlib.Tactic.MkIffOfInductiveProp
import CaraOS.Carafs.TxnRun

namespace CaraOS.Carafs

/-!
# The log ring

The log is a ring of `j_log_blocks` offsets of which the stretch from head to
tail is in use.  Two equal cursors mean an empty log, but the room test of an
append admits a record that fills the ring to its last block, and then the
cursors are equal as well.  The half-full checkpoint after each append makes
this rare, but `carafs_txn_commit` ignores its result: whether a run is safe is
decided by what each of its appends finds in the ring.
-/

open List

/-- The mount works on a volume of the given layout. -/
@[mk_iff] structure VolumeOf (g : Geometry) (m : Mount) : Prop where
  blockSize : m.blockSize = g.blockSize
  nBlocks : m.bdev.nBlocks = g.totalBlocks
  journalStart : m.sb.journalStart = g.journalStart
  logBlocks : m.jLogBlocks = g.journalBlocks - 1

@[mk_iff] structure SameCursors (m after : Mount) : Prop where
  head : after.jHead = m.jHead
  headSeq : after.jHeadSeq = m.jHeadSeq
  tail : after.jTail = m.jTail
  nextSeq : after.jNextSeq = m.jNextSeq
  checkpoints : after.statCheckpoints = m.statCheckpoints

instance (g : Geometry) (m : Mount) : Decidable (VolumeOf g m) :=
  decidable_of_iff _ (volumeOf_iff g m).symm

instance (m after : Mount) : Decidable (SameCursors m after) :=
  decidable_of_iff _ (sameCursors_iff m after).symm

/-- What is left of the occupied offsets after a step that may checkpoint. -/
def sinceCheckpoint (m after : Mount) (occupied : List Nat) : List Nat :=
  if after.statCheckpoints = m.statCheckpoints then occupied else []

theorem sinceCheckpoint_congr
    {m mid after : Mount}
    (same : after.frame = mid.frame)
    (occupied : List Nat) :
    sinceCheckpoint m after occupied = sinceCheckpoint m mid occupied := by
  have sameCount : after.statCheckpoints = mid.statCheckpoints :=
    (congrArg Mount.statCheckpoints same :)
  rw [sinceCheckpoint, sinceCheckpoint, sameCount]

theorem sinceCheckpoint_checkpointed
    (m : Mount)
    (occupied : List Nat) :
    sinceCheckpoint m m.checkpointed occupied = [] :=
  if_neg (Nat.succ_ne_self _)

/--
Successful appends, each followed by the half-full checkpoint, which may fail,
with other work on the volume in between.  The first list holds every moment of
the run, the latest first: the mount and the log offsets written for
transactions since the last checkpoint.  The second holds the mounts the
appends started from, and the flag says that the half-full checkpoint is due.
-/
inductive RingRun (g : Geometry) : List (Mount × List Nat) → List Mount → Bool → Prop where
  | fresh {m : Mount}
      (volume : VolumeOf g m)
      (empty : m.jTail = m.jHead)
      (lower : 1 ≤ m.jHead)
      (upper : m.jHead ≤ m.jLogBlocks) :
      RingRun g [(m, [])] [] false
  | other {m after : Mount} {occupied : List Nat} {past : List (Mount × List Nat)}
      {appends : List Mount} {due : Bool}
      (run : RingRun g ((m, occupied) :: past) appends due)
      (volume : VolumeOf g after)
      (same : SameCursors m after) :
      RingRun g ((after, occupied) :: (m, occupied) :: past) appends due
  | append {m : Mount} {occupied : List Nat} {past : List (Mount × List Nat)}
      {appends : List Mount}
      (run : RingRun g ((m, occupied) :: past) appends false)
      (wf : TxnWf m)
      (nonempty : m.txnBlocks ≠ [])
      (succeeded : (journalAppend m).1 = .ok ()) :
      RingRun g
        (((journalAppend m).2,
            sinceCheckpoint m (journalAppend m).2 occupied ++ recordOffsets m) ::
          (m, occupied) :: past)
        (m :: appends)
        true
  | settle {m : Mount} {occupied : List Nat} {past : List (Mount × List Nat)}
      {appends : List Mount}
      (run : RingRun g ((m, occupied) :: past) appends true)
      (wf : TxnWf m) :
      RingRun g
        (((journalMaybeCheckpoint m).2,
            sinceCheckpoint m (journalMaybeCheckpoint m).2 occupied) ::
          (m, occupied) :: past)
        appends
        false

/--
`j_used` counts the occupied blocks, the cursors are log offsets, and no
occupied offset was written twice: no append overwrote a transaction that had
not been checkpointed.
-/
structure RingSafe (m : Mount) (occupied : List Nat) : Prop where
  used : jUsed m = occupied.length
  head : 1 ≤ m.jHead ∧ m.jHead ≤ m.jLogBlocks
  tail : 1 ≤ m.jTail ∧ m.jTail ≤ m.jLogBlocks
  notOverwritten : occupied.Nodup

/-! ## What the steps do to the cursors -/

section Cursors

variable {m : Mount}

/-- A record is written behind the tail, after a checkpoint if it does not fit. -/
theorem append_cursors
    (wf : TxnWf m)
    (succeeded : (journalAppend m).1 = .ok ()) :
    (jUsed m + (m.txnBlocks.length + 2) ≤ m.jLogBlocks ∧
        (journalAppend m).2.frame = m.appended.frame) ∨
      (m.jLogBlocks < jUsed m + (m.txnBlocks.length + 2) ∧
        (journalAppend m).2.frame = m.checkpointed.appended.frame) := by
  have spec : Action.wp journalAppend (fun _ after =>
        (jUsed m + (m.txnBlocks.length + 2) ≤ m.jLogBlocks ∧ after.frame = m.appended.frame) ∨
          (m.jLogBlocks < jUsed m + (m.txnBlocks.length + 2) ∧
            after.frame = m.checkpointed.appended.frame))
      (fun _ _ => True) m := by
    refine wp_journalAppend (fun _ => trivial) ?_ ?_
    · intro _ room
      exact Action.wp_mono (wp_journalWriteTxn wf.toCacheWf wf.cached)
        (fun _ _ written => .inl ⟨room, written.1.frame⟩) (fun _ _ _ => trivial)
    · intro _ full
      refine Action.wp_mono (Action.wp_and (checkpoint_keeps wf)
        (wp_journalCheckpoint wf.toCacheWf)) ?_ (fun _ _ _ => trivial)
      rintro _ mid ⟨midWf, dropped, -⟩
      exact Action.wp_mono (wp_journalWriteTxn midWf.toCacheWf midWf.cached)
        (fun _ _ written => .inr ⟨full, written.1.frame.trans (congrArg Mount.appended dropped.frame)⟩)
        (fun _ _ _ => trivial)
  exact Action.wp_succeeded spec succeeded

/-- The half-full checkpoint, failed or not, leaves the cursors or drops the log. -/
theorem maybeCheckpoint_cursors (wf : TxnWf m) :
    (journalMaybeCheckpoint m).2.frame = m.frame ∨
      (journalMaybeCheckpoint m).2.frame = m.checkpointed.frame := by
  refine Action.wp_state
    (fun after : Mount => after.frame = m.frame ∨ after.frame = m.checkpointed.frame) ?_
  unfold journalMaybeCheckpoint
  rw [Action.wp_bind, Action.wp_read]
  split
  · refine Action.wp_mono (wp_journalCheckpoint wf.toCacheWf)
      (fun _ _ dropped => .inr dropped.1.frame) ?_
    rintro _ _ ⟨-, ⟨kept, -⟩ | ⟨dropped, -⟩⟩
    · exact .inl kept.frame
    · exact .inr dropped.frame
  · exact .inl rfl

end Cursors

/-! ## The stretch in use -/

/--
The occupied offsets are the stretch of the ring that starts at the head and
ends before the tail; it is not the whole ring.
-/
structure RingInv
    (logBlocks : Nat)
    (m : Mount)
    (occupied : List Nat) : Prop where
  size : m.jLogBlocks = logBlocks
  head : 1 ≤ m.jHead ∧ m.jHead ≤ logBlocks
  region : occupied = (List.range occupied.length).map (Ring.slot logBlocks m.jHead)
  tail : m.jTail = Ring.slot logBlocks m.jHead occupied.length
  partway : occupied.length < logBlocks

section Stretch

variable {logBlocks : Nat} {m after : Mount} {occupied : List Nat}

section

variable (inv : RingInv logBlocks m occupied)
include inv

theorem RingInv.used : jUsed m = occupied.length := by
  rw [jUsed_eq_distance, inv.size, inv.tail]
  exact Ring.distance_slot inv.head.1 inv.head.2 inv.partway

theorem RingInv.tailBounds : 1 ≤ m.jTail ∧ m.jTail ≤ logBlocks := by
  rw [inv.tail]
  exact ⟨Ring.slot_pos, Ring.slot_le (by have := inv.head; omega)⟩

/-- A stretch that is not the whole ring is safe. -/
theorem RingInv.safe : RingSafe m occupied where
  used := inv.used
  head := by
    rw [inv.size]
    exact inv.head
  tail := by
    rw [inv.size]
    exact inv.tailBounds
  notOverwritten := by
    rw [inv.region]
    refine List.Nodup.map_on ?_ nodup_range
    intro first firstListed second secondListed same
    rw [mem_range] at firstListed secondListed
    have partway := inv.partway
    exact Ring.slot_injective inv.head.1 (by omega) (by omega) same

theorem RingInv.recordOffsets_eq :
    recordOffsets m =
      (List.range (m.txnBlocks.length + 2)).map fun k =>
        Ring.slot logBlocks m.jHead (occupied.length + k) := by
  have nonempty : 0 < logBlocks := by
    have := inv.head
    omega
  refine map_congr_left fun k _ => ?_
  rw [inv.size, jAdv_eq_slot nonempty inv.tailBounds.1, inv.tail, Ring.slot_slot inv.head.1]

theorem RingInv.appended_tail :
    m.appended.jTail = Ring.slot logBlocks m.jHead
      (occupied.length + (m.txnBlocks.length + 2)) := by
  have nonempty : 0 < logBlocks := by
    have := inv.head
    omega
  show jAdv m.jLogBlocks m.jTail (m.txnBlocks.length + 2) = _
  rw [inv.size, jAdv_eq_slot nonempty inv.tailBounds.1, inv.tail, Ring.slot_slot inv.head.1]

/-- A record that leaves a block free prolongs the stretch. -/
theorem RingInv.append
    (room : occupied.length + (m.txnBlocks.length + 2) < logBlocks)
    (moved : after.frame = m.appended.frame) :
    RingInv logBlocks after (occupied ++ recordOffsets m) := by
  have sameHead : after.jHead = m.jHead := (congrArg Mount.jHead moved :)
  have newLength : (occupied ++ recordOffsets m).length =
      occupied.length + (m.txnBlocks.length + 2) := by
    simp [recordOffsets]
  exact {
    size := (congrArg Mount.jLogBlocks moved :).trans inv.size
    head := by
      rw [sameHead]
      exact inv.head
    region := by
      rw [newLength, sameHead, range_add, map_append, ← inv.region, inv.recordOffsets_eq, map_map]
      rfl
    tail := by
      rw [newLength, sameHead, ← inv.appended_tail]
      exact (congrArg Mount.jTail moved :)
    partway := by
      omega }

/-- A record that takes every block that is left makes `j_used` zero. -/
theorem RingInv.fill
    (exactFill : occupied.length + (m.txnBlocks.length + 2) = logBlocks)
    (moved : after.frame = m.appended.frame) :
    jUsed after = 0 := by
  have newTail : after.jTail = Ring.slot logBlocks m.jHead logBlocks := by
    have tail := inv.appended_tail
    rw [exactFill] at tail
    exact (congrArg Mount.jTail moved :).trans tail
  rw [jUsed_eq_distance, newTail, show after.jHead = m.jHead from (congrArg Mount.jHead moved :),
    show after.jLogBlocks = logBlocks from (congrArg Mount.jLogBlocks moved :).trans inv.size]
  exact Ring.distance_full_turn inv.head.1 inv.head.2

/-- Moving the cursors as a checkpoint does empties the stretch. -/
theorem RingInv.checkpoint (moved : after.frame = m.checkpointed.frame) :
    RingInv logBlocks after [] where
  size := (congrArg Mount.jLogBlocks moved :).trans inv.size
  head := by
    rw [show after.jHead = m.jTail from (congrArg Mount.jHead moved :)]
    exact inv.tailBounds
  region := rfl
  tail := by
    rw [show after.jHead = m.jTail from (congrArg Mount.jHead moved :),
      show after.jTail = m.jTail from (congrArg Mount.jTail moved :)]
    exact (Ring.slot_of_le (k := 0) inv.tailBounds.1 inv.tailBounds.2).symm
  partway := by
    have := inv.head
    rw [length_nil]
    omega

theorem RingInv.frame (same : after.frame = m.frame) : RingInv logBlocks after occupied where
  size := (congrArg Mount.jLogBlocks same :).trans inv.size
  head := (congrArg Mount.jHead same :) ▸ inv.head
  region := (congrArg Mount.jHead same :) ▸ inv.region
  tail := (congrArg Mount.jTail same :).trans ((congrArg Mount.jHead same :) ▸ inv.tail)
  partway := inv.partway

/-- An append that does not fill the ring to its last block keeps the stretch. -/
theorem RingInv.append_step
    (large : 64 ≤ logBlocks)
    (wf : TxnWf m)
    (succeeded : (journalAppend m).1 = .ok ())
    (notFull : jUsed m + (m.txnBlocks.length + 2) ≠ m.jLogBlocks) :
    RingInv logBlocks (journalAppend m).2
      (sinceCheckpoint m (journalAppend m).2 occupied ++ recordOffsets m) := by
  have bounded : m.txnBlocks.length ≤ 60 := wf.bounded
  rw [inv.used, inv.size] at notFull
  rcases append_cursors wf succeeded with ⟨room, moved⟩ | ⟨-, moved⟩
  · rw [inv.used, inv.size] at room
    rw [sinceCheckpoint_congr moved,
      show sinceCheckpoint m m.appended occupied = occupied from if_pos rfl]
    exact inv.append (by omega) moved
  · rw [sinceCheckpoint_congr moved, show sinceCheckpoint m m.checkpointed.appended occupied = []
      from sinceCheckpoint_checkpointed m occupied]
    exact (inv.checkpoint (show m.checkpointed.frame = _ from rfl)).append
      (show 0 + (m.txnBlocks.length + 2) < logBlocks by omega) moved

/-- An append that fills the ring to its last block is not safe. -/
theorem RingInv.full_not_safe
    (wf : TxnWf m)
    (succeeded : (journalAppend m).1 = .ok ())
    (full : jUsed m + (m.txnBlocks.length + 2) = m.jLogBlocks) :
    ¬ RingSafe (journalAppend m).2
      (sinceCheckpoint m (journalAppend m).2 occupied ++ recordOffsets m) := by
  intro safe
  rcases append_cursors wf succeeded with ⟨-, moved⟩ | ⟨above, -⟩
  · rw [inv.used, inv.size] at full
    have used := safe.used
    rw [inv.fill full moved] at used
    simp [recordOffsets] at used
  · omega

/-- The half-full checkpoint keeps the stretch or empties it, failed or not. -/
theorem RingInv.maybeCheckpoint (wf : TxnWf m) :
    RingInv logBlocks (journalMaybeCheckpoint m).2
      (sinceCheckpoint m (journalMaybeCheckpoint m).2 occupied) := by
  rcases maybeCheckpoint_cursors wf with same | dropped
  · rw [sinceCheckpoint_congr same, sinceCheckpoint, if_pos rfl]
    exact inv.frame same
  · rw [sinceCheckpoint_congr dropped, sinceCheckpoint_checkpointed]
    exact inv.checkpoint dropped

end

end Stretch

/-! ## Runs -/

section Runs

variable {g : Geometry} {points : List (Mount × List Nat)} {appends : List Mount} {due : Bool}

/-- As long as no append fills the ring, the log in use is a stretch of it. -/
theorem RingRun.inv
    (large : 64 ≤ g.journalBlocks - 1)
    (run : RingRun g points appends due)
    (notFull : ∀ before ∈ appends,
      jUsed before + (before.txnBlocks.length + 2) ≠ before.jLogBlocks) :
    ∀ point ∈ points, RingInv (g.journalBlocks - 1) point.1 point.2 := by
  induction run with
  | @fresh m volume empty lower upper =>
    rw [volume.logBlocks] at upper
    refine forall_mem_singleton.mpr
      ⟨volume.logBlocks, ⟨lower, upper⟩, rfl, ?_, Nat.lt_of_lt_of_le Nat.zero_lt_one (lower.trans upper)⟩
    rw [empty]
    exact (Ring.slot_of_le (k := 0) lower upper).symm
  | other run volume same ih =>
    have earlier := ih notFull
    refine forall_mem_cons.mpr ⟨?_, earlier⟩
    have inv := earlier _ mem_cons_self
    exact {
      size := volume.logBlocks
      head := same.head ▸ inv.head
      region := same.head ▸ inv.region
      tail := same.tail.trans (same.head ▸ inv.tail)
      partway := inv.partway }
  | append run wf nonempty succeeded ih =>
    obtain ⟨here, before⟩ := forall_mem_cons.mp notFull
    have earlier := ih before
    exact forall_mem_cons.mpr
      ⟨(earlier _ mem_cons_self).append_step large wf succeeded here, earlier⟩
  | settle run wf ih =>
    have earlier := ih notFull
    exact forall_mem_cons.mpr ⟨(earlier _ mem_cons_self).maybeCheckpoint wf, earlier⟩

/-- No append of a safe run fills the ring. -/
theorem RingRun.notFull
    (large : 64 ≤ g.journalBlocks - 1)
    (run : RingRun g points appends due)
    (safe : ∀ point ∈ points, RingSafe point.1 point.2) :
    ∀ before ∈ appends, jUsed before + (before.txnBlocks.length + 2) ≠ before.jLogBlocks := by
  induction run with
  | fresh => simp
  | other run volume same ih =>
    exact ih (forall_mem_cons.mp safe).2
  | append run wf nonempty succeeded ih =>
    obtain ⟨last, earlier⟩ := forall_mem_cons.mp safe
    have before := ih earlier
    refine forall_mem_cons.mpr ⟨fun full => ?_, before⟩
    have inv := run.inv large before _ mem_cons_self
    exact inv.full_not_safe wf succeeded full last
  | settle run wf ih =>
    exact ih (forall_mem_cons.mp safe).2

end Runs

/-! ## The ring is safe as long as no append fills it -/

/-- A 64 MiB volume of 16 KiB blocks, mounted with an empty cache. -/
def largeBlocks (slots : Nat) (fault : Nat → Option Err) : Mount where
  bdev := {
    blockSize := 16384
    nBlocks := 4096
    disk := fun _ => zeroBlock 16384
    fault := fault }
  blockSize := 16384
  mounted := true
  sb := { zeroSb with
    totalBlocks := 4096
    journalStart := 1
    journalBlocks := 65 }
  sbAtTxn := zeroSb
  ents := List.replicate slots {}
  lru := List.range slots
  jLogBlocks := 64
  jHead := 1
  jHeadSeq := 1
  jTail := 1
  jNextSeq := 1

/-- A transaction on the blocks from 100 on, not yet committed. -/
def opened (n : Nat) (m : Mount) : Mount :=
  Program.Prog.runCalls exec ((List.range n).flatMap fun i =>
    [.get (100 + i) .zero, .txnDirty (100 + i), .put (100 + i)]) (txnBegin m)

theorem opened_wf
    {m : Mount}
    (n : Nat)
    (wf : TxnWf m)
    (idle : m.inTxn = false) :
    TxnWf (opened n m) :=
  (runCalls_run _ _).keeps (begin_keeps wf idle)

theorem logged_wf
    {m : Mount}
    (wf : TxnWf m) :
    TxnWf (journalAppend m).2 ∧ TxnWf (journalMaybeCheckpoint (journalAppend m).2).2 := by
  have appended := Action.wp_state TxnWf (append_keeps wf)
  exact ⟨appended, Action.wp_state TxnWf (maybeCheckpoint_keeps appended)⟩

namespace RingExample

def layout : Geometry :=
  (geometry 16384 4096).toOption.get rfl

/-- The first transaction has 29 blocks. -/
def first : Mount :=
  opened 29 (largeBlocks 32 fun _ => none)

/-- It is in the log, and less than half of the ring is in use. -/
def settled : Mount :=
  (journalMaybeCheckpoint (journalAppend first).2).2

/-- The second transaction. -/
def second (n : Nat) : Mount :=
  opened n (txnRelease settled)

theorem run
    (n : Nat)
    (size : n ∈ [30, 31]) :
    ∃ points, RingRun layout points [second n, first] true ∧
      (jUsed (second n) = 31 ∧ (second n).txnBlocks.length = n ∧ (second n).jLogBlocks = 64) ∧
      jUsed first = 0 ∧ first.txnBlocks.length = 29 ∧ first.jLogBlocks = 64 := by
  have atFirst : VolumeOf layout first ∧ SameCursors (largeBlocks 32 fun _ => none) first ∧
      (journalAppend first).1 = .ok () ∧ jUsed first = 0 ∧ first.txnBlocks.length = 29 ∧
      first.jLogBlocks = 64 := by
    decide +kernel
  have atSecond : ∀ n ∈ [30, 31], VolumeOf layout (second n) ∧ SameCursors settled (second n) ∧
      (second n).txnBlocks ≠ [] ∧ (journalAppend (second n)).1 = .ok () ∧
      jUsed (second n) = 31 ∧ (second n).txnBlocks.length = n ∧ (second n).jLogBlocks = 64 := by
    decide +kernel
  obtain ⟨volume, same, done, facts⟩ := atFirst
  obtain ⟨volume', same', nonempty', done', facts'⟩ := atSecond n size
  have wf : TxnWf first := opened_wf 29 (TxnWf.of_empty rfl rfl rfl) rfl
  obtain ⟨appendedWf, settledWf⟩ := logged_wf wf
  have wf' : TxnWf (second n) := opened_wf n (release_keeps settledWf) rfl
  have one := (RingRun.fresh ⟨rfl, rfl, rfl, rfl⟩ rfl (by decide) (by decide)).other volume same
  have two := (one.append wf (length_pos_iff.mp (by omega)) done).settle appendedWf
  exact ⟨_, (two.other volume' same').append wf' nonempty' done', facts', facts⟩

end RingExample

end CaraOS.Carafs
