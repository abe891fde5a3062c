import CaraOS.Carafs.Replay
import CaraOS.Carafs.WriteAhead

namespace CaraOS.Carafs

/-!
# What is logged is read back

The blocks of a record have distinct places in the ring, so all of it is on the
disk when its COMMIT block is.
-/

open List
open Action (wp wp_and wp_mono wp_succeeded)

variable {m after : Mount}

theorem imageWrites_read
    {off i : Nat}
    {blocks : List Nat}
    {disk : Nat → Block}
    (holds : ∀ write ∈ imageWrites m off i blocks, disk write.1 = write.2) :
    (range' i blocks.length).map (fun k => disk (jPhys m (jAdv m.jLogBlocks off (1 + k)))) =
      blocks.map m.cached := by
  induction blocks generalizing i with
  | nil => rfl
  | cons block rest ih =>
    obtain ⟨here, later⟩ := forall_mem_cons.mp holds
    rw [length_cons, range'_succ, map_cons, map_cons, ih later]
    exact congrArg (· :: _) here

section Record

variable (tail : 1 ≤ m.jTail ∧ m.jTail ≤ m.jLogBlocks)
  (room : m.txnBlocks.length + 2 ≤ m.jLogBlocks)
include tail room

theorem txnRecord_nodup : (m.txnRecord.map Prod.fst).Nodup := by
  rw [txnRecord_places tail.1 tail.2, recordOffsets, map_map]
  refine Nodup.map_on (fun first isFirst second isSecond same => ?_) nodup_range
  rw [mem_range] at isFirst isSecond
  simp only [Function.comp_apply, jPhys, Nat.add_left_cancel_iff,
    jAdv_eq_slot (show 0 < m.jLogBlocks by omega) tail.1] at same
  exact Ring.slot_injective tail.1 (by omega) (by omega) same

variable (wf : TxnWf m) (nonempty : m.txnBlocks ≠ [])
  (inVolume : ∀ block ∈ m.txnBlocks, block < m.sb.totalBlocks)
include wf nonempty inVolume

theorem writeTxn_reads_back :
    wp journalWriteTxn
      (fun _ after => after.logView.txnAt m.jTail m.jNextSeq =
        some (m.txnBlocks.zip (m.txnBlocks.map m.cached)))
      (fun _ _ => True) m := by
  refine wp_mono (wp_journalWriteTxn wf.toCacheWf wf.cached) ?_ fun _ _ _ => trivial
  rintro _ after ⟨follows, state⟩
  have holds (write : Nat × Block) (listed : write ∈ m.txnRecord) :
      after.bdev.disk write.1 = write.2 :=
    (congrFun (congrArg CacheState.disk state) write.1).trans
      (Redo.applyAll_of_mem (txnRecord_nodup tail room) listed)
  have blockSize : after.blockSize = m.blockSize := (congrArg Mount.blockSize follows.frame :)
  have logBlocks : after.jLogBlocks = m.jLogBlocks := follows.jLogBlocks
  have sb : after.sb = m.sb := follows.sb
  have phys : jPhys after = jPhys m := by
    funext off
    simp [jPhys, sb]
  have inRing := LogView.jAdv_bounds tail.1 tail.2
  obtain ⟨desc, rest⟩ := forall_mem_cons.mp holds
  obtain ⟨images, commit⟩ := forall_mem_append.mp rest
  simp only [LogView.txnAt, LogView.images, Mount.logView, phys, blockSize, logBlocks, sb, inRing,
    tail, and_self, if_true]
  rw [desc, Mount.descImage,
    LogView.descAccepted_putCrc ⟨length_pos_of_ne_nil nonempty, wf.bounded⟩, if_pos inVolume]
  dsimp only
  rw [imageWrites_read images, forall_mem_singleton.mp commit, chainCrc, foldl_map]
  exact if_pos (LogView.commitAccepted_putCrc ..)

end Record

/--
A transaction that an append has logged, with or without a checkpoint before,
replay finds whole at the old tail, with the images its blocks had in the cache.
-/
theorem append_reads_back
    (wf : TxnWf m)
    (tail : TailInLog m)
    (nonempty : m.txnBlocks ≠ [])
    (inVolume : ∀ block ∈ m.txnBlocks, block < m.sb.totalBlocks)
    (succeeded : (journalAppend m).1 = .ok ()) :
    (journalAppend m).2.logView.txnAt m.jTail m.jNextSeq =
      some (m.txnBlocks.zip (m.txnBlocks.map m.cached)) := by
  refine wp_succeeded (wp_journalAppend (fun _ => trivial)
    (fun room _ => writeTxn_reads_back tail room wf nonempty inVolume) fun room _ => ?_) succeeded
  refine wp_mono (wp_and (wp_journalCheckpoint wf.toCacheWf) (checkpoint_keeps wf)) ?_
    fun _ _ _ => trivial
  rintro _ mid ⟨⟨follows, homes, all, state⟩, midWf⟩
  have cached : mid.cached = m.cached := by
    funext block
    rw [cached_eq_images, cached_eq_images, state]
    exact congrArg (fun images => (images block).getD default)
      (CacheState.homeAll_images all.toSomeHomes)
  have blocks : mid.txnBlocks = m.txnBlocks := follows.txnBlocks
  have logBlocks : mid.jLogBlocks = m.jLogBlocks := follows.jLogBlocks
  have isTail : mid.jTail = m.jTail := (congrArg Mount.jTail follows.frame :)
  have next : mid.jNextSeq = m.jNextSeq := (congrArg Mount.jNextSeq follows.frame :)
  have sb : mid.sb = m.sb := follows.sb
  have reads := writeTxn_reads_back (by rwa [isTail, logBlocks]) (by rwa [blocks, logBlocks])
    midWf (by rwa [blocks]) (by rwa [blocks, sb])
  rwa [isTail, next, blocks, cached] at reads

/-- Two blocks behind an empty log that stands at 63 of 64: the second image wraps. -/
theorem append_reads_back_wraps :
    let start := { RoomExample.start with jHead := 63, jTail := 63 }
    let m := Program.Prog.runCalls exec
      [.get 100 .zero, .txnDirty 100, .get 101 .zero, .txnDirty 101] (txnBegin start)
    (journalAppend m).2.jTail = 3 ∧ (journalAppend m).2.logView.txnAt 63 1 =
      some [(100, m.cached 100), (101, m.cached 101)] := by
  have wf := (runCalls_run [.get 100 .zero, .txnDirty 100, .get 101 .zero, .txnDirty 101] _).keeps
    (begin_keeps (m := { RoomExample.start with jHead := 63, jTail := 63 })
      (TxnWf.of_empty rfl rfl rfl) rfl)
  exact ⟨by decide +kernel, append_reads_back wf
    ⟨by decide, by decide⟩ (by decide) (by decide) (by decide +kernel)⟩

end CaraOS.Carafs
