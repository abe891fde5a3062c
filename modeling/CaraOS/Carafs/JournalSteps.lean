import CaraOS.Lib.Ring
import CaraOS.Carafs.CacheSteps
import CaraOS.Carafs.Journal

namespace CaraOS.Carafs

/-!
# What the journal operations do

Checkpoint, append and commit described by their effect on the cache state and
on the journal cursors.  Each rule covers the failures of the device as well,
because a transaction that fails half way leaves its traces behind.
-/

open CacheState (put_put put_self writeAll_cons writeAll_nil)
open List
open Action (wp wp_bind wp_modify wp_mono wp_read)

/-! ## Ring offsets -/

theorem jWrap_eq {logBlocks : Nat} (nonempty : 0 < logBlocks) :
    ∀ {fuel o : Nat}, 1 ≤ o → o ≤ fuel →
      jWrap logBlocks fuel o = (o - 1) % logBlocks + 1
  | 0, o, lower, upper => by omega
  | fuel + 1, o, lower, upper => by
    unfold jWrap
    by_cases beyond : o > logBlocks
    · rw [if_pos beyond, jWrap_eq nonempty (by omega) (by omega)]
      have shape : o - 1 = o - logBlocks - 1 + logBlocks := by omega
      rw [shape, Nat.add_mod_right]
    · rw [if_neg beyond, Nat.mod_eq_of_lt (by omega)]
      omega

theorem jAdv_eq_slot {logBlocks off : Nat} (nonempty : 0 < logBlocks) (lower : 1 ≤ off) (k : Nat) :
    jAdv logBlocks off k = Ring.slot logBlocks off k :=
  jWrap_eq nonempty (by omega) le_rfl

theorem jUsed_eq_distance (m : Mount) : jUsed m = Ring.distance m.jLogBlocks m.jHead m.jTail :=
  rfl

/-- What the device was asked between two states. -/
def issued (m after : Mount) : List Io :=
  after.bdev.stream.drop m.bdev.stream.length

variable {after : Mount}

theorem issued_of_stream {m : Mount} {requests : List Io}
    (extended : after.bdev.stream = m.bdev.stream ++ requests) : issued m after = requests := by
  simp [issued, extended]

/-- The block belongs to the journal region, JSB included. -/
def InJournal (m : Mount) (block : Nat) : Prop :=
  m.sb.journalStart ≤ block ∧ block ≤ m.sb.journalStart + m.jLogBlocks
  deriving Decidable

/-! ## Checkpoint -/

section Checkpoint

variable {m : Mount}

theorem Follows.congr_frame {start : Mount}
    (follows : Follows m after) (same : start.frame = m.frame) : Follows start after :=
  ⟨follows.wf, follows.frame.trans same.symm⟩

theorem wp_jsbWrite (wf : CacheWf m) :
    wp jsbWrite
      (fun _ after =>
        Follows m after ∧
          after.state =
            (m.state.write m.sb.journalStart m.jsbImage).flush)
      (fun _ after =>
        ¬ (Healthy m ∧ m.sb.journalStart < m.bdev.nBlocks) ∧
          Follows m after ∧
          (after.state = m.state ∨ after.state = m.state.write m.sb.journalStart m.jsbImage))
      m := by
  unfold jsbWrite
  rw [wp_bind, wp_read, wp_bind]
  apply wp_write
  · intro faulty code
    exact ⟨faulty, (Follows.refl wf).ticked, .inl rfl⟩
  · intro inRange
    have wrote := (Follows.refl wf).written m.sb.journalStart m.jsbImage
    apply wp_flush
    · intro faulty code
      exact ⟨fun both => faulty (wrote.healthy both.1), wrote.ticked, .inr rfl⟩
    · exact ⟨wrote.flushed, rfl⟩

/--
A checkpoint writes every dirty entry home and then drops the log; when it
fails, it has done a part of this.
-/
theorem wp_journalCheckpoint (wf : CacheWf m) :
    wp journalCheckpoint
      (fun _ after =>
        Follows m.checkpointed after ∧ ∃ homes,
          AllHomes m.state (fun e => e.dirty) homes ∧
            after.state =
              ((m.state.homeAll homes).flush.write m.sb.journalStart m.checkpointed.jsbImage).flush)
      (fun _ after =>
        ¬ (Healthy m ∧ m.sb.journalStart < m.bdev.nBlocks) ∧
          ((Follows m after ∧ ∃ homes, SomeHomes m.state (fun e => e.dirty) homes ∧
                after.state = m.state.homeAll homes) ∨
            (Follows m.checkpointed after ∧ ∃ homes, AllHomes m.state (fun e => e.dirty) homes ∧
                (after.state = (m.state.homeAll homes).flush ∨ after.state =
                    (m.state.homeAll homes).flush.write
                      m.sb.journalStart m.checkpointed.jsbImage))))
      m := by
  unfold journalCheckpoint
  rw [wp_bind]
  refine wp_mono (wp_cacheSync wf) ?_ ?_
  · rintro _ mid ⟨follows, homes, all, sameState⟩
    rw [wp_bind, wp_modify]
    have movedWf : CacheWf mid.checkpointed := follows.wf.of_same_table rfl rfl rfl
    have movedFrame : mid.checkpointed.frame = m.checkpointed.frame :=
      congrArg Mount.checkpointed follows.frame
    have sameStart : mid.sb.journalStart = m.sb.journalStart :=
      congrArg (fun mount => mount.sb.journalStart) follows.frame
    have sameJsb : mid.checkpointed.jsbImage = m.checkpointed.jsbImage :=
      (congrArg Mount.jsbImage movedFrame :)
    have movedState : mid.checkpointed.state = (m.state.homeAll homes).flush := sameState
    refine wp_mono (wp_jsbWrite movedWf) ?_ ?_
    · rintro _ after ⟨wrote, wroteState⟩
      refine ⟨wrote.congr_frame movedFrame.symm, homes, all, ?_⟩
      rw [wroteState, movedState, sameJsb]
      exact sameStart ▸ rfl
    · rintro code after ⟨faulty, wrote, wroteState⟩
      refine ⟨?_, .inr ⟨wrote.congr_frame movedFrame.symm, homes, all, ?_⟩⟩
      · rintro ⟨healthy, inRange⟩
        refine faulty ⟨follows.healthy healthy, ?_⟩
        show mid.sb.journalStart < mid.bdev.nBlocks
        rwa [sameStart, follows.nBlocks]
      · rw [movedState, sameJsb] at wroteState
        exact sameStart ▸ wroteState
  · rintro _ after ⟨faulty, follows, homes, some, sameState⟩
    exact ⟨fun both => faulty both.1, .inl ⟨follows, homes, some, sameState⟩⟩

end Checkpoint

/-! ## Append -/

/-- The image writes of an append, in the order they are made. -/
def imageWrites (m : Mount) (off : Nat) :
    Nat → List Nat → List (Nat × Block)
  | _, [] => []
  | i, block :: rest =>
    (jPhys m (jAdv m.jLogBlocks off (1 + i)), m.cached block) ::
      imageWrites m off (i + 1) rest

/-- The checksum chained over the cached images of a list of blocks. -/
def imagesCrc (m : Mount) (blocks : List Nat) (seed : Nat) : Nat :=
  blocks.foldl (fun crc block => crc32c crc ((m.cached block).bytes m.blockSize)) seed

/-- Everything an append of the open transaction writes, in order. -/
def Mount.txnRecord (m : Mount) : List (Nat × Block) :=
  (jPhys m m.jTail, m.descImage) :: (imageWrites m m.jTail 0 m.txnBlocks ++
      [(jPhys m (jAdv m.jLogBlocks m.jTail (1 + m.txnBlocks.length)),
        m.commitImage (imagesCrc m m.txnBlocks 0))])

/-- The log offsets an append of the open transaction writes, in order. -/
def recordOffsets (m : Mount) : List Nat :=
  (List.range (m.txnBlocks.length + 2)).map (jAdv m.jLogBlocks m.jTail)

/-- Every offset reached from `off` lies on the device. -/
def RingInRange (m : Mount) (off : Nat) : Prop :=
  ∀ k, jPhys m (jAdv m.jLogBlocks off k) < m.bdev.nBlocks

section Append

variable {m : Mount}

theorem imageWrites_places (off i : Nat) (blocks : List Nat) :
    (imageWrites m off i blocks).map Prod.fst =
      (List.range blocks.length).map fun k =>
        jPhys m (jAdv m.jLogBlocks off (1 + (i + k))) := by
  induction blocks generalizing i with
  | nil =>
    rfl
  | cons block rest ih =>
    rw [imageWrites, map_cons, ih, length_cons, range_succ_eq_map, map_cons, map_map]
    congr 1
    refine map_congr_left fun k _ => ?_
    congr 3
    omega

theorem txnRecord_places (lower : 1 ≤ m.jTail) (upper : m.jTail ≤ m.jLogBlocks) :
    m.txnRecord.map Prod.fst = (recordOffsets m).map (jPhys m) := by
  have start : jAdv m.jLogBlocks m.jTail 0 = m.jTail := by
    rw [jAdv_eq_slot (by omega) lower, Ring.slot_of_le lower upper]
    rfl
  unfold Mount.txnRecord recordOffsets
  rw [map_cons, map_append, imageWrites_places, range_succ_eq_map, map_cons, map_cons, start,
    range_succ]
  simp only [map_append, map_map, map_cons, map_nil]
  congr 2
  · refine map_congr_left fun k _ => ?_
    congr 3
    omega
  · congr 4
    omega

theorem cached_congr (sameTable : after.lookup = m.lookup) : after.cached = m.cached := by
  funext block
  have same := congrFun sameTable block
  unfold Mount.lookup at same
  unfold Mount.cached
  cases found : indexFind m block with
  | none =>
    rw [found, Option.map_none, Option.map_eq_none_iff] at same
    rw [same]
  | some idx =>
    rw [found, Option.map_some, Option.map_eq_some_iff] at same
    obtain ⟨slot, foundAfter, sameEnt⟩ := same
    simp only [foundAfter, sameEnt]

theorem imageWrites_congr (sameFrame : after.frame = m.frame) (sameTable : after.lookup = m.lookup)
    (off i : Nat) (blocks : List Nat) :
    imageWrites after off i blocks = imageWrites m off i blocks := by
  induction blocks generalizing i with
  | nil =>
    rfl
  | cons block rest ih =>
    have samePlace : jPhys after (jAdv after.jLogBlocks off (1 + i)) =
          jPhys m (jAdv m.jLogBlocks off (1 + i)) :=
      (congrArg (fun mount => jPhys mount (jAdv mount.jLogBlocks off (1 + i))) sameFrame :)
    unfold imageWrites
    rw [ih, samePlace, cached_congr sameTable]

theorem imagesCrc_congr (sameFrame : after.frame = m.frame) (sameTable : after.lookup = m.lookup)
    (blocks : List Nat) (seed : Nat) : imagesCrc after blocks seed = imagesCrc m blocks seed := by
  have sameSize : after.blockSize = m.blockSize := (congrArg Mount.blockSize sameFrame :)
  unfold imagesCrc
  rw [sameSize, cached_congr sameTable]

theorem RingInRange.congr {off : Nat}
    (inRange : RingInRange m off) (sameFrame : after.frame = m.frame) : RingInRange after off := by
  intro k
  have samePlace : jPhys after (jAdv after.jLogBlocks off k) = jPhys m (jAdv m.jLogBlocks off k) :=
    (congrArg (fun mount => jPhys mount (jAdv mount.jLogBlocks off k)) sameFrame :)
  have sameSize : after.bdev.nBlocks = m.bdev.nBlocks :=
    (congrArg (fun mount => mount.bdev.nBlocks) sameFrame :)
  rw [samePlace, sameSize]
  exact inRange k

/--
The image loop copies the cached images to the log and leaves the table as it
was; when it fails, it has copied the first few.
-/
theorem wp_appendImages (wf : CacheWf m) (off i : Nat) {blocks : List Nat}
    (cached : ∀ block ∈ blocks, m.lookup block ≠ none) (seed : Nat) :
    wp (appendImages off i blocks seed)
      (fun crc after =>
        Follows m after ∧
          after.state = m.state.writeAll (imageWrites m off i blocks) ∧
          crc = imagesCrc m blocks seed)
      (fun _ after =>
        ¬ (Healthy m ∧ RingInRange m off) ∧ Follows m after ∧
          ∃ k,
            after.state =
              m.state.writeAll ((imageWrites m off i blocks).take k))
      m := by
  induction blocks generalizing m i seed with
  | nil =>
    exact ⟨.refl wf, by simp [imageWrites], rfl⟩
  | cons block rest ih =>
    obtain ⟨e, isCached⟩ := Option.ne_none_iff_exists'.mp (cached block mem_cons_self)
    obtain ⟨mid, got, pinned, pinnedState⟩ := cacheGet_hit wf isCached .read
    have midCached : mid.lookup block = some { e with pins := e.pins + 1 } := by
      rw [← state_table, pinnedState, CacheState.put_table_self]
    have sameImage : mid.cached block = m.cached block := by
      rw [cached_of_lookup midCached, cached_of_lookup isCached]
    have samePlace : jPhys mid (jAdv mid.jLogBlocks off (1 + i)) =
          jPhys m (jAdv m.jLogBlocks off (1 + i)) :=
      (congrArg (fun mount => jPhys mount (jAdv mount.jLogBlocks off (1 + i))) pinned.frame :)
    unfold appendImages
    rw [wp_bind, Action.wp_of_ok got, wp_bind, wp_read]
    rw [wp_bind, Action.wp_attempt, samePlace, sameImage, pinned.blockSize]
    apply wp_write
    · intro faulty code
      obtain ⟨unpinned, unpinnedState⟩ := cachePut_unpin pinned.ticked.wf midCached
      rw [wp_bind, wp_modify, wp_bind, Action.wp_settle_error]
      refine ⟨?_, pinned.ticked.trans unpinned, 0, ?_⟩
      · rintro ⟨healthy, inRange⟩
        refine faulty ⟨pinned.healthy healthy, ?_⟩
        rw [pinned.nBlocks]
        exact inRange (1 + i)
      · rw [unpinnedState, state_ticked, pinnedState, put_put, put_self isCached, take_zero,
          writeAll_nil]
    · intro inRange
      have wrote := pinned.written (jPhys m (jAdv m.jLogBlocks off (1 + i))) (m.cached block)
      obtain ⟨unpinned, unpinnedState⟩ := cachePut_unpin wrote.wf midCached
      rw [wp_bind, wp_modify, wp_bind, Action.wp_settle_ok]
      have follows := wrote.trans unpinned
      have stepState : (cachePut block (mid.written (jPhys m (jAdv m.jLogBlocks off (1 + i)))
            (m.cached block))).state =
            m.state.write (jPhys m (jAdv m.jLogBlocks off (1 + i))) (m.cached block) := by
        rw [unpinnedState, state_written, pinnedState, CacheState.put_write_put, put_self isCached]
      have sameTable : (cachePut block (mid.written (jPhys m (jAdv m.jLogBlocks off (1 + i)))
            (m.cached block))).lookup = m.lookup :=
        congrArg CacheState.table stepState
      refine wp_mono (ih follows.wf (i + 1) ?_ _) ?_ ?_
      · intro other member
        rw [sameTable]
        exact cached other (mem_cons_of_mem _ member)
      · rintro crc after ⟨later, laterState, chained⟩
        refine ⟨follows.trans later, ?_, ?_⟩
        · rw [laterState, stepState, imageWrites_congr follows.frame sameTable]
          exact (writeAll_cons ..).symm
        · rw [chained, imagesCrc_congr follows.frame sameTable]
          rfl
      · rintro code after ⟨faulty, later, k, laterState⟩
        refine ⟨?_, follows.trans later, k + 1, ?_⟩
        · rintro ⟨healthy, ringInRange⟩
          exact faulty ⟨follows.healthy healthy, ringInRange.congr follows.frame⟩
        · rw [laterState, stepState, imageWrites_congr follows.frame sameTable]
          exact (writeAll_cons ..).symm

/-- The log blocks an append of the open transaction writes are on the device. -/
def RecordInRange (m : Mount) : Prop :=
  jPhys m m.jTail < m.bdev.nBlocks ∧ RingInRange m m.jTail

/--
DESC, images, COMMIT and a flush; when this fails, a first part of the record
is in the log and the cursors have not moved.
-/
theorem wp_journalWriteTxn
    (wf : CacheWf m) (cached : ∀ block ∈ m.txnBlocks, m.lookup block ≠ none) :
    wp journalWriteTxn
      (fun _ after =>
        Follows m.appended after ∧
          after.state = (m.state.writeAll m.txnRecord).flush)
      (fun _ after =>
        ¬ (Healthy m ∧ RecordInRange m) ∧ Follows m after ∧
          ∃ k, after.state = m.state.writeAll (m.txnRecord.take k))
      m := by
  unfold journalWriteTxn
  rw [wp_bind, wp_read]
  rw [wp_bind]
  apply wp_write
  · intro faulty code
    exact ⟨fun both => faulty ⟨both.1, both.2.1⟩, (Follows.refl wf).ticked, 0,
      (writeAll_nil _).symm⟩
  · intro _
    have described := (Follows.refl wf).written (jPhys m m.jTail) m.descImage
    rw [wp_bind]
    refine wp_mono (wp_appendImages described.wf m.jTail 0 cached 0) ?_ ?_
    · rintro crc mid ⟨copied, copiedState, chained⟩
      have imagesState : mid.state = m.state.writeAll ((jPhys m m.jTail, m.descImage) ::
              imageWrites m m.jTail 0 m.txnBlocks) := by
        rw [copiedState, state_written, imageWrites_congr described.frame rfl, writeAll_cons]
      have sameCrc : crc = imagesCrc m m.txnBlocks 0 := by
        rw [chained, imagesCrc_congr described.frame rfl]
      have follows := described.trans copied
      rw [sameCrc, wp_bind]
      apply wp_write
      · intro faulty code
        refine ⟨?_, follows.ticked, (imageWrites m m.jTail 0 m.txnBlocks).length + 1, ?_⟩
        · rintro ⟨healthy, -, ringInRange⟩
          exact faulty ⟨follows.healthy healthy, follows.nBlocks ▸ ringInRange _⟩
        · rw [state_ticked, imagesState]
          simp [Mount.txnRecord]
      · intro _
        have committed :=
          follows.written (jPhys m (jAdv m.jLogBlocks m.jTail (1 + m.txnBlocks.length)))
            (m.commitImage (imagesCrc m m.txnBlocks 0))
        have recordState : (mid.written (jPhys m
                (jAdv m.jLogBlocks m.jTail (1 + m.txnBlocks.length)))
              (m.commitImage (imagesCrc m m.txnBlocks 0))).state =
              m.state.writeAll m.txnRecord := by
          rw [state_written, imagesState]
          unfold Mount.txnRecord
          rw [← cons_append, CacheState.writeAll_append, writeAll_cons _ _ _ [], writeAll_nil]
        rw [wp_bind]
        apply wp_flush
        · intro faulty code
          refine ⟨?_, committed.ticked, m.txnRecord.length, ?_⟩
          · rintro ⟨healthy, -⟩
            exact faulty (committed.healthy healthy)
          · rw [state_ticked, recordState, take_length]
        · rw [wp_modify]
          refine ⟨⟨committed.wf.of_same_table rfl rfl rfl, ?_⟩, ?_⟩
          · exact (congrArg Mount.appended committed.frame :)
          · exact congrArg CacheState.flush recordState
    · rintro code after ⟨faulty, copied, k, copiedState⟩
      have copiedPart := take_eq_take_min (l := imageWrites m m.jTail 0 m.txnBlocks) (i := k)
      refine ⟨?_, described.trans copied,
        min k (imageWrites m m.jTail 0 m.txnBlocks).length + 1, ?_⟩
      · rintro ⟨healthy, -, ringInRange⟩
        exact faulty ⟨described.healthy healthy, ringInRange.congr described.frame⟩
      · rw [copiedState, state_written, imageWrites_congr described.frame rfl, copiedPart,
          ← writeAll_cons]
        unfold Mount.txnRecord
        rw [take_succ_cons, take_append_of_le_length (Nat.min_le_right ..)]

theorem wp_journalAppend {post : Unit → Mount → Prop} {failed : Err → Mount → Prop}
    (tooLarge : m.jLogBlocks < m.txnBlocks.length + 2 → failed .eoverflow m)
    (direct : m.txnBlocks.length + 2 ≤ m.jLogBlocks →
        jUsed m + (m.txnBlocks.length + 2) ≤ m.jLogBlocks →
          wp journalWriteTxn post failed m) (checkpointed : m.txnBlocks.length + 2 ≤ m.jLogBlocks →
        m.jLogBlocks < jUsed m + (m.txnBlocks.length + 2) →
          wp journalCheckpoint
            (fun _ => wp journalWriteTxn post failed) failed m) :
    wp journalAppend post failed m := by
  unfold journalAppend journalMakeRoom
  rw [wp_bind, wp_bind, wp_read]
  by_cases large : m.txnBlocks.length + 2 > m.jLogBlocks
  · rw [if_pos large]
    exact tooLarge large
  · rw [if_neg large]
    have fits := Nat.le_of_not_lt large
    by_cases full : jUsed m + (m.txnBlocks.length + 2) > m.jLogBlocks
    · rw [if_pos full]
      exact checkpointed fits full
    · rw [if_neg full]
      exact direct fits (Nat.le_of_not_lt full)

end Append

/-! ## The end of a transaction -/

namespace CacheState

/-- The entries of some blocks leave the transaction. -/
def release (c : CacheState) (blocks : List Nat) : CacheState :=
  { c with
    table := fun block =>
      if block ∈ blocks then
        (c.table block).map fun e => { e with txn := false }
      else
        c.table block }

def drop (c : CacheState) (blocks : List Nat) : CacheState :=
  { c with
    table := fun block =>
      if block ∈ blocks then none else c.table block }

theorem release_cons (c : CacheState) (block : Nat) (rest : List Nat) :
    c.release (block :: rest) =
      (c.put block ((c.table block).map fun e => { e with txn := false })).release
          rest := by
  unfold release put
  congr 1
  funext query
  by_cases here : query = block
  · subst here
    by_cases again : query ∈ rest <;>
      simp [again, Function.comp_def]
  · simp [here]

theorem drop_cons (c : CacheState) (block : Nat) (rest : List Nat) :
    c.drop (block :: rest) = (c.put block none).drop rest := by
  unfold drop put
  congr 1
  funext query
  by_cases here : query = block
  · subst here
    simp
  · simp [here]

end CacheState

section Finish

variable {m : Mount}

theorem releaseTxn_follows (wf : CacheWf m) (blocks : List Nat) :
    Follows m (releaseTxn blocks m) ∧
      (releaseTxn blocks m).state = m.state.release blocks := by
  induction blocks generalizing m with
  | nil =>
    exact ⟨.refl wf, rfl⟩
  | cons block rest ih =>
    obtain ⟨changed, changedState⟩ :=
      modifyBlock_follows wf block (show ∀ e : Ent, { e with txn := false }.block = e.block from
          fun _ => rfl)
    obtain ⟨later, laterState⟩ := ih changed.wf
    refine ⟨changed.trans later, laterState.trans ?_⟩
    rw [changedState, CacheState.release_cons]
    rfl

theorem dropTxn_follows (wf : CacheWf m) (blocks : List Nat) :
    Follows m (dropTxn blocks m) ∧
      (dropTxn blocks m).state = m.state.drop blocks := by
  induction blocks generalizing m with
  | nil =>
    exact ⟨.refl wf, rfl⟩
  | cons block rest ih =>
    obtain ⟨changed, changedState⟩ :=
      dropBlock_follows wf block (show ∀ e : Ent, { e with
            block := none
            dirty := false
            txn := false
            pins := 0 }.block = none from fun _ => rfl)
        (fun _ _ => rfl)
    obtain ⟨later, laterState⟩ := ih changed.wf
    refine ⟨changed.trans later, laterState.trans ?_⟩
    rw [changedState, CacheState.drop_cons]

/-- The cursors of a mount with no open transaction. -/
def Mount.closed (m : Mount) : Mount :=
  { m with inTxn := false, txnBlocks := [] }

theorem txnRelease_follows (wf : CacheWf m) :
    Follows m.closed (txnRelease m) ∧
      (txnRelease m).state = m.state.release m.txnBlocks := by
  obtain ⟨released, releasedState⟩ := releaseTxn_follows wf m.txnBlocks
  refine ⟨⟨released.wf.of_same_table rfl rfl rfl, ?_⟩, releasedState⟩
  exact (congrArg Mount.closed released.frame :)

theorem txnAbort_follows (wf : CacheWf m) :
    Follows m.closed (txnAbort m) ∧
      (txnAbort m).state = m.state.drop m.txnBlocks := by
  obtain ⟨dropped, droppedState⟩ := dropTxn_follows wf m.txnBlocks
  refine ⟨⟨dropped.wf.of_same_table rfl rfl rfl, ?_⟩, droppedState⟩
  exact (congrArg Mount.closed dropped.frame :)

end Finish

end CaraOS.Carafs
