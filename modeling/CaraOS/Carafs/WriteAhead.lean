import CaraOS.Carafs.AbortRestore
import CaraOS.Carafs.RingSafety

namespace CaraOS.Carafs

/-!
# The write-ahead rule

No block of the open transaction is written to its home before the COMMIT
record of that transaction has been written and flushed.  Eviction respects
the TXN flag, and so does the data barrier of a commit; the checkpoint that an
append runs to make room does not.  The rule therefore holds at every step of
every run, provided a commit finds room for its record in the log.
-/

open List
open CacheState (Evict Get flush homeAll stream write writeAll)
open Action (wp wp_and wp_bind wp_mono wp_read wp_state)

/--
Every home write of a block of the open transaction comes after its COMMIT
record and a flush.
-/
def WriteAhead (m after : Mount) : Prop :=
  ∀ earlier block image later, issued m after = earlier ++ .write block image :: later →
      block ∈ m.txnBlocks → ¬ InJournal m block → ∃ before place txnCrc between,
          earlier = before ++ .write place (m.commitImage txnCrc) :: .flush :: between

/-- The requests write no home block of the open transaction. -/
def Guarded (m : Mount) (requests : List Io) : Prop :=
  ∀ block image, .write block image ∈ requests → block ∈ m.txnBlocks → InJournal m block

section Guarded

variable {m after : Mount} {first second : List Io}

theorem Guarded.append (firstGuarded : Guarded m first) (secondGuarded : Guarded m second) :
    Guarded m (first ++ second) := by
  intro block image listed
  rcases mem_append.mp listed with listed | listed
  · exact firstGuarded block image listed
  · exact secondGuarded block image listed

theorem guarded_nil : Guarded m [] := by
  intro block image listed
  exact absurd listed not_mem_nil

theorem guarded_flush : Guarded m [.flush] := by
  intro block image listed
  simp at listed

theorem Guarded.writeAhead (guarded : Guarded m (issued m after)) : WriteAhead m after := by
  intro earlier block image later shape member home
  refine absurd (guarded block image ?_ member) home
  rw [shape]
  simp

theorem split_after {α : Type} {front rest earlier later : List α} {item : α}
    (shape : front ++ rest = earlier ++ item :: later) (absent : item ∉ front) :
    ∃ between, earlier = front ++ between := by
  rcases append_eq_append_iff.mp shape with
    ⟨between, earlierShape, -⟩ | ⟨middle, frontShape, restShape⟩
  · exact ⟨between, earlierShape⟩
  · cases middle with
    | nil =>
      exact ⟨[], by rw [frontShape]; simp⟩
    | cons head more =>
      rw [cons_append, List.cons.injEq] at restShape
      exact absurd (by rw [frontShape, restShape.1]; simp) absent

theorem writeAhead_of_commit {before rest : List Io} {place : Nat} {txnCrc : Nat}
    (shape : issued m after = before ++ [.write place (m.commitImage txnCrc), .flush] ++ rest)
    (guarded : Guarded m before) (logged : InJournal m place) : WriteAhead m after := by
  intro earlier block image later split member home
  rw [shape] at split
  have absent : .write block image ∉ before ++ [.write place (m.commitImage txnCrc), .flush] := by
    intro listed
    rcases mem_append.mp listed with listed | listed
    · exact home (guarded block image listed member)
    · rw [mem_cons] at listed
      rcases listed with ⟨rfl, -⟩ | listed
      · exact home logged
      · simp at listed
  obtain ⟨between, earlierShape⟩ := split_after split absent
  exact ⟨before, place, txnCrc, between, by simp [earlierShape]⟩

end Guarded

/-! ## Cache calls -/

variable {c : CacheState}

section Calls

variable {m after : Mount}

theorem outside_of_entry (wf : TxnWf m) {block : Nat} {e : Ent}
    (cached : m.lookup block = some e) (outside : e.txn = false) : block ∉ m.txnBlocks := by
  rw [wf.members]
  rintro ⟨other, isCached, member⟩
  rw [state_table, cached] at isCached
  cases isCached
  rw [outside] at member
  exact absurd member (by simp)

/-- The cache state extends the stream without an unguarded write. -/
def Extends (m : Mount) (c : CacheState) : Prop :=
  ∃ requests, c.stream = m.bdev.stream ++ requests ∧ Guarded m requests

theorem extends_same (same : c.stream = m.bdev.stream) : Extends m c :=
  ⟨[], by rw [same, append_nil], guarded_nil⟩

theorem Extends.writeAhead (extends_ : Extends m after.state) : WriteAhead m after := by
  obtain ⟨requests, extended, guarded⟩ := extends_
  refine Guarded.writeAhead ?_
  rwa [issued_of_stream extended]

theorem evict_extends (wf : TxnWf m) (evicted : Evict m.state c) : Extends m c := by
  cases evicted with
  | stay | clean =>
    exact extends_same rfl
  | @dirty block e cached _ outside _ =>
    refine ⟨[.write block e.data], rfl, ?_⟩
    intro query image listed member
    rw [mem_singleton, Io.write.injEq] at listed
    exact absurd (listed.1 ▸ member) (outside_of_entry wf cached outside)

theorem get_extends (wf : TxnWf m) {bs block : Nat} {mode : GetMode} {fresh : Bool}
    (got : Get bs block mode m.state fresh c) : Extends m c := by
  cases got with
  | hit =>
    exact extends_same rfl
  | @miss mid absent evicted =>
    obtain ⟨requests, extended, guarded⟩ := evict_extends wf evicted
    exact ⟨requests, extended, guarded⟩

theorem exec_writeAhead (wf : TxnWf m) (c : Prim) : WriteAhead m (exec c m).2 := by
  have editExtends : ∀ {after : Mount} {block : Nat} {slot : Option Ent},
      after.state = m.state.put block slot → Extends m after.state := by
    intro after block slot same
    rw [same]
    exact extends_same rfl
  cases c with
  | get block mode =>
    refine wp_state (WriteAhead m) (wp_mono (wp_cacheGet wf.toCacheWf block mode) ?_ ?_)
    · rintro fresh after ⟨-, -, got⟩
      exact (get_extends wf got).writeAhead
    · rintro code after ⟨-, evicted, -⟩
      exact (evict_extends wf evicted).writeAhead
  | put block =>
    exact (editExtends (cachePut_follows wf.toCacheWf block).2).writeAhead
  | store block image =>
    exact (editExtends (cacheStore_follows wf.toCacheWf block image).2).writeAhead
  | dirty block =>
    exact (editExtends (cacheDirty_follows wf.toCacheWf block).2).writeAhead
  | invalidate block =>
    obtain ⟨-, ⟨e, -, -, sameState⟩ | ⟨-, sameState⟩⟩ := cacheInvalidate_follows wf.toCacheWf block
    · exact Extends.writeAhead (extends_same (congrArg stream sameState))
    · exact (editExtends sameState).writeAhead
  | txnDirty block =>
    refine wp_state (WriteAhead m) (wp_mono (wp_txnDirty wf.toCacheWf block) ?_ ?_)
    · rintro _ after ⟨e, -, ⟨-, -, sameState⟩ | ⟨-, -, -, -, sameState⟩⟩
      · exact (editExtends sameState).writeAhead
      · exact (editExtends sameState).writeAhead
    · rintro code after ⟨-, ⟨-, -, sameState⟩ | ⟨-, -, e, -, -, sameState⟩⟩
      · exact Extends.writeAhead (extends_same (congrArg stream sameState))
      · exact (editExtends sameState).writeAhead
  | load _ | sb | setSb _ | now =>
    exact Extends.writeAhead (extends_same rfl)

end Calls

/-! ## Commit -/

section Commit

variable {m : Mount}

theorem homes_guarded (wf : TxnWf m) {homes : List (Nat × Ent)}
    (some_ : SomeHomes m.state (fun e => e.dirty && !e.txn) homes) :
    Guarded m
      ((homes.map fun home => (home.1, home.2.data)).map fun w => .write w.1 w.2) := by
  intro block image listed member
  simp only [map_map, mem_map, Function.comp_apply] at listed
  obtain ⟨⟨home, e⟩, isHome, same⟩ := listed
  obtain ⟨rfl, -⟩ := same
  obtain ⟨cached, chosen⟩ := some_.cached isHome
  rw [Bool.and_eq_true, Bool.not_eq_true'] at chosen
  exact absurd member (outside_of_entry wf cached chosen.2)

theorem writebackData_guarded (wf : TxnWf m) :
    wp writebackData
      (fun _ after => Follows m after ∧ Extends m after.state)
      (fun _ after => Extends m after.state)
      m := by
  refine wp_mono (wp_writebackData wf.toCacheWf) ?_ ?_
  · rintro _ after ⟨follows, homes, all, sameState⟩
    have guarded := homes_guarded wf all.toSomeHomes
    refine ⟨follows, ?_⟩
    rw [sameState]
    split
    · exact extends_same rfl
    · exact ⟨_, append_assoc .., guarded.append guarded_flush⟩
  · rintro code after ⟨-, -, homes, some_, sameState⟩
    rw [sameState]
    exact ⟨_, rfl, homes_guarded wf some_⟩

theorem maybeCheckpoint_grows (wf : CacheWf m) :
    ∃ rest,
      (journalMaybeCheckpoint m).2.bdev.stream =
        m.bdev.stream ++ rest := by
  refine wp_state (fun after : Mount =>
      ∃ rest, after.bdev.stream = m.bdev.stream ++ rest) ?_
  unfold journalMaybeCheckpoint
  rw [wp_bind, wp_read]
  split
  · refine wp_mono (wp_journalCheckpoint wf) ?_ ?_
    · rintro _ after ⟨-, homes, -, sameState⟩
      rw [← state_stream, sameState]
      simp [flush, write, homeAll, writeAll]
    · rintro code after ⟨-, ⟨-, homes, -, sameState⟩ | ⟨-, homes, -, sameState | sameState⟩⟩
      all_goals
        rw [← state_stream, sameState]
        simp [flush, write, homeAll, writeAll]
  · exact ⟨[], by simp⟩

theorem commit_writeAhead (wf : TxnWf m) (tail : 1 ≤ m.jTail ∧ m.jTail ≤ m.jLogBlocks)
    (room : jUsed m + (m.txnBlocks.length + 2) ≤ m.jLogBlocks) : WriteAhead m (txnCommit m).2 := by
  refine wp_state (WriteAhead m) ?_
  unfold txnCommit
  rw [wp_bind]
  refine wp_mono (wp_and (writebackData_guarded wf) (writebackData_keeps wf))
    ?_ fun _ _ kept => kept.1.writeAhead
  rintro _ written ⟨⟨follows, extends_⟩, writtenWf⟩
  obtain ⟨requests, extended, guarded⟩ := extends_
  have log : LogAt m written := LogAt.of_frame ⟨rfl, rfl, tail⟩ follows.frame
  have sameUsed : jUsed written = jUsed m := (congrArg jUsed follows.frame :)
  have recordGuarded : ∀ {part : List (Nat × Block)}, part ⊆ written.txnRecord →
        Guarded m (part.map fun w => .write w.1 w.2) := by
    intro part sub block image listed _
    obtain ⟨w, isPart, same⟩ := mem_map.mp listed
    rw [Io.write.injEq] at same
    rw [← same.1]
    exact log.record_inJournal w.1 (mem_map_of_mem (sub isPart))
  rw [wp_bind]
  refine wp_journalAppend ?_ ?_ ?_
  · intro _
    exact Extends.writeAhead ⟨requests, extended, guarded⟩
  · intro _ _
    refine wp_mono (wp_and (wp_journalWriteTxn writtenWf.toCacheWf writtenWf.cached)
        (writeTxn_keeps writtenWf)) ?_ ?_
    · rintro _ logged ⟨⟨_, loggedState⟩, loggedWf⟩
      obtain ⟨_, releasedState⟩ := txnRelease_follows loggedWf.toCacheWf
      obtain ⟨rest, grown⟩ := maybeCheckpoint_grows (release_keeps loggedWf).toCacheWf
      have releasedStream : (txnRelease logged).bdev.stream =
          (written.state.writeAll written.txnRecord).flush.stream := by
        rw [← loggedState]
        exact congrArg stream releasedState
      rw [wp_bind, Action.wp_modify, wp_bind, Action.wp_attempt]
      refine Action.wp_of_state (WriteAhead m) ?_
      have sameCommit : ∀ crc, written.commitImage crc = m.commitImage crc := by
        intro crc
        exact (congrArg (fun mount => mount.commitImage crc) follows.frame :)
      have shape : issued m (journalMaybeCheckpoint (txnRelease logged)).2 =
            (requests ++ ((jPhys written written.jTail, written.descImage) ::
                imageWrites written written.jTail 0
                  written.txnBlocks).map fun w => .write w.1 w.2) ++
            [.write (jPhys written (jAdv written.jLogBlocks written.jTail
                  (1 + written.txnBlocks.length)))
                (m.commitImage (imagesCrc written written.txnBlocks 0)), .flush] ++ rest := by
        apply issued_of_stream
        rw [grown, releasedStream, ← sameCommit]
        simp only [flush, writeAll, extended, Mount.txnRecord, map_cons, map_append, map_nil,
          append_assoc, cons_append, nil_append]
      refine writeAhead_of_commit shape (guarded.append (recordGuarded ?_)) ?_
      · exact subset_append_left _ _
      · exact log.record_inJournal _ (by simp [Mount.txnRecord])
    · rintro code after ⟨⟨-, -, k, sameState⟩, -⟩
      refine Extends.writeAhead ⟨requests ++ _, ?_, guarded.append
        (recordGuarded (take_subset k written.txnRecord))⟩
      rw [sameState]
      show written.bdev.stream ++ _ = _
      rw [← state_stream, extended, append_assoc]
  · intro _ full
    rw [follows.txnBlocks, log.logBlocks] at full
    omega

end Commit

/-! ## Runs -/

def TailInLog (m : Mount) : Prop :=
  1 ≤ m.jTail ∧ m.jTail ≤ m.jLogBlocks

section Tail

variable {m after : Mount}

theorem TailInLog.of_frame (tail : TailInLog m) (same : after.frame = m.frame) :
    TailInLog after := by
  have log : LogAt m after := LogAt.of_frame ⟨rfl, rfl, tail⟩ same
  exact log.tail

theorem TailInLog.appended (tail : TailInLog m) : TailInLog m.appended :=
  LogAt.tail (LogAt.appended (show LogAt m m from ⟨rfl, rfl, tail⟩))

theorem checkpoint_tail (wf : TxnWf m) (tail : TailInLog m) :
    wp journalCheckpoint
      (fun _ after => TailInLog after) (fun _ after => TailInLog after)
      m := by
  have moved : TailInLog m.checkpointed := tail
  refine wp_mono (wp_journalCheckpoint wf.toCacheWf) ?_ ?_
  · rintro _ after ⟨follows, -⟩
    exact moved.of_frame follows.frame
  · rintro code after ⟨-, ⟨follows, -⟩ | ⟨follows, -⟩⟩
    · exact tail.of_frame follows.frame
    · exact moved.of_frame follows.frame

theorem writeTxn_tail (wf : TxnWf m) (tail : TailInLog m) :
    wp journalWriteTxn
      (fun _ after => TailInLog after) (fun _ after => TailInLog after)
      m := by
  refine wp_mono (wp_journalWriteTxn wf.toCacheWf wf.cached) ?_ ?_
  · rintro _ after ⟨follows, -⟩
    exact tail.appended.of_frame follows.frame
  · rintro code after ⟨-, follows, -⟩
    exact tail.of_frame follows.frame

theorem commit_tail (wf : TxnWf m) (tail : TailInLog m) :
    wp txnCommit
      (fun _ after => TailInLog after) (fun _ after => TailInLog after)
      m := by
  unfold txnCommit
  rw [wp_bind]
  refine wp_mono (wp_and (wp_writebackData wf.toCacheWf) (writebackData_keeps wf)) ?_ ?_
  · rintro _ written ⟨⟨follows, -⟩, writtenWf⟩
    have writtenTail := tail.of_frame follows.frame
    rw [wp_bind]
    have appended : wp journalAppend
        (fun _ after => TailInLog after) (fun _ after => TailInLog after) written := by
      refine wp_journalAppend (fun _ => writtenTail)
        (fun _ _ => writeTxn_tail writtenWf writtenTail) ?_
      intro _ _
      refine wp_mono (wp_and (checkpoint_tail writtenWf writtenTail)
          (checkpoint_keeps writtenWf)) ?_ fun _ _ => And.left
      rintro _ mid ⟨midTail, midWf⟩
      exact writeTxn_tail midWf midTail
    refine wp_mono (wp_and appended (append_keeps writtenWf)) ?_ fun _ _ => And.left
    rintro _ logged ⟨loggedTail, loggedWf⟩
    have releasedWf := release_keeps loggedWf
    have closedTail : TailInLog logged.closed := loggedTail
    have releasedTail : TailInLog (txnRelease logged) :=
      closedTail.of_frame (txnRelease_follows loggedWf.toCacheWf).1.frame
    rw [wp_bind, Action.wp_modify, wp_bind, Action.wp_attempt]
    unfold journalMaybeCheckpoint
    rw [wp_bind, wp_read]
    split
    · exact checkpoint_tail releasedWf releasedTail
    · exact releasedTail
  · rintro code after ⟨⟨-, follows, -⟩, -⟩
    exact tail.of_frame follows.frame

theorem exec_tail (wf : TxnWf m) (tail : TailInLog m) (c : Prim) : TailInLog (exec c m).2 := by
  cases c with
  | get block mode =>
    refine wp_state _ (wp_mono (wp_cacheGet wf.toCacheWf block mode) ?_ ?_)
    · rintro fresh after ⟨follows, -⟩
      exact tail.of_frame follows.frame
    · rintro code after ⟨follows, -⟩
      exact tail.of_frame follows.frame
  | put block =>
    exact tail.of_frame (cachePut_follows wf.toCacheWf block).1.frame
  | store block image =>
    exact tail.of_frame (cacheStore_follows wf.toCacheWf block image).1.frame
  | dirty block =>
    exact tail.of_frame (cacheDirty_follows wf.toCacheWf block).1.frame
  | invalidate block =>
    exact tail.of_frame (cacheInvalidate_follows wf.toCacheWf block).1.frame
  | txnDirty block =>
    refine wp_state _ (wp_mono (wp_txnDirty wf.toCacheWf block) ?_ ?_)
    · rintro _ after ⟨e, -, ⟨-, follows, -⟩ | ⟨-, -, -, follows, -⟩⟩
      · exact tail.of_frame follows.frame
      · have joined : TailInLog { m with txnBlocks := m.txnBlocks ++ [block] } := tail
        exact joined.of_frame follows.frame
    · rintro code after ⟨follows, -⟩
      exact tail.of_frame follows.frame
  | load _ | sb | setSb _ | now =>
    exact tail

theorem DriverStep.tail (step : DriverStep m after) (wf : TxnWf m) (tail : TailInLog m) :
    TailInLog after := by
  cases step with
  | call c =>
    exact exec_tail wf tail c
  | begin idle =>
    exact tail
  | commit =>
    exact wp_state _ (commit_tail wf tail)
  | abort =>
    have closedTail : TailInLog m.closed := tail
    exact closedTail.of_frame (txnAbort_follows wf.toCacheWf).1.frame
  | checkpoint idle =>
    exact wp_state _ (checkpoint_tail wf tail)
  | superDirect idle =>
    exact tail.of_frame (wp_state _ (wp_sbWriteDirect wf)).2.frame
  | memory sb sbAtTxn mounted ticks =>
    exact tail

theorem writeAhead_idle (wf : TxnWf m) (idle : m.inTxn = false) : WriteAhead m after := by
  intro earlier block image later _ member
  rw [wf.closed idle] at member
  exact absurd member not_mem_nil

theorem DriverStep.writeAhead (step : DriverStep m after) (wf : TxnWf m) (tail : TailInLog m)
    (room : after = (txnCommit m).2 → jUsed m + (m.txnBlocks.length + 2) ≤ m.jLogBlocks) :
    WriteAhead m after := by
  cases step with
  | call c =>
    exact exec_writeAhead wf c
  | commit =>
    exact commit_writeAhead wf tail (room rfl)
  | abort =>
    exact Extends.writeAhead (extends_same (congrArg stream (txnAbort_follows wf.toCacheWf).2))
  | begin idle | checkpoint idle | superDirect idle =>
    exact writeAhead_idle wf idle
  | memory sb sbAtTxn mounted ticks =>
    exact Extends.writeAhead (extends_same rfl)

theorem DriverRun.reaches {start : Mount}
    (run : DriverRun start m) (wf : TxnWf start) (tail : TailInLog start) :
    TxnWf m ∧ TailInLog m := by
  induction run with
  | refl =>
    exact ⟨wf, tail⟩
  | tail _ step ih =>
    obtain ⟨midWf, midTail⟩ := ih
    exact ⟨step.keeps midWf, step.tail midWf midTail⟩

end Tail

/--
In every run of the driver, on a device that may fail at any request, every
step obeys the write-ahead rule, provided each commit finds room for its
record in the log.
-/
theorem write_ahead {start m after : Mount}
    (wf : TxnWf start) (tail : TailInLog start) (run : DriverRun start m)
    (step : DriverStep m after)
    (room : after = (txnCommit m).2 → jUsed m + (m.txnBlocks.length + 2) ≤ m.jLogBlocks) :
    WriteAhead m after := by
  obtain ⟨reachedWf, reachedTail⟩ := run.reaches wf tail
  exact step.writeAhead reachedWf reachedTail room

/-! ## A checkpoint that writes the open transaction -/

namespace RoomExample

/--
A volume whose log has 64 blocks.  The device fails the first write of eleven
checkpoints, those after the 11th to 21st commit.
-/
def start : Mount :=
  largeBlocks 16 fun call => if 44 ≤ call ∧ call ≤ 94 ∧ call % 5 = 4 then some .eio else none

/-- A whole transaction on block 100. -/
def round (m : Mount) : Mount :=
  (txnCommit (opened 1 m)).2

/-- The block a request writes. -/
def target : Io → Option Nat
  | .write block _ => some block
  | .flush => none

/--
Every round starts between transactions, and the commit after the given number
of rounds writes block 100 home before anything else.
-/
def leaks : Nat → Mount → Bool
  | 0, m =>
    !m.inTxn && (opened 1 m).txnBlocks == [100] &&
      !decide (InJournal (opened 1 m) 100) &&
      (issued (opened 1 m) (round m)).head?.bind target == some 100
  | rounds + 1, m => !m.inTxn && leaks rounds (round m)

theorem leaks_breaks (rounds : Nat) {m : Mount}
    (run : DriverRun start m) (found : leaks rounds m = true) :
    ∃ before after,
      DriverRun start before ∧ DriverStep before after ∧
        ¬ WriteAhead before after := by
  induction rounds generalizing m with
  | zero =>
    simp only [leaks, Bool.and_eq_true, Bool.not_eq_true',
      beq_iff_eq, decide_eq_false_iff_not] at found
    obtain ⟨⟨⟨idle, blocks⟩, home⟩, first⟩ := found
    have openedRun : DriverRun start (opened 1 m) :=
      Relation.ReflTransGen.trans (run.tail (.begin idle)) (runCalls_run _ _)
    refine ⟨opened 1 m, round m, openedRun, .commit, ?_⟩
    intro obeys
    cases shape : issued (opened 1 m) (round m) with
    | nil =>
      rw [shape] at first
      exact absurd first (by simp)
    | cons request later =>
      rw [shape] at first
      cases request with
      | flush =>
        exact absurd first (by simp [target])
      | write block image =>
        have isTarget : block = 100 := by simpa [target] using first
        obtain ⟨before, place, txnCrc, between, noCommit⟩ :=
          obeys [] block image later shape (by rw [blocks, isTarget]; simp)
            (by rw [isTarget]; exact home)
        simp at noCommit
  | succ rounds ih =>
    simp only [leaks, Bool.and_eq_true, Bool.not_eq_true'] at found
    refine ih ?_ found.2
    exact Relation.ReflTransGen.tail (Relation.ReflTransGen.trans (run.tail (.begin found.1))
        (runCalls_run _ _)) .commit

theorem start_wf : TxnWf start :=
  TxnWf.of_empty rfl rfl rfl

end RoomExample

/-- The first commit on an empty log obeys the rule. -/
theorem write_ahead_first_commit :
    WriteAhead (opened 1 RoomExample.start)
      (txnCommit (opened 1 RoomExample.start)).2 :=
  write_ahead RoomExample.start_wf (by unfold TailInLog; decide)
    (Relation.ReflTransGen.trans (.single (.begin rfl)) (runCalls_run _ _))
    .commit (fun _ => by decide +kernel)

/--
On a layout that `carafs_geometry` produces, the checkpoint by which the 22nd
commit makes room writes the block of the open transaction home before its
COMMIT record.
-/
theorem checkpoint_breaks_write_ahead :
    ∃ g start m after,
      geometry 16384 4096 = .ok g ∧ VolumeOf g start ∧ TxnWf start ∧
        TailInLog start ∧ DriverRun start m ∧ DriverStep m after ∧
        ¬ WriteAhead m after := by
  obtain ⟨m, after, run, step, broken⟩ := RoomExample.leaks_breaks 21 .refl (by decide +kernel)
  exact ⟨_, RoomExample.start, m, after, rfl, ⟨rfl, rfl, rfl, rfl⟩,
    RoomExample.start_wf, by unfold TailInLog; decide, run, step, broken⟩

end CaraOS.Carafs
