import Mathlib.Logic.Relation
import CaraOS.Carafs.JournalSteps
import CaraOS.Carafs.Mount

namespace CaraOS.Carafs

/-!
# Runs of the driver and transaction membership

A driver run is any sequence of cache calls, transaction brackets, checkpoints
and direct superblock writes, on a device that may fail at any request.  In
every state of a run the TXN flags of the cache are exactly the list of the
open transaction's blocks.
-/

open Action (wp wp_and wp_attempt wp_bind wp_modify wp_mono wp_of_state wp_read wp_state)

variable {homes : List (Nat × Ent)} {selected : Ent → Bool}

namespace CacheState

/-- The block is cached and carries the TXN flag. -/
def Member (c : CacheState) (block : Nat) : Prop :=
  ∃ e, c.table block = some e ∧ e.txn = true

variable {c after : CacheState} {block query : Nat}

theorem member_put_other (different : query ≠ block) (slot : Option Ent) :
    (c.put block slot).Member query ↔ c.Member query := by
  simp [Member, put_table_other c different]

theorem member_put_keep {e changed : Ent}
    (cached : c.table block = some e) (sameTxn : changed.txn = e.txn) :
    (c.put block (some changed)).Member query ↔ c.Member query := by
  by_cases here : query = block
  · subst here
    simp [Member, cached, sameTxn]
  · exact member_put_other here _

theorem member_put_outside {slot : Option Ent}
    (before : ∀ e, c.table block = some e → e.txn = false)
    (later : ∀ e, slot = some e → e.txn = false) :
    (c.put block slot).Member query ↔ c.Member query := by
  by_cases here : query = block
  · subst here
    constructor
    · rintro ⟨e, cached, member⟩
      rw [put_table_self] at cached
      rw [later e cached] at member
      exact absurd member (by simp)
    · rintro ⟨e, cached, member⟩
      rw [before e cached] at member
      exact absurd member (by simp)
  · exact member_put_other here _

theorem Evict.member (evicted : Evict c after) : after.Member query ↔ c.Member query := by
  cases evicted with
  | stay =>
    rfl
  | clean cached unpinned outside _ | dirty cached unpinned outside _ =>
    refine member_put_outside ?_ (by simp)
    intro e isCached
    have same : some e = some _ := isCached.symm.trans cached
    cases same
    exact outside

theorem Get.member {bs : Nat} {mode : GetMode} {fresh : Bool}
    (got : Get bs block mode c fresh after) : after.Member query ↔ c.Member query := by
  cases got with
  | hit cached =>
    exact member_put_keep cached rfl
  | miss absent evicted =>
    rw [← evicted.member]
    refine member_put_outside ?_ ?_
    · intro e cached
      rw [evicted.absent absent] at cached
      exact absurd cached (by simp)
    · intro e filled
      cases filled
      rfl

theorem homeAll_table_iff (some_ : SomeHomes c selected homes) (block : Nat) :
    (block ∉ homes.map Prod.fst ∧ (c.homeAll homes).table block = c.table block ∧
        (c.homeAll homes).disk block = c.disk block) ∨
      (∃ e, (block, e) ∈ homes ∧ c.table block = some e ∧ selected e = true ∧
        (c.homeAll homes).table block = some { e with dirty := false } ∧
        (c.homeAll homes).disk block = e.data) := by
  by_cases listed : block ∈ homes.map Prod.fst
  · obtain ⟨⟨_, e⟩, member, rfl⟩ := List.mem_map.mp listed
    obtain ⟨cached, chosen⟩ := some_.cached member
    obtain ⟨table, disk⟩ := c.homeAll_member some_.nodup member
    exact .inr ⟨e, member, cached, chosen, table, disk⟩
  · obtain ⟨table, disk⟩ := c.homeAll_other listed
    exact .inl ⟨listed, table, disk⟩

theorem homeAll_member_iff
    (some_ : SomeHomes c selected homes) : (c.homeAll homes).Member query ↔ c.Member query := by
  rcases homeAll_table_iff some_ query with
    ⟨-, table, -⟩ | ⟨e, -, cached, -, table, -⟩
  · simp [Member, table]
  · simp [Member, table, cached]

theorem release_member (blocks : List Nat) :
    (c.release blocks).Member query ↔
      query ∉ blocks ∧ c.Member query := by
  by_cases listed : query ∈ blocks
  · simp [Member, release, listed]
  · simp [Member, release, listed]

theorem drop_member (blocks : List Nat) :
    (c.drop blocks).Member query ↔
      query ∉ blocks ∧ c.Member query := by
  by_cases listed : query ∈ blocks
  · simp [Member, drop, listed]
  · simp [Member, drop, listed]

end CacheState

/-- The TXN flags are the open transaction's block list. -/
structure TxnWf (m : Mount) : Prop extends CacheWf m where
  members : ∀ {block}, block ∈ m.txnBlocks ↔ m.state.Member block
  nodup : m.txnBlocks.Nodup
  bounded : m.txnBlocks.length ≤ txnMaxBlocks
  closed : m.inTxn = false → m.txnBlocks = []

section Membership

variable {m after : Mount}

theorem TxnWf.of_state {c : CacheState} (wf : TxnWf m) (follows : Follows m after)
    (sameState : after.state = c) (same : ∀ {block}, c.Member block ↔ m.state.Member block) :
    TxnWf after := by
  subst sameState
  refine ⟨follows.wf, ?_, ?_, ?_, ?_⟩
  · intro block
    rw [follows.txnBlocks, same]
    exact wf.members
  · rw [follows.txnBlocks]
    exact wf.nodup
  · rw [follows.txnBlocks]
    exact wf.bounded
  · rw [follows.txnBlocks, follows.inTxn]
    exact wf.closed

theorem TxnWf.cached (wf : TxnWf m) : ∀ block ∈ m.txnBlocks, m.lookup block ≠ none := by
  intro block member
  obtain ⟨e, cached, -⟩ := wf.members.mp member
  rw [← state_table, cached]
  simp

/-- The table and the transaction list alone decide `TxnWf`. -/
theorem TxnWf.of_same (wf : TxnWf m) (sameEnts : after.ents = m.ents) (sameLru : after.lru = m.lru)
    (sameSize : after.bdev.nBlocks = m.bdev.nBlocks) (sameBlocks : after.txnBlocks = m.txnBlocks)
    (sameFlag : after.inTxn = m.inTxn) : TxnWf after := by
  have sameEnt : after.ent = m.ent := by
    funext idx
    simp [Mount.ent, sameEnts]
  have sameTable : after.lookup = m.lookup := by
    funext block
    simp [Mount.lookup, indexFind, sameEnts, sameEnt]
  refine ⟨wf.toCacheWf.of_same_table sameEnts sameLru sameSize, ?_, ?_, ?_, ?_⟩
  · intro block
    rw [sameBlocks, wf.members]
    simp [CacheState.Member, sameTable]
  · rw [sameBlocks]
    exact wf.nodup
  · rw [sameBlocks]
    exact wf.bounded
  · rw [sameBlocks, sameFlag]
    exact wf.closed

theorem TxnWf.of_edit (wf : TxnWf m) {block : Nat} {change : Ent → Ent}
    (edited : Follows m after ∧ after.state = m.state.put block ((m.lookup block).map change))
    (sameTxn : ∀ e, (change e).txn = e.txn) : TxnWf after := by
  refine wf.of_state edited.1 edited.2 ?_
  cases cached : m.lookup block with
  | none =>
    rw [CacheState.put_self cached]
  | some e =>
    exact CacheState.member_put_keep cached (sameTxn e)

theorem TxnWf.of_empty {n : Nat}
    (empty : m.ents = List.replicate n {}) (slots : m.lru = List.range n)
    (noBlocks : m.txnBlocks = []) : TxnWf m := by
  have noEnt := ent_of_empty empty
  have cacheWf : CacheWf m := by
    refine ⟨?_, ?_, ?_, ?_⟩
    · intro i j block holds
      simp [noEnt] at holds
    · intro i _
      simp [noEnt]
    · intro i block holds
      simp [noEnt] at holds
    · simp [slots, empty]
  refine ⟨cacheWf, ?_, by simp [noBlocks], by simp [noBlocks], ?_⟩
  · intro block
    simp [noBlocks, CacheState.Member, lookup_of_empty empty]
  · simp [noBlocks]

/-- The list and the TXN flags stay in step. -/
theorem txnDirty_keeps (wf : TxnWf m) (block : Nat) :
    wp (txnDirty block)
      (fun _ after => TxnWf after) (fun _ after => TxnWf after) m := by
  refine wp_mono (wp_txnDirty wf.toCacheWf block) ?_ ?_
  · rintro _ after ⟨e, cached, ⟨-, follows, sameState⟩ |
      ⟨inside, outside, room, follows, sameState⟩⟩
    · exact wf.of_state follows sameState (CacheState.member_put_keep cached rfl)
    · have joined : after.txnBlocks = m.txnBlocks ++ [block] :=
        follows.txnBlocks
      have notYet : block ∉ m.txnBlocks := by
        rw [wf.members]
        rintro ⟨other, isCached, member⟩
        rw [state_table, cached] at isCached
        cases isCached
        rw [outside] at member
        exact absurd member (by simp)
      refine ⟨follows.wf, ?_, ?_, ?_, ?_⟩
      · intro query
        rw [joined, List.mem_append, wf.members, sameState]
        by_cases here : query = block
        · subst here
          simp [CacheState.Member]
        · rw [CacheState.member_put_other here]
          simp [here]
      · rw [joined]
        exact List.nodup_append.mpr ⟨wf.nodup, by simp, by
          intro other listed single isBlock same
          rw [List.mem_singleton] at isBlock
          exact notYet (isBlock ▸ same ▸ listed)⟩
      · rwa [joined, List.length_append, List.length_singleton]
      · rw [follows.inTxn, inside]
        simp
  · rintro code after ⟨follows, ⟨-, -, sameState⟩ | ⟨-, -, e, cached, outside, sameState⟩⟩
    · exact wf.of_state follows sameState .rfl
    · exact wf.of_state follows sameState (CacheState.member_put_keep cached rfl)

/-- Every call of the file system code keeps them in step. -/
theorem exec_keeps (c : Prim) (wf : TxnWf m) : TxnWf (exec c m).2 := by
  cases c with
  | get block mode =>
    refine wp_state _ (wp_mono (wp_cacheGet wf.toCacheWf block mode) ?_ ?_)
    · rintro fresh after ⟨follows, -, got⟩
      exact wf.of_state follows rfl got.member
    · rintro code after ⟨follows, evicted, -⟩
      exact wf.of_state follows rfl evicted.member
  | put block =>
    exact wf.of_edit (cachePut_follows wf.toCacheWf block) fun _ => rfl
  | load block =>
    exact wf
  | store block image =>
    exact wf.of_edit (cacheStore_follows wf.toCacheWf block image) fun _ => rfl
  | dirty block =>
    exact wf.of_edit (cacheDirty_follows wf.toCacheWf block) fun _ => rfl
  | invalidate block =>
    obtain ⟨follows, ⟨e, -, -, sameState⟩ | ⟨unused, sameState⟩⟩ :=
      cacheInvalidate_follows wf.toCacheWf block
    · exact wf.of_state follows sameState .rfl
    · exact wf.of_state follows sameState
        (CacheState.member_put_outside (fun e cached => (unused e cached).2) (by simp))
  | txnDirty block =>
    exact wp_state _ (txnDirty_keeps wf block)
  | sb =>
    exact wf
  | setSb sb =>
    exact wf.of_same rfl rfl rfl rfl rfl
  | now =>
    exact wf.of_same rfl rfl rfl rfl rfl

/-! ## Journal operations -/

section

variable (wf : TxnWf m)
include wf

theorem checkpoint_keeps :
    wp journalCheckpoint
      (fun _ after => TxnWf after) (fun _ after => TxnWf after) m := by
  have movedWf : TxnWf m.checkpointed := wf.of_same rfl rfl rfl rfl rfl
  refine wp_mono (wp_journalCheckpoint wf.toCacheWf) ?_ ?_
  · rintro _ after ⟨follows, homes, all, sameState⟩
    exact movedWf.of_state follows sameState (CacheState.homeAll_member_iff all.toSomeHomes)
  · rintro code after ⟨-, ⟨follows, homes, some_, sameState⟩ |
      ⟨follows, homes, all, sameState | sameState⟩⟩
    · exact wf.of_state follows sameState (CacheState.homeAll_member_iff some_)
    · exact movedWf.of_state follows sameState (CacheState.homeAll_member_iff all.toSomeHomes)
    · exact movedWf.of_state follows sameState (CacheState.homeAll_member_iff all.toSomeHomes)

theorem writeTxn_keeps :
    wp journalWriteTxn
      (fun _ after => TxnWf after) (fun _ after => TxnWf after) m := by
  have movedWf : TxnWf m.appended := wf.of_same rfl rfl rfl rfl rfl
  refine wp_mono (wp_journalWriteTxn wf.toCacheWf wf.cached) ?_ ?_
  · rintro _ after ⟨follows, sameState⟩
    exact movedWf.of_state follows sameState .rfl
  · rintro code after ⟨-, follows, k, sameState⟩
    exact wf.of_state follows sameState .rfl

theorem append_keeps :
    wp journalAppend
      (fun _ after => TxnWf after) (fun _ after => TxnWf after) m := by
  refine wp_journalAppend (fun _ => wf) (fun _ _ => writeTxn_keeps wf) ?_
  intro _ _
  exact wp_mono (checkpoint_keeps wf) (fun _ mid midWf => writeTxn_keeps midWf) (fun _ _ => id)

theorem maybeCheckpoint_keeps :
    wp journalMaybeCheckpoint
      (fun _ after => TxnWf after) (fun _ after => TxnWf after) m := by
  unfold journalMaybeCheckpoint
  rw [wp_bind, wp_read]
  split
  · exact checkpoint_keeps wf
  · exact wf

theorem writebackData_keeps :
    wp writebackData
      (fun _ after => TxnWf after) (fun _ after => TxnWf after) m := by
  refine wp_mono (wp_writebackData wf.toCacheWf) ?_ ?_
  · rintro _ after ⟨follows, homes, all, sameState⟩
    split at sameState
    · exact wf.of_state follows sameState .rfl
    · exact wf.of_state follows sameState (CacheState.homeAll_member_iff all.toSomeHomes)
  · rintro code after ⟨-, follows, homes, some_, sameState⟩
    exact wf.of_state follows sameState (CacheState.homeAll_member_iff some_)

end

theorem TxnWf.of_closed (follows : Follows m.closed after)
    (none_ : ∀ block, ¬ after.state.Member block) : TxnWf after := by
  have noBlocks : after.txnBlocks = [] := follows.txnBlocks
  refine ⟨follows.wf, ?_, ?_, ?_, ?_⟩
  · intro block
    simp [noBlocks, none_ block]
  · simp [noBlocks]
  · simp [noBlocks]
  · simp [noBlocks]

section

variable (wf : TxnWf m)
include wf

theorem release_keeps : TxnWf (txnRelease m) := by
  obtain ⟨follows, sameState⟩ := txnRelease_follows wf.toCacheWf
  refine TxnWf.of_closed follows fun block member => ?_
  rw [sameState, CacheState.release_member, ← wf.members] at member
  exact member.1 member.2

theorem abort_keeps : TxnWf (txnAbort m) := by
  obtain ⟨follows, sameState⟩ := txnAbort_follows wf.toCacheWf
  refine TxnWf.of_closed follows fun block member => ?_
  rw [sameState, CacheState.drop_member, ← wf.members] at member
  exact member.1 member.2

theorem commit_keeps :
    wp txnCommit
      (fun _ after => TxnWf after) (fun _ after => TxnWf after) m := by
  unfold txnCommit
  rw [wp_bind]
  refine wp_mono (writebackData_keeps wf) ?_ fun _ _ => id
  intro _ written writtenWf
  rw [wp_bind]
  refine wp_mono (append_keeps writtenWf) ?_ fun _ _ => id
  intro _ logged loggedWf
  rw [wp_bind, wp_modify, wp_bind, wp_attempt]
  exact maybeCheckpoint_keeps (release_keeps loggedWf)

theorem begin_keeps (idle : m.inTxn = false) : TxnWf (txnBegin m) := by
  have noBlocks := wf.closed idle
  have sameMembers : ∀ block, block ∈ m.txnBlocks ↔ m.state.Member block :=
    fun _ => wf.members
  refine ⟨wf.toCacheWf.of_same_table rfl rfl rfl, ?_, ?_, ?_, ?_⟩
  · intro block
    have same := sameMembers block
    rwa [noBlocks] at same
  · simp [txnBegin]
  · simp [txnBegin]
  · simp [txnBegin]

theorem wp_sbWriteDirect :
    wp sbWriteDirect
      (fun _ after => TxnWf after ∧ Follows m after)
      (fun _ after => TxnWf after ∧ Follows m after)
      m := by
  unfold sbWriteDirect
  rw [wp_bind]
  refine wp_mono (wp_cacheGet wf.toCacheWf 0 .read) ?_ ?_
  · rintro fresh mid ⟨follows, -, got⟩
    have midWf := wf.of_state follows rfl got.member
    have stored := cacheStore_follows midWf.toCacheWf 0 mid.sbImage
    have storedWf := midWf.of_edit stored fun _ => rfl
    have storedFollows := follows.trans stored.1
    rw [wp_bind, wp_read, wp_bind, wp_modify, wp_bind, wp_attempt]
    apply wp_write
    · intro _ code
      have ticked := (Follows.refl storedWf.toCacheWf).ticked
      have tickedWf := storedWf.of_state ticked rfl .rfl
      have unpinned := cachePut_follows tickedWf.toCacheWf 0
      rw [wp_bind, wp_modify, wp_bind, Action.wp_settle_error]
      exact ⟨tickedWf.of_edit unpinned fun _ => rfl, storedFollows.ticked.trans unpinned.1⟩
    · intro _
      have wrote := (Follows.refl storedWf.toCacheWf).written 0 mid.sbImage
      have wroteWf := storedWf.of_state wrote rfl .rfl
      have unpinned := cachePut_follows wroteWf.toCacheWf 0
      have unpinnedWf := wroteWf.of_edit unpinned fun _ => rfl
      have unpinnedFollows := (storedFollows.trans wrote).trans unpinned.1
      rw [wp_bind, wp_modify, wp_bind, Action.wp_settle_ok]
      apply wp_flush
      · intro _ code
        exact ⟨unpinnedWf.of_state (Follows.refl unpinnedWf.toCacheWf).ticked rfl .rfl,
          unpinnedFollows.ticked⟩
      · exact ⟨unpinnedWf.of_state (Follows.refl unpinnedWf.toCacheWf).flushed rfl .rfl,
          unpinnedFollows.flushed⟩
  · rintro code after ⟨follows, evicted, -⟩
    exact ⟨wf.of_state follows rfl evicted.member, follows⟩

end

end Membership

/-! ## Runs -/

/--
One step of the driver.  `memory` covers the bookkeeping of `mount.c` on the
in-memory superblock and the mount object, which touches no cache entry.
-/
inductive DriverStep (m : Mount) : Mount → Prop where
  | call (c : Prim) :
      DriverStep m (exec c m).2
  | begin (idle : m.inTxn = false) :
      DriverStep m (txnBegin m)
  | commit :
      DriverStep m (txnCommit m).2
  | abort :
      DriverStep m (txnAbort m)
  | checkpoint (idle : m.inTxn = false) :
      DriverStep m (journalCheckpoint m).2
  | superDirect (idle : m.inTxn = false) :
      DriverStep m (sbWriteDirect m).2
  | memory (sb sbAtTxn : Superblock) (mounted : Bool) (ticks : Nat) :
      DriverStep m { m with
          sb := sb
          sbAtTxn := sbAtTxn
          mounted := mounted
          ticks := ticks }

def DriverRun : Mount → Mount → Prop :=
  Relation.ReflTransGen DriverStep

theorem DriverStep.keeps {m after : Mount} (step : DriverStep m after) (wf : TxnWf m) :
    TxnWf after := by
  cases step with
  | call c =>
    exact exec_keeps c wf
  | begin idle =>
    exact begin_keeps wf idle
  | commit =>
    exact wp_state _ (commit_keeps wf)
  | abort =>
    exact abort_keeps wf
  | checkpoint idle =>
    exact wp_state _ (checkpoint_keeps wf)
  | superDirect idle =>
    exact (wp_state _ (wp_sbWriteDirect wf)).1
  | memory sb sbAtTxn mounted ticks =>
    exact wf.of_same rfl rfl rfl rfl rfl

theorem DriverRun.keeps {m after : Mount} (run : DriverRun m after) (wf : TxnWf m) :
    TxnWf after := by
  induction run with
  | refl =>
    exact wf
  | tail _ step ih =>
    exact step.keeps ih

/-! ## Public operations are runs -/

section Operations

variable {m : Mount}

theorem runCalls_run (calls : List Prim) (m : Mount) :
    DriverRun m (Program.Prog.runCalls exec calls m) := by
  induction calls generalizing m with
  | nil =>
    exact .refl
  | cons c rest ih =>
    exact (ih (exec c m).2).head (.call c)

theorem fsRun_run {α : Type} (body : Fs α) (m : Mount) : DriverRun m (Fs.run body m).2 := by
  obtain ⟨calls, same⟩ := Program.Prog.run_eq_runCalls exec (ExceptT.run body) m
  show DriverRun m (Program.Prog.run exec (ExceptT.run body) m).2
  rw [same]
  exact runCalls_run calls m

theorem opAbort_run (m : Mount) : DriverRun m (opAbort m) :=
  .tail (.single .abort) (.memory
      m.sbAtTxn (txnAbort m).sbAtTxn (txnAbort m).mounted (txnAbort m).ticks)

/-- The driver got from one state to the other and left no transaction open. -/
def Completes (m after : Mount) : Prop :=
  DriverRun m after ∧ after.inTxn = false

/-- Marking the volume dirty leaves no transaction open. -/
theorem markDirty_run (wf : TxnWf m) (idle : m.inTxn = false) :
    wp markDirty (fun _ => Completes m) (fun _ => Completes m) m := by
  unfold markDirty
  rw [wp_bind, wp_read]
  split
  · exact ⟨.refl, idle⟩
  rw [wp_bind, wp_modify, wp_bind, wp_attempt]
  have marked : DriverRun m { m with sb := { m.sb with state := .dirty } } :=
    .single (.memory _ m.sbAtTxn m.mounted m.ticks)
  refine wp_mono (wp_and (wp_of_state (DriverRun m) (marked.tail (.superDirect idle)))
    (wp_sbWriteDirect (marked.keeps wf))) ?_ ?_
  · rintro _ after ⟨direct, -, follows⟩
    exact ⟨direct, follows.inTxn.trans idle⟩
  · rintro code after ⟨direct, -, follows⟩
    exact ⟨direct.tail (.memory _ after.sbAtTxn after.mounted after.ticks),
      follows.inTxn.trans idle⟩

theorem opBegin_run (wf : TxnWf m) (idle : m.inTxn = false) :
    wp opBegin (fun _ => DriverRun m) (fun _ => Completes m) m := by
  unfold opBegin
  rw [wp_bind, wp_read]
  split
  · exact ⟨.refl, idle⟩
  rw [wp_bind]
  refine wp_mono (markDirty_run wf idle) ?_ fun _ _ => id
  rintro _ mid ⟨run, midIdle⟩
  rw [wp_modify]
  exact .tail (.tail run (.memory mid.sb mid.sb mid.mounted mid.ticks)) (.begin midIdle)

theorem checkpoint_inTxn (wf : CacheWf m) : (journalCheckpoint m).2.inTxn = m.inTxn := by
  refine wp_state (fun after => after.inTxn = m.inTxn)
    (wp_mono (wp_journalCheckpoint wf) (fun _ _ done => done.1.inTxn) ?_)
  rintro code after ⟨-, ⟨follows, -⟩ | ⟨follows, -⟩⟩
  · exact follows.inTxn
  · exact follows.inTxn

theorem commit_idle (wf : TxnWf m) :
    wp txnCommit
      (fun _ after => after.inTxn = false) (fun _ _ => True) m := by
  unfold txnCommit
  rw [wp_bind]
  refine wp_mono (writebackData_keeps wf) ?_ fun _ _ _ => trivial
  intro _ written writtenWf
  rw [wp_bind]
  refine wp_mono (append_keeps writtenWf) ?_ fun _ _ _ => trivial
  intro _ logged loggedWf
  rw [wp_bind, wp_modify, wp_bind, wp_attempt]
  unfold journalMaybeCheckpoint
  rw [wp_bind, wp_read]
  split
  · exact wp_of_state _ (checkpoint_inTxn (release_keeps loggedWf).toCacheWf)
  · rfl

theorem opCommit_run (wf : TxnWf m) :
    wp opCommit (fun _ => Completes m) (fun _ => Completes m) m := by
  unfold opCommit
  rw [wp_bind, wp_read, wp_bind, wp_attempt, wp_bind]
  refine wp_mono (wp_of_state (DriverRun m) (fsRun_run (sbWrite m.blockSize) m)) ?_
    fun _ mid logged => ⟨logged.trans (opAbort_run mid), rfl⟩
  intro _ mid logged
  refine wp_mono (wp_and (wp_of_state (DriverRun m) (logged.tail .commit))
    (commit_idle (logged.keeps wf))) (fun _ _ => id) ?_
  rintro code after ⟨committed, -⟩
  exact ⟨committed.trans (opAbort_run after), rfl⟩

theorem bracket_run {α : Type} (body : Fs α) (wf : TxnWf m) (idle : m.inTxn = false) :
    Completes m (bracket body m).2 := by
  refine wp_state (Completes m) ?_
  unfold bracket
  rw [wp_bind]
  refine wp_mono (opBegin_run wf idle) ?_ fun _ _ => id
  intro _ opened openedRun
  rw [wp_bind, wp_attempt]
  refine wp_mono (wp_of_state (DriverRun m) (openedRun.trans (fsRun_run body opened))) ?_
    fun _ mid bodyRun => ⟨bodyRun.trans (opAbort_run mid), rfl⟩
  intro value mid bodyRun
  have committed := opCommit_run (bodyRun.keeps wf)
  exact (wp_bind ..).mpr (wp_mono committed (fun _ _ ran => ⟨bodyRun.trans ran.1, ran.2⟩)
    fun _ _ ran => ⟨bodyRun.trans ran.1, ran.2⟩)

end Operations

end CaraOS.Carafs
