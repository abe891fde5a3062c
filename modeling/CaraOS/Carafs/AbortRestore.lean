import CaraOS.Carafs.TxnRun

namespace CaraOS.Carafs

/-!
# What an abort restores

An abort drops the transaction's cache entries, so the next read of such a
block comes from the disk.  Home writes are lazy: the disk need not hold the
image of the last commit.  A run below keeps, for every block, the image it
had at the last commit that included it; an abort restores that image exactly
for the blocks whose home already holds it.
-/

open Action (wp wp_and wp_bind wp_mono wp_state wp_succeeded)

/-- What a read of the block returns: the cached image, else the disk's. -/
def Mount.contents (m : Mount) (block : Nat) : Block :=
  match m.lookup block with
  | some e => e.data
  | none => m.bdev.disk block

/--
A mount between transactions whose clean cache entries agree with the disk and
whose log cursor is a log offset.
-/
structure Settled (m : Mount) : Prop where
  wf : TxnWf m
  idle : m.inTxn = false
  clean : ∀ {block e}, m.lookup block = some e → e.dirty = false → m.bdev.disk block = e.data
  tail : 1 ≤ m.jTail ∧ m.jTail ≤ m.jLogBlocks

/--
Cache and transaction steps from a settled mount.  Modifications are made in a
transaction, to blocks outside the journal region, and registered with
`carafs_txn_dirty`; every other step may fail at any request.  `last` is the
image of each block at the last commit that included it.
-/
inductive CommitRun (start : Mount) : Mount → (Nat → Block) → Prop where
  | start :
      CommitRun start start start.contents
  | get {m : Mount} {last : Nat → Block}
      (run : CommitRun start m last)
      (block : Nat) :
      CommitRun start (cacheGet block .read m).2 last
  | put {m : Mount} {last : Nat → Block}
      (run : CommitRun start m last)
      (block : Nat) :
      CommitRun start (cachePut block m) last
  | begin {m : Mount} {last : Nat → Block}
      (run : CommitRun start m last)
      (idle : m.inTxn = false) :
      CommitRun start (txnBegin m) last
  | modify {m : Mount} {last : Nat → Block}
      (run : CommitRun start m last)
      {block : Nat}
      (image : Block)
      (inside : m.inTxn = true)
      (metadata : ¬ InJournal start block)
      (pinned : ∃ e, m.lookup block = some e ∧ 0 < e.pins)
      (joined : (txnDirty block (cacheStore block image m)).1 = .ok ()) :
      CommitRun start (txnDirty block (cacheStore block image m)).2 last
  | create {m : Mount} {last : Nat → Block}
      (run : CommitRun start m last)
      {block : Nat}
      (image : Block)
      {fresh : Bool}
      (inside : m.inTxn = true)
      (metadata : ¬ InJournal start block)
      (got : (cacheGet block .zero m).1 = .ok fresh)
      (joined : (txnDirty block (cacheStore block image (cacheGet block .zero m).2)).1 = .ok ()) :
      CommitRun start (txnDirty block (cacheStore block image (cacheGet block .zero m).2)).2 last
  | commit {m : Mount} {last : Nat → Block}
      (run : CommitRun start m last)
      (succeeded : (txnCommit m).1 = .ok ()) :
      CommitRun start (txnCommit m).2 (fun block =>
          if block ∈ m.txnBlocks then m.cached block else last block)
  | commitFailed {m : Mount} {last : Nat → Block}
      (run : CommitRun start m last)
      {code : Err}
      (failed : (txnCommit m).1 = .error code) :
      CommitRun start (txnCommit m).2 last
  | checkpoint {m : Mount} {last : Nat → Block}
      (run : CommitRun start m last) :
      CommitRun start (journalCheckpoint m).2 last
  | abort {m : Mount} {last : Nat → Block}
      (run : CommitRun start m last)
      (home : ∀ block ∈ m.txnBlocks, m.bdev.disk block = last block) :
      CommitRun start (txnAbort m) last

/-! ## The images a cache state can restore -/

/--
A clean entry agrees with the disk, an entry outside the transaction holds the
last committed image, and so does the disk for a block that is not cached.
-/
def Restores (disk last : Block) : Option Ent → Prop
  | some e => (e.dirty = false → disk = e.data) ∧ (e.txn = false → e.data = last)
  | none => disk = last

/-- Every block outside the exempt region can be restored. -/
def Restorable (exempt : Nat → Prop) (c : CacheState) (last : Nat → Block) : Prop :=
  ∀ block, ¬ exempt block → Restores (c.disk block) (last block) (c.table block)

variable {block : Nat} {fresh : Bool} {homes : List (Nat × Ent)} {selected : Ent → Bool}
  {blocks : List Nat}

namespace Restorable

variable {exempt : Nat → Prop} {c after : CacheState} {last : Nat → Block}

section

variable (holds : Restorable exempt c last)
include holds

theorem of_cached {e : Ent} (metadata : ¬ exempt block) (cached : c.table block = some e) :
    Restores (c.disk block) (last block) (some e) :=
  cached ▸ holds block metadata

theorem of_one_block (block : Nat)
    (others : ∀ query, query ≠ block → after.table query = c.table query ∧
          after.disk query = c.disk query)
    (here : ¬ exempt block → Restores (after.disk block) (last block) (after.table block)) :
    Restorable exempt after last := by
  intro query outside
  by_cases same : query = block
  · subst same
    exact here outside
  · obtain ⟨sameTable, sameDisk⟩ := others query same
    rw [sameTable, sameDisk]
    exact holds query outside

theorem put {slot : Option Ent}
    (here : ¬ exempt block → Restores (c.disk block) (last block) slot) :
    Restorable exempt (c.put block slot) last := by
  refine holds.of_one_block block ?_ ?_
  · intro query different
    exact ⟨CacheState.put_table_other c different slot, rfl⟩
  · rwa [CacheState.put_table_self]

theorem evict (evicted : CacheState.Evict c after) : Restorable exempt after last := by
  cases evicted with
  | stay =>
    exact holds
  | @clean block e cached _ outside clean =>
    refine holds.put fun metadata => ?_
    obtain ⟨agrees, committed⟩ := holds.of_cached metadata cached
    exact (agrees clean).trans (committed outside)
  | @dirty block e cached _ outside _ =>
    refine holds.of_one_block block ?_ ?_
    · intro query different
      exact ⟨CacheState.put_table_other _ different _,
        by simp [CacheState.put, CacheState.write, setBlock, different]⟩
    · intro metadata
      have committed := (holds.of_cached metadata cached).2 outside
      simpa [CacheState.put, CacheState.write, setBlock, Restores] using committed

theorem getRead {bs : Nat}
    (got : CacheState.Get bs block .read c fresh after) : Restorable exempt after last := by
  cases got with
  | @hit e cached =>
    exact holds.put fun metadata => (holds.of_cached metadata cached :)
  | @miss mid absent evicted =>
    have evictedHolds := holds.evict evicted
    refine evictedHolds.put fun metadata => ⟨fun _ => rfl, fun _ => ?_⟩
    have here := evictedHolds block metadata
    rwa [evicted.absent absent] at here

theorem mono {wider : Nat → Prop} (implies : ∀ block, exempt block → wider block) :
    Restorable wider c last :=
  fun block metadata => holds block fun isExempt =>
    metadata (implies block isExempt)

theorem getZero {bs : Nat} (got : CacheState.Get bs block .zero c fresh after) :
    Restorable (fun query => exempt query ∨ query = block) after last := by
  cases got with
  | @hit e cached =>
    refine (holds.put fun metadata => ?_).mono fun _ => .inl
    exact (holds.of_cached metadata cached :)
  | @miss mid absent evicted =>
    refine ((holds.evict evicted).mono fun _ => .inl).put ?_
    intro metadata
    exact absurd (.inr rfl) metadata

end

theorem join (holds : Restorable (fun query => exempt query ∨ query = block) c last) {e : Ent}
    (dirty : e.dirty = true) (member : e.txn = true) :
    Restorable exempt (c.put block (some e)) last := by
  intro query metadata
  by_cases here : query = block
  · subst here
    rw [CacheState.put_table_self]
    simp [Restores, dirty, member]
  · rw [CacheState.put_table_other c here]
    exact holds query (by simp [metadata, here])

variable (holds : Restorable exempt c last)
include holds

theorem homeAll
    (some_ : SomeHomes c selected homes) : Restorable exempt (c.homeAll homes) last := by
  intro block metadata
  rcases CacheState.homeAll_table_iff some_ block with
    ⟨-, table, disk⟩ | ⟨e, -, cached, -, table, disk⟩
  · rw [table, disk]
    exact holds block metadata
  · rw [table, disk]
    exact ⟨fun _ => rfl, (holds.of_cached metadata cached).2⟩

theorem writeAll {writes : List (Nat × Block)}
    (inside : ∀ place ∈ writes.map Prod.fst, exempt place) :
    Restorable exempt (c.writeAll writes) last := by
  intro block metadata
  have untouched : (c.writeAll writes).disk block = c.disk block :=
    Redo.applyAll_of_not_mem fun listed => metadata (inside block listed)
  rw [untouched]
  exact holds block metadata

theorem write {place : Nat} (inside : exempt place) (image : Block) :
    Restorable exempt (c.write place image) last := by
  rw [← CacheState.writeAll_nil (c.write place image), ← CacheState.writeAll_cons]
  exact holds.writeAll (by simpa using inside)

theorem flush : Restorable exempt c.flush last :=
  holds

theorem release (members : ∀ {block}, block ∈ blocks ↔ c.Member block) {images : Nat → Block}
    (same : ∀ {block e}, c.table block = some e → images block = e.data) :
    Restorable exempt (c.release blocks)
      (fun block =>
        if block ∈ blocks then images block else last block) := by
  intro block metadata
  by_cases listed : block ∈ blocks
  · obtain ⟨e, cached, -⟩ := members.mp listed
    simp only [CacheState.release, listed, if_true, cached, Option.map_some]
    exact ⟨(holds.of_cached metadata cached).1, fun _ => (same cached).symm⟩
  · simp only [CacheState.release, listed, if_false]
    exact holds block metadata

theorem drop (home : ∀ block ∈ blocks, c.disk block = last block) :
    Restorable exempt (c.drop blocks) last := by
  intro block metadata
  by_cases listed : block ∈ blocks
  · simp only [CacheState.drop, listed, if_true]
    exact home block listed
  · simp only [CacheState.drop, listed, if_false]
    exact holds block metadata

end Restorable

/-! ## The invariant of a run -/

def CacheState.images (c : CacheState) (block : Nat) : Option Block :=
  (c.table block).map Ent.data

theorem CacheState.homeAll_images {c : CacheState}
    (some_ : SomeHomes c selected homes) : (c.homeAll homes).images = c.images := by
  funext block
  unfold images
  rcases homeAll_table_iff some_ block with
    ⟨-, table, -⟩ | ⟨e, -, cached, -, table, -⟩
  · rw [table]
  · rw [table, cached]
    rfl

theorem cached_eq_images (m : Mount) (block : Nat) :
    m.cached block = (m.state.images block).getD default := by
  unfold CacheState.images
  rw [state_table]
  cases cached : m.lookup block with
  | some e =>
    rw [cached_of_lookup cached]
    rfl
  | none =>
    have absent : indexFind m block = none := by
      simpa [Mount.lookup] using cached
    simp [Mount.cached, absent]

structure LogAt (start m : Mount) : Prop where
  journalStart : m.sb.journalStart = start.sb.journalStart
  logBlocks : m.jLogBlocks = start.jLogBlocks
  tail : 1 ≤ m.jTail ∧ m.jTail ≤ m.jLogBlocks

namespace LogAt

variable {start m after : Mount}

variable (log : LogAt start m)
include log

theorem of_fields (sameSb : after.sb = m.sb) (sameSize : after.jLogBlocks = m.jLogBlocks)
    (sameTail : after.jTail = m.jTail) : LogAt start after :=
  ⟨sameSb ▸ log.journalStart, sameSize ▸ log.logBlocks, sameSize ▸ sameTail ▸ log.tail⟩

theorem of_frame (same : after.frame = m.frame) : LogAt start after :=
  log.of_fields (congrArg Mount.sb same :)
    (congrArg Mount.jLogBlocks same :) (congrArg Mount.jTail same :)

theorem closed : LogAt start m.closed :=
  log.of_fields rfl rfl rfl

theorem checkpointed : LogAt start m.checkpointed :=
  log.of_fields rfl rfl rfl

theorem nonempty : 0 < m.jLogBlocks := by
  have bounds := log.tail
  omega

theorem appended : LogAt start m.appended where
  journalStart := log.journalStart
  logBlocks := log.logBlocks
  tail := by
    show 1 ≤ jAdv _ _ _ ∧ jAdv _ _ _ ≤ m.jLogBlocks
    rw [jAdv_eq_slot log.nonempty log.tail.1]
    exact ⟨Ring.slot_pos, Ring.slot_le log.nonempty⟩

theorem inJournal (off : Nat) (bound : off ≤ m.jLogBlocks) : InJournal start (jPhys m off) := by
  unfold InJournal jPhys
  rw [← log.journalStart, ← log.logBlocks]
  omega

theorem record_inJournal : ∀ place ∈ m.txnRecord.map Prod.fst, InJournal start place := by
  intro place listed
  rw [txnRecord_places log.tail.1 log.tail.2] at listed
  obtain ⟨off, isOffset, rfl⟩ := List.mem_map.mp listed
  obtain ⟨k, -, rfl⟩ := List.mem_map.mp isOffset
  rw [jAdv_eq_slot log.nonempty log.tail.1]
  exact log.inJournal _ (Ring.slot_le log.nonempty)

end LogAt

/-- What is known in every state of a run. -/
structure RestoreInv
    (start m : Mount)
    (last : Nat → Block) : Prop where
  wf : TxnWf m
  restorable : Restorable (InJournal start) m.state last
  log : LogAt start m

/-- The transaction and the cached images did not change. -/
structure SameTxn (m after : Mount) : Prop where
  blocks : after.txnBlocks = m.txnBlocks
  images : after.state.images = m.state.images

/-- The invariant holds, and the transaction is the same. -/
def RestoreInv.Kept (start m : Mount) (last : Nat → Block) (after : Mount) : Prop :=
  RestoreInv start after last ∧ SameTxn m after

theorem SameTxn.trans {m mid after : Mount} (first : SameTxn m mid) (second : SameTxn mid after) :
    SameTxn m after :=
  ⟨second.blocks.trans first.blocks, second.images.trans first.images⟩

theorem SameTxn.cached {m after : Mount} (same : SameTxn m after) : after.cached = m.cached := by
  funext block
  rw [cached_eq_images, cached_eq_images, same.images]

namespace RestoreInv

variable {start m after : Mount} {last : Nat → Block}

theorem of_follows {via : Mount}
    (log : LogAt start via) (follows : Follows via after) (wf : TxnWf after)
    (restorable : Restorable (InJournal start) after.state last) : RestoreInv start after last :=
  ⟨wf, restorable, log.of_frame follows.frame⟩

theorem landed {via : Mount} {c : CacheState} (log : LogAt start via)
    (follows : Follows via after) (wf : TxnWf after) (sameState : after.state = c)
    (blocks : via.txnBlocks = m.txnBlocks) (restorable : Restorable (InJournal start) c last)
    (images : c.images = m.state.images) : Kept start m last after := by
  subst sameState
  exact ⟨of_follows log follows wf restorable, follows.txnBlocks.trans blocks, images⟩

section

variable (inv : RestoreInv start m last)
include inv

theorem checkpoint :
    wp journalCheckpoint (fun _ => Kept start m last) (fun _ => Kept start m last) m := by
  have jsbExempt : InJournal start m.sb.journalStart := inv.log.inJournal 0 (Nat.zero_le _)
  have kept := checkpoint_keeps inv.wf
  refine wp_mono (wp_and (wp_journalCheckpoint inv.wf.toCacheWf) kept) ?_ ?_
  · rintro _ after ⟨⟨follows, homes, all, sameState⟩, wf⟩
    have homed := inv.restorable.homeAll all.toSomeHomes
    exact landed inv.log.checkpointed follows wf sameState rfl
      (homed.flush.write jsbExempt _).flush (CacheState.homeAll_images all.toSomeHomes)
  · rintro code after ⟨⟨-, ⟨follows, homes, some_, sameState⟩ |
      ⟨follows, homes, all, sameState | sameState⟩⟩, wf⟩
    · exact landed inv.log follows wf sameState rfl (inv.restorable.homeAll some_)
        (CacheState.homeAll_images some_)
    · exact landed inv.log.checkpointed follows wf sameState rfl
        (inv.restorable.homeAll all.toSomeHomes) (CacheState.homeAll_images all.toSomeHomes)
    · exact landed inv.log.checkpointed follows wf sameState rfl
        ((inv.restorable.homeAll all.toSomeHomes).flush.write jsbExempt _)
        (CacheState.homeAll_images all.toSomeHomes)

theorem writeTxn :
    wp journalWriteTxn (fun _ => Kept start m last) (fun _ => Kept start m last) m := by
  have kept := writeTxn_keeps inv.wf
  refine wp_mono (wp_and (wp_journalWriteTxn inv.wf.toCacheWf inv.wf.cached) kept) ?_ ?_
  · rintro _ after ⟨⟨follows, sameState⟩, wf⟩
    exact landed inv.log.appended follows wf sameState rfl
      (inv.restorable.writeAll inv.log.record_inJournal).flush rfl
  · rintro code after ⟨⟨-, follows, k, sameState⟩, wf⟩
    refine landed inv.log follows wf sameState rfl ?_ rfl
    refine inv.restorable.writeAll fun place listed => ?_
    refine inv.log.record_inJournal place ?_
    rw [List.map_take] at listed
    exact List.mem_of_mem_take listed

theorem append : wp journalAppend (fun _ => Kept start m last) (fun _ => Kept start m last) m := by
  refine wp_journalAppend (fun _ => ⟨inv, rfl, rfl⟩) (fun _ _ => inv.writeTxn) ?_
  intro _ _
  refine wp_mono inv.checkpoint ?_ fun _ _ => id
  rintro _ mid ⟨midInv, midSame⟩
  exact wp_mono midInv.writeTxn (fun _ _ later => ⟨later.1, midSame.trans later.2⟩)
    (fun _ _ later => ⟨later.1, midSame.trans later.2⟩)

theorem writebackData :
    wp writebackData (fun _ => Kept start m last) (fun _ => Kept start m last) m := by
  have kept := writebackData_keeps inv.wf
  refine wp_mono (wp_and (wp_writebackData inv.wf.toCacheWf) kept) ?_ ?_
  · rintro _ after ⟨⟨follows, homes, all, sameState⟩, wf⟩
    split at sameState
    · exact landed inv.log follows wf sameState rfl inv.restorable rfl
    · exact landed inv.log follows wf sameState rfl (inv.restorable.homeAll all.toSomeHomes).flush
        (CacheState.homeAll_images all.toSomeHomes)
  · rintro code after ⟨⟨-, follows, homes, some_, sameState⟩, wf⟩
    exact landed inv.log follows wf sameState rfl (inv.restorable.homeAll some_)
      (CacheState.homeAll_images some_)

theorem maybeCheckpoint :
    wp journalMaybeCheckpoint
      (fun _ after => RestoreInv start after last)
      (fun _ after => RestoreInv start after last)
      m := by
  unfold journalMaybeCheckpoint
  rw [wp_bind, Action.wp_read]
  split
  · exact wp_mono inv.checkpoint (fun _ _ => And.left) (fun _ _ => And.left)
  · exact inv

theorem released :
    RestoreInv start (txnRelease m)
      (fun block =>
        if block ∈ m.txnBlocks then m.cached block else last block) := by
  obtain ⟨follows, sameState⟩ := txnRelease_follows inv.wf.toCacheWf
  refine of_follows inv.log.closed follows (release_keeps inv.wf) ?_
  rw [sameState]
  exact inv.restorable.release inv.wf.members cached_of_lookup

theorem commit :
    wp txnCommit
      (fun _ after =>
        RestoreInv start after
          (fun block =>
            if block ∈ m.txnBlocks then m.cached block else last block))
      (fun _ after => RestoreInv start after last)
      m := by
  unfold txnCommit
  rw [wp_bind]
  refine wp_mono inv.writebackData ?_ fun _ _ => And.left
  rintro _ written ⟨writtenInv, writtenSame⟩
  rw [wp_bind]
  refine wp_mono writtenInv.append ?_ fun _ _ => And.left
  rintro _ logged ⟨loggedInv, loggedSame⟩
  have same := writtenSame.trans loggedSame
  have releasedInv := loggedInv.released
  rw [same.blocks, same.cached] at releasedInv
  rw [wp_bind, Action.wp_modify, wp_bind, Action.wp_attempt]
  exact wp_mono releasedInv.maybeCheckpoint (fun _ _ => id) (fun _ _ => id)

theorem getRead (block : Nat) : RestoreInv start (cacheGet block .read m).2 last := by
  refine wp_state (fun after => RestoreInv start after last) (wp_mono
      (wp_cacheGet inv.wf.toCacheWf block .read) ?_ ?_)
  · rintro fresh after ⟨follows, -, got⟩
    exact of_follows inv.log follows (inv.wf.of_state follows rfl got.member)
      (inv.restorable.getRead got)
  · rintro code after ⟨follows, evicted, -⟩
    exact of_follows inv.log follows (inv.wf.of_state follows rfl evicted.member)
      (inv.restorable.evict evicted)

theorem put (block : Nat) : RestoreInv start (cachePut block m) last := by
  have edited := cachePut_follows inv.wf.toCacheWf block
  refine of_follows inv.log edited.1 (inv.wf.of_edit edited fun _ => rfl) ?_
  rw [edited.2]
  cases cached : m.lookup block with
  | none =>
    rw [CacheState.put_self cached]
    exact inv.restorable
  | some e =>
    exact inv.restorable.put fun metadata => (inv.restorable.of_cached metadata cached :)

end

/--
Storing into a cached block and registering it: whatever the entry held, it is
now a dirty member of the transaction.
-/
theorem storeJoin (wf : TxnWf m) (inside : m.inTxn = true)
    (others : Restorable (fun query => InJournal start query ∨ query = block) m.state last)
    (log : LogAt start m) (image : Block)
    (joined : (txnDirty block (cacheStore block image m)).1 = .ok ()) :
    RestoreInv start (txnDirty block (cacheStore block image m)).2 last := by
  have stored := cacheStore_follows wf.toCacheWf block image
  have storedWf := wf.of_edit stored fun _ => rfl
  have storedLog := log.of_frame stored.1.frame
  have storedOthers : Restorable (fun query => InJournal start query ∨ query = block)
        (cacheStore block image m).state last := by
    rw [stored.2]
    exact others.put (absurd (.inr rfl))
  have storedInside : (cacheStore block image m).inTxn = true :=
    stored.1.inTxn.trans inside
  obtain ⟨⟨e, cached, ⟨already, follows, sameState⟩ | ⟨-, -, -, follows, sameState⟩⟩, afterWf⟩ :=
    wp_succeeded (wp_and (wp_txnDirty storedWf.toCacheWf block)
        (txnDirty_keeps storedWf block)) joined
  · have member : e.txn = true := by
      rcases already with idle | member
      · rw [storedInside] at idle
        exact absurd idle (by simp)
      · exact member
    refine of_follows storedLog follows afterWf ?_
    rw [sameState]
    exact storedOthers.join rfl member
  · have joinedLog : LogAt start { cacheStore block image m with
          txnBlocks := (cacheStore block image m).txnBlocks ++ [block] } :=
      storedLog.of_fields rfl rfl rfl
    refine of_follows joinedLog follows afterWf ?_
    rw [sameState]
    exact storedOthers.join rfl rfl

variable (inv : RestoreInv start m last)
include inv

theorem modify (inside : m.inTxn = true) (image : Block)
    (joined : (txnDirty block (cacheStore block image m)).1 = .ok ()) :
    RestoreInv start (txnDirty block (cacheStore block image m)).2 last :=
  storeJoin inv.wf inside (inv.restorable.mono fun _ => .inl) inv.log image joined

theorem create (inside : m.inTxn = true) (image : Block)
    (got : (cacheGet block .zero m).1 = .ok fresh)
    (joined : (txnDirty block (cacheStore block image (cacheGet block .zero m).2)).1 = .ok ()) :
    RestoreInv start
      (txnDirty block (cacheStore block image (cacheGet block .zero m).2)).2
      last := by
  obtain ⟨follows, -, loaded⟩ := wp_succeeded (wp_cacheGet inv.wf.toCacheWf block .zero) got
  exact storeJoin (inv.wf.of_state follows rfl loaded.member) (follows.inTxn.trans inside)
    (inv.restorable.getZero loaded) (inv.log.of_frame follows.frame) image joined

theorem begin (idle : m.inTxn = false) : RestoreInv start (txnBegin m) last where
  wf := begin_keeps inv.wf idle
  restorable := inv.restorable
  log := inv.log.of_fields rfl rfl rfl

theorem abort (home : ∀ block ∈ m.txnBlocks, m.bdev.disk block = last block) :
    RestoreInv start (txnAbort m) last := by
  obtain ⟨follows, sameState⟩ := txnAbort_follows inv.wf.toCacheWf
  refine of_follows inv.log.closed follows (abort_keeps inv.wf) ?_
  rw [sameState]
  exact inv.restorable.drop home

end RestoreInv

theorem Settled.restoreInv {start : Mount} (settled : Settled start) :
    RestoreInv start start start.contents where
  wf := settled.wf
  restorable := by
    intro block _
    unfold Mount.contents
    rw [state_table]
    cases cached : start.lookup block with
    | none =>
      rfl
    | some e =>
      exact ⟨settled.clean cached, fun _ => rfl⟩
  log := ⟨rfl, rfl, settled.tail⟩

theorem CommitRun.restoreInv {start m : Mount} {last : Nat → Block}
    (settled : Settled start) (run : CommitRun start m last) : RestoreInv start m last := by
  induction run with
  | start =>
    exact settled.restoreInv
  | get run block ih =>
    exact ih.getRead block
  | put run block ih =>
    exact ih.put block
  | begin run idle ih =>
    exact ih.begin idle
  | modify run image inside metadata pinned joined ih =>
    exact ih.modify inside image joined
  | create run image inside metadata got joined ih =>
    exact ih.create inside image got joined
  | commit run succeeded ih =>
    exact wp_succeeded ih.commit succeeded
  | commitFailed run failed ih =>
    exact Action.wp_failed ih.commit failed
  | checkpoint run ih =>
    exact (wp_state _ ih.checkpoint).1
  | abort run home ih =>
    exact ih.abort home

/-! ## What is read after an abort -/

theorem cacheGet_contents {m after : Mount} (wf : CacheWf m)
    (got : cacheGet block .read m = (.ok fresh, after)) :
    after.cached block = m.contents block := by
  obtain ⟨-, -, loaded⟩ := Action.wp_ok (wp_cacheGet wf block .read) got
  unfold Mount.contents
  have table : after.lookup block = after.state.table block := rfl
  generalize after.state = c at loaded table
  cases loaded with
  | @hit e cached =>
    rw [CacheState.put_table_self] at table
    rw [cached_of_lookup table]
    rw [state_table] at cached
    rw [cached]
  | @miss mid absent evicted =>
    rw [CacheState.put_table_self] at table
    rw [cached_of_lookup table]
    have untouched := evicted.disk_absent absent
    rw [state_table] at absent
    rwa [absent]

/--
After an abort, a successful read of a block outside the journal region
returns the image of the last commit that included the block if and only if
the block was not in the aborted transaction or its home already held that
image.  Earlier aborts of the run met this condition.
-/
theorem abort_restores_iff {start m : Mount} {last : Nat → Block}
    (settled : Settled start) (run : CommitRun start m last)
    {block : Nat}
    (metadata : ¬ InJournal start block)
    {fresh : Bool} {after : Mount}
    (got : cacheGet block .read (txnAbort m) = (.ok fresh, after)) :
    after.cached block = last block ↔
      (block ∈ m.txnBlocks → m.bdev.disk block = last block) := by
  have inv := run.restoreInv settled
  have sameState := (txnAbort_follows inv.wf.toCacheWf).2
  have table : (txnAbort m).lookup block = (m.state.drop m.txnBlocks).table block :=
    congrArg (fun c => c.table block) sameState
  have disk : (txnAbort m).bdev.disk = m.bdev.disk := congrArg CacheState.disk sameState
  rw [cacheGet_contents (abort_keeps inv.wf).toCacheWf got]
  unfold Mount.contents
  rw [table, disk]
  unfold CacheState.drop
  by_cases member : block ∈ m.txnBlocks
  · simp [member]
  · simp only [member, if_false, false_implies, iff_true]
    have restores := inv.restorable block metadata
    rw [state_table] at restores ⊢
    cases cached : m.lookup block with
    | none =>
      rwa [cached] at restores
    | some e =>
      rw [cached] at restores
      refine restores.2 ?_
      by_contra isMember
      exact member (inv.wf.members.mpr ⟨e, cached, by simpa using isMember⟩)

/-! ## A commit that an abort undoes -/

namespace AbortExample

/-- A volume of 3000 blocks of 512 bytes, mounted with an empty cache. -/
def start : Mount where
  bdev := {
    blockSize := 512
    nBlocks := 3000
    disk := fun _ => zeroBlock 512 }
  blockSize := 512
  mounted := true
  sb := { zeroSb with
    totalBlocks := 3000
    journalStart := 1
    journalBlocks := 2049 }
  sbAtTxn := zeroSb
  ents := List.replicate 16 {}
  lru := List.range 16
  jLogBlocks := 2048
  jHead := 1
  jHeadSeq := 1
  jTail := 1
  jNextSeq := 1

theorem start_settled : Settled start where
  wf := TxnWf.of_empty rfl rfl rfl
  idle := rfl
  clean := by
    intro block e cached
    have absent : start.lookup block = none := lookup_of_empty rfl block
    rw [absent] at cached
    exact absurd cached (by simp)
  tail := ⟨le_rfl, by decide⟩

/-- The cnode in block 2100, in two generations. -/
def image (generation : Nat) : Block :=
  .cnode {
    blockNo := 2100
    generation := generation
    type := .file
    linkCount := 1 }

/-- The first generation has been committed to the log. -/
def committed : Mount :=
  (txnCommit (txnDirty 2100 (cacheStore 2100 (image 1)
        (cacheGet 2100 .zero (txnBegin start)).2)).2).2

/-- A second transaction has changed the block again. -/
def changed (m : Mount) : Mount :=
  (txnDirty 2100 (cacheStore 2100 (image 2) (txnBegin m))).2

/-- The images at the last commit. -/
def last (block : Nat) : Block :=
  if block ∈ (txnDirty 2100 (cacheStore 2100 (image 1)
        (cacheGet 2100 .zero (txnBegin start)).2)).2.txnBlocks then
    (txnDirty 2100 (cacheStore 2100 (image 1)
        (cacheGet 2100 .zero (txnBegin start)).2)).2.cached block
  else
    start.contents block

theorem metadata : ¬ InJournal start 2100 := by
  decide

theorem committed_run : CommitRun start committed last := by
  have opened : CommitRun start start start.contents := .start
  have begun := opened.begin rfl
  have created : CommitRun start _ _ :=
    begun.create (image 1) rfl metadata (show (cacheGet 2100 .zero (txnBegin start)).1 = .ok true by
        decide +kernel)
      (by decide +kernel)
  exact created.commit (by decide +kernel)

theorem changed_run {m : Mount}
    (run : CommitRun start m last)
    (idle : m.inTxn = false)
    (cached : ((txnBegin m).lookup 2100).map Ent.pins = some 1)
    (joined : (txnDirty 2100 (cacheStore 2100 (image 2) (txnBegin m))).1 = .ok ()) :
    CommitRun start (changed m) last := by
  obtain ⟨e, found, pins⟩ := Option.map_eq_some_iff.mp cached
  exact (run.begin idle).modify (image 2) rfl metadata ⟨e, found, by omega⟩ joined

end AbortExample

/-- With a checkpoint between the commit and the change the block is restored. -/
theorem abort_restores_written_home :
    let m := AbortExample.changed (journalCheckpoint AbortExample.committed).2
    m.txnBlocks = [2100] ∧
      (cacheGet 2100 .read (txnAbort m)).2.cached 2100 = AbortExample.last 2100 := by
  refine ⟨by decide +kernel, (abort_restores_iff AbortExample.start_settled
    (AbortExample.changed_run AbortExample.committed_run.checkpoint
      (by decide +kernel) (by decide +kernel) (by decide +kernel))
    AbortExample.metadata (Prod.ext (y := (Except.ok true, _)) ?_ rfl)).mpr fun _ => ?_⟩ <;>
    decide +kernel

/--
Create a cnode and commit it; change it in a second transaction and abort: the
cnode read back is the zero block from before the first commit.
-/
theorem abort_loses_commit :
    ∃ start m last block fresh after,
      Settled start ∧ CommitRun start m last ∧ ¬ InJournal start block ∧
        cacheGet block .read (txnAbort m) = (.ok fresh, after) ∧
        after.cached block ≠ last block := by
  open AbortExample in
  refine ⟨start, changed committed, last, 2100, true,
    (cacheGet 2100 .read (txnAbort (changed committed))).2, start_settled,
    changed_run committed_run ?_ ?_ ?_, metadata, Prod.ext ?_ rfl, ?_⟩ <;>
    decide +kernel

end CaraOS.Carafs
