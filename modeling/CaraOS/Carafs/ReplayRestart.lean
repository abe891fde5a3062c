import CaraOS.Carafs.Replay
import CaraOS.Carafs.TxnRun

namespace CaraOS.Carafs

/-!
# Recovery can be interrupted and run again

A crash during replay leaves a disk on which a part of the chain has been
applied.  Mounting that disk reads the superblock again and replays the same
chain from the start: the JSB moves only after everything is home.  Redoing
the whole list after a part of it gives the result of doing it once.
-/

open List
open Action (wp_bind wp_modify wp_read wp_total)

/-! ## Crashes -/

def blockWrites (requests : List Io) : List (Nat × Block) :=
  requests.filterMap fun
    | .write block image => some (block, image)
    | .flush => none

/-- The disk after a device has served these requests and lost power. -/
def crashDisk (disk : Nat → Block) (requests : List Io) : Nat → Block :=
  Redo.applyAll disk (blockWrites requests)

@[simp] theorem blockWrites_append (first second : List Io) :
    blockWrites (first ++ second) =
      blockWrites first ++ blockWrites second :=
  filterMap_append

@[simp] theorem blockWrites_writes (writes : List (Nat × Block)) :
    blockWrites (writes.map fun w => .write w.1 w.2) = writes := by
  unfold blockWrites
  rw [filterMap_map]
  exact filterMap_some

/-! ## Reading the superblock -/

variable {image : Block}

theorem sbAccepted_eq_ok {bs nBlocks : Nat} {sb : Superblock}
    (accepted : sbAccepted bs nBlocks image = .ok sb) :
    image = .super sb ∧ sb.totalBlocks ≤ nBlocks ∧
      ∃ g, geometry bs sb.totalBlocks = .ok g ∧
        sb.journalStart = g.journalStart ∧
        sb.journalBlocks = g.journalBlocks := by
  unfold sbAccepted at accepted
  cases image with
  | super stored =>
    dsimp only at accepted
    split at accepted
    · cases accepted
    split at accepted
    · cases accepted
    split at accepted
    · cases accepted
    rename_i fits
    cases laidOut : geometry bs stored.totalBlocks with
    | error code =>
      simp [laidOut] at accepted
    | ok g =>
      simp only [laidOut] at accepted
      split at accepted
      · rename_i layout
        cases accepted
        simp only [Bool.or_eq_true, decide_eq_true_eq, not_or, not_lt] at fits
        simp only [sbMatches, Bool.and_eq_true, beq_iff_eq] at layout
        exact ⟨rfl, fits.2, g, laidOut, layout.1.1.1.1.1.1.1, layout.1.1.1.1.1.1.2⟩
      · cases accepted
  | _ =>
    cases accepted

theorem sbAccepted_log {bs nBlocks : Nat} {sb : Superblock}
    (accepted : sbAccepted bs nBlocks image = .ok sb) :
    sb.journalStart = 1 ∧ 64 ≤ sb.journalBlocks - 1 ∧
      sb.journalBlocks + 10 ≤ sb.totalBlocks ∧
      sb.totalBlocks ≤ nBlocks ∧ sb.journalBlocks - 1 ≤ 2 ^ 26 := by
  obtain ⟨-, fits, g, laidOut, sameStart, sameBlocks⟩ := sbAccepted_eq_ok accepted
  obtain ⟨large, first, inside, short⟩ := geometry_log laidOut
  rw [(geometry_fields laidOut).2.1] at inside
  rw [sameStart, sameBlocks]
  exact ⟨first, large, inside, fits, short⟩

/-- A device that holds an image, has served nothing yet and never fails. -/
def imageDev (bs nBlocks : Nat) (disk : Nat → Block) : Bdev where
  blockSize := bs
  nBlocks := nBlocks
  disk := disk

/-- The mount object with which `Carafs_Mount` calls replay on an image. -/
def beforeReplay (opts : MountOpts) (bs nBlocks : Nat) (disk : Nat → Block) : Mount :=
  (mountSuper (mountInit opts (imageDev bs nBlocks disk))).2

/-- A mount that has taken over a superblock. -/
def Mount.withSuper (m : Mount) (sb : Superblock) : Mount :=
  { m with
    readonly := m.readonly || sb.roCompat != 0
    sb := sb
    jLogBlocks := sb.journalBlocks - 1 }

theorem CacheState.Evict.of_empty {c after : CacheState} (empty : ∀ block, c.table block = none)
    (evicted : CacheState.Evict c after) : after = c := by
  cases evicted with
  | stay =>
    rfl
  | clean cached | dirty cached =>
    rw [empty] at cached
    cases cached

variable {block : Nat}

theorem CacheState.Get.of_empty {bs : Nat} {c after : CacheState} {fresh : Bool}
    (empty : ∀ block, c.table block = none) (got : CacheState.Get bs block .read c fresh after) :
    after = c.put block (some {
      block := some block
      pins := 1
      data := c.disk block }) := by
  cases got with
  | hit cached =>
    rw [empty] at cached
    cases cached
  | miss absent evicted =>
    rw [evicted.of_empty empty]
    rfl

theorem wp_mountSuper {m : Mount} (wf : CacheWf m) (healthy : Healthy m)
    (empty : ∀ block, m.lookup block = none) (vacant : ¬ NoSlot m)
    (room : cacheMinBlocks ≤ m.ents.length) {sb : Superblock}
    (accepted : sbAccepted m.blockSize m.bdev.nBlocks (m.bdev.disk 0) = .ok sb) :
    Action.wp mountSuper
      (fun _ after =>
        Follows (m.withSuper sb) after ∧ after.state = m.state)
      (fun _ _ => False)
      m := by
  unfold mountSuper
  rw [wp_bind, wp_read, if_neg (Nat.not_lt.mpr room), wp_bind]
  refine Action.wp_mono (wp_cacheGet wf 0 .read) ?_ ?_
  · rintro fresh mid ⟨follows, -, got⟩
    have midState := got.of_empty empty
    have loaded : mid.lookup 0 = some {
        block := some 0
        pins := 0 + 1
        data := m.bdev.disk 0 } := by
      rw [← state_table, midState]
      rfl
    have sameTest : sbAccepted mid.blockSize mid.bdev.nBlocks (mid.cached 0) = .ok sb := by
      rwa [cached_of_lookup loaded, follows.blockSize, follows.nBlocks]
    rw [wp_bind, wp_read, sameTest]
    dsimp only
    rw [wp_bind, wp_modify, wp_bind, wp_modify, wp_bind, wp_modify, wp_modify]
    let taken : Mount :=
      { mid with
        readonly := mid.readonly || sb.roCompat != 0
        sb := sb }
    have takenWf : CacheWf taken := follows.wf.of_same_table rfl rfl rfl
    have takenFrame : taken.frame = { m.frame with
          readonly := m.readonly || sb.roCompat != 0
          sb := sb } :=
      congrArg (fun mount : Mount =>
          { mount with
            readonly := mount.readonly || sb.roCompat != 0
            sb := sb })
        follows.frame
    let idle : Ent := { block := some 0, data := m.bdev.disk 0 }
    have takenLoaded : taken.lookup 0 = some { idle with pins := idle.pins + 1 } := loaded
    obtain ⟨unpinned, unpinnedState⟩ := cachePut_unpin takenWf takenLoaded
    have onlyIdle : (cachePut 0 taken).lookup 0 = some idle := by
      rw [← state_table, unpinnedState, CacheState.put_table_self]
    obtain ⟨dropped, ⟨e, cached, inUse, -⟩ | ⟨-, droppedState⟩⟩ :=
      cacheInvalidate_follows unpinned.wf 0
    · rw [onlyIdle, Option.some.injEq] at cached
      subst cached
      simp [idle] at inUse
    · have toDropped := unpinned.trans dropped
      refine ⟨⟨toDropped.wf.of_same_table rfl rfl rfl, ?_⟩, ?_⟩
      · exact congrArg (fun mount : Mount =>
            { mount with jLogBlocks := mount.sb.journalBlocks - 1 })
          (toDropped.frame.trans takenFrame)
      · have takenState : taken.state = mid.state := rfl
        show (cacheInvalidate 0 (cachePut 0 taken)).state = m.state
        rw [droppedState, unpinnedState, takenState, midState,
          CacheState.put_put, CacheState.put_put, CacheState.put_self (empty 0)]
  · rintro code mid ⟨-, -, faulty | outside | ⟨-, full⟩⟩
    · exact faulty healthy
    · have := sbAccepted_log accepted
      omega
    · exact vacant full

/-- A mount object that has read the superblock of an image. -/
structure LoadedFrom
    (bs nBlocks : Nat) (disk : Nat → Block) (sb : Superblock)
    (m : Mount) : Prop where
  wf : CacheWf m
  healthy : Healthy m
  blockSize : m.blockSize = bs
  nBlocks : m.bdev.nBlocks = nBlocks
  super : m.sb = sb
  logBlocks : m.jLogBlocks = sb.journalBlocks - 1
  disk : m.bdev.disk = disk
  stream : m.bdev.stream = []

/-- The log region of an image, under the superblock it was mounted with. -/
def imageLog (bs : Nat) (disk : Nat → Block) (sb : Superblock) : LogView where
  blockSize := bs
  totalBlocks := sb.totalBlocks
  logBlocks := sb.journalBlocks - 1
  block := fun off =>
    if 1 ≤ off ∧ off ≤ sb.journalBlocks - 1 then
      disk (sb.journalStart + off)
    else
      default

/-- The home writes of all complete transactions in the log of an image. -/
def loggedWrites (bs nBlocks : Nat) (disk : Nat → Block) (sb : Superblock) (j : Jsb) :
    List (Nat × Block) :=
  ((imageLog bs disk sb).chain (nBlocks + 1) j.head j.seq).1

def JournalBlock (sb : Superblock) (block : Nat) : Prop :=
  sb.journalStart ≤ block ∧ block < sb.journalStart + sb.journalBlocks

/-- An image with a valid, dirty superblock and a valid JSB. -/
structure Recoverable
    (bs nBlocks : Nat) (disk : Nat → Block) (sb : Superblock)
    (j : Jsb) : Prop where
  super : sbAccepted bs nBlocks (disk 0) = .ok sb
  dirty : sb.state = .dirty
  jsb : disk sb.journalStart = .jsb j
  sealed : Block.crcOk bs (.jsb j) = true
  head : 1 ≤ j.head ∧ j.head ≤ sb.journalBlocks - 1

structure ValidImage
    (bs nBlocks : Nat) (disk : Nat → Block) (sb : Superblock)
    (j : Jsb) : Prop where
  super : sbAccepted bs nBlocks (disk 0) = .ok sb
  jsb : disk sb.journalStart = .jsb j
  sealed : Block.crcOk bs (.jsb j) = true
  head : 1 ≤ j.head ∧ j.head ≤ sb.journalBlocks - 1

variable {writes : List (Nat × Block)} {later : Nat → Block}

section Restart

variable {bs nBlocks : Nat} {disk : Nat → Block} {sb : Superblock} {j : Jsb}

theorem mountSuper_loads (opts : MountOpts) (room : cacheMinBlocks ≤ opts.nEnts)
    (accepted : sbAccepted bs nBlocks (disk 0) = .ok sb) :
    let start := mountInit opts (imageDev bs nBlocks disk)
    ∃ loaded, mountSuper start = (.ok (), loaded) ∧
      Follows (start.withSuper sb) loaded ∧ loaded.state = start.state := by
  intro start
  have noEnt : ∀ idx, start.ent idx = {} := ent_of_empty rfl
  have wf : TxnWf start := TxnWf.of_empty rfl rfl rfl
  have size : start.ents.length = opts.nEnts := length_replicate
  have vacant : ¬ NoSlot start := by
    intro full
    have := full 0 (by rw [size]; unfold cacheMinBlocks at room; omega)
    rw [noEnt] at this
    exact absurd this (by decide)
  obtain ⟨_, loaded, outcome⟩ := wp_total
    (wp_mountSuper wf.toCacheWf (fun _ => rfl) (lookup_of_empty rfl) vacant
      (by rw [size]; exact room) accepted)
  exact ⟨loaded, outcome⟩

theorem beforeReplay_loaded (opts : MountOpts) (room : cacheMinBlocks ≤ opts.nEnts)
    (accepted : sbAccepted bs nBlocks (disk 0) = .ok sb) :
    (mountSuper (mountInit opts (imageDev bs nBlocks disk))).1 = .ok () ∧
      LoadedFrom bs nBlocks disk sb (beforeReplay opts bs nBlocks disk) := by
  obtain ⟨after, ran, follows, sameState⟩ := mountSuper_loads opts room accepted
  have result : beforeReplay opts bs nBlocks disk = after := congrArg Prod.snd ran
  refine ⟨congrArg Prod.fst ran, ?_⟩
  rw [result]
  exact {
    wf := follows.wf
    healthy := fun call =>
      (congrArg (fun mount => mount.bdev.fault call) follows.frame :)
    blockSize := follows.blockSize
    nBlocks := follows.nBlocks
    super := follows.sb
    logBlocks := follows.jLogBlocks
    disk := congrArg CacheState.disk sameState
    stream := congrArg CacheState.stream sameState }

variable {m : Mount} {stored : Superblock} {done : List (Nat × Block)}

theorem LoadedFrom.view (loaded : LoadedFrom bs nBlocks disk sb m) :
    m.logView = imageLog bs disk sb := by
  unfold Mount.logView imageLog jPhys
  rw [loaded.blockSize, loaded.super, loaded.logBlocks, loaded.disk]

theorem LoadedFrom.inJournal (loaded : LoadedFrom bs nBlocks disk sb m)
    (accepted : sbAccepted bs nBlocks (disk 0) = .ok sb) (block : Nat) :
    InJournal m block ↔ JournalBlock sb block := by
  obtain ⟨first, large, -, -, -⟩ := sbAccepted_log accepted
  unfold InJournal JournalBlock
  rw [loaded.super, loaded.logBlocks]
  omega

theorem Recoverable.valid (image : Recoverable bs nBlocks disk sb j) :
    ValidImage bs nBlocks disk sb j :=
  ⟨image.super, image.jsb, image.sealed, image.head⟩

theorem LoadedFrom.ready (loaded : LoadedFrom bs nBlocks disk sb m)
    (image : ValidImage bs nBlocks disk sb j) : ReplayReady m j := by
  obtain ⟨first, large, inside, fits, short⟩ := sbAccepted_log image.super
  refine ⟨loaded.wf, loaded.healthy, ⟨?_, ?_⟩, ?_, ?_, ?_, ⟨?_, ?_, ?_⟩⟩
  · rw [loaded.logBlocks]
    omega
  · rw [loaded.super, loaded.logBlocks, loaded.nBlocks]
    omega
  · rw [loaded.logBlocks, loaded.super]
  · rw [loaded.logBlocks]
    omega
  · rwa [loaded.super, loaded.nBlocks]
  · rw [loaded.disk, loaded.super]
    exact image.jsb
  · rw [loaded.blockSize]
    exact image.sealed
  · rw [loaded.logBlocks]
    exact image.head

/--
Replay of a valid image whose log spares the journal region succeeds: it
applies the logged writes and then writes a JSB past them.
-/
theorem replay_image (opts : MountOpts) (room : cacheMinBlocks ≤ opts.nEnts)
    (image : ValidImage bs nBlocks disk sb j)
    (apart : ∀ write ∈ loggedWrites bs nBlocks disk sb j, ¬ JournalBlock sb write.1) :
    ∃ (last : Nat × Nat) (jsb : Block) (whole : Mount),
      journalReplay (beforeReplay opts bs nBlocks disk) =
          (.ok (), whole) ∧
        (1 ≤ last.1 ∧ last.1 ≤ sb.journalBlocks - 1) ∧
        (imageLog bs disk sb).txnAt last.1 last.2 = none ∧
        jsb = Block.putCrc bs (.jsb { seq := last.2, head := last.1 }) ∧
        ((imageLog bs disk sb).chain (nBlocks + 1) j.head j.seq).2 = some last ∧
        whole.bdev.disk = Redo.applyAll disk
            (loggedWrites bs nBlocks disk sb j ++ [(sb.journalStart, jsb)]) ∧
        blockWrites (issued (beforeReplay opts bs nBlocks disk) whole) =
          loggedWrites bs nBlocks disk sb j ++ [(sb.journalStart, jsb)] := by
  obtain ⟨-, loaded⟩ := beforeReplay_loaded opts room image.super
  let m := beforeReplay opts bs nBlocks disk
  have ready := loaded.ready image
  have sameLog : m.logChain j = (imageLog bs disk sb).chain (nBlocks + 1) j.head j.seq := by
    unfold Mount.logChain
    rw [loaded.view, loaded.nBlocks]
  have sameChain : (m.logChain j).1 = loggedWrites bs nBlocks disk sb j := congrArg Prod.fst sameLog
  obtain ⟨last, ended, bounds, torn⟩ := ready.chain_end
  obtain ⟨_, whole, ran, -, wholeState⟩ := wp_total
    (wp_journalReplay ready (fun write member inside =>
        apart write (sameChain ▸ member) ((loaded.inJournal image.super write.1).mp inside))
      ended)
  rw [sameChain, loaded.super] at wholeState
  refine ⟨last, (setJournal last.1 last.2 m).jsbImage, whole, ran, ?_, ?_, ?_, ?_, ?_, ?_⟩
  · rwa [← loaded.logBlocks]
  · rwa [← loaded.view]
  · show Block.putCrc m.blockSize _ = _
    rw [loaded.blockSize]
    rfl
  · rwa [← sameLog]
  · have wholeDisk := congrArg CacheState.disk wholeState
    rw [Redo.applyAll_append]
    simpa [CacheState.flush, CacheState.write, CacheState.writeAll,
      setBlock_eq_update, loaded.disk] using wholeDisk
  · have wholeStream : whole.bdev.stream = m.bdev.stream ++ ((loggedWrites bs nBlocks disk sb j).map
            (fun write => Io.write write.1 write.2) ++
          [.flush, .write sb.journalStart (setJournal last.1 last.2 m).jsbImage, .flush]) := by
      have sameStream := congrArg CacheState.stream wholeState
      simpa [CacheState.flush, CacheState.write, CacheState.writeAll] using sameStream
    rw [issued_of_stream wholeStream, blockWrites_append, blockWrites_writes]
    rfl

/--
A superblock image that a later mount accepts as the same, dirty volume.
-/
def SameVolume (bs nBlocks : Nat) (sb : Superblock) (image : Block) : Prop :=
  ∃ stored, sbAccepted bs nBlocks image = .ok stored ∧
    stored.state = .dirty ∧ stored.totalBlocks = sb.totalBlocks

/-- Two superblocks place the journal alike. -/
structure SameLayout (stored sb : Superblock) : Prop where
  totalBlocks : stored.totalBlocks = sb.totalBlocks
  journalStart : stored.journalStart = sb.journalStart
  journalBlocks : stored.journalBlocks = sb.journalBlocks

theorem sbAccepted_sameLayout {other : Block} (accepted : sbAccepted bs nBlocks image = .ok sb)
    (otherAccepted : sbAccepted bs nBlocks other = .ok stored)
    (sameSize : stored.totalBlocks = sb.totalBlocks) : SameLayout stored sb := by
  obtain ⟨-, -, g, laidOut, start, blocks⟩ := sbAccepted_eq_ok accepted
  obtain ⟨-, -, g', laidOut', start', blocks'⟩ := sbAccepted_eq_ok otherAccepted
  rw [sameSize, laidOut, Except.ok.injEq] at laidOut'
  subst laidOut'
  exact ⟨sameSize, start'.trans start.symm, blocks'.trans blocks.symm⟩

theorem super_after_part (image : Recoverable bs nBlocks disk sb j)
    (supers : ∀ write ∈ done, write.1 = 0 → SameVolume bs nBlocks sb write.2) :
    SameVolume bs nBlocks sb (Redo.applyAll disk done 0) := by
  by_cases listed : 0 ∈ done.map Prod.fst
  · exact supers _ (Redo.applyAll_mem listed) rfl
  · rw [Redo.applyAll_of_not_mem listed]
    exact ⟨sb, image.super, image.dirty, rfl⟩

theorem imageLog_congr (layout : SameLayout stored sb)
    (sameLog : ∀ block, JournalBlock sb block → block ≠ sb.journalStart →
        later block = disk block) : imageLog bs later stored = imageLog bs disk sb := by
  unfold imageLog
  rw [layout.totalBlocks, layout.journalStart, layout.journalBlocks]
  congr 1
  funext off
  by_cases inside : 1 ≤ off ∧ off ≤ sb.journalBlocks - 1
  · rw [if_pos inside, if_pos inside]
    exact sameLog _ ⟨by omega, by omega⟩ (by omega)
  · rw [if_neg inside, if_neg inside]

theorem applyAll_journal (apart : ∀ write ∈ writes, ¬ JournalBlock sb write.1)
    (inside : JournalBlock sb block) : Redo.applyAll disk writes block = disk block := by
  apply Redo.applyAll_of_not_mem
  intro listed
  obtain ⟨write, member, rfl⟩ := mem_map.mp listed
  exact apart write member inside

/--
A crash among the home writes: the disk is as recoverable as before, with the
same layout.
-/
theorem crash_among_writes (image : Recoverable bs nBlocks disk sb j)
    (apart : ∀ write ∈ done, ¬ JournalBlock sb write.1)
    (supers : ∀ write ∈ done, write.1 = 0 → SameVolume bs nBlocks sb write.2) :
    ∃ stored,
      Recoverable bs nBlocks (Redo.applyAll disk done) stored j ∧
        SameLayout stored sb := by
  obtain ⟨stored, accepted, dirty, sameSize⟩ := super_after_part image supers
  have layout := sbAccepted_sameLayout image.super accepted sameSize
  obtain ⟨first, large, -, -⟩ := sbAccepted_log image.super
  refine ⟨stored, ⟨accepted, dirty, ?_, image.sealed, ?_⟩, layout⟩
  · rw [layout.journalStart, applyAll_journal apart ⟨Nat.le_refl _, by omega⟩]
    exact image.jsb
  · rw [layout.journalBlocks]
    exact image.head

/--
A crash after the JSB has moved: the disk is recoverable and its log holds no
transaction.
-/
theorem crash_after_jsb (image : Recoverable bs nBlocks disk sb j)
    (apart : ∀ write ∈ done, ¬ JournalBlock sb write.1)
    (supers : ∀ write ∈ done, write.1 = 0 → SameVolume bs nBlocks sb write.2) {last : Nat × Nat}
    (bounds : 1 ≤ last.1 ∧ last.1 ≤ sb.journalBlocks - 1)
    (torn : (imageLog bs disk sb).txnAt last.1 last.2 = none) {jsb : Block}
    (moved : jsb = Block.putCrc bs (.jsb { seq := last.2, head := last.1 })) :
    ∃ stored record, Recoverable bs nBlocks (Redo.applyAll disk (done ++ [(sb.journalStart, jsb)]))
          stored record ∧
        loggedWrites bs nBlocks (Redo.applyAll disk (done ++ [(sb.journalStart, jsb)]))
          stored record = [] ∧
        SameLayout stored sb := by
  obtain ⟨stored, crashed, layout⟩ := crash_among_writes image apart supers
  obtain ⟨first, -, -, -⟩ := sbAccepted_log image.super
  have others {block : Nat} (different : block ≠ sb.journalStart) :
      Redo.applyAll disk (done ++ [(sb.journalStart, jsb)]) block =
        Redo.applyAll disk done block := by
    rw [Redo.applyAll_append]
    exact Function.update_of_ne different ..
  have here : Redo.applyAll disk (done ++ [(sb.journalStart, jsb)]) sb.journalStart = jsb := by
    rw [Redo.applyAll_append]
    exact Function.update_self ..
  have sameLog : imageLog bs (Redo.applyAll disk (done ++ [(sb.journalStart, jsb)]))
        stored = imageLog bs disk sb :=
    imageLog_congr layout fun block inside different =>
      (others different).trans (applyAll_journal apart inside)
  let record : Jsb :=
    { crc32c :=
        blockCrc ((Block.jsb { seq := last.2, head := last.1 }).bytes bs) 4
      seq := last.2
      head := last.1 }
  have isRecord : jsb = .jsb record := moved
  refine ⟨stored, record, ⟨?_, crashed.dirty, ?_, ?_, ?_⟩, ?_, layout⟩
  · rw [others (by omega)]
    exact crashed.super
  · rw [layout.journalStart, here, isRecord]
  · rw [← isRecord, moved]
    exact crcOk_putCrc bs _ (cons_ne_nil _ _)
  · rwa [layout.journalBlocks]
  · unfold loggedWrites
    rw [sameLog]
    unfold LogView.chain
    rw [torn]

theorem SameLayout.journalBlock (layout : SameLayout stored sb) (block : Nat) :
    JournalBlock stored block ↔ JournalBlock sb block := by
  unfold JournalBlock
  rw [layout.journalStart, layout.journalBlocks]

theorem applyAll_jsb {jsb : Block} (large : 0 < sb.journalBlocks)
    (outside : ¬ JournalBlock sb block) :
    Redo.applyAll later (writes ++ [(sb.journalStart, jsb)]) block =
      Redo.applyAll later writes block := by
  rw [Redo.applyAll_append]
  refine Function.update_of_ne (fun here => outside ?_) ..
  rw [here]
  exact ⟨Nat.le_refl _, by dsimp only; omega⟩

/--
Recovery is restartable.  Replay of a recoverable image succeeds; if it is cut
off after any part of its requests, the crashed image mounts as a dirty volume
again, replay succeeds on it, and every block outside the journal region ends
as one uninterrupted replay leaves it.
-/
theorem replay_restartable (opts : MountOpts) (room : cacheMinBlocks ≤ opts.nEnts)
    (image : Recoverable bs nBlocks disk sb j)
    (apart : ∀ write ∈ loggedWrites bs nBlocks disk sb j, ¬ JournalBlock sb write.1)
    (supers : ∀ write ∈ loggedWrites bs nBlocks disk sb j, write.1 = 0 →
        SameVolume bs nBlocks sb write.2) :
    ∃ whole,
      journalReplay (beforeReplay opts bs nBlocks disk) =
          (.ok (), whole) ∧
        ∀ cut, cut <+: issued (beforeReplay opts bs nBlocks disk) whole →
          (mountSuper (mountInit opts (imageDev bs nBlocks (crashDisk disk cut)))).1 = .ok () ∧
            (beforeReplay opts bs nBlocks (crashDisk disk cut)).sb.state = .dirty ∧
            ∃ again,
              journalReplay
                  (beforeReplay opts bs nBlocks (crashDisk disk cut)) =
                (.ok (), again) ∧
              ∀ block, ¬ JournalBlock sb block →
                again.bdev.disk block = whole.bdev.disk block := by
  obtain ⟨last, jsb, whole, ran, bounds, torn, moved, -, wholeDisk, asked⟩ :=
    replay_image opts room image.valid apart
  have nonempty : 0 < sb.journalBlocks := by omega
  refine ⟨whole, ran, fun cut part => ?_⟩
  have partWrites : blockWrites cut <+:
      loggedWrites bs nBlocks disk sb j ++ [(sb.journalStart, jsb)] := by
    rw [← asked]
    exact part.filterMap _
  unfold crashDisk
  rw [wholeDisk]
  rcases prefix_concat_iff.mp partWrites with complete | early
  · rw [complete]
    obtain ⟨stored, record, crashed, noWrites, layout⟩ :=
      crash_after_jsb image apart supers bounds torn moved
    obtain ⟨mounts, loaded⟩ := beforeReplay_loaded opts room crashed.super
    obtain ⟨-, againJsb, again, againRan, -, -, -, -, againDisk, -⟩ :=
      replay_image opts room crashed.valid
        (by rw [noWrites]; exact fun _ member => absurd member (by simp))
    refine ⟨mounts, loaded.super ▸ crashed.dirty, again, againRan, ?_⟩
    intro block outside
    have outsideToo : ¬ JournalBlock stored block := fun inside =>
      outside ((layout.journalBlock block).mp inside)
    rw [againDisk, noWrites, applyAll_jsb (layout.journalBlocks ▸ nonempty) outsideToo,
      Redo.applyAll_nil]
  · have done : blockWrites cut ⊆ loggedWrites bs nBlocks disk sb j := early.subset
    obtain ⟨stored, crashed, layout⟩ :=
      crash_among_writes image (fun write member => apart write (done member))
        (fun write member => supers write (done member))
    have sameWrites : loggedWrites bs nBlocks (Redo.applyAll disk (blockWrites cut))
          stored j = loggedWrites bs nBlocks disk sb j := by
      unfold loggedWrites
      rw [imageLog_congr layout fun block inside _ =>
        applyAll_journal (fun write member => apart write (done member)) inside]
    obtain ⟨mounts, loaded⟩ := beforeReplay_loaded opts room crashed.super
    obtain ⟨-, againJsb, again, againRan, -, -, -, -, againDisk, -⟩ :=
      replay_image opts room crashed.valid (by
        rw [sameWrites]
        exact fun write member inside =>
          apart write member ((layout.journalBlock _).mp inside))
    refine ⟨mounts, loaded.super ▸ crashed.dirty, again, againRan, ?_⟩
    intro block outside
    have outsideToo : ¬ JournalBlock stored block := fun inside =>
      outside ((layout.journalBlock block).mp inside)
    rw [againDisk, sameWrites, applyAll_jsb (layout.journalBlocks ▸ nonempty) outsideToo,
      applyAll_jsb nonempty outside, Redo.applyAll_restart done]

end Restart

namespace RestartExample

/-- A dirty superblock of a volume of 512-byte blocks. -/
def unsealed (totalBlocks : Nat) : Superblock where
  blockSizeLog2 := 9
  state := .dirty
  agSizeBlocks := 3584
  totalBlocks := totalBlocks
  journalStart := 1
  journalBlocks := 2049
  agCount := 1
  agFirstBlock := 2050
  rootCnode := 2051
  freeBlocks := 100
  backupSb := totalBlocks - 1
  uuid := []
  name := []
  createdNs := 0
  modifiedNs := 0

/-- The superblock with its checksum. -/
def super (totalBlocks : Nat) : Superblock :=
  { unsealed totalBlocks with
    crc32c :=
      blockCrc ((Block.super (unsealed totalBlocks)).bytes 512) 8 }

def cnodeImage : Block :=
  Block.putCrc 512 (.cnode { blockNo := 2800, generation := 7, type := .file, linkCount := 1 })

/-- The log record of a transaction of one block. -/
def record (seq target : Nat) (image : Block) : List Block :=
  [Block.putCrc 512 (.jdesc { seq := seq, targets := [target] }), image,
    Block.putCrc 512 (.jcommit {
        seq := seq
        txnCrc := chainCrc 512 [image] 0
        nBlocks := 1 })]

/-- The JSB of a log that starts at its first block. -/
def jsb : Jsb :=
  { crc32c := blockCrc ((Block.jsb { seq := 1, head := 1 }).bytes 512) 4
    seq := 1
    head := 1 }

/--
A volume of 3000 blocks that crashed with two transactions in its log: one of
a superblock image for a volume of the given size, one of a cnode.
-/
def disk (totalBlocks : Nat) : Nat → Block := fun block =>
  (.super (super 3000) :: .jsb jsb :: (record 1 0 (.super (super totalBlocks)) ++
      record 2 2800 cnodeImage)).getD block (zeroBlock 512)

theorem recoverable (later : Nat) : Recoverable 512 3000 (disk later) (super 3000) jsb where
  super := (by decide +kernel :
    sbAccepted 512 3000 (.super (super 3000)) = .ok (super 3000))
  dirty := rfl
  jsb := rfl
  sealed := by decide +kernel
  head := by decide

theorem logged {later : Nat} (sized : later ∈ [2500, 3000]) :
    loggedWrites 512 3000 (disk later) (super 3000) jsb =
      [(0, .super (super later)), (2800, cnodeImage)] := by
  have all : ∀ later ∈ [2500, 3000], loggedWrites 512 3000 (disk later) (super 3000) jsb =
      [(0, .super (super later)), (2800, cnodeImage)] := by
    decide +kernel
  exact all later sized

theorem apart {later : Nat} (sized : later ∈ [2500, 3000]) :
    ∀ write ∈ loggedWrites 512 3000 (disk later) (super 3000) jsb,
      ¬ JournalBlock (super 3000) write.1 := by
  rw [logged sized]
  unfold JournalBlock
  simp only [forall_mem_cons, super, unsealed]
  exact ⟨by decide, by decide, nofun⟩

/-- A crash behind the home write of the smaller superblock. -/
def cut : List Io :=
  [.write 0 (.super (super 2500))]

end RestartExample

/-- A crashed volume of 3000 blocks whose log holds two transactions. -/
theorem replay_restartable_two_transactions :
    ∃ whole,
      journalReplay
          (beforeReplay { nEnts := 16 } 512 3000 (RestartExample.disk 3000)) = (.ok (), whole) ∧
        ∀ cut, cut <+: issued (beforeReplay { nEnts := 16 } 512 3000
                (RestartExample.disk 3000)) whole →
            ∃ again, journalReplay (beforeReplay { nEnts := 16 } 512 3000
                    (crashDisk (RestartExample.disk 3000) cut)) =
                (.ok (), again) ∧
              again.bdev.disk 2800 = whole.bdev.disk 2800 := by
  have sized : 3000 ∈ [2500, 3000] := by decide
  obtain ⟨whole, ran, restarts⟩ :=
    replay_restartable { nEnts := 16 } (by decide) (RestartExample.recoverable 3000)
      (RestartExample.apart sized) (by
        rw [RestartExample.logged sized, forall_mem_cons, forall_mem_singleton]
        exact ⟨fun _ => ⟨_, (RestartExample.recoverable 0).super, rfl, rfl⟩, nofun⟩)
  refine ⟨whole, ran, fun cut part => ?_⟩
  obtain ⟨-, -, again, againRan, same⟩ := restarts cut part
  exact ⟨again, againRan, same 2800 (fun inside =>
    absurd inside.2 (by decide))⟩

/--
A logged superblock image need only be dirty for a smaller volume: after a
crash behind it the volume mounts with the smaller size, replay rejects the
second transaction, and block 2800 keeps its old contents.
-/
theorem smaller_super_stops_replay :
    ∃ (opts : MountOpts) (bs nBlocks : Nat) (disk : Nat → Block)
      (sb : Superblock) (j : Jsb) (whole again : Mount) (cut : List Io),
      cacheMinBlocks ≤ opts.nEnts ∧
        Recoverable bs nBlocks disk sb j ∧
        (∀ write ∈ loggedWrites bs nBlocks disk sb j, ¬ JournalBlock sb write.1) ∧
        (∀ write ∈ loggedWrites bs nBlocks disk sb j, write.1 = 0 →
          ∃ stored, write.2 = .super stored ∧ stored.state = .dirty) ∧
        journalReplay (beforeReplay opts bs nBlocks disk) =
          (.ok (), whole) ∧
        cut <+: issued (beforeReplay opts bs nBlocks disk) whole ∧
        (beforeReplay opts bs nBlocks (crashDisk disk cut)).sb.state =
          .dirty ∧
        journalReplay (beforeReplay opts bs nBlocks (crashDisk disk cut)) =
          (.ok (), again) ∧
        ∃ block, ¬ JournalBlock sb block ∧
          again.bdev.disk block ≠ whole.bdev.disk block := by
  open RestartExample in
  have sized : 2500 ∈ [2500, 3000] := by decide
  have ran : (journalReplay (beforeReplay { nEnts := 16 } 512 3000 (disk 2500))).1 = .ok () := by
    decide +kernel
  have first : cut <+: issued (beforeReplay { nEnts := 16 } 512 3000 (disk 2500))
      (journalReplay (beforeReplay { nEnts := 16 } 512 3000 (disk 2500))).2 := by
    decide +kernel
  have dirty : (beforeReplay { nEnts := 16 } 512 3000 (crashDisk (disk 2500) cut)).sb.state =
      .dirty := by
    decide +kernel
  have ranAgain : (journalReplay (beforeReplay { nEnts := 16 } 512 3000
      (crashDisk (disk 2500) cut))).1 = .ok () := by
    decide +kernel
  refine ⟨{ nEnts := 16 }, 512, 3000, disk 2500, super 3000, jsb, _, _, cut, by decide,
    recoverable 2500, apart sized, ?_, Action.outcome_eq ran, first, dirty,
    Action.outcome_eq ranAgain, 2800, fun inside => absurd inside.2 (by decide), by decide +kernel⟩
  rw [logged sized, forall_mem_cons, forall_mem_singleton]
  exact ⟨fun _ => ⟨_, rfl, rfl⟩, nofun⟩

end CaraOS.Carafs
