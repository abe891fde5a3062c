import CaraOS.Carafs.ReplayRestart
import CaraOS.Carafs.Session

namespace CaraOS.Carafs

/-!
# Mounting a clean volume

`Carafs_Mount` of a volume whose superblock is CLEAN reads the superblock and
the JSB and leaves a volume at rest that shows the image it was given.
-/

/-- A volume just mounted from a clean image. -/
structure MountedClean
    (opts : MountOpts) (bs nBlocks : Nat) (disk : Nat → Block)
    (sb : Superblock) (m : Mount) : Prop where
  idle : Idle m
  blockSize : m.blockSize = bs
  nBlocks : m.bdev.nBlocks = nBlocks
  logBlocks : m.jLogBlocks = sb.journalBlocks - 1
  super : m.sb = sb
  room : m.ents.length = opts.nEnts
  clock : m.clock = opts.clock
  uncached : ∀ block, m.lookup block = none
  view : m.view = disk

section Clean

variable {opts : MountOpts} {bs nBlocks : Nat} {disk : Nat → Block} {sb : Superblock} {j : Jsb}

theorem mount_clean (room : cacheMinBlocks ≤ opts.nEnts) (writable : opts.readonly = false)
    (image : ValidImage bs nBlocks disk sb j) (supported : sb.roCompat = 0)
    (clean : sb.state = .clean) :
    ∃ m, carafsMount (mountInit opts (imageDev bs nBlocks disk)) =
        (.ok (), m) ∧
      MountedClean opts bs nBlocks disk sb m := by
  let start := mountInit opts (imageDev bs nBlocks disk)
  obtain ⟨loaded, ran, follows, sameState⟩ := mountSuper_loads opts room image.super
  have isLoaded : beforeReplay opts bs nBlocks disk = loaded := congrArg Prod.snd ran
  obtain ⟨-, taken⟩ := beforeReplay_loaded opts room image.super
  rw [isLoaded] at taken
  have ready := taken.ready image
  obtain ⟨answer, after, ranJsb, isJsb, isAfter⟩ := Action.wp_total (wp_jsbRead ready)
  subst isJsb isAfter
  let done : Mount := { setJournal answer.head answer.seq loaded.ticked with mounted := true }
  have ranAll : carafsMount start = (.ok (), done) := by
    have notReplayed : ¬ (loaded.sb.state = .dirty ∧ loaded.readonly = false) := by
      rw [taken.super, clean]
      simp
    unfold carafsMount journalInit
    rw [Action.bind_of_ok ran, Action.bind_of_ok (Action.read_apply _),
      if_neg notReplayed, Action.bind_assoc, Action.bind_of_ok ranJsb,
      Action.bind_of_ok (Action.modify_apply _ _)]
    rfl
  have uncached : ∀ block, loaded.lookup block = none := by
    intro block
    rw [← state_table, sameState]
    exact lookup_of_empty rfl block
  have loadedWf : TxnWf loaded := by
    have noBlocks : loaded.txnBlocks = [] := follows.txnBlocks
    refine ⟨follows.wf, ?_, by simp [noBlocks], by simp [noBlocks], ?_⟩
    · intro block
      simp [noBlocks, CacheState.Member, uncached]
    · simp [noBlocks]
  have shows : loaded.view = disk := by
    funext block
    show loaded.state.view block = disk block
    rw [CacheState.view_of_absent (uncached block)]
    exact congrFun taken.disk block
  obtain ⟨first, large, inside, fits, -⟩ := sbAccepted_log image.super
  have sameRoom : loaded.ents.length = opts.nEnts := by
    have lengths := congrArg (fun mount => mount.ents.length) follows.frame
    have same : loaded.ents.length = start.ents.length := by
      simpa [Mount.frame, Mount.withSuper] using lengths
    exact same.trans List.length_replicate
  refine ⟨done, ranAll, ?_⟩
  exact {
    idle := {
      wf := loadedWf.of_same rfl rfl rfl rfl rfl
      healthy := taken.healthy
      unpinned := by
        intro block e cached
        rw [show done.lookup block = none from uncached block] at cached
        cases cached
      coherent := by
        intro block _ _ e cached
        rw [show done.state.table block = none from uncached block] at cached
        cases cached
      room := by
        show cacheMinBlocks ≤ loaded.ents.length
        rwa [sameRoom]
      start := by
        show 1 ≤ loaded.sb.journalStart
        rw [taken.super, first]
      large := by
        show txnMaxBlocks + 2 ≤ loaded.jLogBlocks
        rw [taken.logBlocks]
        unfold txnMaxBlocks
        omega
      inside := by
        show loaded.sb.journalStart + loaded.jLogBlocks < loaded.bdev.nBlocks
        rw [taken.super, taken.logBlocks, taken.nBlocks]
        omega
      head := by
        show 1 ≤ answer.head ∧ answer.head ≤ loaded.jLogBlocks
        rw [taken.logBlocks]
        exact image.head
      tail := by
        show 1 ≤ answer.head ∧ answer.head ≤ loaded.jLogBlocks
        rw [taken.logBlocks]
        exact image.head
      mounted := rfl
      writable := by
        have same : loaded.readonly = (opts.readonly || sb.roCompat != 0) :=
          (congrArg Mount.readonly follows.frame :)
        show loaded.readonly = false
        rw [same, writable, supported]
        rfl
      outside := follows.inTxn }
    blockSize := taken.blockSize
    nBlocks := taken.nBlocks
    logBlocks := taken.logBlocks
    super := taken.super
    room := sameRoom
    clock := (congrArg Mount.clock follows.frame :)
    uncached := uncached
    view := shows }

end Clean

end CaraOS.Carafs
