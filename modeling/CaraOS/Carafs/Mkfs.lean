import CaraOS.Carafs.CleanMount

namespace CaraOS.Carafs

/-!
# A freshly made volume

The image `Carafs_Mkfs` leaves: the JSB of an empty log, one bitmap block for
each AG, the root directory, and the superblock with its backup.  Mounting it
gives a volume at rest.
-/

open List
open Action (wp wp_bind wp_mono)

/-! ## The writes of the formatter -/

structure Wrote (dev : Bdev) (writes : List (Nat × Block)) (after : Bdev) :
    Prop where
  disk : after.disk = Redo.applyAll dev.disk writes
  blockSize : after.blockSize = dev.blockSize
  nBlocks : after.nBlocks = dev.nBlocks
  fault : after.fault = dev.fault

section Wrote

variable {dev mid after : Bdev} {writes more : List (Nat × Block)}

theorem Wrote.trans (first : Wrote dev writes mid) (second : Wrote mid more after) :
    Wrote dev (writes ++ more) after where
  disk := by
    rw [second.disk, first.disk, Redo.applyAll_append]
  blockSize := second.blockSize.trans first.blockSize
  nBlocks := second.nBlocks.trans first.nBlocks
  fault := second.fault.trans first.fault

theorem wp_bdevWrite (block : Nat) (image : Block) :
    wp (Bdev.write block image)
      (fun _ after => Wrote dev [(block, image)] after)
      (fun _ _ => True) dev := by
  unfold wp Bdev.write
  split
  · rename_i ran
    split at ran
    · cases ran
    split at ran
    · cases ran
    · cases ran
      exact ⟨setBlock_eq_update .., rfl, rfl, rfl⟩
  · trivial

theorem wp_bdevFlush :
    wp Bdev.flush (fun _ after => Wrote dev [] after)
      (fun _ _ => True) dev := by
  unfold wp Bdev.flush
  split
  · rename_i ran
    split at ran
    · cases ran
    · cases ran
      exact ⟨rfl, rfl, rfl, rfl⟩
  · trivial

/-- The bitmap block of one AG, where it goes. -/
def mkfsAgWrite (g : Geometry) (ag : Nat) : Nat × Block :=
  ((mkfsAg g ag).blockNo, Block.putCrc g.blockSize (.ag (mkfsAg g ag)))

/-- The free blocks of the first AGs of a fresh volume. -/
def mkfsFree (g : Geometry) (count : Nat) : Nat :=
  ((List.range count).map fun ag => (mkfsAg g ag).freeCount).sum

theorem wp_mkfsAgs (g : Geometry) (remaining ag freeTotal : Nat) :
    wp (mkfsAgs g remaining ag freeTotal)
      (fun total after =>
        total = freeTotal +
          ((List.range' ag remaining).map fun ag =>
            (mkfsAg g ag).freeCount).sum ∧
          Wrote dev ((List.range' ag remaining).map (mkfsAgWrite g)) after)
      (fun _ _ => True) dev := by
  induction remaining generalizing dev ag freeTotal with
  | zero =>
    exact ⟨rfl, rfl, rfl, rfl, rfl⟩
  | succ remaining ih =>
    unfold mkfsAgs
    rw [wp_bind]
    refine wp_mono (wp_bdevWrite _ _) ?_ (fun _ _ _ => trivial)
    intro _ mid wrote
    refine wp_mono (ih (ag + 1) _) ?_ (fun _ _ _ => trivial)
    rintro total after ⟨isTotal, later⟩
    refine ⟨?_, ?_⟩
    · rw [isTotal, range'_succ, map_cons, sum_cons, Nat.add_assoc]
    · exact wrote.trans later

end Wrote

/-- The superblock of a fresh volume. -/
def mkfsSuper (g : Geometry) (opts : MkfsOpts) : Superblock :=
  fillSuperblock g opts (mkfsFree g g.agCount)

/-- Everything the formatter writes, in order. -/
def mkfsWrites (g : Geometry) (opts : MkfsOpts) : List (Nat × Block) :=
  [(g.journalStart, Block.putCrc g.blockSize (.jsb { seq := 1, head := 1 }))] ++
    (List.range g.agCount).map (mkfsAgWrite g) ++
    [(g.rootCnode, Block.putCrc g.blockSize (.cnode (mkfsRoot g opts.nowNs))),
      (g.backupSb, Block.putCrc g.blockSize (.super (mkfsSuper g opts))),
      (0, Block.putCrc g.blockSize (.super (mkfsSuper g opts)))]

/-- The options and the device `Carafs_Mkfs` accepted. -/
structure MkfsOk (opts : MkfsOpts) (dev : Bdev) (g : Geometry) : Prop where
  legal : legalBlockSize dev.blockSize
  laidOut : geometry dev.blockSize dev.nBlocks = .ok g

theorem wp_carafsMkfs (opts : MkfsOpts) (dev : Bdev) :
    wp (carafsMkfs opts)
      (fun _ after =>
        ∃ g, MkfsOk opts dev g ∧ Wrote dev (mkfsWrites g opts) after)
      (fun _ _ => True) dev := by
  unfold carafsMkfs
  rw [wp_bind, Action.wp_read]
  dsimp only
  generalize (if opts.blockSizeLog2 = 0 then 12 else opts.blockSizeLog2) = log2
  split
  · trivial
  rename_i legal
  have isLegal : legalBlockSize dev.blockSize := by
    simp only [Bool.or_eq_true, decide_eq_true_eq, bne_iff_ne, ne_eq,
      not_or, not_lt, not_not] at legal
    exact ⟨log2, legal.1.1, legal.1.2, legal.2.symm⟩
  split
  · trivial
  split
  · trivial
  cases laidOut : geometry dev.blockSize dev.nBlocks with
  | error code => trivial
  | ok g =>
    rw [wp_bind]
    refine wp_mono (wp_bdevWrite _ _) ?_ (fun _ _ _ => trivial)
    intro _ first wroteFirst
    rw [wp_bind]
    refine wp_mono (wp_mkfsAgs g g.agCount 0 0) ?_ (fun _ _ _ => trivial)
    rintro freeTotal second ⟨isTotal, wroteSecond⟩
    rw [← range_eq_range'] at isTotal
    rw [← range_eq_range'] at wroteSecond
    rw [wp_bind]
    refine wp_mono (wp_bdevWrite _ _) ?_ (fun _ _ _ => trivial)
    intro _ third wroteThird
    rw [wp_bind]
    refine wp_mono (wp_bdevWrite _ _) ?_ (fun _ _ _ => trivial)
    intro _ fourth wroteFourth
    rw [wp_bind]
    refine wp_mono (wp_bdevWrite _ _) ?_ (fun _ _ _ => trivial)
    intro _ fifth wroteFifth
    refine wp_mono wp_bdevFlush ?_ (fun _ _ _ => trivial)
    intro _ after wroteLast
    refine ⟨g, ⟨isLegal, laidOut⟩, ?_⟩
    have all := ((((wroteFirst.trans wroteSecond).trans
      wroteThird).trans wroteFourth).trans wroteFifth).trans wroteLast
    have size := (geometry_fields laidOut).1
    rw [isTotal, ← size] at all
    simpa [mkfsWrites, mkfsSuper, mkfsFree] using all

/-! ## The image -/

/-- The image of a fresh volume. -/
structure MkfsImage (g : Geometry) (opts : MkfsOpts) (disk : Nat → Block) :
    Prop where
  super : disk 0 = Block.putCrc g.blockSize (.super (mkfsSuper g opts))
  jsb : disk g.journalStart = Block.putCrc g.blockSize (.jsb { seq := 1, head := 1 })
  ag : ∀ {ag}, ag < g.agCount → disk (g.agBlock ag) = Block.putCrc g.blockSize (.ag (mkfsAg g ag))
  root : disk g.rootCnode = Block.putCrc g.blockSize (.cnode (mkfsRoot g opts.nowNs))

variable {disk : Nat → Block}

section Image

variable {g : Geometry} {opts : MkfsOpts} {dev after : Bdev}

theorem mkfsWrites_nodup (layout : Layout g) : ((mkfsWrites g opts).map Prod.fst).Nodup := by
  have groups : (((List.range g.agCount).map (mkfsAgWrite g)).map Prod.fst).Nodup := by
    rw [map_map]
    refine List.Nodup.map_on ?_ nodup_range
    intro first _ second _ same
    exact layout.agBlock_inj same
  have listed {block : Nat} (member : block ∈ ((List.range g.agCount).map (mkfsAgWrite g)).map
        Prod.fst) : ∃ ag < g.agCount, block = g.agBlock ag := by
    rw [map_map, mem_map] at member
    obtain ⟨ag, bound, rfl⟩ := member
    exact ⟨ag, mem_range.mp bound, rfl⟩
  have start := layout.journalStart
  have first := layout.agFirst
  have large := layout.large
  have room := layout.room
  have root := layout.root
  unfold mkfsWrites
  rw [map_append, map_append, nodup_append, nodup_append]
  refine ⟨⟨by simp, groups, ?_⟩, ?_, ?_⟩
  · intro block isStart other member
    obtain ⟨ag, bound, rfl⟩ := listed member
    have isStart : block = g.journalStart := by simpa using isStart
    unfold Geometry.agBlock
    omega
  · simp only [map_cons, map_nil, nodup_cons, mem_cons,
      not_mem_nil, or_false, not_or, not_false_eq_true, nodup_nil, and_true]
    omega
  · intro block early other late
    have late : other = g.rootCnode ∨ other = g.backupSb ∨ other = 0 := by
      simpa using late
    rw [mem_append] at early
    rcases early with isStart | member
    · have isStart : block = g.journalStart := by simpa using isStart
      omega
    · obtain ⟨ag, bound, rfl⟩ := listed member
      have inside := layout.agBlock_lt bound
      have other' := layout.root_ne_agBlock ag
      unfold Geometry.agBlock at inside other' ⊢
      omega

theorem MkfsOk.layout (ok : MkfsOk opts dev g) : Layout g :=
  geometry_layout ok.legal ok.laidOut

theorem Wrote.image (ok : MkfsOk opts dev g) (wrote : Wrote dev (mkfsWrites g opts) after) :
    MkfsImage g opts after.disk := by
  have distinct := @mkfsWrites_nodup g opts ok.layout
  have written {block : Nat} {image : Block} (member : (block, image) ∈ mkfsWrites g opts) :
      after.disk block = image := by
    rw [wrote.disk]
    exact Redo.applyAll_of_mem distinct member
  refine ⟨written ?_, written ?_, fun {ag} bound => written ?_, written ?_⟩
  · simp [mkfsWrites]
  · simp [mkfsWrites]
  · refine mem_append_left _ (mem_append_right _ ?_)
    exact mem_map.mpr ⟨ag, mem_range.mpr bound, rfl⟩
  · simp [mkfsWrites]

/-- The superblock of a fresh volume, sealed. -/
def sealedSuper (g : Geometry) (opts : MkfsOpts) : Superblock :=
  { mkfsSuper g opts with
    crc32c := blockCrc (Block.bytes g.blockSize (.super (mkfsSuper g opts)))
      (Block.crcOff (.super (mkfsSuper g opts))) }

theorem MkfsOk.accepted (ok : MkfsOk opts dev g) :
    sbAccepted dev.blockSize dev.nBlocks (.super (sealedSuper g opts)) =
      .ok (sealedSuper g opts) := by
  have layout := ok.layout
  have room := layout.room
  have root := layout.root
  have size := (geometry_fields ok.laidOut).1
  have sealed : Block.crcOk dev.blockSize (.super (sealedSuper g opts)) = true := by
    rw [← size]
    exact crcOk_putCrc g.blockSize (.super (mkfsSuper g opts)) (cons_ne_nil _ _)
  obtain ⟨log2, lower, upper, isPower⟩ := ok.legal
  have isLog : (sealedSuper g opts).blockSizeLog2 = log2 := by
    show Nat.log2 g.blockSize = log2
    rw [size, isPower, Nat.log2_two_pow]
  have isTotal : (sealedSuper g opts).totalBlocks = dev.nBlocks := (geometry_fields ok.laidOut).2.1
  have fields : sbMatches (sealedSuper g opts) g = true := by
    have above : g.agFirst ≤ g.rootCnode := by omega
    have below : g.rootCnode < g.backupSb := by omega
    simp [sbMatches, sealedSuper, mkfsSuper, fillSuperblock, above, below]
  have version : (sealedSuper g opts).version = 1 := rfl
  have incompat : (sealedSuper g opts).incompat = 0 := rfl
  unfold sbAccepted
  dsimp only
  rw [sealed, isTotal, isLog, ok.laidOut, version, incompat]
  simp [fields, isPower]

theorem MkfsImage.valid (ok : MkfsOk opts dev g) (image : MkfsImage g opts disk) :
    ∃ j, ValidImage dev.blockSize dev.nBlocks disk (sealedSuper g opts) j
      := by
  have size := (geometry_fields ok.laidOut).1
  have large := ok.layout.large
  refine ⟨_, ?_, image.jsb, ?_, ?_⟩
  · rw [image.super]
    exact ok.accepted
  · rw [← size]
    exact crcOk_putCrc g.blockSize (.jsb { seq := 1, head := 1 }) (cons_ne_nil _ _)
  · show 1 ≤ 1 ∧ 1 ≤ g.journalBlocks - 1
    omega

theorem mount_fresh {mountOpts : MountOpts} (room : cacheMinBlocks ≤ mountOpts.nEnts)
    (writable : mountOpts.readonly = false)
    (ok : MkfsOk opts dev g) (image : MkfsImage g opts disk) :
    ∃ m, carafsMount
        (mountInit mountOpts (imageDev dev.blockSize dev.nBlocks disk)) =
        (.ok (), m) ∧
      MountedClean mountOpts dev.blockSize dev.nBlocks disk
        (sealedSuper g opts) m := by
  obtain ⟨j, valid⟩ := image.valid ok
  exact mount_clean room writable valid rfl rfl

end Image

/-! ## A small volume -/

/-- The layout of a volume of 2059 blocks of 512 bytes. -/
def smallGeometry : Geometry where
  blockSize := 512
  totalBlocks := 2059
  journalStart := 1
  journalBlocks := 2049
  agFirst := 2050
  agSize := 3584
  agCount := 1
  backupSb := 2058
  rootCnode := 2051

/-- The options it is made with. -/
def smallOpts : MkfsOpts where
  blockSizeLog2 := 9
  name := [118]
  scratchBytes := 512

theorem small_ok (disk : Nat → Block) :
    MkfsOk smallOpts (imageDev 512 2059 disk) smallGeometry where
  legal := ⟨9, by decide, by decide, rfl⟩
  laidOut := by
    show geometry 512 2059 = .ok smallGeometry
    decide +kernel

end CaraOS.Carafs
