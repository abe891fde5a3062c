import CaraOS.Carafs.AllocExact
import CaraOS.Carafs.TreeInsert

namespace CaraOS.Carafs

/-!
# Room in directory leaves

Runs of insertions into a directory, each in a transaction of its own: the
leaves of the tree stay inside their blocks while no entry takes more than a
quarter of a leaf.
-/

open Shadow (pin_pins wp_bind wp_mono wp_put)

def insertCode (bs dir : Nat) (entry : Dirent) : Fs Unit :=
  onCnode bs dir do
    dirInsertEntry bs dir entry
    cnodeDirty bs dir

/-- An insertion in a transaction of its own, up to the commit. -/
def insertCall (dir : Nat) (entry : Dirent) : M Unit := do
  opBegin
  let m ← Action.read
  Fs.run (insertCode m.blockSize dir entry)

/-- Insertions one after the other; an error ends the run. -/
def insertAll (dir : Nat) : List Dirent → M Unit
  | [] => pure ()
  | entry :: rest => do
      insertCall dir entry
      opCommit
      insertAll dir rest

inductive InTree (view : Nat → Block) (root : Nat) : Nat → Prop where
  | root : InTree view root root
  | child {block level : Nat} {node : BtNode} {recs : List InteriorRec}
      {record : InteriorRec}
      (above : InTree view root block)
      (shown : view block = .btnode node)
      (isInner : node.body = .interior level recs)
      (listed : record ∈ recs) :
      InTree view root record.child

/-- The leaves of a directory stay inside their blocks. -/
def LeavesFit (bs dir : Nat) (view : Nat → Block) : Prop :=
  ∀ cn block node recs, view dir = .cnode cn → cn.treeRoot ≠ 0 →
    InTree view cn.treeRoot block → view block = .btnode node →
    node.body = .dirents recs → direntsBytes recs ≤ bs - btBodyOff

/-- A directory with its tree, as the blocks of a volume show it. -/
structure TreeFits (g : Geometry) (dir : Nat) (roles : Nat → Role)
    (view : Nat → Block) : Prop where
  isDir : roles dir = .held
  nodes : ∀ {block}, (roles block).IsNode → NodeFits g.blockSize roles (roles block) (view block)
  cnode : ∃ cn, view dir = .cnode cn ∧ Live dir cn ∧ Block.crcOk g.blockSize (.cnode cn) = true ∧
      DirFits g.blockSize roles cn

structure DirRest (g : Geometry) (m : Mount) (dir : Nat)
    (roles : Nat → Role) (taken : Set Nat) : Prop where
  rest : AtRest g m taken
  region : ∀ {block}, roles block ≠ .free → g.Data block ∧ block ∈ taken
  fits : TreeFits g dir roles m.view

/-- A directory in a transaction whose code has released every block. -/
structure DirSettled (g : Geometry) (dir : Nat) (roles : Nat → Role)
    (taken : Set Nat) (s : Shadow) : Prop where
  ledger : Ledger g s taken { block | roles block ≠ .free }
  pins : s.pins = 0
  loose : ∀ {block}, block ∈ s.loose → 1 ≤ block ∧ block < g.agFirst
  fits : TreeFits g dir roles s.view

section Mounts

variable {g : Geometry} {m opened after : Mount} {dir : Nat}
  {roles : Nat → Role} {taken : Set Nat} {s : Shadow} {entry : Dirent}

theorem TreeFits.of_same {view view' : Nat → Block} (fits : TreeFits g dir roles view)
    (same : ∀ {block}, roles block ≠ .free → view' block = view block) :
    TreeFits g dir roles view' where
  isDir := fits.isDir
  nodes := by
    intro block isNode
    rw [same isNode.known]
    exact fits.nodes isNode
  cnode := by
    rw [same (by rw [fits.isDir]; decide)]
    exact fits.cnode

theorem TreeFits.leavesFit {view : Nat → Block} (fits : TreeFits g dir roles view) :
    LeavesFit g.blockSize dir view := by
  intro cn block node recs shown isTree inTree isImage isBody
  obtain ⟨cn', shown', -, -, dirFits⟩ := fits.cnode
  cases shown.symm.trans shown'
  have isNode : (roles block).IsNode := by
    clear isImage isBody
    induction inTree with
    | root => exact dirFits.tree isTree
    | child _ isParent isInner listed ih =>
      obtain ⟨parent, isImage, parentFits⟩ := fits.nodes ih
      cases isParent.symm.trans isImage
      rw [isInner] at parentFits
      rcases ih with isLeaf | isInner
      · rw [isLeaf] at parentFits
        exact parentFits.elim
      · rw [isInner] at parentFits
        exact parentFits.2 _ listed
  obtain ⟨node', isImage', bodyFits⟩ := fits.nodes isNode
  cases isImage.symm.trans isImage'
  rw [isBody] at bodyFits
  rcases isNode with isLeaf | isInner
  · rw [isLeaf] at bodyFits
    exact bodyFits.room
  · rw [isInner] at bodyFits
    exact bodyFits.elim

section

variable (rest : DirRest g m dir roles taken)
include rest

theorem DirRest.notJournal (layout : Layout g) {block : Nat}
    (known : roles block ≠ .free) : ¬ InJournal m block ∧ block ≠ 0 := by
  have lower := (rest.region known).1.lower
  have first := layout.agFirst
  rw [rest.rest.not_journal layout]
  omega

theorem DirRest.intact (layout : Layout g) :
    ∃ cn, Intact m dir cn ∧ DirFits g.blockSize roles cn := by
  have known : roles dir ≠ .free := by
    rw [rest.fits.isDir]
    decide
  obtain ⟨outside, place⟩ := rest.notJournal layout known
  obtain ⟨cn, shown, live, checked, fits⟩ := rest.fits.cnode
  have upper := (rest.region known).1.upper
  have size := rest.rest.size
  have items := fits.items
  rw [← rest.rest.blockSize] at checked items
  exact ⟨cn, ⟨place, by omega, outside, shown, live, checked, items⟩, fits⟩

theorem DirRest.tidy (layout : Layout g)
    (opens : Opens ∅ m opened) : Tidy g dir roles taken 0 (opened.shadow.pin dir) := by
  have ledger := rest.rest.ledger layout opens
  have known : roles dir ≠ .free := by
    rw [rest.fits.isDir]
    decide
  exact {
    ledger := { ledger with
      region := rest.region
      used := by
        rintro block (pinned | joined)
        · rw [pin_pins, Multiset.mem_cons] at pinned
          rcases pinned with rfl | earlier
          · exact .inl known
          · exact (ledger.used (.inl earlier)).imp_left fun impossible =>
              absurd impossible (Set.notMem_empty _)
        · exact (ledger.used (.inr joined)).imp_left fun impossible =>
            absurd impossible (Set.notMem_empty _)
      loose := fun isLoose => .inl (ledger.journal isLoose) }
    bs := (congrArg Mount.blockSize opens.fixed :).trans rest.rest.blockSize
    isDir := rest.fits.isDir
    pinned := by
      rw [pin_pins]
      exact Multiset.mem_cons_self ..
    tight := by
      intro block isLoose isKnown
      have inJournal := ledger.journal isLoose
      have lower := (rest.region isKnown).1.lower
      omega
    nodes := by
      intro block isNode
      obtain ⟨outside, place⟩ := rest.notJournal layout isNode.known
      have same : opened.view block = m.view block :=
        opens.view outside (Set.notMem_empty block) place
      show NodeFits _ _ _ (opened.view block)
      rw [same]
      exact rest.fits.nodes isNode
    few := by
      show opened.txnBlocks.length ≤ 0
      rw [opens.empty]
      exact Nat.le_refl 0 }

end

theorem Inserted.settles {cn : Cnode} {n : Nat} {s₀ : Shadow}
    (inserted : Inserted g dir n cn s₀ s) (only : s₀.pins = {dir})
    (live : Live dir cn) (room : n < txnMaxBlocks) :
    s.wp (cnodeDirty g.blockSize dir)
      (fun _ after => ∃ roles taken, DirSettled g dir roles taken (after.unpin dir))
      (fun _ _ => False) := by
  obtain ⟨roles, taken, cn', tidy, pins, shown, fits, sameNo, sameCount⟩ := inserted
  have few := tidy.few
  unfold cnodeDirty loadCnode
  rw [wp_bind, wp_bind, Shadow.wp_load tidy.pinned, shown]
  rw [Shadow.wp_pure, wp_bind, Shadow.wp_store tidy.pinned]
  refine Shadow.wp_txnDirty tidy.pinned tidy.ledger.inside ?_ ?_
  · intro _
    have joined := (tidy.storedCnode (.cnode (cn'.sealed g.blockSize))).joined tidy.knownDir
    refine ⟨roles, taken, ?_, ?_, ?_, ?_⟩
    · exact { joined.ledger with
        used := fun inUse => joined.ledger.used (inUse.imp_left Multiset.mem_of_mem_erase) }
    · rw [Shadow.unpin_pins, Shadow.joined_pins, Shadow.stored_pins, pins, only]
      simp
    · rintro block ⟨isLoose, notDir⟩
      have earlier : block ∈ s.loose := isLoose.resolve_left notDir
      refine (tidy.ledger.loose earlier).resolve_right fun known => notDir ?_
      have pinned := tidy.tight earlier known
      rwa [pins, only, Multiset.mem_singleton] at pinned
    · refine ⟨tidy.isDir, joined.nodes, cn'.sealed g.blockSize,
        Function.update_self .., ⟨sameNo.trans live.blockNo, ?_⟩,
        Cnode.crcOk_sealed .., ⟨fits.items, fits.tree, fits.entries⟩⟩
      exact fun zero => live.linked (sameCount.symm.trans zero)
  · intro _ full
    have : txnMaxBlocks ≤ s.txn.length := full
    omega

theorem DirRest.wp_insertCode (rest : DirRest g m dir roles taken) (numbered : Numbered g)
    (quarter : entry.Quarter g.blockSize) (opens : Opens ∅ m opened) :
    opened.shadow.wp (insertCode m.blockSize dir entry)
      (fun _ s => ∃ roles taken, DirSettled g dir roles taken s) harmless := by
  have layout := numbered.toLayout
  obtain ⟨cn, intact, fits⟩ := rest.intact layout
  have holding := opens.holding rest.rest.idle intact
  unfold insertCode onCnode
  rw [wp_bind]
  refine wp_mono (opens.wp_cnodeGet rest.rest.idle intact) ?_ nofun
  rintro _ _ rfl
  rw [rest.rest.blockSize, wp_bind, Shadow.wp_attempt, wp_bind]
  refine wp_mono ((rest.tidy layout opens).wp_dirInsertEntry numbered
    holding.shown fits quarter (by decide)) ?_ ?_
  · intro _ mid inserted
    refine wp_mono (inserted.settles holding.pins intact.live (by decide)) ?_ ?_
    · intro _ after settled
      rwa [wp_bind, wp_put, Shadow.wp_settle_ok]
    · nofun
  · intro code after ended
    rwa [wp_bind, wp_put, Shadow.wp_settle_error]

/-- A directory inside a transaction, after an insertion. -/
structure DirAmid (g : Geometry) (m after : Mount) (dir : Nat) : Prop where
  reached : ∃ opened s roles taken, Opens ∅ m opened ∧
      Tracks opened.unhomed opened after s ∧ DirSettled g dir roles taken s

theorem DirRest.wp_insertCall (rest : DirRest g m dir roles taken) (numbered : Numbered g)
    (quarter : entry.Quarter g.blockSize) :
    Action.wp (insertCall dir entry) (fun _ after => DirAmid g m after dir)
      (fun code _ => code ≠ .eoverflow ∧ code ≠ .overrun) m := by
  unfold insertCall
  rw [Action.wp_bind]
  refine Action.wp_mono (wp_opBegin rest.rest.idle) ?_ nofun
  intro _ opened opens
  have sameBs : opened.blockSize = m.blockSize := (congrArg Mount.blockSize opens.fixed :)
  rw [Action.wp_bind, Action.wp_read, sameBs]
  refine Action.wp_mono (opens.steady.tracks.run (rest.wp_insertCode numbered quarter opens)) ?_ ?_
  · rintro _ after ⟨s, ⟨roles, taken, settled⟩, tracks⟩
    exact ⟨opened, s, roles, taken, opens, tracks, settled⟩
  · rintro code after ⟨s, ended, -⟩
    exact ended

theorem DirSettled.quiet (settled : DirSettled g dir roles taken s) : s.Quiet :=
  ⟨settled.pins, fun isLoose => by have := settled.loose isLoose; omega⟩

theorem DirSettled.firm (settled : DirSettled g dir roles taken s) {block : Nat}
    (known : roles block ≠ .free) : block ∉ s.loose := by
  intro isLoose
  have inJournal := settled.loose isLoose
  have lower := (settled.ledger.region known).1.lower
  omega

theorem DirAmid.leavesFit (rest : AtRest g m taken) (amid : DirAmid g m after dir) :
    LeavesFit g.blockSize dir after.view := by
  obtain ⟨opened, s, roles, taken', opens, tracks, settled⟩ := amid.reached
  have start : s.sb.journalStart = opened.sb.journalStart := by
    rw [settled.ledger.super.journalStart, opens.sb]
    exact rest.super.journalStart.symm
  obtain ⟨-, -, -, shows, -⟩ := tracks.settle opens.steady start settled.quiet
  exact (settled.fits.of_same fun known =>
    shows (settled.firm known)).leavesFit

theorem DirAmid.commit {last : Mount}
    (rest : AtRest g m taken) (layout : Layout g) (amid : DirAmid g m after dir)
    (done : opCommit after = (.ok (), last)) : ∃ roles taken, DirRest g last dir roles taken := by
  obtain ⟨opened, s, roles, taken', opens, tracks, settled⟩ := amid.reached
  have start : s.sb.journalStart = m.sb.journalStart := by
    rw [settled.ledger.super.journalStart, rest.super.journalStart]
  have closes := Action.wp_ok (wp_opCommit rest.idle opens tracks start settled.quiet) done
  refine ⟨roles, taken', rest.close layout closes settled.ledger
    settled.loose, settled.ledger.region, settled.fits.of_same ?_⟩
  intro block known
  have lower := (settled.ledger.region known).1.lower
  have first := layout.agFirst
  refine closes.view ?_ (settled.firm known) (by omega)
  rw [rest.not_journal layout]
  omega

theorem DirRest.insertAll {entries : List Dirent}
    (rest : DirRest g m dir roles taken) (numbered : Numbered g)
    (short : ∀ entry ∈ entries, entry.Quarter g.blockSize)
    (done : insertAll dir entries m = (.ok (), after)) :
    ∃ roles taken, DirRest g after dir roles taken := by
  induction entries generalizing m roles taken with
  | nil =>
    cases done
    exact ⟨roles, taken, rest⟩
  | cons entry more ih =>
    obtain ⟨_, mid, inserted, later⟩ := Action.of_bind_ok done
    obtain ⟨_, last, committed, finished⟩ := Action.of_bind_ok later
    have amid := Action.wp_ok
      (rest.wp_insertCall numbered (short entry List.mem_cons_self)) inserted
    obtain ⟨roles', taken', rest'⟩ := amid.commit rest.rest numbered.toLayout committed
    exact ih rest' (fun other listed => short other (List.mem_cons_of_mem _ listed)) finished

/-- A directory without a tree, on a volume at rest. -/
structure InlineDir (g : Geometry) (m : Mount) (taken : Set Nat) (dir : Nat)
    (cn : Cnode) : Prop where
  rest : AtRest g m taken
  place : g.Data dir
  isTaken : dir ∈ taken
  shown : m.view dir = .cnode cn
  live : Live dir cn
  checked : Block.crcOk g.blockSize (.cnode cn) = true
  items : itemBytes cn.items ≤ g.blockSize - cnodeItemsOff
  inlined : cn.treeRoot = 0
  quarter : ∀ entry ∈ inlineDirents cn, entry.Quarter g.blockSize

theorem InlineDir.dirRest {cn : Cnode} (inline : InlineDir g m taken dir cn) :
    ∃ roles, DirRest g m dir roles taken := by
  have known {block : Nat} (known : Function.update (fun _ => Role.free) dir .held block ≠ .free) :
      block = dir := by
    by_contra other
    rw [Function.update_of_ne other] at known
    exact known rfl
  have isDir : Function.update (fun _ => Role.free) dir .held dir = .held := Function.update_self ..
  refine ⟨Function.update (fun _ => .free) dir .held, inline.rest, ?_, isDir,
    ?_, cn, inline.shown, inline.live, inline.checked, inline.items, ?_, ?_⟩
  · intro block isKnown
    rw [known isKnown]
    exact ⟨inline.place, inline.isTaken⟩
  · intro block isNode
    rw [known isNode.known, isDir] at isNode
    rcases isNode with impossible | impossible <;> cases impossible
  · exact absurd inline.inlined
  · exact fun _ => inline.quarter

theorem FreshVolume.inlineRoot {opts : MkfsOpts} {mountOpts : MountOpts} {dev : Bdev}
    (fresh : FreshVolume opts mountOpts dev g m) :
    InlineDir g m {g.rootCnode} g.rootCnode
      ((mkfsRoot g opts.nowNs).sealed g.blockSize) := by
  obtain ⟨layout, -, rest⟩ := fresh.atRest
  obtain ⟨-, image, -⟩ := fresh.clean
  exact {
    rest := rest
    place := layout.root_data
    isTaken := rfl
    shown := image.root
    live := ⟨rfl, Nat.one_ne_zero⟩
    checked := Cnode.crcOk_sealed ..
    items := Nat.zero_le _
    inlined := rfl
    quarter := fun _ listed => absurd listed List.not_mem_nil }

/--
Over every run of successful insertions into a directory, of entries that take
at most a quarter of a leaf each: the leaves of its tree stay inside their
blocks, and the next insertion neither fails with `CARA_EOVERFLOW` nor writes
behind a leaf, and leaves leaves that fit.
-/
theorem short_names_never_overflow_leaves {cn : Cnode} {built : Mount} {entries : List Dirent}
    (numbered : Numbered g) (inline : InlineDir g m taken dir cn)
    (short : ∀ entry ∈ entries, entry.Quarter g.blockSize)
    (done : insertAll dir entries m = (.ok (), built))
    (quarter : entry.Quarter g.blockSize) :
    LeavesFit g.blockSize dir built.view ∧
      (insertCall dir entry built).1 ≠ .error .eoverflow ∧
      (insertCall dir entry built).1 ≠ .error .overrun ∧
      ((insertCall dir entry built).1 = .ok () →
        LeavesFit g.blockSize dir (insertCall dir entry built).2.view) := by
  obtain ⟨roles, start⟩ := inline.dirRest
  obtain ⟨roles', taken', rest⟩ := start.insertAll numbered short done
  have spec := rest.wp_insertCall numbered quarter
  refine ⟨rest.fits.leavesFit, ?_, ?_, fun ok =>
    (Action.wp_succeeded spec ok).leavesFit rest.rest⟩
  · intro failed
    exact (Action.wp_failed spec failed).1 rfl
  · intro failed
    exact (Action.wp_failed spec failed).2 rfl

/-- An entry whose name is a letter, repeated. -/
def namedEntry (letter : UInt8) (length : Nat) : Dirent where
  hash := nameHash (List.replicate length letter)
  cnode := 2051
  type := .dir
  seq := 0
  name := List.replicate length letter

/-- The names `a` to `g`. -/
def sevenNames : List Dirent :=
  [97, 98, 99, 100, 101, 102, 103].map (namedEntry · 1)

/-- Eight short names, in blocks of 512 bytes: the last goes to a leaf. -/
theorem short_names_never_overflow_leaves_seven :
    (∀ entry ∈ sevenNames, entry.Quarter 512) ∧
      LeavesFit 512 2051 (insertCall 2051 (namedEntry 104 1)
        (insertAll 2051 sevenNames smallCacheVolume).2).2.view := by
  have short : ∀ entry ∈ sevenNames, entry.Quarter 512 := by
    decide +kernel
  have done : (insertAll 2051 sevenNames smallCacheVolume).1 = .ok () := by
    decide +kernel
  have next : (insertCall 2051 (namedEntry 104 1)
      (insertAll 2051 sevenNames smallCacheVolume).2).1 = .ok () := by
    decide +kernel
  obtain ⟨layout, places, -⟩ := smallCacheVolume_fresh.atRest
  exact ⟨short, (short_names_never_overflow_leaves
    ⟨layout, places, by decide⟩ smallCacheVolume_fresh.inlineRoot short
    (Action.outcome_eq done) (show (namedEntry 104 1).Quarter 512 by decide +kernel)).2.2.2
    next⟩

/-- A blank device of 1100 blocks of 1024 bytes. -/
def kibDev : Bdev :=
  imageDev 1024 1100 fun _ => zeroBlock 1024

def kibOpts : MkfsOpts :=
  { smallOpts with blockSizeLog2 := 10, scratchBytes := 1024 }

def kibGeometry : Geometry where
  blockSize := 1024
  totalBlocks := 1100
  journalStart := 1
  journalBlocks := 1025
  agFirst := 1026
  agSize := 7680
  agCount := 1
  backupSb := 1099
  rootCnode := 1027

def kibVolume : Mount :=
  (carafsMount (mountInit { nEnts := 16 } (imageDev 1024 1100 (carafsMkfs kibOpts kibDev).2.disk))).2

theorem kibVolume_fresh : FreshVolume kibOpts { nEnts := 16 } kibDev kibGeometry kibVolume where
  made := by decide +kernel
  laidOut := by decide +kernel
  cache := by decide
  writable := rfl
  mounted := by
    have ok : (carafsMount (mountInit { nEnts := 16 } (imageDev 1024 1100
        (carafsMkfs kibOpts kibDev).2.disk))).1 = .ok () := by
      decide +kernel
    exact Action.outcome_eq ok

/-- Four names whose records, of 208, 280, 280 and 224 bytes, fill a leaf. -/
def fullLeaf : List Dirent :=
  [namedEntry 114 184, namedEntry 118 255, namedEntry 114 255, namedEntry 108 200]

/--
With blocks of 512 bytes a leaf holds one name of 255 bytes: the second one
does not fit, and the leaf cannot be split.  With blocks of 1024 bytes the
fifth name goes to the larger half of a split leaf, and behind its end.
-/
theorem long_names_overflow_leaves :
    (InlineDir seventeenGroups smallCacheVolume {2051} 2051
        ((mkfsRoot seventeenGroups smallOpts.nowNs).sealed 512) ∧
      (insertAll 2051 [namedEntry 97 255] smallCacheVolume).1 = .ok () ∧
      (insertCall 2051 (namedEntry 98 255)
        (insertAll 2051 [namedEntry 97 255] smallCacheVolume).2).1 = .error .eoverflow) ∧
    InlineDir kibGeometry kibVolume {1027} 1027
        ((mkfsRoot kibGeometry kibOpts.nowNs).sealed 1024) ∧
      fullLeaf.map Dirent.stride = [208, 280, 280, 224] ∧
      (insertAll 1027 fullLeaf kibVolume).1 = .ok () ∧
      (insertCall 1027 (namedEntry 101 255) (insertAll 1027 fullLeaf kibVolume).2).1 =
        .error .overrun := by
  refine ⟨⟨smallCacheVolume_fresh.inlineRoot, ?_, ?_⟩, kibVolume_fresh.inlineRoot, ?_, ?_, ?_⟩ <;>
    decide +kernel

end Mounts

end CaraOS.Carafs
