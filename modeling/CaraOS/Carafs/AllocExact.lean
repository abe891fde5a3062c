import CaraOS.Carafs.AllocSpec

namespace CaraOS.Carafs

/-!
# The allocator is exact

What `carafs_alloc_extent` and `carafs_free_extent` do on the mount, as steps
on the set of the blocks that are taken, over every run of calls on a volume
made by `Carafs_Mkfs`.
-/

/-! ## Calls on the mount -/

/-- A call of the allocator, or an end of a transaction. -/
inductive AllocCall where
  | begin
  | alloc (hint want : Nat)
  | free (start count : Nat)
  | commit

/-- What a call returns: the run of a successful allocation. -/
abbrev AllocOutcome : Type :=
  Except Err (Option (Nat × Nat))

/-- The driver's code for a call. -/
def AllocCall.run : AllocCall → M (Option (Nat × Nat))
  | .begin => do
      opBegin
      return none
  | .alloc hint want => do
      let m ← Action.read
      let run ← Fs.run (allocExtent m.blockSize hint want)
      return some run
  | .free start count => do
      let m ← Action.read
      Fs.run (freeExtent m.blockSize start count)
      return none
  | .commit => do
      opCommit
      return none

/-- One more block may join the transaction, and the cache has a slot for it. -/
def Mount.RoomInTxn (m : Mount) : Prop :=
  m.inTxn = true ∧ m.txnBlocks.length < m.ents.length ∧ m.txnBlocks.length < txnMaxBlocks
  deriving Decidable

/--
The call is made where it may be made: inside a transaction, and, for the two
allocator calls, with room for the bitmap block they change and with a range
whose end does not wrap.
-/
def AllocCall.Fits (m : Mount) : AllocCall → Prop
  | .begin => m.inTxn = false
  | .alloc _ _ => m.RoomInTxn
  | .free start count => m.RoomInTxn ∧ start + count < 2 ^ 64 ∧ count < 2 ^ 31
  | .commit => m.inTxn = true ∧ (AllocCall.run .commit m).1 = .ok none

instance (m : Mount) (call : AllocCall) : Decidable (call.Fits m) :=
  match call with
  | .begin => inferInstanceAs (Decidable (_ = _))
  | .alloc _ _ => inferInstanceAs (Decidable m.RoomInTxn)
  | .free _ _ => inferInstanceAs (Decidable (_ ∧ _))
  | .commit => inferInstanceAs (Decidable (_ ∧ _))

/-- Calls one after the other, with their outcomes. -/
def allocRun : List AllocCall → Mount → List AllocOutcome × Mount
  | [], m => ([], m)
  | call :: rest, m =>
    let (outcomes, last) := allocRun rest (call.run m).2
    ((call.run m).1 :: outcomes, last)

/-- Every call of a run fits. -/
def AllFit : List AllocCall → Mount → Prop
  | [], _ => True
  | call :: rest, m => call.Fits m ∧ AllFit rest (call.run m).2

instance decidableAllFit : (calls : List AllocCall) → (m : Mount) →
    Decidable (AllFit calls m)
  | [], _ => inferInstanceAs (Decidable True)
  | call :: rest, m =>
    have := decidableAllFit rest (call.run m).2
    inferInstanceAs (Decidable (_ ∧ _))

/-- What a call may do to the set of the blocks that are taken. -/
inductive AllocStep (g : Geometry) (taken : Set Nat) :
    AllocCall → AllocOutcome → Set Nat → Prop where
  | begin : AllocStep g taken .begin (.ok none) taken
  | commit : AllocStep g taken .commit (.ok none) taken
  | granted {hint want : Nat} {run : Nat × Nat}
      (positive : 1 ≤ run.2)
      (few : run.2 ≤ want)
      (place : ∃ ag rel, Placed g run.1 run.2 ag rel)
      (free : Disjoint (Set.Ico run.1 (run.1 + run.2)) taken) :
      AllocStep g taken (.alloc hint want) (.ok (some run)) (taken ∪ Set.Ico run.1 (run.1 + run.2))
  | full {hint want : Nat}
      (noneFree : ∀ block, g.Data block → block ∈ taken) :
      AllocStep g taken (.alloc hint want) (.error .enomem) taken
  | nothing {hint : Nat} :
      AllocStep g taken (.alloc hint 0) (.error .einval) taken
  | freed {start count : Nat}
      (freeable : Freeable g taken start count) :
      AllocStep g taken (.free start count) (.ok none) (taken \ Set.Ico start (start + count))
  | refused {start count : Nat}
      (notFreeable : ¬ Freeable g taken start count) :
      AllocStep g taken (.free start count) (.error .einval) taken

/-- The steps of a run. -/
inductive AllocSteps (g : Geometry) :
    Set Nat → List AllocCall → List AllocOutcome → Set Nat → Prop where
  | nil {taken : Set Nat} : AllocSteps g taken [] [] taken
  | cons {taken mid last : Set Nat} {call : AllocCall}
      {outcome : AllocOutcome} {calls : List AllocCall}
      {outcomes : List AllocOutcome}
      (first : AllocStep g taken call outcome mid)
      (later : AllocSteps g mid calls outcomes last) :
      AllocSteps g taken (call :: calls) (outcome :: outcomes) last

/-- A volume between two transactions, and the blocks that are taken. -/
structure AtRest (g : Geometry) (m : Mount) (taken : Set Nat) : Prop where
  idle : Idle m
  blockSize : m.blockSize = g.blockSize
  size : g.backupSb < m.bdev.nBlocks
  super : SbOf g m.sb
  journal : m.jLogBlocks + 1 = g.journalBlocks
  books : Books g m.view m.sb.freeBlocks taken

/-- A volume inside a transaction, and the blocks that are taken. -/
structure Amid (g : Geometry) (m : Mount) (taken : Set Nat) : Prop where
  blockSize : m.blockSize = g.blockSize
  inside : m.inTxn = true
  open_ : ∃ m₀ opened s taken₀, AtRest g m₀ taken₀ ∧ Opens ∅ m₀ opened ∧
      Tracks opened.unhomed opened m s ∧ Ledger g s taken ∅ ∧ s.pins = 0

section Mounts

variable {g : Geometry} {m m₀ opened : Mount} {taken taken₀ : Set Nat} {s : Shadow}

theorem SbOf.of_same {sb sb' : Superblock}
    (super : SbOf g sb) (same : sb' = { sb with state := sb'.state }) : SbOf g sb' := by
  rw [same]
  exact ⟨super.agFirst, super.agSize, super.agCount, super.backupSb, super.journalStart⟩

theorem AtRest.not_journal (rest : AtRest g m taken) (layout : Layout g) {block : Nat} :
    InJournal m block ↔ 1 ≤ block ∧ block < g.agFirst := by
  have start := layout.journalStart
  have first := layout.agFirst
  have journal := rest.journal
  unfold InJournal
  rw [rest.super.journalStart]
  omega

theorem AtRest.ledger (rest : AtRest g m taken) (layout : Layout g) (opens : Opens ∅ m opened) :
    Ledger g opened.shadow taken ∅ where
  size := by
    have same : opened.bdev.nBlocks = m.bdev.nBlocks :=
      (congrArg (fun mount => mount.bdev.nBlocks) opens.fixed :)
    show g.backupSb < opened.bdev.nBlocks
    rw [same]
    exact rest.size
  inside := opens.inside
  super := by
    show SbOf g opened.sb
    rw [opens.sb]
    exact rest.super.of_same rfl
  books := by
    have same : opened.sb.freeBlocks = m.sb.freeBlocks := by rw [opens.sb]
    show Books g opened.view opened.sb.freeBlocks taken
    rw [same]
    refine rest.books.of_same fun ag bound => ?_
    have first := layout.agFirst
    refine opens.view ?_ (Set.notMem_empty _) ?_
    · rw [rest.not_journal layout]
      unfold Geometry.agBlock
      omega
    · unfold Geometry.agBlock
      omega
  region := fun impossible => absurd impossible (Set.notMem_empty _)
  used := by
    intro block inUse
    have none : opened.shadow.txn = [] := opens.empty
    rw [none] at inUse
    exact absurd inUse (not_or.mpr ⟨Multiset.notMem_zero _, List.not_mem_nil⟩)
  loose := by
    rintro block (inJournal | impossible)
    · exact .inl ((rest.not_journal layout).mp ((opens.sameJournal block).mp inJournal))
    · exact absurd impossible (Set.notMem_empty block)

theorem Ledger.journal {block : Nat} (ledger : Ledger g s taken ∅) (isLoose : block ∈ s.loose) :
    1 ≤ block ∧ block < g.agFirst :=
  (ledger.loose isLoose).resolve_right (Set.notMem_empty block)

theorem Amid.call {α : Type} {answer : α → Option (Nat × Nat)}
    (call : AllocCall)
    (body : Nat → Fs α) (isCall : call.run m = (do
        let value ← Fs.run (body m.blockSize)
        return answer value : M _) m)
    (amid : Amid g m taken) (room : m.RoomInTxn)
    (holds : ∀ {s : Shadow}, Ledger g s taken ∅ → (∀ code, ¬ s.NoRoom code) →
        s.wp (body g.blockSize)
          (fun value after => ∃ taken', AllocStep g taken call (.ok (answer value)) taken' ∧
              Ledger g after taken' ∅ ∧ after.pins = s.pins)
          (fun code after => s.Agrees after ∧ AllocStep g taken call (.error code) taken)) :
    ∃ taken', AllocStep g taken call (call.run m).1 taken' ∧
      Amid g (call.run m).2 taken' := by
  obtain ⟨m₀, opened, s, taken₀, rest, opens, tracks, ledger, unpinned⟩ := amid.open_
  have hasRoom (code : Err) : ¬ s.NoRoom code := by
    obtain ⟨-, slot, few⟩ := room
    unfold Shadow.NoRoom Shadow.Crowded
    rw [unpinned, tracks.txn, tracks.nEnts, Multiset.card_zero]
    omega
  have kept {after : Mount} {s' : Shadow} {taken' : Set Nat}
      (tracks' : Tracks opened.unhomed opened after s') (ledger' : Ledger g s' taken' ∅)
      (samePins : s'.pins = s.pins) : Amid g after taken' := by
    refine ⟨?_, ?_, m₀, opened, s', taken₀, rest, opens, tracks', ledger', samePins.trans unpinned⟩
    · have same : after.blockSize = opened.blockSize := (congrArg Mount.blockSize tracks'.core :)
      have same' : opened.blockSize = m₀.blockSize := (congrArg Mount.blockSize opens.fixed :)
      rw [same, same', rest.blockSize]
    · exact tracks'.inTxn ▸ ledger'.inside
  have spec := tracks.run (holds ledger hasRoom)
  rw [← amid.blockSize] at spec
  unfold Action.wp at spec
  rw [isCall]
  cases outcome : Fs.run (body m.blockSize) m with
  | mk result after =>
    rw [outcome] at spec
    cases result with
    | ok value =>
      obtain ⟨s', ⟨taken', step, ledger', samePins⟩, tracks'⟩ := spec
      rw [Action.bind_of_ok outcome]
      exact ⟨taken', step, kept tracks' ledger' samePins⟩
    | error code =>
      rw [Action.bind_of_error outcome]
      obtain ⟨s', ⟨same, step⟩, tracks'⟩ := spec
      exact ⟨taken, step, kept tracks' (ledger.of_agrees same) same.pins⟩

theorem Amid.books (amid : Amid g m taken) : Books g m.view m.sb.freeBlocks taken := by
  obtain ⟨m₀, opened, s, taken₀, rest, opens, tracks, ledger, unpinned⟩ := amid.open_
  have start : s.sb.journalStart = opened.sb.journalStart := by
    rw [ledger.super.journalStart, opens.sb]
    exact rest.super.journalStart.symm
  obtain ⟨-, -, sameSb, shows, -⟩ := tracks.settle opens.steady start
    ⟨unpinned, fun isLoose => by have := ledger.journal isLoose; omega⟩
  rw [sameSb]
  exact ledger.books.of_same fun ag bound => shows (ledger.firm bound)

theorem AtRest.close {after : Mount} {held : Set Nat}
    (rest : AtRest g m taken₀) (layout : Layout g) (closes : Closes m s after)
    (ledger : Ledger g s taken held)
    (loose : ∀ {block}, block ∈ s.loose → 1 ≤ block ∧ block < g.agFirst) :
    AtRest g after taken := by
  have start : s.sb.journalStart = m.sb.journalStart := by
    rw [ledger.super.journalStart, rest.super.journalStart]
  have sameLog : after.jLogBlocks = m.jLogBlocks := (congrArg Mount.jLogBlocks closes.fixed :)
  have sameSize : after.bdev.nBlocks = m.bdev.nBlocks :=
    (congrArg (fun mount => mount.bdev.nBlocks) closes.fixed :)
  have sameBs : after.blockSize = m.blockSize := (congrArg Mount.blockSize closes.fixed :)
  have inJournal {block : Nat} (isLoose : block ∈ s.loose) : InJournal after block := by
    have inside := (rest.not_journal layout).mpr (loose isLoose)
    unfold InJournal at inside ⊢
    rwa [closes.sb, start, sameLog]
  exact {
    idle :=
      { closes.idle with
        toRests := closes.idle.toRests.mono fun outside isLoose =>
          absurd (inJournal isLoose) outside }
    blockSize := sameBs.trans rest.blockSize
    size := by
      rw [sameSize]
      exact rest.size
    super := by
      rw [closes.sb]
      exact ledger.super
    journal := by
      rw [sameLog]
      exact rest.journal
    books := by
      rw [closes.sb]
      refine ledger.books.of_same fun ag bound => ?_
      have first := layout.agFirst
      refine closes.view ?_ (ledger.firm bound) ?_
      · rw [rest.not_journal layout]
        unfold Geometry.agBlock
        omega
      · unfold Geometry.agBlock
        omega }

theorem Amid.commit {after : Mount} (layout : Layout g) (amid : Amid g m taken)
    (done : opCommit m = (.ok (), after)) : AtRest g after taken := by
  obtain ⟨m₀, opened, s, taken₀, rest, opens, tracks, ledger, unpinned⟩ := amid.open_
  have start : s.sb.journalStart = m₀.sb.journalStart := by
    rw [ledger.super.journalStart, rest.super.journalStart]
  have quiet : s.Quiet :=
    ⟨unpinned, fun isLoose => by have := ledger.journal isLoose; omega⟩
  have closes := Action.wp_ok (wp_opCommit rest.idle opens tracks start quiet) done
  exact rest.close layout closes ledger ledger.journal

end Mounts

/-! ## Runs -/

/-- A volume before or inside a transaction. -/
def Kept (g : Geometry) (m : Mount) (taken : Set Nat) : Prop :=
  AtRest g m taken ∨ Amid g m taken

section Runs

variable {g : Geometry} {m : Mount} {taken : Set Nat}

theorem Layout.full_of_empty (layout : Layout g) (empty : ∀ ag < g.agCount, g.freeIn taken ag = ∅)
    {block : Nat} (isData : g.Data block) : block ∈ taken := by
  have bound := layout.ag_lt isData.lower isData.upper
  obtain ⟨small, place⟩ := layout.agBlock_split isData.lower
  by_contra notTaken
  have free : (block - g.agFirst) % g.agSize ∈ g.freeIn taken ((block - g.agFirst) / g.agSize) := by
    refine Geometry.mem_freeIn.mpr ⟨small, ?_, ?_, ?_⟩
    · intro zero
      rw [zero] at place
      exact isData.notAg ⟨_, bound, place⟩
    · rw [← place]
      exact isData.upper
    · rwa [← place]
  rw [empty _ bound] at free
  exact absurd free (Finset.notMem_empty _)

theorem Placed.data {start count ag rel block : Nat} (placed : Placed g start count ag rel)
    (listed : block ∈ Set.Ico start (start + count)) : g.Data block := by
  have place := placed.place
  have inside := placed.inside
  have region := placed.region
  have notFirst := placed.notFirst
  obtain ⟨lower, upper⟩ := listed
  refine ⟨?_, by omega, ?_⟩
  · unfold Geometry.agBlock at place
    omega
  · rintro ⟨other, -, isAg⟩
    have same : g.agBlock ag + (block - g.agBlock ag) = g.agBlock other + 0 := by omega
    have := (Layout.place_inj (by omega) (by omega) same).2
    omega

theorem Placed.not_adjacent {start count ag rel start' count' ag' rel' : Nat}
    (placed : Placed g start count ag rel)
    (placed' : Placed g start' count' ag' rel') (apart : ag ≠ ag')
    (positive : 1 ≤ count') : start + count ≠ start' := by
  intro adjacent
  have place := placed.place
  have inside := placed.inside
  have notFirst := placed'.notFirst
  have inside' := placed'.inside
  have same : g.agBlock ag + (rel + count - 1) = g.agBlock ag' + (rel' - 1) := by
    have := placed.notFirst
    have := placed'.place
    omega
  exact apart (Layout.place_inj (by omega) (by omega) same).1

theorem Grants.step {want hint : Nat} {run : Nat × Nat} (grants : Grants g taken want run) :
    AllocStep g taken (.alloc hint want) (.ok (some run))
      (grantedTo taken run) := by
  have free : Disjoint (Set.Ico run.1 (run.1 + run.2)) taken :=
    Set.disjoint_left.mpr fun _ listed => (grants.free listed).2
  obtain ⟨start, got⟩ := run
  obtain ⟨ag, rel, grant, rfl, few⟩ := grants
  exact .granted grant.some few ⟨ag, rel, grant.placed⟩ free

theorem Kept.step {call : AllocCall}
    (numbered : Numbered g) (kept : Kept g m taken) (fits : call.Fits m) :
    ∃ taken', AllocStep g taken call (call.run m).1 taken' ∧
      Kept g (call.run m).2 taken' := by
  have amid (inside : m.inTxn = true) : Amid g m taken := by
    refine kept.resolve_left fun rest => ?_
    rw [rest.idle.outside] at inside
    cases inside
  cases call with
  | begin =>
    have outside : m.inTxn = false := fits
    have rest : AtRest g m taken := by
      refine kept.resolve_right fun amid => ?_
      rw [amid.inside] at outside
      cases outside
    obtain ⟨_, opened, began, opens⟩ := Action.wp_total (wp_opBegin rest.idle)
    have ran : AllocCall.run .begin m = (.ok none, opened) := Action.bind_of_ok began
    rw [ran]
    have sameBs : opened.blockSize = m.blockSize := (congrArg Mount.blockSize opens.fixed :)
    exact ⟨taken, .begin, .inr ⟨sameBs.trans rest.blockSize, opens.inside,
      m, opened, opened.shadow, taken, rest, opens, opens.steady.tracks,
      rest.ledger numbered.toLayout opens, rfl⟩⟩
  | alloc hint want =>
    have room : m.RoomInTxn := fits
    obtain ⟨taken', step, later⟩ := (amid room.1).call (.alloc hint want)
      (fun bs => allocExtent bs hint want) rfl room fun ledger hasRoom => by
        refine Shadow.wp_mono (ledger.wp_allocExtent numbered hint want) ?_ ?_
        · rintro run after ⟨grants, later, granting⟩
          exact ⟨_, grants.step, later, granting.pins⟩
        · rintro code after (noRoom | ⟨same, ⟨rfl, empty⟩ | ⟨rfl, rfl⟩⟩)
          · exact absurd noRoom (hasRoom code)
          · exact ⟨same, .full fun block isData =>
              numbered.toLayout.full_of_empty empty isData⟩
          · exact ⟨same, .nothing⟩
    exact ⟨taken', step, .inr later⟩
  | free start count =>
    obtain ⟨room, below, short⟩ := fits
    obtain ⟨taken', step, later⟩ := (amid room.1).call (.free start count)
      (fun bs => freeExtent bs start count) rfl room fun ledger hasRoom => by
        refine Shadow.wp_mono (ledger.wp_freeExtent numbered (Set.disjoint_empty _) below short)
          ?_ ?_
        · rintro _ after ⟨freeable, later, samePins⟩
          exact ⟨_, .freed freeable, later, samePins⟩
        · rintro code after (noRoom | ⟨rfl, same, notFreeable⟩)
          · exact absurd noRoom (hasRoom code)
          · exact ⟨same, .refused notFreeable⟩
    exact ⟨taken', step, .inr later⟩
  | commit =>
    have ran : AllocCall.run .commit m =
        (.ok none, (AllocCall.run .commit m).2) := Prod.ext fits.2 rfl
    obtain ⟨_, after, committed, isLast⟩ := Action.of_bind_ok ran
    have isAfter : (AllocCall.run .commit m).2 = after := (congrArg Prod.snd isLast).symm
    rw [ran, isAfter]
    exact ⟨taken, .commit, .inl ((amid fits.1).commit numbered.toLayout committed)⟩

theorem Kept.run {calls : List AllocCall}
    (numbered : Numbered g) (kept : Kept g m taken) (fits : AllFit calls m) :
    ∃ taken', AllocSteps g taken calls (allocRun calls m).1 taken' ∧
      Kept g (allocRun calls m).2 taken' := by
  induction calls generalizing m taken with
  | nil => exact ⟨taken, .nil, kept⟩
  | cons call rest ih =>
    obtain ⟨mid, step, keptMid⟩ := kept.step numbered fits.1
    obtain ⟨last, steps, keptLast⟩ := ih keptMid fits.2
    exact ⟨last, .cons step steps, keptLast⟩

theorem AllocSteps.data {calls : List AllocCall} {outcomes : List AllocOutcome} {taken' : Set Nat}
    (steps : AllocSteps g taken calls outcomes taken')
    (isData : ∀ block ∈ taken, g.Data block) : ∀ block ∈ taken', g.Data block := by
  induction steps with
  | nil => exact isData
  | cons step _ ih =>
    refine ih fun block listed => ?_
    cases step with
    | begin | commit | full _ | nothing | refused _ =>
      exact isData block listed
    | granted positive few place free =>
      obtain ⟨ag, rel, placed⟩ := place
      exact listed.elim (isData block) placed.data
    | freed freeable => exact isData block listed.1

end Runs

/-! ## Volumes made by the formatter -/

section Fresh

variable {opts : MkfsOpts} {mountOpts : MountOpts} {dev made : Bdev} {g : Geometry} {m : Mount}

/-- A volume that has just been made and mounted. -/
structure FreshVolume (opts : MkfsOpts) (mountOpts : MountOpts) (dev : Bdev)
    (g : Geometry) (m : Mount) : Prop where
  made : (carafsMkfs opts dev).1 = .ok ()
  laidOut : geometry dev.blockSize dev.nBlocks = .ok g
  cache : cacheMinBlocks ≤ mountOpts.nEnts
  writable : mountOpts.readonly = false
  mounted : carafsMount (mountInit mountOpts (imageDev dev.blockSize dev.nBlocks
      (carafsMkfs opts dev).2.disk)) = (.ok (), m)

theorem Layout.root_data (layout : Layout g) : g.Data g.rootCnode := by
  have root := layout.root
  have room := layout.room
  refine ⟨by omega, by omega, ?_⟩
  rintro ⟨ag, -, isAg⟩
  exact layout.root_ne_agBlock ag isAg.symm

theorem FreshVolume.clean (fresh : FreshVolume opts mountOpts dev g m) :
    MkfsOk opts dev g ∧ MkfsImage g opts m.view ∧
      MountedClean mountOpts dev.blockSize dev.nBlocks m.view
        (sealedSuper g opts) m := by
  obtain ⟨g', ok, wrote⟩ := Action.wp_succeeded (wp_carafsMkfs opts dev) fresh.made
  have same : g' = g := Except.ok.inj (ok.laidOut.symm.trans fresh.laidOut)
  subst same
  have image := wrote.image ok
  obtain ⟨m', ran, clean⟩ := mount_fresh fresh.cache fresh.writable ok image
  have sameMount : m' = m := congrArg Prod.snd (ran.symm.trans fresh.mounted)
  subst sameMount
  rw [clean.view]
  exact ⟨ok, image, clean⟩

theorem FreshVolume.atRest (fresh : FreshVolume opts mountOpts dev g m) :
    Layout g ∧ g.agSize < 2 ^ 31 ∧ AtRest g m {g.rootCnode} := by
  obtain ⟨ok, image, clean⟩ := fresh.clean
  have layout := ok.layout
  have size := (geometry_fields ok.laidOut).1
  have total := (geometry_fields ok.laidOut).2.1
  have large := layout.large
  have last := layout.last
  refine ⟨layout, ?_, ⟨clean.idle, clean.blockSize.trans size.symm, ?_, ?_, ?_, ?_⟩⟩
  · obtain ⟨log2, -, upper, isPower⟩ := ok.legal
    have below : dev.blockSize ≤ 2 ^ 16 := by
      rw [isPower]
      exact Nat.pow_le_pow_right (by decide) upper
    have isSize : g.agSize = agSize dev.blockSize := (geometry_fields ok.laidOut).2.2
    rw [isSize]
    unfold agSize
    omega
  · rw [clean.nBlocks]
    omega
  · rw [clean.super]
    exact ⟨rfl, rfl, rfl, rfl, rfl⟩
  · rw [clean.logBlocks]
    show g.journalBlocks - 1 + 1 = _
    omega
  · rw [clean.super]
    exact image.books layout

/--
Over every run of calls that fit, on a volume made by the formatter, the
allocator moves from one set of taken blocks to the next as specified; the
bitmaps and both counts describe that set, which never holds a bitmap block or
a block from the backup superblock on.
-/
theorem allocator_exact {calls : List AllocCall}
    (fresh : FreshVolume opts mountOpts dev g m) (groups : g.agCount ≤ 2 ^ 31)
    (fits : AllFit calls m) :
    ∃ taken,
      AllocSteps g {g.rootCnode} calls (allocRun calls m).1 taken ∧
      Books g (allocRun calls m).2.view
        (allocRun calls m).2.sb.freeBlocks taken ∧
      (∀ block ∈ taken, g.Data block) ∧
      ∀ {start count ag rel start' count' ag' rel'},
        Placed g start count ag rel → Placed g start' count' ag' rel' →
          ag ≠ ag' → 1 ≤ count' → start + count ≠ start' := by
  obtain ⟨layout, places, rest⟩ := fresh.atRest
  have numbered : Numbered g := ⟨layout, places, groups⟩
  obtain ⟨taken, steps, kept⟩ := Kept.run numbered (.inl rest) fits
  refine ⟨taken, steps, ?_, steps.data ?_, Placed.not_adjacent⟩
  · exact kept.elim AtRest.books Amid.books
  · rintro block rfl
    exact layout.root_data

/-! ### Seventeen AGs and sixteen cache slots -/

/-- A blank device of 59405 blocks of 512 bytes. -/
def blankDev : Bdev :=
  imageDev 512 59405 fun _ => zeroBlock 512

/-- Its layout: the last of seventeen AGs has ten blocks. -/
def seventeenGroups : Geometry where
  blockSize := 512
  totalBlocks := 59405
  journalStart := 1
  journalBlocks := 2049
  agFirst := 2050
  agSize := 3584
  agCount := 17
  backupSb := 59404
  rootCnode := 2051

def smallCacheVolume : Mount :=
  (carafsMount (mountInit { nEnts := 16 } (imageDev 512 59405
    (carafsMkfs smallOpts blankDev).2.disk))).2

theorem smallCacheVolume_fresh :
    FreshVolume smallOpts { nEnts := 16 } blankDev seventeenGroups smallCacheVolume where
  made := by decide +kernel
  laidOut := by
    decide +kernel
  cache := by decide
  writable := rfl
  mounted := by
    have ok : (carafsMount (mountInit { nEnts := 16 } (imageDev 512 59405
        (carafsMkfs smallOpts blankDev).2.disk))).1 = .ok () := by
      decide +kernel
    exact Action.outcome_eq ok

/-- Three blocks are granted and one of them is freed, in one transaction. -/
theorem allocator_exact_once :
    AllFit [.begin, .alloc 0 3, .free 2053 1, .commit] smallCacheVolume ∧
      ∃ taken,
        AllocSteps seventeenGroups {2051}
          [.begin, .alloc 0 3, .free 2053 1, .commit]
          (allocRun [.begin, .alloc 0 3, .free 2053 1, .commit] smallCacheVolume).1 taken := by
  have fits : AllFit [.begin, .alloc 0 3, .free 2053 1, .commit] smallCacheVolume := by
    decide +kernel
  obtain ⟨taken, steps, -⟩ := allocator_exact smallCacheVolume_fresh (by decide) fits
  exact ⟨fits, taken, steps⟩

/-- One block from each AG, in one transaction. -/
def oneFromEach : List AllocCall :=
  .begin :: (List.range 17).map fun ag => .alloc (2050 + ag * 3584) 1

/--
The bitmap blocks of sixteen AGs fill the cache, far below the limit of the
transaction: the seventeenth allocation reports a full volume although its AG
has free blocks.
-/
theorem full_cache_looks_like_full_volume :
    FreshVolume smallOpts { nEnts := 16 } blankDev seventeenGroups smallCacheVolume ∧
      (allocRun oneFromEach smallCacheVolume).1.getLast? = some (.error .enomem) ∧
      .error .eoverflow ∉ (allocRun oneFromEach smallCacheVolume).1 ∧
      (allocRun oneFromEach smallCacheVolume).2.sb.freeBlocks = 57320 := by
  refine ⟨smallCacheVolume_fresh, ?_⟩
  decide +kernel

end Fresh

end CaraOS.Carafs
