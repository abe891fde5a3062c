import CaraOS.Carafs.AgMap

namespace CaraOS.Carafs

/-!
# The allocator inside a transaction

What `carafs_alloc_extent` and `carafs_free_extent` do on the shadow of an open
transaction, as steps on the set of the blocks that are taken.  The code around
the calls may hold taken blocks: pinned, changed or in the transaction.
-/

open Function (update_of_ne update_self)
open List
open Shadow (wp_bind wp_imp wp_mono wp_sb wp_setSb wp_store wp_throw)

/-- The layout fields of a superblock are those of the geometry. -/
structure SbOf (g : Geometry) (sb : Superblock) : Prop where
  agFirst : sb.agFirstBlock = g.agFirst
  agSize : sb.agSizeBlocks = g.agSize
  agCount : sb.agCount = g.agCount
  backupSb : sb.backupSb = g.backupSb
  journalStart : sb.journalStart = g.journalStart

/-- The numbers of the AGs and of the places in them fit 31 bits. -/
structure Numbered (g : Geometry) : Prop extends Layout g where
  places : g.agSize < 2 ^ 31
  groups : g.agCount ≤ 2 ^ 31

/--
The books are kept, and apart from bitmap blocks and the journal only the held
blocks are in use.
-/
structure Ledger (g : Geometry) (s : Shadow) (taken held : Set Nat) :
    Prop where
  size : g.backupSb < s.nBlocks
  inside : s.inTxn = true
  super : SbOf g s.sb
  books : Books g s.view s.sb.freeBlocks taken
  region : ∀ {block}, block ∈ held → g.Data block ∧ block ∈ taken
  used : ∀ {block}, block ∈ s.pins ∨ block ∈ s.txn → block ∈ held ∨ g.IsAg block
  loose : ∀ {block}, block ∈ s.loose → 1 ≤ block ∧ block < g.agFirst ∨ block ∈ held

/-- A call fails because the transaction or the cache has no room left. -/
def Shadow.NoRoom (s : Shadow) (code : Err) : Prop :=
  code = .eoverflow ∧ txnMaxBlocks ≤ s.txn.length ∨ s.Crowded ∧ (code = .erange ∨ code = .enomem)

variable {header : AgHeader}

section Calls

variable {g : Geometry} {s after : Shadow} {taken held : Set Nat}
  {ag want : Nat} {failed : Err → Shadow → Prop}

/-- Shadows that differ only in which blocks are known not to be cached. -/
def Shadow.Agrees (s after : Shadow) : Prop :=
  after = { s with absent := after.absent }

theorem Shadow.unpin_pin (s : Shadow) (block : Nat) : s.Agrees ((s.pin block).unpin block) := by
  unfold Shadow.Agrees Shadow.unpin Shadow.pin
  rw [Multiset.erase_cons_head]

theorem Shadow.Agrees.pins (same : s.Agrees after) : after.pins = s.pins :=
  (congrArg Shadow.pins same :)

variable {mid : Shadow} {start count : Nat} {run : Nat × Nat}

theorem Shadow.Agrees.trans (first : s.Agrees mid) (second : mid.Agrees after) :
    s.Agrees after := by
  rwa [first] at second

theorem Ledger.of_agrees (ledger : Ledger g s taken held) (same : s.Agrees after) :
    Ledger g after taken held := by
  rw [same]
  exact { ledger with }

theorem Shadow.Agrees.noRoom {code : Err} (same : s.Agrees after) (noRoom : after.NoRoom code) :
    s.NoRoom code := by
  rwa [same] at noRoom

theorem agBlockOf_eq {sb : Superblock} (super : SbOf g sb) (ag : Nat) :
    agBlockOf sb ag = g.agBlock ag := by
  unfold agBlockOf Geometry.agBlock
  rw [super.agFirst, super.agSize]

theorem Books.of_same {view view' : Nat → Block} {free : Nat} (books : Books g view free taken)
    (same : ∀ ag < g.agCount, view' (g.agBlock ag) = view (g.agBlock ag)) :
    Books g view' free taken where
  ag := fun bound => by
    rw [same _ bound]
    exact books.ag bound
  total := books.total

theorem Ledger.firm (ledger : Ledger g s taken held) (bound : ag < g.agCount) :
    g.agBlock ag ∉ s.loose := by
  intro isLoose
  rcases ledger.loose isLoose with inJournal | isHeld
  · unfold Geometry.agBlock at inJournal
    omega
  · exact (ledger.region isHeld).1.notAg ⟨ag, bound, rfl⟩

theorem Ledger.wp_agGet {post : AgHeader → Shadow → Prop}
    (ledger : Ledger g s taken held) (layout : Layout g) (bound : ag < g.agCount)
    (onSuccess : ∀ header, AgHolds g (s.view (g.agBlock ag)) taken ag header →
        post header (s.pin (g.agBlock ag))) (onFailure : ∀ code, s.NoRoom code → failed code s) :
    s.wp (agGet g.blockSize ag) post failed := by
  obtain ⟨header, holds⟩ := ledger.books.ag bound
  unfold agGet
  rw [wp_bind, wp_sb]
  rw [agBlockOf_eq ledger.super, wp_bind]
  refine Shadow.wp_get (.inl (ledger.firm bound)) ?_ ?_
  · intro fresh _
    rw [wp_bind, Shadow.wp_load (Multiset.mem_cons_self _ _), Shadow.pin_view, holds.shown]
    simp only [holds.blockNo, holds.sealed, beq_self_eq_true, Bool.and_self,
      Bool.not_true, Bool.and_false, Bool.false_eq_true, if_false]
    exact onSuccess header holds
  · intro code cause defined
    refine onFailure code (.inr ⟨cause.resolve_left ?_, defined⟩)
    have inside := layout.agBlock_lt bound
    have size := ledger.size
    omega

/-- A bitmap block rewritten, and the superblock's count with it. -/
def Shadow.remapped (s : Shadow) (agBlock : Nat) (image : Block) (freeBlocks : Nat) : Shadow :=
  { ((((s.pin agBlock).stored agBlock image).joined agBlock).unpin agBlock)
    with sb := { s.sb with freeBlocks := freeBlocks } }

section Remapped

variable {agBlock free : Nat} {image : Block}

theorem Shadow.remapped_pins : (s.remapped agBlock image free).pins = s.pins :=
  Multiset.erase_cons_head ..

theorem Shadow.remapped_view :
    (s.remapped agBlock image free).view =
      Function.update s.view agBlock image :=
  rfl

theorem Shadow.remapped_txn :
    (s.remapped agBlock image free).txn =
      if agBlock ∈ s.txn then s.txn else s.txn ++ [agBlock] :=
  rfl

theorem Shadow.remapped_shape :
    (s.remapped agBlock image free).shape =
      (s.shape.1, s.shape.2.1, { s.sb with freeBlocks := free }) := by
  unfold Shadow.remapped
  rw [Shadow.shape_of_sb, Shadow.unpin_shape, Shadow.joined_shape,
    Shadow.stored_shape, Shadow.pin_shape]

theorem Shadow.remapped_sb :
    (s.remapped agBlock image free).sb =
      { s.sb with freeBlocks := free } :=
  rfl

theorem Shadow.remapped_fixed :
    (s.remapped agBlock image free).bs = s.bs ∧
      (s.remapped agBlock image free).nBlocks = s.nBlocks ∧
      (s.remapped agBlock image free).inTxn = s.inTxn := by
  have shape := @Shadow.remapped_shape s agBlock free image
  simp only [Shadow.shape, Prod.mk.injEq] at shape
  exact ⟨shape.1.1, shape.1.2.1, shape.2.1⟩

end Remapped

theorem Ledger.remapped {taken' : Set Nat} {image : Block} {free : Nat}
    (ledger : Ledger g s taken held) (bound : ag < g.agCount) (stillTaken : held ⊆ taken')
    (books : Books g (Function.update s.view (g.agBlock ag) image) free taken') :
    Ledger g (s.remapped (g.agBlock ag) image free) taken' held where
  size := by
    rw [Shadow.remapped_fixed.2.1]
    exact ledger.size
  inside := Shadow.remapped_fixed.2.2.trans ledger.inside
  super := by
    exact ⟨ledger.super.agFirst, ledger.super.agSize, ledger.super.agCount,
      ledger.super.backupSb, ledger.super.journalStart⟩
  books := by
    rwa [Shadow.remapped_view, Shadow.remapped_sb]
  region := fun isHeld => ⟨(ledger.region isHeld).1, stillTaken isHeld⟩
  used := by
    intro block inUse
    rw [Shadow.remapped_pins, Shadow.remapped_txn] at inUse
    rcases inUse with pinned | joined
    · exact ledger.used (.inl pinned)
    · split at joined
      · exact ledger.used (.inr joined)
      · rcases mem_append.mp joined with earlier | isHere
        · exact ledger.used (.inr earlier)
        · exact .inr ⟨ag, bound, mem_singleton.mp isHere⟩
  loose := by
    intro block isLoose
    exact ledger.loose (isLoose.1.resolve_left isLoose.2)

/-- What granting a run does to everything but the books. -/
structure Granting (g : Geometry) (run : Nat × Nat) (s after : Shadow) :
    Prop where
  bs : after.bs = s.bs
  pins : after.pins = s.pins
  txn : after.txn.length ≤ s.txn.length + 1
  loose : after.loose ⊆ s.loose
  view : ∀ {block}, ¬ g.IsAg block → block ∉ Set.Ico run.1 (run.1 + run.2) →
      after.view block = s.view block
  gone : ∀ {block}, block ∈ Set.Ico run.1 (run.1 + run.2) →
      block ∈ after.absent ∧ block ∉ after.loose

/-- What dropping the blocks of a run does. -/
structure Shadow.Drops (s after : Shadow) (start count : Nat) : Prop where
  bs : after.bs = s.bs
  pins : after.pins = s.pins
  txn : after.txn = s.txn
  loose : after.loose ⊆ s.loose
  absent : s.absent ⊆ after.absent
  view : ∀ {block}, block ∉ Set.Ico start (start + count) → after.view block = s.view block
  gone : ∀ {block}, block ∈ Set.Ico start (start + count) →
      block ∈ after.absent ∧ block ∉ after.loose

theorem Shadow.Drops.cons {image : Block}
    (later : (s.dropped start image).Drops after (start + 1) count) :
    s.Drops after start (count + 1) where
  bs := later.bs
  pins := later.pins
  txn := later.txn
  loose := fun _ listed => (later.loose listed).1
  absent := fun _ listed => later.absent (.inr listed)
  view := by
    intro block outside
    rw [Set.mem_Ico] at outside
    rw [later.view (by rw [Set.mem_Ico]; omega)]
    exact update_of_ne (by omega) ..
  gone := by
    intro block listed
    rw [Set.mem_Ico] at listed
    by_cases first : block = start
    · subst first
      exact ⟨later.absent (.inl rfl), fun isLoose =>
        (later.loose isLoose).2 rfl⟩
    · exact later.gone (by rw [Set.mem_Ico]; omega)

theorem Ledger.wp_invalidateRun (ledger : Ledger g s taken held)
    (unused : ∀ {block}, start ≤ block → block < start + count → block ∉ held ∧ ¬ g.IsAg block) :
    s.wp (invalidateRun start count)
      (fun _ after => Ledger g after taken held ∧ s.Drops after start count)
      failed := by
  induction count generalizing s start with
  | zero =>
    refine ⟨ledger, rfl, rfl, rfl, subset_rfl, subset_rfl, fun _ => rfl, ?_⟩
    intro block listed
    rw [Set.mem_Ico] at listed
    omega
  | succ count ih =>
    obtain ⟨notHeld, notAg⟩ := unused (Nat.le_refl start) (by omega)
    have free : start ∉ s.pins ∧ start ∉ s.txn := not_or.mp fun inUse =>
      (ledger.used inUse).elim notHeld notAg
    unfold invalidateRun
    rw [wp_bind]
    refine Shadow.wp_invalidate free fun image _ => ?_
    refine wp_imp (ih ?_ fun lower upper => unused (by omega) (by omega)) ?_
    · refine { ledger with
        books := ledger.books.of_same fun ag bound => ?_
        loose := fun isLoose => ledger.loose isLoose.1 }
      exact update_of_ne (fun same => notAg ⟨ag, bound, same.symm⟩) ..
    · rintro _ after ⟨later, drops⟩
      exact ⟨later, drops.cons⟩

/-- A free run, as `carafs_alloc_extent` reports it. -/
def Grants (g : Geometry) (taken : Set Nat) (want : Nat) (run : Nat × Nat) : Prop :=
  ∃ ag rel, Grantable g taken ag rel run.2 ∧ run.1 = g.agBlock ag + rel ∧ run.2 ≤ want

def grantedTo (taken : Set Nat) (run : Nat × Nat) : Set Nat :=
  taken ∪ Set.Ico run.1 (run.1 + run.2)

theorem Grants.free {block : Nat} (grants : Grants g taken want run)
    (listed : block ∈ Set.Ico run.1 (run.1 + run.2)) : g.Data block ∧ block ∉ taken := by
  obtain ⟨ag, rel, grant, isStart, -⟩ := grants
  obtain ⟨lower, upper⟩ := listed
  have free := grant.free (i := block - g.agBlock ag) (by omega) (by omega)
  have place : g.agBlock ag + (block - g.agBlock ag) = block := by omega
  have isData := Layout.data_of_free free
  obtain ⟨-, -, -, notTaken⟩ := Geometry.mem_freeIn.mp free
  rw [place] at isData notTaken
  exact ⟨isData, notTaken⟩

theorem AgHolds.grantable {image : Block} {rel : Nat}
    (holds : AgHolds g image taken ag header) (bound : ag < g.agCount) (wanted : 1 ≤ want)
    (found : findFree header.bits g.agSize header.rotor = some rel) :
    Grantable g taken ag rel
        (runLength header.bits g.agSize rel want want 1) ∧
      runLength header.bits g.agSize rel want want 1 ≤ want := by
  obtain ⟨inside, clear⟩ := findFree_clear found
  have first : ClearRun header.bits g.agSize rel 1 := by
    refine ⟨by omega, fun i lower upper => ?_⟩
    rwa [show i = rel by omega]
  obtain ⟨run, atLeast, atMost⟩ := @runLength_clear _ _ _ want want 1 first
  refine ⟨⟨bound, atLeast, run.inside, fun {i} lower upper => ?_⟩, by omega⟩
  have room := run.inside
  exact (holds.bits (by omega)).mp (run.clear i lower upper)

/-- What a granted run means for the shadow. -/
def Shadow.Allocates (g : Geometry) (taken held : Set Nat) (want : Nat)
    (s : Shadow) (run : Nat × Nat) (after : Shadow) : Prop :=
  Grants g taken want run ∧ Ledger g after (grantedTo taken run) held ∧ Granting g run s after

theorem Granting.of_drops {image : Block} {free : Nat} (bound : ag < g.agCount)
    (drops : (s.remapped (g.agBlock ag) image free).Drops after run.1 run.2) :
    Granting g run s after where
  bs := drops.bs.trans Shadow.remapped_fixed.1
  pins := drops.pins.trans Shadow.remapped_pins
  txn := by
    rw [drops.txn, Shadow.remapped_txn]
    split
    · omega
    · rw [length_append, length_singleton]
  loose := by
    intro block listed
    have isLoose := drops.loose listed
    exact isLoose.1.resolve_left isLoose.2
  view := by
    intro block notAg outside
    rw [drops.view outside]
    exact update_of_ne (fun same => notAg ⟨ag, bound, same⟩) ..
  gone := drops.gone

theorem Shadow.Agrees.allocates (same : s.Agrees mid)
    (allocates : mid.Allocates g taken held want run after) :
    s.Allocates g taken held want run after := by
  rw [same] at allocates
  obtain ⟨grants, ledger, granting⟩ := allocates
  exact ⟨grants, ledger, { granting with }⟩

/-- A group grants a run, or has no free block. -/
theorem Ledger.wp_agTryAlloc (ledger : Ledger g s taken held) (layout : Layout g)
    (bound : ag < g.agCount) (wanted : 1 ≤ want) :
    s.wp (agTryAlloc g.blockSize ag want) (s.Allocates g taken held want)
      (fun code after =>
        s.NoRoom code ∨
          code = .enotfound ∧ s.Agrees after ∧ g.freeIn taken ag = ∅) := by
  unfold agTryAlloc
  rw [wp_bind]
  refine ledger.wp_agGet layout bound ?_ fun _ noRoom => .inl noRoom
  intro header holds
  have size : s.sb.agSizeBlocks = g.agSize := ledger.super.agSize
  rw [wp_bind, wp_sb]
  rw [agBlockOf_eq (show SbOf g (s.pin (g.agBlock ag)).sb from ledger.super)]
  by_cases noneFree : header.freeCount = 0
  · rw [if_pos noneFree, Shadow.wp_release]
    refine .inr ⟨rfl, s.unpin_pin _, ?_⟩
    rw [← Finset.card_eq_zero, ← holds.count, noneFree]
  · rw [if_neg noneFree]
    cases found : findFree header.bits (s.pin (g.agBlock ag)).sb.agSizeBlocks header.rotor with
    | none =>
      -- A count that is not zero has a clear bit to show for it.
      have isFree : 0 < (g.freeIn taken ag).card := by
        rw [← holds.count]
        omega
      obtain ⟨i, free⟩ := Finset.card_pos.mp isFree
      have inside := (Geometry.mem_freeIn.mp free).1
      have clear := (holds.bits inside).mpr free
      rw [findFree_full found (show i < s.sb.agSizeBlocks by omega)] at clear
      cases clear
    | some rel =>
      have isFound : findFree header.bits g.agSize header.rotor = some rel := size ▸ found
      obtain ⟨grant, few⟩ := holds.grantable bound wanted isFound
      have pinned : g.agBlock ag ∈ (s.pin (g.agBlock ag)).pins := Multiset.mem_cons_self ..
      have sameLength : runLength header.bits (s.pin (g.agBlock ag)).sb.agSizeBlocks rel
              want want 1 = runLength header.bits g.agSize rel want want 1 :=
        congrArg (runLength header.bits · rel want want 1) size
      have sameHeader (got : Nat) : header.granted (s.pin (g.agBlock ag)).sb.agSizeBlocks rel got =
            header.granted g.agSize rel got :=
        congrArg (header.granted · rel got) size
      dsimp only
      rw [sameLength, sameHeader]
      generalize isGot : runLength header.bits g.agSize rel want want 1 = got at grant few
      have grants : Grants g taken want (g.agBlock ag + rel, got) := ⟨ag, rel, grant, rfl, few⟩
      rw [wp_bind, wp_store pinned, wp_bind]
      refine Shadow.wp_joinPut pinned ledger.inside ?_ ?_
      · intro _
        have remapped := ledger.remapped bound (fun _ isHeld => .inl (ledger.region isHeld).2)
          (ledger.books.grant layout grant holds (update_self ..)
            fun _ other => update_of_ne other ..)
        rw [wp_bind, wp_setSb, wp_bind]
        refine wp_imp (remapped.wp_invalidateRun ?_) ?_
        · intro block lower upper
          obtain ⟨isData, notTaken⟩ := grants.free ⟨lower, upper⟩
          exact ⟨fun isHeld => notTaken (ledger.region isHeld).2, isData.notAg⟩
        · rintro _ after ⟨later, drops⟩
          rw [Shadow.wp_pure]
          exact ⟨grants, later, .of_drops bound drops⟩
      · intro _ full
        exact .inl (.inl ⟨rfl, full⟩)

/-- What `carafs_alloc_extent` leaves when it grants nothing. -/
def NotGranted (g : Geometry) (taken : Set Nat) (want : Nat) (s : Shadow)
    (code : Err) (after : Shadow) : Prop :=
  s.NoRoom code ∨ s.Agrees after ∧ (code = .enomem ∧ (∀ ag < g.agCount, g.freeIn taken ag = ∅) ∨
        code = .einval ∧ want = 0)

theorem Ledger.wp_allocFrom {ag0 remaining i : Nat}
    (ledger : Ledger g s taken held) (numbered : Numbered g) (wanted : 1 ≤ want)
    (start : ag0 < g.agCount) (same : s.Agrees mid) (counts : remaining + i = g.agCount)
    (full : ∀ j < i, g.freeIn taken ((ag0 + j) % g.agCount) = ∅) :
    mid.wp (allocFrom g.blockSize want ag0 g.agCount remaining i)
      (s.Allocates g taken held want) (NotGranted g taken want s) := by
  induction remaining generalizing mid i with
  | zero =>
    refine .inr ⟨same, .inl ⟨rfl, fun ag bound => ?_⟩⟩
    rw [Nat.zero_add] at counts
    subst counts
    by_cases behind : ag0 ≤ ag
    · have empty := full (ag - ag0) (by omega)
      rwa [Nat.add_sub_cancel' behind, Nat.mod_eq_of_lt bound] at empty
    · have empty := full (ag + g.agCount - ag0) (by omega)
      rwa [show ag0 + (ag + g.agCount - ag0) = ag + g.agCount by omega,
        Nat.add_mod_right, Nat.mod_eq_of_lt bound] at empty
  | succ remaining ih =>
    have groups := numbered.groups
    have isAg : (ag0 + i) % 2 ^ 32 % g.agCount = (ag0 + i) % g.agCount := by
      rw [Nat.mod_eq_of_lt (show ag0 + i < 2 ^ 32 by omega)]
    unfold allocFrom
    rw [isAg, wp_bind, Shadow.wp_attempt]
    refine wp_mono ((ledger.of_agrees same).wp_agTryAlloc
      numbered.toLayout (Nat.mod_lt _ (by omega)) wanted) ?_ ?_
    · intro run after allocates
      exact same.allocates allocates
    · rintro code after (noRoom | ⟨rfl, sameAgain, empty⟩)
      · have noRoom := same.noRoom noRoom
        obtain ⟨rfl, _⟩ | ⟨_, rfl | rfl⟩ := id noRoom
        · exact .inl noRoom
        · exact .inl noRoom
        · exact .inl noRoom
      · refine ih (same.trans sameAgain) (by omega) ?_
        intro j below
        by_cases here : j = i
        · rwa [here]
        · exact full j (by omega)

/-- Without a shortage, only a full volume or an empty request is refused. -/
theorem Ledger.wp_allocExtent
    (ledger : Ledger g s taken held) (numbered : Numbered g) (hint want : Nat) :
    s.wp (allocExtent g.blockSize hint want)
      (s.Allocates g taken held want) (NotGranted g taken want s) := by
  have layout := numbered.toLayout
  have groups := numbered.groups
  unfold allocExtent
  by_cases nothing : want = 0
  · rw [if_pos nothing]
    exact .inr ⟨rfl, .inr ⟨rfl, nothing⟩⟩
  · rw [if_neg nothing, wp_bind, wp_sb, ledger.super.agFirst,
      ledger.super.agSize, ledger.super.agCount, ledger.super.backupSb]
    refine ledger.wp_allocFrom numbered (by omega) ?_ rfl rfl
      fun j below => absurd below (Nat.not_lt_zero j)
    split
    · rename_i inRegion
      have bound := layout.ag_lt inRegion.1 inRegion.2
      rwa [Nat.mod_eq_of_lt (by omega)]
    · exact (Nat.zero_le _).trans_lt (layout.ag_lt (Nat.le_refl g.agFirst)
        (by have := layout.room; omega))

/-- The run can be released. -/
structure Freeable (g : Geometry) (taken : Set Nat) (start count : Nat) :
    Prop where
  some : 1 ≤ count
  place : ∃ ag rel, Placed g start count ag rel
  allTaken : Set.Ico start (start + count) ⊆ taken

theorem AgHolds.all_set_iff {image : Block} {rel : Nat} (holds : AgHolds g image taken ag header)
    (placed : Placed g start count ag rel) :
    ((List.range count).all fun i => header.bits.testBit (rel + i)) = true ↔
      Set.Ico start (start + count) ⊆ taken := by
  have place := placed.place
  have inside := placed.inside
  have region := placed.region
  have notFirst := placed.notFirst
  rw [all_eq_true]
  constructor
  · intro allSet block listed
    obtain ⟨lower, upper⟩ := listed
    have isSet := allSet (block - start) (mem_range.mpr (by omega))
    by_contra free
    have clear := (holds.bits (i := rel + (block - start)) (by omega)).mpr
      (Geometry.mem_freeIn.mpr ⟨by omega, by omega, by omega, by
        rwa [show g.agBlock ag + (rel + (block - start)) = block by omega]⟩)
    rw [isSet] at clear
    cases clear
  · intro allTaken i listed
    have bound := mem_range.mp listed
    by_contra clear
    have free := (holds.bits (i := rel + i) (by omega)).mp (by simpa using clear)
    obtain ⟨-, -, -, notTaken⟩ := Geometry.mem_freeIn.mp free
    exact notTaken (allTaken ⟨by omega, by omega⟩)

/-- A run is freed if all of it is taken, in one group. -/
theorem Ledger.wp_freeExtent (ledger : Ledger g s taken held) (numbered : Numbered g)
    (notHeld : Disjoint (Set.Ico start (start + count)) held)
    (below : start + count < 2 ^ 64) (short : count < 2 ^ 31) :
    s.wp (freeExtent g.blockSize start count)
      (fun _ after =>
        Freeable g taken start count ∧
          Ledger g after (taken \ Set.Ico start (start + count)) held ∧
          after.pins = s.pins)
      (fun code after =>
        s.NoRoom code ∨
          code = .einval ∧ s.Agrees after ∧
            ¬ Freeable g taken start count) := by
  have layout := numbered.toLayout
  have groups := numbered.groups
  have places := numbered.places
  unfold freeExtent
  rw [wp_bind, wp_sb, ledger.super.agFirst,
    ledger.super.backupSb, ledger.super.agSize, Nat.mod_eq_of_lt below]
  by_cases refused : count = 0 ∨ start < g.agFirst ∨ g.backupSb < start + count
  · rw [if_pos refused]
    refine .inr ⟨rfl, rfl, ?_⟩
    rintro ⟨some, ⟨ag, rel, placed⟩, -⟩
    have place := placed.place
    have region := placed.region
    unfold Geometry.agBlock at place
    omega
  · rw [if_neg refused]
    have bound : (start - g.agFirst) / g.agSize < g.agCount := layout.ag_lt (by omega) (by omega)
    obtain ⟨small, place⟩ := @Layout.agBlock_split g layout start (by omega)
    dsimp only
    rw [Nat.mod_eq_of_lt (show (start - g.agFirst) / g.agSize < 2 ^ 32 by
      omega), agBlockOf_eq ledger.super]
    generalize isAg : (start - g.agFirst) / g.agSize = ag at bound place
    generalize (start - g.agFirst) % g.agSize = rel at place small
    have isRel : (start + 2 ^ 64 - g.agBlock ag) % 2 ^ 32 = rel := by omega
    rw [isRel, Nat.mod_eq_of_lt (show rel + count < 2 ^ 32 by omega)]
    by_cases crosses : rel = 0 ∨ g.agSize < rel + count
    · rw [if_pos crosses]
      refine .inr ⟨rfl, rfl, ?_⟩
      rintro ⟨some, ⟨other, otherRel, placed⟩, -⟩
      have sameAg : other = ag := placed.isAg.trans isAg
      subst sameAg
      have := placed.place
      have := placed.notFirst
      have := placed.inside
      omega
    · rw [if_neg crosses, wp_bind]
      have placed : Placed g start count ag rel :=
        ⟨isAg.symm, bound, place, by omega, by omega, by omega⟩
      refine ledger.wp_agGet layout bound ?_ fun _ noRoom => .inl noRoom
      intro header holds
      have pinned : g.agBlock ag ∈ (s.pin (g.agBlock ag)).pins := Multiset.mem_cons_self ..
      by_cases allTaken : Set.Ico start (start + count) ⊆ taken
      · rw [if_pos ((holds.all_set_iff placed).mpr allTaken), wp_bind, wp_store pinned, wp_bind]
        refine Shadow.wp_joinPut pinned ledger.inside ?_ ?_
        · intro _
          have remapped := ledger.remapped bound (fun _ isHeld => show _ ∧ _ from
              ⟨(ledger.region isHeld).2, fun listed =>
                Set.disjoint_left.mp notHeld listed isHeld⟩)
            (ledger.books.release layout placed allTaken holds (update_self ..)
              fun _ other => update_of_ne other ..)
          rw [wp_bind, wp_sb, wp_setSb]
          exact ⟨⟨by omega, ⟨ag, rel, placed⟩, allTaken⟩, remapped, Shadow.remapped_pins⟩
        · intro _ full
          exact .inl (.inl ⟨rfl, full⟩)
      · rw [if_neg (mt (holds.all_set_iff placed).mp allTaken), Shadow.wp_release]
        exact .inr ⟨rfl, s.unpin_pin _, fun freeable =>
          allTaken freeable.allTaken⟩

end Calls

end CaraOS.Carafs
