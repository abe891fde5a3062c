import CaraOS.Carafs.Replay
import CaraOS.Carafs.ShadowSim

namespace CaraOS.Carafs

/-!
# A mount between two operations

Between two operations no block is pinned and no transaction is open.  What the
volume holds is then the view: the cached image of a block, or its home image.
Committing a transaction writes blocks home and fills the log, but changes the
view of no block outside the journal region.
-/

open List
open Action (wp wp_and wp_bind wp_modify wp_mono wp_read)

/-! ## Views -/

variable {homes : List (Nat × Ent)} {selected : Ent → Bool} {writes : List (Nat × Block)}

namespace CacheState

/-- The image of a block, wherever it is kept. -/
def view (c : CacheState) (block : Nat) : Block :=
  match c.table block with
  | some e => e.data
  | none => c.disk block

section View

variable {c : CacheState} {block : Nat}

theorem view_of_cached {e : Ent} (cached : c.table block = some e) : c.view block = e.data := by
  unfold view
  rw [cached]

theorem view_of_absent (absent : c.table block = none) : c.view block = c.disk block := by
  unfold view
  rw [absent]

/-- Clean cached images are the home images. -/
def Coherent (c : CacheState) (block : Nat) : Prop :=
  ∀ e, c.table block = some e → e.dirty = false → e.data = c.disk block

theorem homeAll_view (listed : SomeHomes c selected homes) : (c.homeAll homes).view = c.view := by
  funext block
  rcases homeAll_table_iff listed block with
    ⟨-, sameTable, sameDisk⟩ | ⟨e, -, cached, -, cleaned, -⟩
  · unfold view
    rw [sameTable, sameDisk]
  · rw [view_of_cached cleaned, view_of_cached cached]

theorem homeAll_coherent (listed : SomeHomes c selected homes) (coherent : c.Coherent block) :
    (c.homeAll homes).Coherent block := by
  intro e' cached' clean
  rcases homeAll_table_iff listed block with
    ⟨-, sameTable, sameDisk⟩ | ⟨e, -, cached, -, cleaned, home⟩
  · rw [sameTable] at cached'
    rw [sameDisk]
    exact coherent e' cached' clean
  · rw [cleaned, Option.some.injEq] at cached'
    rw [← cached', home]

theorem writeAll_view (elsewhere : block ∉ writes.map Prod.fst) :
    (c.writeAll writes).view block = c.view block := by
  have sameDisk : (c.writeAll writes).disk block = c.disk block :=
    Redo.applyAll_of_not_mem elsewhere
  have sameTable : (c.writeAll writes).table = c.table := rfl
  unfold view
  rw [sameTable, sameDisk]

theorem writeAll_coherent (elsewhere : block ∉ writes.map Prod.fst) (coherent : c.Coherent block) :
    (c.writeAll writes).Coherent block := by
  have sameDisk : (c.writeAll writes).disk block = c.disk block :=
    Redo.applyAll_of_not_mem elsewhere
  intro e cached clean
  rw [sameDisk]
  exact coherent e cached clean

theorem write_eq_writeAll (place : Nat) (image : Block) :
    c.write place image = c.writeAll [(place, image)] := by
  rw [writeAll_cons, writeAll_nil]

theorem release_view (blocks : List Nat) : (c.release blocks).view = c.view := by
  funext block
  unfold view release
  dsimp only
  split_ifs
  · cases c.table block <;> rfl
  · rfl

theorem release_coherent (blocks : List Nat) (coherent : c.Coherent block) :
    (c.release blocks).Coherent block := by
  intro e' cached clean
  have shape : (c.release blocks).table block =
      if block ∈ blocks then
        (c.table block).map fun e => { e with txn := false }
      else
        c.table block := rfl
  rw [shape] at cached
  split_ifs at cached
  · obtain ⟨e, found, rfl⟩ := Option.map_eq_some_iff.mp cached
    exact coherent e found clean
  · exact coherent e' cached clean

end View

end CacheState

/-- The image of a block of a mounted volume. -/
def Mount.view (m : Mount) : Nat → Block :=
  m.state.view

/-! ## Steady mounts -/

/-- A mount without what operations change besides the cache. -/
def Mount.strip (m : Mount) : Mount :=
  { m with
    sb := zeroSb
    sbAtTxn := zeroSb
    inTxn := false
    txnBlocks := []
    jHead := 0
    jHeadSeq := 0
    jTail := 0
    jNextSeq := 0
    statCheckpoints := 0
    ticks := 0 }

/-- What no operation changes: the device, the cache size and the layout. -/
def Mount.fixed (m : Mount) : Mount :=
  m.frame.strip

/--
No block is pinned and the cache agrees with a healthy device, the lax blocks
apart: a block may have been freed while its cached image was under edit.
-/
structure Rests (lax : Set Nat) (m : Mount) : Prop where
  wf : TxnWf m
  healthy : Healthy m
  unpinned : ∀ {block e}, m.lookup block = some e → e.pins = 0
  coherent : ∀ {block}, ¬ InJournal m block → block ∉ lax → m.state.Coherent block
  room : cacheMinBlocks ≤ m.ents.length
  start : 1 ≤ m.sb.journalStart
  large : txnMaxBlocks + 2 ≤ m.jLogBlocks
  inside : m.sb.journalStart + m.jLogBlocks < m.bdev.nBlocks
  head : 1 ≤ m.jHead ∧ m.jHead ≤ m.jLogBlocks
  tail : 1 ≤ m.jTail ∧ m.jTail ≤ m.jLogBlocks

/-- No block is pinned and the cache agrees with a healthy device. -/
abbrev Steady (m : Mount) : Prop :=
  Rests ∅ m

/-- The mount shows the same volume as before, up to the log. -/
structure Settles (lax : Set Nat) (m after : Mount) : Prop where
  steady : Rests lax after
  fixed : after.fixed = m.fixed
  sb : after.sb = m.sb
  view : ∀ {block}, ¬ InJournal m block → after.view block = m.view block

variable {looser : Set Nat}

section Steady

variable {lax : Set Nat} {m mid after : Mount}

theorem inJournal_congr (fixed : after.fixed = m.fixed) (sb : after.sb = m.sb) (block : Nat) :
    InJournal after block ↔ InJournal m block := by
  have sameLog : after.jLogBlocks = m.jLogBlocks := (congrArg Mount.jLogBlocks fixed :)
  unfold InJournal
  rw [sb, sameLog]

theorem Rests.mono (steady : Rests lax m)
    (more : ∀ {block}, ¬ InJournal m block → block ∈ lax → block ∈ looser) : Rests looser m :=
  { steady with
    coherent := fun outside strict =>
      steady.coherent outside fun listed => strict (more outside listed) }

theorem Settles.trans (first : Settles lax m mid) (second : Settles lax mid after) :
    Settles lax m after where
  steady := second.steady
  fixed := second.fixed.trans first.fixed
  sb := second.sb.trans first.sb
  view := by
    intro block outside
    have midOutside : ¬ InJournal mid block := fun inside =>
      outside ((inJournal_congr first.fixed first.sb block).mp inside)
    rw [second.view midOutside, first.view outside]

theorem Rests.move (steady : Rests lax m) (wf : TxnWf after)
    (fixed : after.fixed = m.fixed) (start : after.sb.journalStart = m.sb.journalStart)
    (head : 1 ≤ after.jHead ∧ after.jHead ≤ m.jLogBlocks)
    (tail : 1 ≤ after.jTail ∧ after.jTail ≤ m.jLogBlocks)
    (unpinned : ∀ {block e}, after.lookup block = some e → e.pins = 0)
    (coherent : ∀ {block}, ¬ InJournal after block → block ∉ looser →
      after.state.Coherent block) : Rests looser after := by
  have sameLog : after.jLogBlocks = m.jLogBlocks := (congrArg Mount.jLogBlocks fixed :)
  have sameSize : after.bdev.nBlocks = m.bdev.nBlocks :=
    (congrArg (fun mount => mount.bdev.nBlocks) fixed :)
  have sameRoom : after.ents.length = m.ents.length := by
    have lengths := congrArg (fun mount => mount.ents.length) fixed
    simpa [Mount.fixed, Mount.frame, Mount.strip] using lengths
  exact {
    wf := wf
    healthy := fun call =>
      (congrArg (fun mount => mount.bdev.fault call) fixed :).trans (steady.healthy call)
    unpinned := unpinned
    coherent := coherent
    room := sameRoom ▸ steady.room
    start := start ▸ steady.start
    large := sameLog ▸ steady.large
    inside := by rw [start, sameLog, sameSize]; exact steady.inside
    head := sameLog ▸ head
    tail := sameLog ▸ tail }

theorem Rests.step {via : Mount} {c : CacheState} (steady : Rests lax m)
    (follows : Follows via after) (wf : TxnWf after) (sameState : after.state = c)
    (fixed : via.fixed = m.fixed) (sb : via.sb = m.sb)
    (head : 1 ≤ via.jHead ∧ via.jHead ≤ m.jLogBlocks)
    (tail : 1 ≤ via.jTail ∧ via.jTail ≤ m.jLogBlocks)
    (unpinned : ∀ {block e}, c.table block = some e → e.pins = 0)
    (coherent : ∀ {block}, ¬ InJournal m block → block ∉ lax → c.Coherent block)
    (view : ∀ {block}, ¬ InJournal m block → c.view block = m.view block) :
    Settles lax m after := by
  subst sameState
  have frame := follows.frame
  have fixed : after.fixed = m.fixed := (congrArg Mount.strip frame :).trans fixed
  have sb := follows.sb.trans sb
  have sameHead : after.jHead = via.jHead := (congrArg Mount.jHead frame :)
  have sameTail : after.jTail = via.jTail := (congrArg Mount.jTail frame :)
  refine ⟨steady.move wf fixed (by rw [sb]) (sameHead ▸ head) (sameTail ▸ tail) unpinned
    fun outside => coherent fun inside => ?_, fixed, sb, view⟩
  exact outside ((inJournal_congr fixed sb _).mpr inside)

theorem homeAll_unpinned {c : CacheState}
    (unpinned : ∀ {block e}, c.table block = some e → e.pins = 0)
    (listed : SomeHomes c selected homes) {block : Nat} {e : Ent}
    (cached : (c.homeAll homes).table block = some e) : e.pins = 0 := by
  rcases CacheState.homeAll_table_iff listed block with
    ⟨-, sameTable, -⟩ | ⟨e', -, before, -, cleaned, -⟩
  · exact unpinned (sameTable ▸ cached)
  · rw [cleaned, Option.some.injEq] at cached
    have noPins := unpinned before
    rwa [← cached]

/-- A checkpoint leaves the volume as it reads. -/
theorem wp_checkpoint_settles (steady : Rests lax m) :
    wp journalCheckpoint (fun _ after => Settles lax m after ∧ after.inTxn = m.inTxn)
      (fun _ _ => False) m := by
  refine wp_mono (wp_and (wp_journalCheckpoint steady.wf.toCacheWf)
      (checkpoint_keeps steady.wf)) ?_ ?_
  · rintro _ after ⟨⟨follows, homes, all, sameState⟩, wf⟩
    have jsb : m.sb.journalStart ∈ {block | InJournal m block} :=
      ⟨Nat.le_refl _, Nat.le_add_right _ _⟩
    have elsewhere {block : Nat} (outside : ¬ InJournal m block) (image : Block) :
        block ∉ [(m.sb.journalStart, image)].map Prod.fst := by
      simp only [map_cons, map_nil, mem_singleton]
      rintro rfl
      exact outside jsb
    refine ⟨steady.step follows wf sameState rfl rfl steady.tail steady.tail ?_ ?_ ?_,
      follows.inTxn⟩
    · intro block e cached
      exact homeAll_unpinned steady.unpinned all.toSomeHomes cached
    · intro block outside strict
      have home := CacheState.homeAll_coherent all.toSomeHomes (steady.coherent outside strict)
      rw [CacheState.write_eq_writeAll]
      exact CacheState.writeAll_coherent
        (c := (m.state.homeAll homes).flush) (elsewhere outside _) home
    · intro block outside
      unfold Mount.view
      rw [CacheState.write_eq_writeAll, ← CacheState.homeAll_view all.toSomeHomes]
      exact CacheState.writeAll_view (c := (m.state.homeAll homes).flush) (elsewhere outside _)
  · rintro code after ⟨⟨faulty, -⟩, -⟩
    refine faulty ⟨steady.healthy, ?_⟩
    have := steady.inside
    omega

theorem wp_writebackData_settles (steady : Rests lax m) :
    wp writebackData (fun _ after => Settles lax m after) (fun _ _ => False) m := by
  refine wp_mono (wp_and (wp_writebackData steady.wf.toCacheWf)
      (writebackData_keeps steady.wf)) ?_ ?_
  · rintro _ after ⟨⟨follows, homes, all, sameState⟩, wf⟩
    split at sameState
    · exact steady.step follows wf sameState rfl rfl steady.head steady.tail steady.unpinned
        steady.coherent fun _ => rfl
    · refine steady.step follows wf sameState rfl rfl steady.head steady.tail
        (homeAll_unpinned steady.unpinned all.toSomeHomes) (fun outside strict => ?_)
        fun _ => congrFun (CacheState.homeAll_view all.toSomeHomes) _
      exact CacheState.homeAll_coherent all.toSomeHomes (steady.coherent outside strict)
  · rintro code after ⟨⟨faulty, -⟩, -⟩
    exact faulty steady.healthy

theorem txnRecord_inJournal (tail : 1 ≤ m.jTail ∧ m.jTail ≤ m.jLogBlocks) {place : Nat}
    (listed : place ∈ m.txnRecord.map Prod.fst) : InJournal m place := by
  rw [txnRecord_places tail.1 tail.2] at listed
  obtain ⟨off, offListed, rfl⟩ := mem_map.mp listed
  obtain ⟨k, -, rfl⟩ := mem_map.mp offListed
  obtain ⟨lower, upper⟩ := LogView.jAdv_bounds tail.1 tail.2 k
  unfold InJournal jPhys
  omega

theorem wp_writeTxn_settles (steady : Rests lax m) :
    wp journalWriteTxn (fun _ after => Settles lax m after) (fun _ _ => False) m := by
  refine wp_mono (wp_and (wp_journalWriteTxn steady.wf.toCacheWf steady.wf.cached)
      (writeTxn_keeps steady.wf)) ?_ ?_
  · rintro _ after ⟨⟨follows, sameState⟩, wf⟩
    refine steady.step follows wf sameState rfl rfl steady.head
      (LogView.jAdv_bounds steady.tail.1 steady.tail.2 _) steady.unpinned ?_ ?_
    · intro block outside strict
      exact CacheState.writeAll_coherent
        (fun listed => outside (txnRecord_inJournal steady.tail listed))
        (steady.coherent outside strict)
    · intro block outside
      exact CacheState.writeAll_view (c := m.state)
        (fun listed => outside (txnRecord_inJournal steady.tail listed))
  · rintro code after ⟨⟨faulty, -⟩, -⟩
    refine faulty ⟨steady.healthy, ?_, ?_⟩
    · have := steady.inside
      have := steady.tail
      unfold jPhys
      omega
    · intro k
      have := steady.inside
      have := LogView.jAdv_bounds steady.tail.1 steady.tail.2 k
      unfold jPhys
      omega

/-- So does a commit. -/
theorem wp_commit_settles (steady : Rests lax m) :
    wp txnCommit
      (fun _ after => Settles lax m after ∧ after.inTxn = false)
      (fun _ _ => False)
      m := by
  unfold txnCommit
  rw [wp_bind]
  refine wp_mono (wp_writebackData_settles steady) ?_ nofun
  intro _ home toHome
  rw [wp_bind]
  have logged : wp journalAppend (fun _ after => Settles lax m after) (fun _ _ => False) home := by
    have large := toHome.steady.large
    have bounded := toHome.steady.wf.bounded
    refine wp_journalAppend (fun tooLarge => by omega) (fun _ _ => ?_) (fun _ _ => ?_)
    · exact wp_mono (wp_writeTxn_settles toHome.steady) (fun _ _ settled => toHome.trans settled)
        nofun
    · refine wp_mono (wp_checkpoint_settles toHome.steady) ?_ nofun
      rintro _ mid ⟨toMid, -⟩
      exact wp_mono (wp_writeTxn_settles toMid.steady)
        (fun _ _ settled => (toHome.trans toMid).trans settled) nofun
  refine wp_mono logged ?_ nofun
  intro _ mid toMid
  have steadyMid := toMid.steady
  rw [wp_bind, wp_modify, wp_bind, Action.wp_attempt]
  obtain ⟨follows, sameState⟩ := txnRelease_follows steadyMid.wf.toCacheWf
  have idle : (txnRelease mid).inTxn = false := rfl
  have released : Settles lax mid (txnRelease mid) := by
    refine steadyMid.step follows (release_keeps steadyMid.wf) sameState rfl rfl
      steadyMid.head steadyMid.tail ?_ ?_ ?_
    · intro block e cached
      dsimp only [CacheState.release] at cached
      split_ifs at cached
      · obtain ⟨e', found, rfl⟩ := Option.map_eq_some_iff.mp cached
        have noPins := steadyMid.unpinned found
        exact noPins
      · exact steadyMid.unpinned cached
    · intro block outside strict
      exact CacheState.release_coherent _ (steadyMid.coherent outside strict)
    · intro block _
      unfold Mount.view
      rw [CacheState.release_view]
  have toReleased := toMid.trans released
  unfold journalMaybeCheckpoint
  rw [wp_bind, wp_read]
  split
  · refine wp_mono (wp_checkpoint_settles released.steady) ?_ nofun
    rintro _ after ⟨checked, sameFlag⟩
    exact ⟨toReleased.trans checked, sameFlag.trans idle⟩
  · exact ⟨toReleased, idle⟩

/-! ## Steady mounts and their shadows -/

/-- The shadow of a mount at rest; nothing is known about the log. -/
def Mount.laxShadow (m : Mount) (lax : Set Nat) : Shadow where
  bs := m.blockSize
  nBlocks := m.bdev.nBlocks
  nEnts := m.ents.length
  inTxn := m.inTxn
  view := m.view
  loose := {block | InJournal m block} ∪ lax
  absent := ∅
  touched := ∅
  homed := {block | m.bdev.disk block = m.view block}
  pins := 0
  txn := m.txnBlocks
  sb := m.sb

abbrev Mount.shadow (m : Mount) : Shadow :=
  m.laxShadow ∅

/-- The blocks whose cached image is not home yet. -/
def Mount.unhomed (m : Mount) : Set Nat :=
  {block | ∃ e, m.lookup block = some e ∧ e.dirty = true}

theorem Rests.tracks (steady : Rests lax m) : Tracks m.unhomed m m (m.laxShadow lax) where
  wf := steady.wf
  healthy := steady.healthy
  core := rfl
  bs := rfl
  nBlocks := rfl
  nEnts := rfl
  inTxn := rfl
  sb := rfl
  txn := rfl
  shadows block := {
    pinned := by
      cases found : m.state.table block with
      | none =>
        rfl
      | some e =>
        exact steady.unpinned found
    absent := fun listed => listed.elim
    cached := fun cached _ => (CacheState.view_of_cached cached).symm
    home := by
      intro known clean
      show m.bdev.disk block = m.state.view block
      cases found : m.state.table block with
      | none =>
        exact (CacheState.view_of_absent found).symm
      | some e =>
        rw [CacheState.view_of_cached found]
        rw [Mount.laxShadow, Set.mem_union, not_or] at known
        exact (steady.coherent known.1 known.2 e found (clean e found)).symm
    dirty := fun cached isDirty _ => .inr ⟨_, cached, isDirty⟩
    homed := fun isHomed _ => isHomed }

/-- Nothing is pinned, and the superblock has no unsaved edit. -/
structure Shadow.Quiet (s : Shadow) : Prop where
  pins : s.pins = 0
  super : 0 ∉ s.loose

section

variable (steady : Rests lax m)
include steady

/-- A quiet shadow ends at rest. -/
theorem Tracks.settle {base : Set Nat} {s : Shadow} (tracks : Tracks base m after s)
    (sameStart : s.sb.journalStart = m.sb.journalStart) (quiet : s.Quiet) :
    Rests s.loose after ∧ after.fixed = m.fixed ∧ after.sb = s.sb ∧
      (∀ {block}, block ∉ s.loose → after.view block = s.view block) ∧
      ∀ {block}, block ∈ s.homed → block ∉ s.loose →
        after.bdev.disk block = s.view block := by
  have core := tracks.core
  have fixed : after.fixed = m.fixed := (congrArg Mount.strip core :)
  have sameHead : after.jHead = m.jHead := (congrArg Mount.jHead core :)
  have sameTail : after.jTail = m.jTail := (congrArg Mount.jTail core :)
  refine ⟨steady.move tracks.wf fixed (tracks.sb ▸ sameStart) (sameHead ▸ steady.head)
    (sameTail ▸ steady.tail) ?_ ?_, fixed, tracks.sb.symm, ?_, fun {block} => (tracks.shadows block).homed⟩
  · intro block e cached
    have counted := (tracks.shadows block).pinned
    rwa [state_table, cached, quiet.pins] at counted
  · intro block _ known e cached clean
    have isView := (tracks.shadows block).cached cached (.inl known)
    have isHome := (tracks.shadows block).home known (by
      intro e' found
      rw [cached] at found
      cases found
      exact clean)
    rw [isView, isHome]
  · intro block known
    show after.state.view block = s.view block
    cases found : after.state.table block with
    | none =>
      rw [CacheState.view_of_absent found]
      exact (tracks.shadows block).home known (by simp [found])
    | some e =>
      rw [CacheState.view_of_cached found]
      exact (tracks.shadows block).cached found (.inl known)

/-! ## Beginning an operation -/

section

variable (few : m.txnBlocks.length < cacheMinBlocks)
include few

theorem Rests.notCrowded : ¬ (m.laxShadow lax).Crowded := by
  intro crowded
  have := steady.room
  have : m.ents.length ≤ (0 : Multiset Nat).card + m.txnBlocks.length := crowded
  simp only [Multiset.card_zero] at this
  omega

theorem wp_get_steady {block : Nat} (inRange : block < m.bdev.nBlocks) :
    wp (cacheGet block .read)
      (fun _ after =>
        ∃ image,
          (¬ InJournal m block → block ∉ lax → image = m.view block) ∧
          Tracks m.unhomed m after
            (((m.laxShadow lax).see block image).pin block))
      (fun _ _ => False)
      m := by
  obtain ⟨got, gets, gotTracks⟩ := get_tracks steady.tracks block .read
  unfold wp
  cases outcome : cacheGet block .read m with
  | mk answer after =>
    rw [outcome] at gets gotTracks
    cases gets with
    | read inside kept read =>
      obtain ⟨image, isView, rfl⟩ := read
      refine ⟨image, fun outside strict => isView (.inl ?_), gotTracks⟩
      rintro (inside | listed)
      · exact outside inside
      · exact strict listed
    | fail cause =>
      rcases cause with outside | crowded
      · exact absurd inRange (Nat.not_lt.mpr outside)
      · exact absurd crowded (steady.notCrowded few)

theorem wp_sbWriteDirect_settles :
    wp sbWriteDirect
      (fun _ after =>
        Rests lax after ∧ after.fixed = m.fixed ∧ after.sb = m.sb ∧
          after.inTxn = m.inTxn ∧ after.txnBlocks = m.txnBlocks ∧
          after.view 0 = m.sbImage ∧
          ∀ {block}, ¬ InJournal m block → block ∉ lax → block ≠ 0 →
            after.view block = m.view block ∧
            (m.bdev.disk block = m.view block → after.bdev.disk block = m.view block))
      (fun _ _ => False)
      m := by
  have inRange : 0 < m.bdev.nBlocks := by
    have := steady.inside
    omega
  unfold sbWriteDirect
  rw [wp_bind]
  refine wp_mono (wp_get_steady steady few inRange) ?_ nofun
  rintro _ loaded ⟨image, -, gotTracks⟩
  have sameImage : loaded.sbImage = m.sbImage := by
    have sameSb : loaded.sb = m.sb := gotTracks.sb.symm
    have sameBs : loaded.blockSize = m.blockSize := gotTracks.bs.symm
    unfold Mount.sbImage
    rw [sameSb, sameBs]
  rw [wp_bind, wp_read, wp_bind, wp_modify, wp_bind, Action.wp_attempt, sameImage]
  let pinned := ((m.laxShadow lax).see 0 image).pin 0
  have isPinned : 0 ∈ pinned.pins := Multiset.mem_cons_self 0 (m.laxShadow lax).pins
  have storeTracks : Tracks m.unhomed m (cacheStore 0 m.sbImage loaded)
      (pinned.stored 0 m.sbImage) :=
    gotTracks.edit (.store 0 m.sbImage)
      (cacheStore_follows gotTracks.wf.toCacheWf 0 m.sbImage) rfl rfl
      (gotTracks.shadows.store 0 m.sbImage)
  let kept := cacheStore 0 m.sbImage loaded
  have keptSize : kept.bdev.nBlocks = m.bdev.nBlocks := storeTracks.nBlocks.symm
  apply wp_write
  · intro faulty
    exact absurd ⟨storeTracks.healthy, keptSize.symm ▸ inRange⟩ faulty
  · intro _
    have wrote := (Follows.refl storeTracks.wf.toCacheWf).written 0 m.sbImage
    have seen : (pinned.stored 0 m.sbImage).view 0 = m.sbImage := by
      simp
    have wroteTracks : Tracks m.unhomed m (kept.written 0 m.sbImage)
        ((pinned.stored 0 m.sbImage).fix 0) := by
      refine storeTracks.follow (storeTracks.wf.of_same rfl rfl rfl rfl rfl) wrote rfl rfl ?_
      have home := storeTracks.shadows.writeHome isPinned
      rwa [seen] at home
    rw [wp_bind, wp_modify, wp_bind, Action.wp_settle_ok]
    have putTracks : Tracks m.unhomed m (cachePut 0 (kept.written 0 m.sbImage))
        (((pinned.stored 0 m.sbImage).fix 0).unpin 0) :=
      wroteTracks.edit (.put 0) (cachePut_follows wroteTracks.wf.toCacheWf 0) rfl rfl
        (wroteTracks.shadows.unpin 0)
    let last := cachePut 0 (kept.written 0 m.sbImage)
    apply wp_flush
    · intro faulty
      exact absurd putTracks.healthy faulty
    · have flushed := (Follows.refl putTracks.wf.toCacheWf).flushed
      have endTracks : Tracks m.unhomed m last.flushed
          (((pinned.stored 0 m.sbImage).fix 0).unpin 0) := by
        refine putTracks.follow (putTracks.wf.of_same rfl rfl rfl rfl rfl) flushed rfl rfl ?_
        exact fun block => { putTracks.shadows block with }
      let final := ((pinned.stored 0 m.sbImage).fix 0).unpin 0
      have isLoose {block : Nat} (loose : block ∈ final.loose) :
          InJournal m block ∨ block ∈ lax := by
        obtain ⟨rfl | rest, other⟩ := loose
        · exact absurd rfl other
        · exact rest
      have quiet : final.Quiet :=
        ⟨Multiset.erase_cons_head 0 0, fun loose => loose.2 rfl⟩
      obtain ⟨endSteady, fixed, sameSb, shows, homed⟩ := endTracks.settle steady rfl quiet
      have looser : Rests lax last.flushed := by
        refine endSteady.mono fun outside loose => ?_
        exact (isLoose loose).resolve_left fun inside =>
          outside ((inJournal_congr fixed sameSb _).mpr inside)
      refine ⟨looser, fixed, sameSb, endTracks.inTxn.symm,
        endTracks.txn.symm, (shows quiet.super).trans seen, ?_⟩
      intro block outside strict other
      have known : block ∉ final.loose := fun loose =>
        (isLoose loose).elim outside strict
      have same : final.view block = m.view block :=
        (Function.update_of_ne other ..).trans (Function.update_of_ne other ..)
      refine ⟨(shows known).trans same, fun isHome => ?_⟩
      exact (homed ⟨isHome, other⟩ known).trans same

end

end

end Steady

end CaraOS.Carafs
