import Mathlib.Data.Finset.Card
import Mathlib.Data.Finset.Lattice.Basic
import CaraOS.Carafs.Shadow
import CaraOS.Carafs.TxnRun

namespace CaraOS.Carafs

/-!
# A mount simulates its shadow

Every call of file system code on a mount with a healthy device is a step of
the shadow.  Besides, whatever such code writes to the device is the image of a
touched block or of one that was dirty when the code started.
-/

open Action (wp_and wp_bind wp_mono wp_read)

/-- The cache holds of a block what the shadow says. -/
structure ShadowsAt (base : Set Nat) (c : CacheState) (s : Shadow) (block : Nat) : Prop where
  pinned : (c.table block).elim 0 Ent.pins = s.pins.count block
  absent : block ∈ s.absent → c.table block = none
  cached : ∀ {e}, c.table block = some e → s.Firm block → e.data = s.view block
  home : block ∉ s.loose → (∀ e, c.table block = some e → e.dirty = false) →
      c.disk block = s.view block
  dirty : ∀ {e}, c.table block = some e → e.dirty = true →
      e.txn = false → block ∈ s.touched ∨ block ∈ base
  homed : block ∈ s.homed → block ∉ s.loose → c.disk block = s.view block

/-- The cache holds what the shadow says. -/
def Shadows (base : Set Nat) (c : CacheState) (s : Shadow) : Prop :=
  ∀ block, ShadowsAt base c s block

/-- The second shadow asks no more of a block than the first. -/
structure Shadow.SameAt (s s' : Shadow) (block : Nat) : Prop where
  pins : s'.pins.count block = s.pins.count block
  absent : block ∈ s'.absent ↔ block ∈ s.absent
  loose : block ∈ s'.loose ↔ block ∈ s.loose
  view : s'.view block = s.view block
  touched : block ∈ s.touched → block ∈ s'.touched
  homed : block ∈ s'.homed → block ∈ s.homed

variable {e : Ent} {change : Ent → Ent} {mode : GetMode}

section Cache

variable {base : Set Nat} {c c' : CacheState} {s s' : Shadow} {block : Nat}

namespace ShadowsAt

/-- A cached block. -/
theorem of_entry (found : c.table block = some e) (pinned : e.pins = s.pins.count block)
    (present : block ∉ s.absent) (cached : s.Firm block → e.data = s.view block)
    (home : block ∉ s.loose → e.dirty = false → c.disk block = s.view block)
    (dirty : e.dirty = true → e.txn = false → block ∈ s.touched ∨ block ∈ base)
    (homed : block ∈ s.homed → block ∉ s.loose → c.disk block = s.view block) :
    ShadowsAt base c s block := by
  refine ⟨?_, fun listed => absurd listed present, ?_,
    fun fixed clean => home fixed (clean e found), ?_, homed⟩
  · rw [found]
    exact pinned
  · intro _ isCached
    cases found.symm.trans isCached
    exact cached
  · intro _ isCached
    cases found.symm.trans isCached
    exact dirty

/-- A block that is not cached. -/
theorem of_missing (missing : c.table block = none) (free : block ∉ s.pins)
    (home : block ∉ s.loose → c.disk block = s.view block) : ShadowsAt base c s block where
  pinned := by
    rw [missing]
    exact (Multiset.count_eq_zero.mpr free).symm
  absent := fun _ => missing
  cached := by simp [missing]
  home := fun fixed _ => home fixed
  dirty := by simp [missing]
  homed := fun _ => home

variable (shadows : ShadowsAt base c s block)
include shadows

theorem congr (same : s.SameAt s' block) (table : c'.table block = c.table block)
    (disk : c'.disk block = c.disk block) : ShadowsAt base c' s' block where
  pinned := by
    rw [table, same.pins]
    exact shadows.pinned
  absent := fun listed => table.trans (shadows.absent (same.absent.mp listed))
  cached := by
    intro e isCached firm
    rw [same.view]
    refine shadows.cached (table ▸ isCached) (firm.imp (mt same.loose.mpr) ?_)
    rw [← Multiset.count_pos, ← Multiset.count_pos, same.pins]
    exact id
  home := by
    intro fixed clean
    rw [disk, same.view]
    exact shadows.home (mt same.loose.mpr fixed) (table ▸ clean)
  dirty := fun isCached isDirty outside =>
    (shadows.dirty (table ▸ isCached) isDirty outside).imp_left same.touched
  homed := by
    intro isHomed fixed
    rw [disk, same.view]
    exact shadows.homed (same.homed isHomed) (mt same.loose.mpr fixed)

theorem pins_eq (found : c.table block = some e) : e.pins = s.pins.count block := by
  rw [← shadows.pinned, found]
  rfl

theorem present (found : c.table block = some e) : block ∉ s.absent := by
  intro listed
  cases found.symm.trans (shadows.absent listed)

theorem clean (found : c.table block = some e) (fixed : block ∉ s.loose)
    (isClean : e.dirty = false) : c.disk block = s.view block := by
  refine shadows.home fixed fun _ isCached => ?_
  cases found.symm.trans isCached
  exact isClean

end ShadowsAt

namespace Shadows

variable (shadows : Shadows base c s)
include shadows

theorem mem_pins (cached : c.table block = some e) : block ∈ s.pins ↔ 0 < e.pins := by
  rw [← Multiset.count_pos, (shadows block).pins_eq cached]

theorem not_mem_pins (absent : c.table block = none) : block ∉ s.pins := by
  rw [← Multiset.count_eq_zero, ← (shadows block).pinned, absent]
  rfl

theorem of_block (block : Nat) (others : ∀ query, query ≠ block → s.SameAt s' query)
    (table : ∀ query, query ≠ block → c'.table query = c.table query)
    (disk : ∀ query, query ≠ block → c'.disk query = c.disk query)
    (here : ShadowsAt base c' s' block) : Shadows base c' s' := by
  intro query
  by_cases same : query = block
  · rwa [same]
  · exact (shadows query).congr (others query same) (table query same) (disk query same)

theorem put {slot : Option Ent} (others : ∀ query, query ≠ block → s.SameAt s' query)
    (here : ShadowsAt base (c.put block slot) s' block) : Shadows base (c.put block slot) s' :=
  shadows.of_block block others (fun _ other => c.put_table_other other _) (fun _ _ => rfl) here

theorem evict {after : CacheState} (evicted : CacheState.Evict c after) : Shadows base after s := by
  have others (victim query : Nat) (_ : query ≠ victim) : s.SameAt s query :=
    ⟨rfl, .rfl, .rfl, rfl, id, id⟩
  cases evicted with
  | stay =>
    exact shadows
  | @clean victim e cached unpinned outside clean =>
    have free : victim ∉ s.pins := by simp [shadows.mem_pins cached, unpinned]
    exact shadows.put (others victim) (.of_missing (c.put_table_self ..) free fun fixed =>
      (shadows victim).clean cached fixed clean)
  | @dirty victim e cached unpinned outside dirty =>
    have free : victim ∉ s.pins := by simp [shadows.mem_pins cached, unpinned]
    refine shadows.of_block victim (others victim)
      (fun query other => CacheState.put_table_other _ other none) (fun query other => ?_)
      (.of_missing (CacheState.put_table_self ..) free fun fixed => ?_)
    · simp [CacheState.put, CacheState.write, setBlock, other]
    · rw [← (shadows victim).cached cached (.inl fixed)]
      simp [CacheState.put, CacheState.write, setBlock]

theorem see_pin (pins : e.pins = s.pins.count block + 1)
    (home : block ∉ s.loose → e.dirty = false → c.disk block = e.data)
    (dirty : e.dirty = true → e.txn = false → block ∈ s.touched ∨ block ∈ base)
    (homed : block ∈ s.homed → block ∉ s.loose → c.disk block = e.data) :
    Shadows base (c.put block (some e)) ((s.see block e.data).pin block) := by
  have seen : ((s.see block e.data).pin block).view block = e.data := by simp
  refine shadows.put (fun query other => ?_) (.of_entry (c.put_table_self ..) ?_ ?_
    (fun _ => seen.symm) (fun fixed clean => (home fixed clean).trans seen.symm) dirty
    fun isHomed fixed => (homed isHomed fixed).trans seen.symm)
  · constructor <;> simp [Shadow.pin, Shadow.see, other]
  · simp [Shadow.pin, Shadow.see, pins]
  · simp [Shadow.pin]

theorem getRead {bs : Nat} {fresh : Bool} {after : CacheState}
    (got : CacheState.Get bs block mode c fresh after) (mayRead : mode = .zero → fresh = false) :
    ∃ s', s.GetRead block s' ∧ Shadows base after s' := by
  have here := shadows block
  cases got with
  | @hit e cached =>
    have isView (fixed : block ∉ s.loose) : s.view block = e.data :=
      (here.cached cached (.inl fixed)).symm
    refine ⟨_, ⟨e.data, here.cached cached, rfl⟩, shadows.see_pin ?_ ?_ ?_ ?_⟩
    · exact congrArg (· + 1) (here.pins_eq cached)
    · exact fun fixed clean => (here.clean cached fixed clean).trans (isView fixed)
    · exact fun isDirty outside => here.dirty cached isDirty outside
    · exact fun isHomed fixed => (here.homed isHomed fixed).trans (isView fixed)
  | @miss mid absent evicted =>
    cases mode with
    | zero =>
      exact absurd (mayRead rfl) (by simp)
    | read =>
      have midShadows := shadows.evict evicted
      have midAbsent := evicted.absent absent
      have unpinned := shadows.not_mem_pins absent
      refine ⟨_, ⟨mid.disk block, ?_, rfl⟩, midShadows.see_pin ?_ ?_ ?_ ?_⟩
      · exact fun firm =>
          (midShadows block).home (firm.resolve_right unpinned) (by simp [midAbsent])
      · rw [Multiset.count_eq_zero_of_notMem unpinned]
      · exact fun _ _ => rfl
      · nofun
      · exact fun _ _ => rfl

theorem getZero {after : CacheState} (got : CacheState.Get s.bs block .zero c true after) :
    block ∉ s.pins ∧ Shadows base after (s.getZero block) := by
  cases got with
  | @miss mid absent evicted =>
    have unpinned := shadows.not_mem_pins absent
    refine ⟨unpinned, (shadows.evict evicted).put (fun query other => ?_)
      (.of_entry (mid.put_table_self ..) ?_ ?_ (fun _ => ?_) nofun (fun _ _ => .inl (.inl rfl))
        fun isHomed => absurd rfl isHomed.2)⟩
    · constructor <;>
        simp +contextual [Shadow.getZero, Shadow.pin, Shadow.touch, Shadow.fix, Shadow.see, other]
    all_goals simp [Shadow.getZero, Shadow.pin, Shadow.touch, Shadow.fix, Shadow.see, unpinned]

theorem unpin (block : Nat) :
    Shadows base
      (c.put block ((c.table block).map fun e => { e with pins := e.pins - 1 }))
      (s.unpin block) := by
  refine shadows.put (fun query other => ⟨Multiset.count_erase_of_ne other _, .rfl, .rfl, rfl, id,
    id⟩) ?_
  have here := shadows block
  cases found : c.table block with
  | none =>
    refine .of_missing (c.put_table_self ..) ?_ fun fixed => here.home fixed (by simp [found])
    exact fun isPinned => shadows.not_mem_pins found (Multiset.mem_of_mem_erase isPinned)
  | some e =>
    refine .of_entry (c.put_table_self ..) ?_ (here.present found) (fun firm => ?_)
      (here.clean found :) (here.dirty found :) here.homed
    · show e.pins - 1 = (s.pins.erase block).count block
      rw [Multiset.count_erase_self, here.pins_eq found]
    · exact (here.cached found (firm.imp_right Multiset.mem_of_mem_erase) :)

theorem store (block : Nat) (image : Block) :
    Shadows base
      (c.put block ((c.table block).map fun e => { e with data := image }))
      (s.stored block image) := by
  have loose : block ∈ (s.stored block image).loose := Set.mem_insert block _
  refine shadows.put (fun query other => ?_) ?_
  · constructor <;> simp [Shadow.stored, Shadow.see, other]
  have here := shadows block
  cases found : c.table block with
  | none =>
    exact .of_missing (c.put_table_self ..) (shadows.not_mem_pins found) (absurd loose)
  | some e =>
    exact .of_entry (c.put_table_self ..) (here.pins_eq found :) (here.present found)
      (fun _ => (Function.update_self block image s.view).symm) (absurd loose) (here.dirty found :)
      fun _ => absurd loose

/-- A block becomes dirty.  If it is pinned, its image is no longer under edit. -/
theorem mark (txn : Ent → Bool)
    (samePins : s'.pins = s.pins) (sameAbsent : s'.absent = s.absent) (sameView : s'.view = s.view)
    (moreTouched : ∀ query, query ∈ s.touched → query ∈ s'.touched)
    (covered : ∀ e, c.table block = some e → txn e = false → block ∈ s'.touched)
    (lessHomed : s'.homed ⊆ s.homed) (loose : s'.loose = s.loose ∨
      block ∈ s.pins ∧ s'.loose = s.loose \ {block} ∧ block ∉ s'.homed) :
    Shadows base
      (c.put block ((c.table block).map fun e =>
          { e with dirty := true, txn := txn e })) s' := by
  refine shadows.put (fun query other => ?_) ?_
  · refine ⟨by rw [samePins], by rw [sameAbsent], ?_, by rw [sameView], moreTouched query,
      @lessHomed query⟩
    rcases loose with same | ⟨-, less, -⟩
    · rw [same]
    · simp [less, other]
  have here := shadows block
  cases found : c.table block with
  | none =>
    have free := shadows.not_mem_pins found
    have same := loose.resolve_right fun changed => free changed.1
    refine .of_missing (c.put_table_self ..) (samePins ▸ free) fun fixed => ?_
    rw [sameView]
    exact here.home (same ▸ fixed) (by simp [found])
  | some e =>
    refine .of_entry (c.put_table_self ..) ((here.pins_eq found :).trans (by rw [samePins]))
      (sameAbsent ▸ here.present found) (fun firm => ?_) nofun
      (fun _ outside => .inl (covered e found outside)) fun isHomed fixed => ?_
    · have wasFirm : s.Firm block := by
        rcases loose with same | ⟨isPinned, -⟩
        · rwa [Shadow.Firm, same, samePins] at firm
        · exact .inr isPinned
      rw [sameView]
      exact (here.cached found wasFirm :)
    · rw [sameView]
      have same := loose.resolve_right fun changed => changed.2.2 isHomed
      exact here.homed (lessHomed isHomed) (same ▸ fixed)

theorem writeHome (isPinned : block ∈ s.pins) :
    Shadows base (c.write block (s.view block)) (s.fix block) := by
  have here := shadows block
  have written : (c.write block (s.view block)).disk block = s.view block := by
    simp [CacheState.write, setBlock]
  refine shadows.of_block block (fun query other => ?_) (fun _ _ => rfl) (fun query other => ?_)
    ⟨here.pinned, here.absent, fun isCached _ => here.cached isCached (.inr isPinned),
      fun _ _ => written, here.dirty, fun _ _ => written⟩
  · constructor <;> simp +contextual [Shadow.fix, other]
  · simp [CacheState.write, setBlock, other]

theorem drop (unpinned : block ∉ s.pins) :
    Shadows base (c.put block none) (s.dropped block (c.disk block)) := by
  refine shadows.put (fun query other => ?_) (.of_missing (c.put_table_self ..) unpinned
    fun _ => (Function.update_self block (c.disk block) s.view).symm)
  constructor <;> simp +contextual [Shadow.dropped, Shadow.touch, Shadow.fix, Shadow.see, other]

end Shadows

end Cache

/-! ## Calls -/

/-- What file system code cannot change of a mount. -/
def Mount.core (m : Mount) : Mount :=
  { m.frame with sb := zeroSb, txnBlocks := [], ticks := 0 }

/-- A mount on a healthy device, and its shadow. -/
structure Tracks
    (base : Set Nat) (m₀ m : Mount)
    (s : Shadow) : Prop where
  wf : TxnWf m
  healthy : Healthy m
  core : m.core = m₀.core
  bs : s.bs = m.blockSize
  nBlocks : s.nBlocks = m.bdev.nBlocks
  nEnts : s.nEnts = m.ents.length
  inTxn : s.inTxn = m.inTxn
  sb : s.sb = m.sb
  txn : s.txn = m.txnBlocks
  shadows : Shadows base m.state s

section Calls

variable {base : Set Nat} {m₀ m after : Mount} {s s' : Shadow}

theorem Tracks.move (tracks : Tracks base m₀ m s) {txn : List Nat}
    (wf : TxnWf after) (follows : Follows { m with txnBlocks := txn } after)
    (same : s'.shape = s.shape) (sameTxn : s'.txn = txn)
    (shadows : Shadows base after.state s') : Tracks base m₀ after s' := by
  simp only [Shadow.shape, Prod.mk.injEq] at same
  obtain ⟨⟨sameBs, sameBlocks, sameEnts⟩, sameFlag, sameSb⟩ := same
  have frame := follows.frame
  exact {
    wf := wf
    healthy := follows.healthy tracks.healthy
    core :=
      (congrArg (fun mount : Mount =>
          { mount with sb := zeroSb, txnBlocks := [], ticks := 0 })
        frame).trans tracks.core
    bs := by
      rw [sameBs, tracks.bs]
      exact (congrArg Mount.blockSize frame :).symm
    nBlocks := by
      rw [sameBlocks, tracks.nBlocks]
      exact (congrArg (fun mount => mount.bdev.nBlocks) frame :).symm
    nEnts := by
      rw [sameEnts, tracks.nEnts]
      have lengths := congrArg (fun mount => mount.ents.length) frame
      simpa [Mount.frame] using lengths.symm
    inTxn := by
      rw [sameFlag, tracks.inTxn]
      exact (congrArg Mount.inTxn frame :).symm
    sb := by
      rw [sameSb, tracks.sb]
      exact (congrArg Mount.sb frame :).symm
    txn := by
      rw [sameTxn]
      exact (congrArg Mount.txnBlocks frame :).symm
    shadows := shadows }

theorem Tracks.follow (tracks : Tracks base m₀ m s) (wf : TxnWf after) (follows : Follows m after)
    (same : s'.shape = s.shape) (sameTxn : s'.txn = s.txn)
    (shadows : Shadows base after.state s') : Tracks base m₀ after s' :=
  tracks.move wf follows same (sameTxn.trans tracks.txn) shadows

theorem CacheState.Get.cached_of_hit {bs block : Nat} {c after : CacheState}
    (got : CacheState.Get bs block mode c false after) : ∃ e, c.table block = some e := by
  cases got with
  | hit cached =>
    exact ⟨_, cached⟩

theorem Tracks.crowded (tracks : Tracks base m₀ m s) (full : NoSlot m) : s.Crowded := by
  have taken : ∀ idx, idx < m.ents.length → ∃ block, (m.ent idx).block = some block ∧
        block ∈ s.pins.toFinset ∪ s.txn.toFinset := by
    intro idx bound
    have unobtainable := full idx bound
    unfold Ent.obtainable at unobtainable
    simp only [Bool.or_eq_false_iff, beq_eq_false_iff_ne,
      Bool.and_eq_false_iff, Bool.not_eq_false'] at unobtainable
    obtain ⟨occupied, busy⟩ := unobtainable
    obtain ⟨block, holds⟩ := Option.ne_none_iff_exists'.mp occupied
    have cached := lookup_of_slot tracks.wf.toCacheWf holds
    refine ⟨block, holds, Finset.mem_union.mpr ?_⟩
    rcases busy with pinned | member
    · refine .inl (Multiset.mem_toFinset.mpr ?_)
      exact (tracks.shadows.mem_pins cached).mpr (Nat.pos_of_ne_zero pinned)
    · refine .inr (List.mem_toFinset.mpr ?_)
      rw [tracks.txn]
      exact tracks.wf.members.mpr ⟨_, cached, member⟩
  choose! blockOf holds listed using taken
  have counted : (Finset.range m.ents.length).card ≤ (s.pins.toFinset ∪ s.txn.toFinset).card := by
    refine Finset.card_le_card_of_injOn blockOf ?_ ?_
    · intro idx bound
      exact listed idx (Finset.mem_range.mp bound)
    · intro i iBound j jBound same
      have iHolds := holds i (Finset.mem_range.mp iBound)
      have jHolds := holds j (Finset.mem_range.mp jBound)
      rw [same] at iHolds
      exact tracks.wf.distinct iHolds jHolds
  have pinsFew : s.pins.toFinset.card ≤ s.pins.card := Multiset.toFinset_card_le _
  have txnFew : s.txn.toFinset.card ≤ s.txn.length := List.toFinset_card_le _
  have both := Finset.card_union_le s.pins.toFinset s.txn.toFinset
  rw [Finset.card_range] at counted
  unfold Shadow.Crowded
  rw [tracks.nEnts]
  omega

theorem wp_entObtain_code (wf : CacheWf m) (healthy : Healthy m) :
    Action.wp entObtain
      (fun _ _ => True) (fun code _ => code = .enomem) m := by
  unfold entObtain
  rw [wp_bind, wp_read]
  split
  · rfl
  split
  · trivial
  rename_i occupied
  rw [beq_iff_eq] at occupied
  obtain ⟨block, holds⟩ := Option.ne_none_iff_exists'.mp occupied
  split
  · rw [wp_bind]
    refine wp_mono (wp_entWriteback wf holds) ?_ ?_
    · intro _ _ _
      trivial
    · rintro _ _ ⟨faulty, -⟩
      exact absurd healthy faulty
  · trivial

theorem wp_cacheGet_code (wf : CacheWf m) (healthy : Healthy m) (block : Nat) (mode : GetMode) :
    Action.wp (cacheGet block mode)
      (fun _ _ => True) (fun code _ => code = .erange ∨ code = .enomem)
      m := by
  unfold cacheGet
  rw [wp_bind, wp_read]
  split
  · exact .inl rfl
  split
  · trivial
  rw [wp_bind]
  refine wp_mono (wp_and (wp_entObtain wf) (wp_entObtain_code wf healthy)) ?_ ?_
  · rintro idx mid ⟨⟨follows, -⟩, -⟩
    cases mode with
    | zero =>
      trivial
    | read =>
      rw [wp_bind]
      apply wp_bdevRead
      · intro faulty
        refine absurd ⟨follows.healthy healthy, ?_⟩ faulty
        have sameSize : mid.bdev.nBlocks = m.bdev.nBlocks :=
          follows.nBlocks
        omega
      · intro _
        trivial
  · rintro code _ ⟨-, rfl⟩
    exact .inr rfl

section

variable (tracks : Tracks base m₀ m s)
include tracks

theorem get_tracks (block : Nat) (mode : GetMode) :
    ∃ s', s.Get block mode (cacheGet block mode m).1 s' ∧
      Tracks base m₀ (cacheGet block mode m).2 s' := by
  have keeps : TxnWf (cacheGet block mode m).2 := exec_keeps (.get block mode) tracks.wf
  have spec := wp_and (wp_cacheGet tracks.wf.toCacheWf block mode)
    (wp_cacheGet_code tracks.wf.toCacheWf tracks.healthy block mode)
  unfold Action.wp at spec
  cases outcome : cacheGet block mode m with
  | mk answer after =>
    rw [outcome] at keeps spec
    cases answer with
    | ok fresh =>
      obtain ⟨⟨follows, inRange, got⟩, -⟩ := spec
      rw [← tracks.nBlocks] at inRange
      by_cases zeroed : mode = .zero ∧ fresh = true
      · obtain ⟨rfl, rfl⟩ := zeroed
        rw [← tracks.bs] at got
        obtain ⟨unpinned, shadows⟩ := tracks.shadows.getZero got
        exact ⟨_, .zero inRange unpinned, tracks.follow keeps follows rfl rfl shadows⟩
      · have mayRead : mode = .zero → fresh = false := by
          intro isZero
          cases fresh with
          | false =>
            rfl
          | true =>
            exact absurd ⟨isZero, rfl⟩ zeroed
        have kept : mode = .zero → block ∉ s.absent := by
          intro isZero listed
          have stale := mayRead isZero
          subst stale
          obtain ⟨e, cached⟩ := got.cached_of_hit
          exact (tracks.shadows block).present cached listed
        obtain ⟨s', read, shadows⟩ := tracks.shadows.getRead got mayRead
        obtain ⟨image, -, isAfter⟩ := id read
        exact ⟨s', .read inRange kept read, tracks.follow keeps follows (by rw [isAfter]; rfl)
            (by rw [isAfter]; rfl) shadows⟩
    | error code =>
      obtain ⟨⟨follows, evicted, cause⟩, defined⟩ := spec
      refine ⟨s, .fail ?_ defined, tracks.follow keeps follows rfl rfl
          (tracks.shadows.evict evicted)⟩
      rcases cause with faulty | outside | ⟨-, full⟩
      · exact absurd tracks.healthy faulty
      · exact .inl (tracks.nBlocks ▸ outside)
      · exact .inr (tracks.crowded full)

theorem Tracks.edit (c : Prim) {block : Nat} (edited : Follows m (exec c m).2 ∧ (exec c m).2.state =
          m.state.put block ((m.lookup block).map change))
    (same : s'.shape = s.shape) (sameTxn : s'.txn = s.txn)
    (shadows : Shadows base (m.state.put block ((m.state.table block).map change)) s') :
    Tracks base m₀ (exec c m).2 s' := by
  refine tracks.follow (exec_keeps c tracks.wf) edited.1 same sameTxn ?_
  rwa [edited.2]

theorem dirty_tracks (block : Nat) :
    ∃ s', s.Step (.dirty block) () s' ∧
      Tracks base m₀ (cacheDirty block m) s' := by
  have edited := cacheDirty_follows tracks.wf.toCacheWf block
  by_cases isPinned : block ∈ s.pins
  · refine ⟨(s.fix block).touch block, .dirty (fun _ => rfl) (absurd isPinned),
      tracks.edit (.dirty block) edited rfl rfl ?_⟩
    exact tracks.shadows.mark Ent.txn rfl rfl rfl (fun _ touched => .inr touched)
      (fun _ _ _ => .inl rfl) Set.sdiff_subset (.inr ⟨isPinned, rfl, fun isHomed => isHomed.2 rfl⟩)
  · refine ⟨s.touch block, .dirty (fun pinned => absurd pinned isPinned) (fun _ => rfl),
      tracks.edit (.dirty block) edited rfl rfl ?_⟩
    exact tracks.shadows.mark Ent.txn rfl rfl rfl (fun _ touched => .inr touched)
      (fun _ _ _ => .inl rfl) subset_rfl (.inl rfl)

theorem invalidate_tracks (block : Nat) :
    ∃ s', s.Step (.invalidate block) () s' ∧
      Tracks base m₀ (cacheInvalidate block m) s' := by
  have keeps : TxnWf (cacheInvalidate block m) := exec_keeps (.invalidate block) tracks.wf
  obtain ⟨follows, ⟨e, cached, busy, same⟩ | ⟨unused, dropped⟩⟩ :=
    cacheInvalidate_follows tracks.wf.toCacheWf block
  · refine ⟨s, .keep ?_, tracks.follow keeps follows rfl rfl ?_⟩
    · rcases busy with pinned | member
      · exact .inl ((tracks.shadows.mem_pins cached).mpr pinned)
      · refine .inr ?_
        rw [tracks.txn]
        exact tracks.wf.members.mpr ⟨e, cached, member⟩
    · rw [same]
      exact tracks.shadows
  · have unpinned : block ∉ s.pins := by
      cases found : m.lookup block with
      | none =>
        exact tracks.shadows.not_mem_pins found
      | some e =>
        intro isPinned
        have := (tracks.shadows.mem_pins found).mp isPinned
        have := (unused e found).1
        omega
    have outside : block ∉ s.txn := by
      rw [tracks.txn]
      intro listed
      obtain ⟨e, found, member⟩ := tracks.wf.members.mp listed
      rw [(unused e found).2] at member
      cases member
    refine ⟨s.dropped block (m.bdev.disk block), .drop ⟨unpinned, outside⟩ (tracks.shadows block).homed,
      tracks.follow keeps follows rfl rfl ?_⟩
    rw [dropped]
    exact tracks.shadows.drop unpinned

theorem Tracks.mem_txn {block : Nat} (cached : m.lookup block = some e) :
    block ∈ s.txn ↔ e.txn = true := by
  rw [tracks.txn, tracks.wf.members]
  constructor
  · rintro ⟨e', found, member⟩
    rw [state_table, cached] at found
    cases found
    exact member
  · intro member
    exact ⟨e, cached, member⟩

end

theorem shadows_of_marked {c : CacheState} (txn : Ent → Bool) (cached : m.lookup block = some e)
    (marked : c = m.state.put block (some { e with dirty := true, txn := txn e }))
    (shadows : Shadows base (m.state.put block ((m.state.table block).map fun e =>
          { e with dirty := true, txn := txn e })) s) : Shadows base c s := by
  rw [state_table, cached] at shadows
  rwa [marked]

theorem Tracks.marked (tracks : Tracks base m₀ m s) (keeps : TxnWf after)
    (follows : Follows m after) (cached : m.lookup block = some e)
    (marked : after.state = m.state.put block (some { e with dirty := true })) :
    (block ∈ s.pins → Tracks base m₀ after ((s.fix block).touch block)) ∧
      (block ∉ s.pins → Tracks base m₀ after (s.touch block)) := by
  constructor
  · intro isPinned
    refine tracks.follow keeps follows rfl rfl (shadows_of_marked Ent.txn cached marked ?_)
    exact tracks.shadows.mark Ent.txn rfl rfl rfl (fun _ touched => .inr touched)
      (fun _ _ _ => .inl rfl) Set.sdiff_subset (.inr ⟨isPinned, rfl, fun isHomed => isHomed.2 rfl⟩)
  · intro isFree
    refine tracks.follow keeps follows rfl rfl (shadows_of_marked Ent.txn cached marked ?_)
    exact tracks.shadows.mark Ent.txn rfl rfl rfl (fun _ touched => .inr touched)
      (fun _ _ _ => .inl rfl) subset_rfl (.inl rfl)

theorem txnDirty_tracks (tracks : Tracks base m₀ m s) (block : Nat) :
    ∃ s', s.Join block (txnDirty block m).1 s' ∧
      Tracks base m₀ (txnDirty block m).2 s' := by
  have keeps : TxnWf (txnDirty block m).2 := exec_keeps (.txnDirty block) tracks.wf
  have spec := wp_txnDirty tracks.wf.toCacheWf block
  unfold Action.wp at spec
  have notListed {e : Ent} (cached : m.lookup block = some e)
      (outside : e.txn = false) : block ∉ s.txn := by
    intro listed
    rw [(tracks.mem_txn cached).mp listed] at outside
    cases outside
  cases outcome : txnDirty block m with
  | mk answer after =>
    rw [outcome] at keeps spec
    cases answer with
    | ok _ =>
      obtain ⟨e, cached, ⟨already, follows, marked⟩ |
        ⟨inside, outside, room, follows, marked⟩⟩ := spec
      · have isMarked := tracks.marked keeps follows cached marked
        by_cases isPinned : block ∈ s.pins
        · by_cases member : e.txn = true
          · have listed := (tracks.mem_txn cached).mpr member
            have inside : s.inTxn = true := by
              by_contra outside
              rw [tracks.inTxn, Bool.not_eq_true] at outside
              rw [tracks.txn, tracks.wf.closed outside] at listed
              cases listed
            refine ⟨s.joined block, .joined isPinned inside (.inl listed),
              tracks.follow keeps follows rfl (by simp [Shadow.joined, Shadow.fix, listed])
                (shadows_of_marked Ent.txn cached marked ?_)⟩
            refine tracks.shadows.mark Ent.txn rfl rfl rfl (fun _ => id) ?_
              Set.sdiff_subset (.inr ⟨isPinned, rfl, fun isHomed => isHomed.2 rfl⟩)
            intro e' found outside
            rw [state_table, cached, Option.some.injEq] at found
            rw [← found, member] at outside
            cases outside
          · have outside : s.inTxn = false := by
              rw [tracks.inTxn]
              exact already.resolve_right member
            exact ⟨_, .outside isPinned outside, isMarked.1 isPinned⟩
        · exact ⟨_, .unpinned isPinned (.inr (.inl rfl)), isMarked.2 isPinned⟩
      · have fresh := notListed cached outside
        by_cases isPinned : block ∈ s.pins
        · refine ⟨s.joined block, .joined isPinned (tracks.inTxn ▸ inside)
              (.inr (tracks.txn ▸ room)),
            tracks.move keeps follows rfl (by simp [Shadow.joined, ← tracks.txn, fresh])
              (shadows_of_marked (fun _ => true) cached marked ?_)⟩
          exact tracks.shadows.mark (fun _ => true) rfl rfl rfl (fun _ => id) nofun Set.sdiff_subset
            (.inr ⟨isPinned, rfl, fun isHomed => isHomed.2 rfl⟩)
        · refine ⟨{ s.joined block with loose := s.loose }, .unpinned isPinned (.inr (.inr rfl)),
            tracks.move keeps follows rfl (by simp [Shadow.joined, ← tracks.txn, fresh])
              (shadows_of_marked (fun _ => true) cached marked ?_)⟩
          exact tracks.shadows.mark (fun _ => true) rfl rfl rfl (fun _ => id)
            nofun Set.sdiff_subset (.inl rfl)
    | error code =>
      obtain ⟨follows, ⟨rfl, missing, same⟩ | ⟨rfl, full, e, cached, outside, marked⟩⟩ := spec
      · refine ⟨s, .unpinned (tracks.shadows.not_mem_pins missing)
          (.inl rfl), tracks.follow keeps follows rfl rfl ?_⟩
        rw [same]
        exact tracks.shadows
      · have isMarked := tracks.marked keeps follows cached marked
        by_cases isPinned : block ∈ s.pins
        · exact ⟨_, .full isPinned (notListed cached outside)
            (tracks.txn ▸ full), isMarked.1 isPinned⟩
        · exact ⟨_, .unpinned isPinned (.inr (.inl rfl)), isMarked.2 isPinned⟩

theorem exec_tracks (c : Prim) (tracks : Tracks base m₀ m s) :
    ∃ s', s.Step c (exec c m).1 s' ∧ Tracks base m₀ (exec c m).2 s' := by
  cases c with
  | get block mode =>
    obtain ⟨s', got, after⟩ := get_tracks tracks block mode
    exact ⟨s', .get got, after⟩
  | put block =>
    exact ⟨s.unpin block, .put, tracks.edit (.put block)
        (cachePut_follows tracks.wf.toCacheWf block) rfl rfl (tracks.shadows.unpin block)⟩
  | load block =>
    refine ⟨s, .load ?_, tracks⟩
    intro isPinned
    cases found : m.lookup block with
    | none =>
      exact absurd isPinned (tracks.shadows.not_mem_pins found)
    | some e =>
      exact (cached_of_lookup found).trans ((tracks.shadows block).cached found (.inr isPinned))
  | store block image =>
    exact ⟨s.stored block image, .store (fun _ => rfl) (fun _ => ⟨image, rfl⟩),
      tracks.edit (.store block image) (cacheStore_follows tracks.wf.toCacheWf block image) rfl rfl
        (tracks.shadows.store block image)⟩
  | dirty block =>
    exact dirty_tracks tracks block
  | invalidate block =>
    exact invalidate_tracks tracks block
  | txnDirty block =>
    obtain ⟨s', join, after⟩ := txnDirty_tracks tracks block
    exact ⟨s', .txnDirty join, after⟩
  | sb =>
    refine ⟨s, ?_, tracks⟩
    have step : s.Step .sb s.sb s := .sb
    rwa [tracks.sb] at step
  | setSb sb =>
    refine ⟨{ s with sb := sb }, .setSb, ?_⟩
    exact {
      wf := exec_keeps (.setSb sb) tracks.wf
      healthy := tracks.healthy
      core := tracks.core
      bs := tracks.bs
      nBlocks := tracks.nBlocks
      nEnts := tracks.nEnts
      inTxn := tracks.inTxn
      sb := rfl
      txn := tracks.txn
      shadows := fun block => { tracks.shadows block with } }
  | now =>
    refine ⟨s, .now, ?_⟩
    exact {
      wf := exec_keeps .now tracks.wf
      healthy := tracks.healthy
      core := tracks.core
      bs := tracks.bs
      nBlocks := tracks.nBlocks
      nEnts := tracks.nEnts
      inTxn := tracks.inTxn
      sb := tracks.sb
      txn := tracks.txn
      shadows := tracks.shadows }

end Calls

end CaraOS.Carafs
