import CaraOS.Lib.Redo
import CaraOS.Carafs.CacheTable

namespace CaraOS.Carafs

/-!
# What the cache operations do

Every cache operation is described by its effect on the map of entries, on the
disk and on the recorded stream, together called a `CacheState`.  The slot
numbers and the LRU order do not appear here.
-/

open Function (comp_def update_apply)
open List
open Action (wp wp_bind wp_modify wp_mono wp_pure wp_read)

theorem setBlock_eq_update
    (disk : Nat → Block)
    (block : Nat)
    (image : Block) :
    setBlock disk block image = Function.update disk block image := by
  funext query
  simp [setBlock, update_apply]

/-- A map of entries over a disk, with what the device was told. -/
structure CacheState where
  table : Nat → Option Ent
  disk : Nat → Block
  stream : List Io

variable {homes : List (Nat × Ent)}

namespace CacheState

def put (c : CacheState) (block : Nat) (slot : Option Ent) : CacheState :=
  { c with table := Function.update c.table block slot }

variable {c : CacheState} {block : Nat}

theorem put_self
    {slot : Option Ent}
    (already : c.table block = slot) :
    c.put block slot = c := by
  simp [put, ← already]

@[simp] theorem put_table_self
    (c : CacheState)
    (block : Nat)
    (slot : Option Ent) :
    (c.put block slot).table block = slot :=
  Function.update_self ..

theorem put_table_other
    (c : CacheState)
    {query : Nat}
    (different : query ≠ block)
    (slot : Option Ent) :
    (c.put block slot).table query = c.table query :=
  Function.update_of_ne different ..

@[simp] theorem put_put
    (c : CacheState)
    (block : Nat)
    (first second : Option Ent) :
    (c.put block first).put block second = c.put block second := by
  simp [put]

def write (c : CacheState) (block : Nat) (image : Block) : CacheState :=
  { c with
    disk := setBlock c.disk block image
    stream := c.stream ++ [.write block image] }

theorem put_write_put
    (c : CacheState)
    (block place : Nat)
    (image : Block)
    (first second : Option Ent) :
    ((c.put block first).write place image).put block second =
      (c.put block second).write place image := by
  simp [put, write]

/-- Flush the disk. -/
def flush (c : CacheState) : CacheState :=
  { c with stream := c.stream ++ [.flush] }

/-- What `ent_obtain` may do: drop an evictable block, home if dirty. -/
inductive Evict (c : CacheState) : CacheState → Prop where
  | stay : Evict c c
  | clean {block : Nat} {e : Ent}
      (cached : c.table block = some e)
      (unpinned : e.pins = 0)
      (outside : e.txn = false)
      (clean : e.dirty = false) :
      Evict c (c.put block none)
  | dirty {block : Nat} {e : Ent}
      (cached : c.table block = some e)
      (unpinned : e.pins = 0)
      (outside : e.txn = false)
      (dirty : e.dirty = true) :
      Evict c ((c.write block e.data).put block none)

/-- An eviction brings no block in. -/
theorem Evict.absent
    {after : CacheState}
    (evicted : Evict c after)
    (absent : c.table block = none) :
    after.table block = none := by
  cases evicted with
  | stay =>
    exact absent
  | clean | dirty =>
    simp only [put, write, update_apply]
    split
    · rfl
    · exact absent

/-- An eviction writes only a cached block. -/
theorem Evict.disk_absent
    {after : CacheState}
    (evicted : Evict c after)
    (absent : c.table block = none) :
    after.disk block = c.disk block := by
  cases evicted with
  | stay | clean =>
    rfl
  | @dirty victim e cached =>
    have different : block ≠ victim := by
      rintro rfl
      rw [absent] at cached
      exact absurd cached (by simp)
    simp [put, write, setBlock, different]

/-- What a successful `carafs_cache_get` does. -/
inductive Get (bs block : Nat) (mode : GetMode) (c : CacheState) :
    Bool → CacheState → Prop where
  | hit {e : Ent}
      (cached : c.table block = some e) :
      Get bs block mode c false (c.put block (some { e with pins := e.pins + 1 }))
  | miss {mid : CacheState}
      (absent : c.table block = none)
      (evicted : Evict c mid) :
      Get bs block mode c true (mid.put block (some {
          block := some block
          dirty := mode == .zero
          txn := false
          pins := 1
          data :=
            match mode with
            | .zero => zeroBlock bs
            | .read => mid.disk block }))

/-- Write a list of images to the disk, past the cache. -/
def writeAll (c : CacheState) (writes : List (Nat × Block)) : CacheState :=
  { c with
    disk := Redo.applyAll c.disk writes
    stream := c.stream ++ writes.map fun w => .write w.1 w.2 }

/-- Write a list of entries home: the disk has them, the cache cleans them. -/
def homeAll (c : CacheState) (homes : List (Nat × Ent)) : CacheState :=
  { c.writeAll (homes.map fun home => (home.1, home.2.data)) with
    table := Redo.applyAll c.table
      (homes.map fun home => (home.1, some { home.2 with dirty := false })) }

variable (c)

@[simp] theorem writeAll_nil : c.writeAll [] = c := by
  simp [writeAll]

theorem writeAll_cons
    (block : Nat)
    (image : Block)
    (rest : List (Nat × Block)) :
    c.writeAll ((block, image) :: rest) =
      (c.write block image).writeAll rest := by
  simp [writeAll, write, setBlock_eq_update]

theorem writeAll_append (first second : List (Nat × Block)) :
    c.writeAll (first ++ second) =
      (c.writeAll first).writeAll second := by
  simp [writeAll, Redo.applyAll_append]

@[simp] theorem homeAll_nil : c.homeAll [] = c := by
  simp [homeAll]

theorem homeAll_cons
    (block : Nat)
    (e : Ent)
    (rest : List (Nat × Ent)) :
    c.homeAll ((block, e) :: rest) =
      ((c.write block e.data).put block (some { e with dirty := false })).homeAll rest := by
  simp [homeAll, writeAll, write, put, setBlock_eq_update]

theorem homeAll_other (absent : block ∉ homes.map Prod.fst) :
    (c.homeAll homes).table block = c.table block ∧
      (c.homeAll homes).disk block = c.disk block := by
  constructor <;>
  · apply Redo.applyAll_of_not_mem
    simpa [comp_def] using absent

/-- A block written home is clean, and the disk has its data. -/
theorem homeAll_member
    (distinct : (homes.map Prod.fst).Nodup)
    {e : Ent}
    (member : (block, e) ∈ homes) :
    (c.homeAll homes).table block = some { e with dirty := false } ∧
      (c.homeAll homes).disk block = e.data := by
  constructor <;>
  · apply Redo.applyAll_of_mem
    · simpa [comp_def] using distinct
    · exact mem_map.mpr ⟨_, member, rfl⟩

end CacheState

/-- The outside view of a mount's cache. -/
def Mount.state (m : Mount) : CacheState :=
  { table := m.lookup
    disk := m.bdev.disk
    stream := m.bdev.stream }

@[simp] theorem state_table (m : Mount) : m.state.table = m.lookup :=
  rfl

@[simp] theorem state_disk (m : Mount) : m.state.disk = m.bdev.disk :=
  rfl

@[simp] theorem state_stream (m : Mount) : m.state.stream = m.bdev.stream :=
  rfl

theorem state_ticked (m : Mount) : m.ticked.state = m.state :=
  rfl

theorem state_written
    (m : Mount)
    (block : Nat)
    (image : Block) :
    (m.written block image).state = m.state.write block image :=
  rfl

/-- A cache operation leaves a table, and everything outside it alone. -/
structure Follows (m after : Mount) : Prop where
  wf : CacheWf after
  frame : after.frame = m.frame

variable {selected : Ent → Bool} {change : Ent → Ent}

section Operations

variable {m : Mount}

theorem Follows.refl (wf : CacheWf m) : Follows m m :=
  ⟨wf, rfl⟩

variable {after : Mount} {idx block : Nat} {e : Ent}

theorem Follows.trans
    {mid : Mount}
    (first : Follows m mid)
    (second : Follows mid after) :
    Follows m after :=
  ⟨second.wf, second.frame.trans first.frame⟩

section

variable (follows : Follows m after)
include follows

theorem Follows.healthy (healthy : Healthy m) : Healthy after := by
  intro call
  have sameFault : after.bdev.fault = m.bdev.fault :=
    congrArg (fun mount => mount.bdev.fault) follows.frame
  rw [sameFault]
  exact healthy call

theorem Follows.sb : after.sb = m.sb :=
  (congrArg Mount.sb follows.frame :)

theorem Follows.blockSize : after.blockSize = m.blockSize :=
  (congrArg Mount.blockSize follows.frame :)

theorem Follows.jLogBlocks : after.jLogBlocks = m.jLogBlocks :=
  (congrArg Mount.jLogBlocks follows.frame :)

theorem Follows.inTxn : after.inTxn = m.inTxn :=
  (congrArg Mount.inTxn follows.frame :)

theorem Follows.txnBlocks : after.txnBlocks = m.txnBlocks :=
  (congrArg Mount.txnBlocks follows.frame :)

theorem Follows.nBlocks : after.bdev.nBlocks = m.bdev.nBlocks :=
  (congrArg (fun mount => mount.bdev.nBlocks) follows.frame :)

end

theorem CacheWf.of_same_table
    (wf : CacheWf m)
    (sameEnts : after.ents = m.ents)
    (sameLru : after.lru = m.lru)
    (sameSize : after.bdev.nBlocks = m.bdev.nBlocks) :
    CacheWf after := by
  have sameEnt : ∀ idx, after.ent idx = m.ent idx := by
    intro idx
    simp [Mount.ent, sameEnts]
  refine ⟨?_, ?_, ?_, ?_⟩
  · intro i j block
    rw [sameEnt, sameEnt]
    exact wf.distinct
  · intro i
    rw [sameEnt]
    exact wf.emptyUnpinned
  · intro i block
    rw [sameEnt, sameSize]
    exact wf.inRange
  · rw [sameEnts, sameLru]
    exact wf.lruSlots

section

variable (follows : Follows m after)
include follows

theorem Follows.ticked : Follows m after.ticked :=
  ⟨follows.wf.of_same_table rfl rfl rfl, follows.frame⟩

theorem Follows.written
    (block : Nat)
    (image : Block) :
    Follows m (after.written block image) :=
  ⟨follows.wf.of_same_table rfl rfl rfl, follows.frame⟩

theorem Follows.flushed : Follows m after.flushed :=
  ⟨follows.wf.of_same_table rfl rfl rfl, follows.frame⟩

end

theorem frame_setEnt
    (idx : Nat)
    (e : Ent) :
    (m.setEnt idx e).frame = m.frame := by
  simp [Mount.frame, Mount.setEnt]

section

variable (wf : CacheWf m)
include wf

/-- A slot edited in place changes its block alone. -/
theorem setEnt_keep_follows
    (holds : (m.ent idx).block = some block)
    (same : e.block = some block) :
    Follows m (m.setEnt idx e) ∧
      (m.setEnt idx e).state = m.state.put block (some e) := by
  refine ⟨⟨wf_setEnt_keep wf holds same, frame_setEnt ..⟩, ?_⟩
  unfold Mount.state
  rw [lookup_setEnt_keep wf holds same]
  rfl

theorem setEnt_clear_follows
    (holds : (m.ent idx).block = some block)
    (empty : e.block = none)
    (unpinned : e.pins = 0) :
    Follows m (m.setEnt idx e) ∧
      (m.setEnt idx e).state = m.state.put block none := by
  refine ⟨⟨wf_setEnt_clear wf empty unpinned, frame_setEnt ..⟩, ?_⟩
  unfold Mount.state
  rw [lookup_setEnt_clear wf holds empty unpinned]
  rfl

/-- A vacant slot takes an absent block. -/
theorem setEnt_fill_follows
    (bound : idx < m.ents.length)
    (vacant : (m.ent idx).block = none)
    (absent : m.lookup block = none)
    (inRange : block < m.bdev.nBlocks)
    (fills : e.block = some block) :
    Follows m (m.setEnt idx e) ∧
      (m.setEnt idx e).state = m.state.put block (some e) := by
  refine ⟨⟨wf_setEnt_fill wf bound absent inRange fills, frame_setEnt ..⟩, ?_⟩
  unfold Mount.state
  rw [lookup_setEnt_fill wf bound vacant absent inRange fills]
  rfl

theorem modifyBlock_follows
    (block : Nat)
    (keeps : ∀ e, (change e).block = e.block) :
    Follows m (m.modifyBlock block change) ∧
      (m.modifyBlock block change).state =
        m.state.put block ((m.lookup block).map change) := by
  unfold Mount.modifyBlock
  cases found : indexFind m block with
  | none =>
    have absent := lookup_of_missing found
    refine ⟨.refl wf, ?_⟩
    rw [absent]
    exact (CacheState.put_self absent).symm
  | some idx =>
    have holds := (indexFind_eq_some wf).mp found
    rw [lookup_of_slot wf holds]
    exact setEnt_keep_follows wf holds ((keeps _).trans holds)

theorem dropBlock_follows
    (block : Nat)
    (clears : ∀ e, (change e).block = none)
    (unpins : ∀ e, m.lookup block = some e → (change e).pins = 0) :
    Follows m (m.modifyBlock block change) ∧
      (m.modifyBlock block change).state = m.state.put block none := by
  unfold Mount.modifyBlock
  cases found : indexFind m block with
  | none =>
    have absent := lookup_of_missing found
    refine ⟨.refl wf, ?_⟩
    exact (CacheState.put_self absent).symm
  | some idx =>
    have holds := (indexFind_eq_some wf).mp found
    exact setEnt_clear_follows wf holds (clears _) (unpins _ (lookup_of_slot wf holds))

/-- One write sends an entry home and cleans it. -/
theorem wp_entWriteback (holds : (m.ent idx).block = some block) :
    wp (entWriteback idx)
      (fun _ after =>
        Follows m after ∧
          (∀ slot, slot ≠ idx → after.ent slot = m.ent slot) ∧
          after.ent idx = { m.ent idx with dirty := false } ∧
          after.state = (m.state.write block (m.ent idx).data).put block
              (some { m.ent idx with dirty := false }))
      (fun _ after =>
        ¬ Healthy m ∧ Follows m after ∧ after.state = m.state)
      m := by
  unfold entWriteback
  have target : (m.ent idx).block.getD 0 = block := by
    rw [holds]
    rfl
  rw [wp_bind, wp_read]
  rw [wp_bind, target]
  apply wp_write
  · intro faulty code
    exact ⟨fun healthy => faulty ⟨healthy, wf.inRange holds⟩, (Follows.refl wf).ticked, rfl⟩
  · intro _
    have wrote := (Follows.refl wf).written block (m.ent idx).data
    have bound := slot_lt_of_block holds
    have sameEnt : (m.written block (m.ent idx).data).ent = m.ent := rfl
    rw [wp_modify, sameEnt]
    obtain ⟨cleaned, cleanedState⟩ :=
      setEnt_keep_follows (e := { m.ent idx with dirty := false }) wrote.wf holds holds
    have slotAfter : ((m.written block (m.ent idx).data).setEnt idx
          { m.ent idx with dirty := false }).ent idx = { m.ent idx with dirty := false } :=
      ent_setEnt_same bound _
    refine ⟨wrote.trans cleaned, ?_, slotAfter, ?_⟩
    · intro slot elsewhere
      exact ent_setEnt_other elsewhere _
    · rw [cleanedState, state_written]

end

/-- Every slot of the table is pinned or belongs to the transaction. -/
def NoSlot (m : Mount) : Prop :=
  ∀ idx, idx < m.ents.length → (m.ent idx).obtainable = false

section

variable (wf : CacheWf m)
include wf

/-- One eviction at most frees a slot; without faults it fails only when all are in use. -/
theorem wp_entObtain :
    wp entObtain
      (fun idx after =>
        Follows m after ∧ idx < after.ents.length ∧
          (after.ent idx).block = none ∧
          CacheState.Evict m.state after.state)
      (fun _ after =>
        Follows m after ∧ after.state = m.state ∧
          (¬ Healthy m ∨ NoSlot m))
      m := by
  unfold entObtain
  rw [wp_bind, wp_read]
  cases chosen : m.lru.reverse.find? fun idx => (m.ent idx).obtainable with
  | none =>
    refine ⟨.refl wf, rfl, .inr ?_⟩
    intro idx bound
    have listed : idx ∈ m.lru.reverse :=
      mem_reverse.mpr (wf.lruSlots.mem_iff.mpr (mem_range.mpr bound))
    simpa using List.find?_eq_none.mp chosen idx listed
  | some idx =>
    have obtainable := List.find?_some chosen
    have bound : idx < m.ents.length := by
      have listed := mem_of_find?_eq_some chosen
      exact mem_range.mp (wf.lruSlots.mem_iff.mp (mem_reverse.mp listed))
    dsimp only
    cases content : (m.ent idx).block with
    | none =>
      exact ⟨.refl wf, bound, content, .stay⟩
    | some block =>
      obtain ⟨unpinned, outside⟩ : (m.ent idx).pins = 0 ∧ (m.ent idx).txn = false := by
        simpa [Ent.obtainable, content] using obtainable
      have cached := lookup_of_slot wf content
      have taken : ¬ ((some block == none) = true) := by simp
      rw [if_neg taken]
      cases dirt : (m.ent idx).dirty with
      | false =>
        simp only [Bool.false_eq_true, if_false]
        rw [wp_bind, wp_modify, wp_pure]
        obtain ⟨follows, sameState⟩ :=
          setEnt_clear_follows (e := { m.ent idx with block := none }) wf content rfl unpinned
        refine ⟨follows, by simpa [Mount.setEnt] using bound, ?_, ?_⟩
        · rw [ent_setEnt_same bound]
        · rw [sameState]
          exact .clean cached unpinned outside dirt
      | true =>
        simp only [if_true]
        rw [wp_bind]
        refine wp_mono (wp_entWriteback wf content) ?_ ?_
        · rintro _ mid ⟨wrote, -, slot, wroteState⟩
          rw [wp_bind, wp_modify, wp_pure]
          have midContent : (mid.ent idx).block = some block := by
            rw [slot, content]
          have midBound := slot_lt_of_block midContent
          obtain ⟨follows, sameState⟩ :=
            setEnt_clear_follows (e := { mid.ent idx with block := none })
              wrote.wf midContent rfl (by rw [slot]; exact unpinned)
          refine ⟨wrote.trans follows, by simpa [Mount.setEnt] using midBound, ?_, ?_⟩
          · rw [ent_setEnt_same midBound]
          · have merged : (mid.setEnt idx { mid.ent idx with block := none }).state =
                  (m.state.write block (m.ent idx).data).put block none := by
              rw [sameState, wroteState]
              simp [CacheState.put]
            rw [merged]
            exact .dirty cached unpinned outside dirt
        · rintro _ mid ⟨faulty, follows, sameState⟩
          exact ⟨follows, sameState, .inl faulty⟩

theorem pinMru_follows (holds : (m.ent idx).block = some block) :
    Follows m (pinMru idx m) ∧
      (pinMru idx m).state =
        m.state.put block
          (some { m.ent idx with pins := (m.ent idx).pins + 1 }) := by
  have bound := slot_lt_of_block holds
  obtain ⟨follows, sameState⟩ :=
    setEnt_keep_follows (e := { m.ent idx with pins := (m.ent idx).pins + 1 }) wf holds holds
  have listed : idx ∈ m.lru := wf.lruSlots.mem_iff.mpr (mem_range.mpr bound)
  have slots : (idx :: m.lru.erase idx).Perm (List.range m.ents.length) :=
    (perm_cons_erase listed).symm.trans wf.lruSlots
  refine ⟨⟨?_, follows.frame⟩, sameState⟩
  exact {
    distinct := follows.wf.distinct
    emptyUnpinned := follows.wf.emptyUnpinned
    inRange := follows.wf.inRange
    lruSlots := by simpa [pinMru, Mount.setEnt] using slots }

/-- A cached block is pinned once more, without a device call. -/
theorem cacheGet_hit
    (cached : m.lookup block = some e)
    (mode : GetMode) :
    ∃ after,
      cacheGet block mode m = (.ok false, after) ∧
        Follows m after ∧
        after.state =
          m.state.put block (some { e with pins := e.pins + 1 }) := by
  obtain ⟨idx, holds, rfl⟩ := (lookup_eq_some wf).mp cached
  obtain ⟨follows, sameState⟩ := pinMru_follows wf holds
  refine ⟨pinMru idx m, ?_, follows, sameState⟩
  have inRange : ¬ m.bdev.nBlocks ≤ block := Nat.not_le_of_lt (wf.inRange holds)
  have found := (indexFind_eq_some wf).mpr holds
  unfold cacheGet
  rw [Action.bind_of_ok (Action.read_apply m), if_neg inRange, found]
  rfl

/-- A filled slot holds the image, pinned once. -/
theorem fillSlot_follows
    (bound : idx < m.ents.length)
    (vacant : (m.ent idx).block = none)
    (absent : m.lookup block = none)
    (inRange : block < m.bdev.nBlocks)
    (dirty : Bool)
    (image : Block) :
    let loaded := m.setEnt idx { m.ent idx with
      block := some block
      dirty := dirty
      txn := false
      data := image }
    Follows m (pinMru idx loaded) ∧ (pinMru idx loaded).state = m.state.put block (some {
          block := some block
          dirty := dirty
          txn := false
          pins := 1
          data := image }) := by
  intro loaded
  obtain ⟨filled, filledState⟩ :=
    setEnt_fill_follows wf bound vacant absent inRange (e := { m.ent idx with
        block := some block
        dirty := dirty
        txn := false
        data := image }) rfl
  have slot : loaded.ent idx = { m.ent idx with
      block := some block
      dirty := dirty
      txn := false
      data := image } :=
    ent_setEnt_same bound _
  obtain ⟨pinned, pinnedState⟩ :=
    pinMru_follows filled.wf (show (loaded.ent idx).block = some block by rw [slot])
  refine ⟨filled.trans pinned, ?_⟩
  rw [pinnedState, filledState, slot]
  simp [CacheState.put, wf.emptyUnpinned vacant]

/-- A get fails by a fault, by its range or for want of a slot. -/
theorem wp_cacheGet
    (block : Nat)
    (mode : GetMode) :
    wp (cacheGet block mode)
      (fun fresh after =>
        Follows m after ∧ block < m.bdev.nBlocks ∧
          CacheState.Get m.blockSize block mode m.state fresh after.state)
      (fun _ after =>
        Follows m after ∧ CacheState.Evict m.state after.state ∧
          (¬ Healthy m ∨ m.bdev.nBlocks ≤ block ∨ (m.lookup block = none ∧ NoSlot m)))
      m := by
  unfold cacheGet
  rw [wp_bind, wp_read]
  by_cases outside : m.bdev.nBlocks ≤ block
  · rw [if_pos outside]
    exact ⟨.refl wf, .stay, .inr (.inl outside)⟩
  · rw [if_neg outside]
    have inRange := Nat.lt_of_not_le outside
    cases found : indexFind m block with
    | some idx =>
      have holds := (indexFind_eq_some wf).mp found
      obtain ⟨follows, sameState⟩ := pinMru_follows wf holds
      dsimp only
      rw [wp_bind, wp_modify, wp_pure]
      refine ⟨follows, inRange, ?_⟩
      rw [sameState]
      exact .hit (lookup_of_slot wf holds)
    | none =>
      have absent := lookup_of_missing found
      rw [wp_bind]
      refine wp_mono (wp_entObtain wf) ?_ ?_
      · rintro idx mid ⟨obtained, bound, vacant, evicted⟩
        rw [← obtained.nBlocks] at inRange
        cases mode with
        | zero =>
          obtain ⟨filled, filledState⟩ :=
            fillSlot_follows obtained.wf bound vacant (evicted.absent absent) inRange true
              (zeroBlock m.blockSize)
          refine ⟨obtained.trans filled, obtained.nBlocks ▸ inRange, ?_⟩
          exact Eq.subst (motive :=
              CacheState.Get m.blockSize block .zero m.state true)
            filledState.symm (.miss absent evicted)
        | read =>
          rw [wp_bind]
          apply wp_bdevRead
          · intro faulty code
            refine ⟨obtained.ticked, evicted, .inl ?_⟩
            intro healthy
            exact faulty ⟨obtained.healthy healthy, inRange⟩
          · intro _
            obtain ⟨filled, filledState⟩ :=
              fillSlot_follows obtained.ticked.wf bound vacant (evicted.absent absent) inRange false
                (mid.bdev.disk block)
            refine ⟨obtained.ticked.trans filled, obtained.nBlocks ▸ inRange, ?_⟩
            exact Eq.subst (motive :=
                CacheState.Get m.blockSize block .read m.state true)
              filledState.symm (.miss absent evicted)
      · rintro _ mid ⟨follows, sameState, cause⟩
        refine ⟨follows, sameState ▸ .stay, ?_⟩
        rcases cause with faulty | noSlot
        · exact .inl faulty
        · exact .inr (.inr ⟨absent, noSlot⟩)

theorem cachePut_follows (block : Nat) :
    Follows m (cachePut block m) ∧
      (cachePut block m).state =
        m.state.put block
          ((m.lookup block).map fun e => { e with pins := e.pins - 1 }) :=
  modifyBlock_follows wf block fun _ => rfl

/-- A put takes back the pin of a get. -/
theorem cachePut_unpin (pinned : m.lookup block = some { e with pins := e.pins + 1 }) :
    Follows m (cachePut block m) ∧ (cachePut block m).state = m.state.put block (some e) := by
  obtain ⟨follows, sameState⟩ := cachePut_follows wf block
  refine ⟨follows, ?_⟩
  rw [sameState, pinned]
  simp

theorem cacheDirty_follows (block : Nat) :
    Follows m (cacheDirty block m) ∧
      (cacheDirty block m).state =
        m.state.put block
          ((m.lookup block).map fun e => { e with dirty := true }) :=
  modifyBlock_follows wf block fun _ => rfl

theorem cacheStore_follows
    (block : Nat)
    (image : Block) :
    Follows m (cacheStore block image m) ∧
      (cacheStore block image m).state =
        m.state.put block
          ((m.lookup block).map fun e => { e with data := image }) :=
  modifyBlock_follows wf block fun _ => rfl

/-- A block in use stays; any other is dropped. -/
theorem cacheInvalidate_follows (block : Nat) :
    Follows m (cacheInvalidate block m) ∧
      ((∃ e, m.lookup block = some e ∧ (0 < e.pins ∨ e.txn = true) ∧
          (cacheInvalidate block m).state = m.state) ∨
        ((∀ e, m.lookup block = some e → e.pins = 0 ∧ e.txn = false) ∧
          (cacheInvalidate block m).state = m.state.put block none)) := by
  unfold cacheInvalidate Mount.modifyBlock
  cases found : indexFind m block with
  | none =>
    have absent := lookup_of_missing found
    refine ⟨.refl wf, .inr ⟨by simp [absent], ?_⟩⟩
    exact (CacheState.put_self absent).symm
  | some idx =>
    have holds := (indexFind_eq_some wf).mp found
    have cached := lookup_of_slot wf holds
    dsimp only
    by_cases busy : ((m.ent idx).pins > 0 || (m.ent idx).txn) = true
    · rw [if_pos busy]
      obtain ⟨follows, sameState⟩ := setEnt_keep_follows wf holds holds
      refine ⟨follows, .inl ⟨_, cached, by simpa using busy, ?_⟩⟩
      rw [sameState]
      exact CacheState.put_self cached
    · rw [if_neg busy]
      obtain ⟨unpinned, outside⟩ : (m.ent idx).pins = 0 ∧ (m.ent idx).txn = false := by
        simpa using busy
      obtain ⟨follows, sameState⟩ :=
        setEnt_clear_follows (e := { m.ent idx with
            block := none, dirty := false, txn := false })
          wf holds rfl unpinned
      refine ⟨follows, .inr ⟨?_, sameState⟩⟩
      intro e isCached
      rw [cached] at isCached
      cases isCached
      exact ⟨unpinned, outside⟩

/-- A block joins the open transaction once, while there is room. -/
theorem wp_txnDirty (block : Nat) :
    wp (txnDirty block)
      (fun _ after =>
        ∃ e, m.lookup block = some e ∧
          (((m.inTxn = false ∨ e.txn = true) ∧ Follows m after ∧ after.state =
                m.state.put block (some { e with dirty := true })) ∨
            (m.inTxn = true ∧ e.txn = false ∧ m.txnBlocks.length < txnMaxBlocks ∧
              Follows { m with txnBlocks := m.txnBlocks ++ [block] } after ∧
              after.state = m.state.put block (some { e with dirty := true, txn := true }))))
      (fun code after =>
        Follows m after ∧ ((code = .einval ∧ m.lookup block = none ∧ after.state = m.state) ∨
            (code = .eoverflow ∧ txnMaxBlocks ≤ m.txnBlocks.length ∧
              ∃ e, m.lookup block = some e ∧ e.txn = false ∧ after.state =
                  m.state.put block (some { e with dirty := true }))))
      m := by
  unfold txnDirty
  rw [wp_bind, wp_read]
  cases found : indexFind m block with
  | none =>
    have absent := lookup_of_missing found
    exact ⟨.refl wf, .inl ⟨rfl, absent, rfl⟩⟩
  | some idx =>
    have holds := (indexFind_eq_some wf).mp found
    have bound := slot_lt_of_block holds
    have cached := lookup_of_slot wf holds
    obtain ⟨marked, markedState⟩ :=
      setEnt_keep_follows (e := { m.ent idx with dirty := true }) wf holds holds
    have slot : (m.setEnt idx { m.ent idx with dirty := true }).ent idx =
          { m.ent idx with dirty := true } :=
      ent_setEnt_same bound _
    rw [wp_bind]
    by_cases inside : m.inTxn = true
    · by_cases member : (m.ent idx).txn = true
      · rw [if_neg (by simp [inside]), if_pos member]
        exact ⟨_, cached, .inl ⟨.inr member, marked, markedState⟩⟩
      · have outside := Bool.eq_false_of_not_eq_true member
        rw [if_neg (by simp [inside]), if_neg member]
        by_cases full : m.txnBlocks.length ≥ txnMaxBlocks
        · rw [if_pos full]
          exact ⟨marked, .inr ⟨rfl, full, _, cached, outside, markedState⟩⟩
        · rw [if_neg full]
          obtain ⟨joined, joinedState⟩ :=
            setEnt_keep_follows (e := { (m.setEnt idx { m.ent idx with dirty := true }).ent idx
                  with txn := true }) marked.wf (show (Mount.ent _ idx).block = some block by
                rw [slot]; exact holds)
              (by rw [slot]; exact holds)
          refine ⟨_, cached, .inr ⟨inside, outside, Nat.lt_of_not_le full, ⟨?_, ?_⟩, ?_⟩⟩
          · exact joined.wf.of_same_table rfl rfl rfl
          · exact congrArg (fun frame : Mount =>
                { frame with txnBlocks := m.txnBlocks ++ [block] })
              (joined.frame.trans marked.frame)
          · refine joinedState.trans ?_
            rw [markedState, slot]
            simp [CacheState.put]
    · have outside := Bool.eq_false_of_not_eq_true inside
      rw [if_pos (by simp [outside])]
      exact ⟨_, cached, .inl ⟨.inl outside, marked, markedState⟩⟩

end

def Selects (m : Mount) (selected : Ent → Bool) (slots : List Nat) (block : Nat) (e : Ent) : Prop :=
  ∃ slot ∈ slots, m.ent slot = e ∧ e.block = some block ∧ selected e = true

theorem selects_cons
    {slot : Nat}
    {rest : List Nat} :
    Selects m selected (slot :: rest) block e ↔
      (m.ent slot = e ∧ e.block = some block ∧ selected e = true) ∨
        Selects m selected rest block e := by
  simp [Selects]

/-- Some of the wanted entries were written home, each once. -/
structure WroteHome (m after : Mount) (wanted : Nat → Ent → Prop) (homes : List (Nat × Ent)) :
    Prop where
  follows : Follows m after
  state : after.state = m.state.homeAll homes
  nodup : (homes.map Prod.fst).Nodup
  wanted : ∀ {block e}, (block, e) ∈ homes → wanted block e

/-- A write-back before the others. -/
theorem WroteHome.cons
    {mid : Mount}
    {wanted later : Nat → Ent → Prop}
    (wrote : Follows m mid)
    (wroteState : mid.state = (m.state.write block e.data).put block
        (some { e with dirty := false }))
    (isWanted : wanted block e)
    (fresh : ∀ e, ¬ later block e)
    (more : ∀ {query e}, later query e → wanted query e)
    (done : WroteHome mid after later homes) :
    WroteHome m after wanted ((block, e) :: homes) where
  follows := wrote.trans done.follows
  state := by rw [done.state, wroteState, CacheState.homeAll_cons]
  nodup := by
    rw [map_cons, nodup_cons]
    refine ⟨fun member => ?_, done.nodup⟩
    obtain ⟨⟨_, other⟩, isHome, rfl⟩ := mem_map.mp member
    exact fresh other (done.wanted isHome)
  wanted := by
    intro query other member
    rcases mem_cons.mp member with same | member
    · cases same
      exact isWanted
    · exact more (done.wanted member)

/--
The write-back loop over some slots wrote home a list of selected entries; when
it ends without an error these are all the selected entries of those slots.
-/
theorem wp_writebackWhere
    (selected : Ent → Bool)
    {slots : List Nat}
    (distinctSlots : slots.Nodup)
    (wf : CacheWf m) :
    wp (writebackWhere selected slots)
      (fun wrote after =>
        ∃ homes, WroteHome m after (Selects m selected slots) homes ∧
          (∀ {block e}, Selects m selected slots block e → (block, e) ∈ homes) ∧
          (wrote = true ↔ homes ≠ []))
      (fun _ after =>
        ¬ Healthy m ∧ ∃ homes, WroteHome m after (Selects m selected slots) homes)
      m := by
  induction slots generalizing m with
  | nil =>
    refine ⟨[], ⟨.refl wf, by simp, nodup_nil, ?_⟩, ?_, ?_⟩ <;>
      simp [Selects]
  | cons slot rest ih =>
    rw [nodup_cons] at distinctSlots
    unfold writebackWhere
    rw [wp_bind, wp_read]
    by_cases chosen : ((m.ent slot).block != none && selected (m.ent slot)) = true
    · rw [if_pos chosen, wp_bind]
      obtain ⟨occupied, isSelected⟩ : (m.ent slot).block ≠ none ∧ selected (m.ent slot) = true := by
        simpa using chosen
      obtain ⟨block, content⟩ := Option.ne_none_iff_exists'.mp occupied
      refine wp_mono (wp_entWriteback wf content) ?_ ?_
      · rintro _ mid ⟨wrote, others, -, wroteState⟩
        have restSame : Selects mid selected rest = Selects m selected rest := by
          funext query e
          refine propext (exists_congr fun other => and_congr_right fun listed => ?_)
          rw [others other (by rintro rfl; exact distinctSlots.1 listed)]
        have fresh : ∀ e, ¬ Selects m selected rest block e := by
          rintro e ⟨other, listed, rfl, holds, -⟩
          have same := wf.distinct holds content
          exact distinctSlots.1 (same ▸ listed)
        have first : Selects m selected (slot :: rest) block (m.ent slot) :=
          selects_cons.mpr (.inl ⟨rfl, content, isSelected⟩)
        have more {query : Nat} {e : Ent} (listed : Selects m selected rest query e) :
            Selects m selected (slot :: rest) query e :=
          selects_cons.mpr (.inr listed)
        rw [wp_bind]
        refine wp_mono (ih distinctSlots.2 wrote.wf) ?_ ?_ <;> rw [restSame]
        · rintro _ after ⟨homes, done, all, -⟩
          refine ⟨_, done.cons wrote wroteState first fresh more, fun listed => ?_, by simp⟩
          rcases selects_cons.mp listed with ⟨rfl, holds, -⟩ | listed
          · rw [content] at holds
            cases holds
            exact mem_cons_self
          · exact mem_cons_of_mem _ (all listed)
        · rintro _ after ⟨faulty, homes, done⟩
          exact ⟨fun healthy => faulty (wrote.healthy healthy), _,
            done.cons wrote wroteState first fresh more⟩
      · rintro _ mid ⟨faulty, follows, sameState⟩
        exact ⟨faulty, [], follows, by simpa using sameState, nodup_nil, by simp⟩
    · rw [if_neg chosen]
      have skipped : Selects m selected (slot :: rest) = Selects m selected rest := by
        funext query e
        refine propext (selects_cons.trans (or_iff_right ?_))
        rintro ⟨rfl, holds, isSelected⟩
        exact chosen (by simp [holds, isSelected])
      rw [skipped]
      exact ih distinctSlots.2 wf

/-- The slots select the blocks that the table selects. -/
theorem selects_slots (wf : CacheWf m) :
    Selects m selected m.slots block e ↔
      m.lookup block = some e ∧ selected e = true := by
  constructor
  · rintro ⟨slot, -, rfl, holds, chosen⟩
    exact ⟨lookup_of_slot wf holds, chosen⟩
  · rintro ⟨cached, chosen⟩
    obtain ⟨slot, holds, rfl⟩ := (lookup_eq_some wf).mp cached
    exact ⟨slot, mem_range.mpr (slot_lt_of_block holds), rfl, holds, chosen⟩

/-- The listed entries are cached, selected, and listed once. -/
structure SomeHomes
    (c : CacheState) (selected : Ent → Bool)
    (homes : List (Nat × Ent)) : Prop where
  nodup : (homes.map Prod.fst).Nodup
  cached : ∀ {block e}, (block, e) ∈ homes → c.table block = some e ∧ selected e = true

/-- The listed entries are all the selected ones. -/
structure AllHomes
    (c : CacheState) (selected : Ent → Bool)
    (homes : List (Nat × Ent)) : Prop extends
    SomeHomes c selected homes where
  complete : ∀ {block e}, c.table block = some e → selected e = true → (block, e) ∈ homes

theorem wp_writebackSlots
    (wf : CacheWf m)
    (selected : Ent → Bool) :
    wp (writebackWhere selected m.slots)
      (fun wrote after =>
        Follows m after ∧ ∃ homes,
          AllHomes m.state selected homes ∧
            after.state = m.state.homeAll homes ∧
            (wrote = true ↔ homes ≠ []))
      (fun _ after =>
        ¬ Healthy m ∧ Follows m after ∧ ∃ homes,
          SomeHomes m.state selected homes ∧
            after.state = m.state.homeAll homes)
      m := by
  have cached {after : Mount} {homes : List (Nat × Ent)}
      (done : WroteHome m after (Selects m selected m.slots) homes) :
      SomeHomes m.state selected homes :=
    ⟨done.nodup, fun member => (selects_slots wf).mp (done.wanted member)⟩
  refine wp_mono (wp_writebackWhere selected nodup_range wf) ?_ ?_
  · rintro wrote after ⟨homes, done, all, any⟩
    refine ⟨done.follows, homes, ⟨cached done, fun isCached chosen => ?_⟩, done.state, any⟩
    exact all ((selects_slots wf).mpr ⟨isCached, chosen⟩)
  · rintro code after ⟨faulty, homes, done⟩
    exact ⟨faulty, done.follows, homes, cached done, done.state⟩

theorem Follows.wp_flush
    {mid : Mount}
    {c : CacheState}
    (follows : Follows m mid)
    (sameState : mid.state = c) :
    wp (onBdev Bdev.flush) (fun _ after => Follows m after ∧ after.state = c.flush)
      (fun _ after => ¬ Healthy m ∧ Follows m after ∧ after.state = c) mid := by
  apply CaraOS.Carafs.wp_flush
  · intro faulty code
    exact ⟨fun healthy => faulty (follows.healthy healthy), follows.ticked, sameState⟩
  · exact ⟨follows.flushed, congrArg CacheState.flush sameState⟩

/-- A sync writes every dirty entry home, then flushes. -/
theorem wp_cacheSync (wf : CacheWf m) :
    wp cacheSync
      (fun _ after =>
        Follows m after ∧ ∃ homes,
          AllHomes m.state (fun e => e.dirty) homes ∧
            after.state = (m.state.homeAll homes).flush)
      (fun _ after =>
        ¬ Healthy m ∧ Follows m after ∧ ∃ homes,
          SomeHomes m.state (fun e => e.dirty) homes ∧
            after.state = m.state.homeAll homes)
      m := by
  unfold cacheSync
  rw [wp_bind, wp_read, wp_bind]
  refine wp_mono (wp_writebackSlots wf _) ?_ ?_
  · rintro wrote mid ⟨follows, homes, all, sameState, -⟩
    refine wp_mono (follows.wp_flush sameState) ?_ ?_
    · exact fun _ _ ⟨flushed, flushedState⟩ => ⟨flushed, homes, all, flushedState⟩
    · exact fun _ _ ⟨faulty, ticked, kept⟩ => ⟨faulty, ticked, homes, all.toSomeHomes, kept⟩
  · intro code after failed
    exact failed

/-- Data goes home before the commit; the open transaction stays. -/
theorem wp_writebackData (wf : CacheWf m) :
    wp writebackData
      (fun _ after =>
        Follows m after ∧ ∃ homes,
          AllHomes m.state (fun e => e.dirty && !e.txn) homes ∧
            after.state =
              if homes = [] then m.state
              else (m.state.homeAll homes).flush)
      (fun _ after =>
        ¬ Healthy m ∧ Follows m after ∧ ∃ homes,
          SomeHomes m.state (fun e => e.dirty && !e.txn) homes ∧
            after.state = m.state.homeAll homes)
      m := by
  unfold writebackData
  rw [wp_bind, wp_read, wp_bind]
  refine wp_mono (wp_writebackSlots wf _) ?_ ?_
  · rintro wrote mid ⟨follows, homes, all, sameState, any⟩
    cases wrote with
    | false =>
      have none : homes = [] := by
        by_contra some
        exact absurd (any.mpr some) (by simp)
      subst none
      exact ⟨follows, [], all, by simpa using sameState⟩
    | true =>
      have some : homes ≠ [] := any.mp rfl
      refine wp_mono (follows.wp_flush sameState) ?_ ?_
      · exact fun _ _ ⟨flushed, kept⟩ => ⟨flushed, homes, all, kept.trans (if_neg some).symm⟩
      · exact fun _ _ ⟨faulty, ticked, kept⟩ => ⟨faulty, ticked, homes, all.toSomeHomes, kept⟩
  · intro code after failed
    exact failed

end Operations

end CaraOS.Carafs
