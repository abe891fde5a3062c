import Mathlib.Logic.Function.Basic
import Mathlib.Data.List.Perm.Basic
import CaraOS.Carafs.Cache

namespace CaraOS.Carafs

/-!
# The entry table as a map

The rules for the device requests the driver makes, and the entry table read
as a finite map from block numbers to entries, `Mount.lookup`.  The invariant
`CacheWf` is what makes the table one.
-/

/-! ## Device requests -/

/-- The device after a request that failed. -/
def Mount.ticked (m : Mount) : Mount :=
  { m with bdev := { m.bdev with calls := m.bdev.calls + 1 } }

def Mount.written (m : Mount) (block : Nat) (image : Block) : Mount :=
  { m with bdev := { m.bdev with
      calls := m.bdev.calls + 1
      disk := setBlock m.bdev.disk block image
      stream := m.bdev.stream ++ [.write block image] } }

/-- The device after a flush. -/
def Mount.flushed (m : Mount) : Mount :=
  { m with bdev := { m.bdev with
      calls := m.bdev.calls + 1
      stream := m.bdev.stream ++ [.flush] } }

/-- The device answers every request from here on. -/
def Healthy (m : Mount) : Prop :=
  ∀ call, m.bdev.fault call = none

variable {post : Unit → Mount → Prop}

section Requests

theorem onBdev_apply {α : Type} (request : Action Err Bdev α) (m : Mount) :
    onBdev request m =
      ((request m.bdev).1, { m with bdev := (request m.bdev).2 }) :=
  rfl

variable {failed : Err → Mount → Prop} {m : Mount}

theorem write_cases (m : Mount) (block : Nat) (image : Block) :
    (¬ (Healthy m ∧ block < m.bdev.nBlocks) ∧ ∃ code,
          onBdev (Bdev.write block image) m = (.error code, m.ticked)) ∨
      (block < m.bdev.nBlocks ∧ onBdev (Bdev.write block image) m =
          (.ok (), m.written block image)) := by
  rw [onBdev_apply]
  unfold Bdev.write
  cases faulty : m.bdev.fault m.bdev.calls with
  | some code =>
    refine .inl ⟨?_, code, rfl⟩
    rintro ⟨healthy, -⟩
    simp [healthy m.bdev.calls] at faulty
  | none =>
    by_cases outside : block + 1 > m.bdev.nBlocks
    · simp only [outside, if_true]
      exact .inl ⟨by omega, .erange, rfl⟩
    · simp only [outside, if_false]
      exact .inr ⟨by omega, rfl⟩

theorem flush_cases (m : Mount) :
    (¬ Healthy m ∧ ∃ code, onBdev Bdev.flush m = (.error code, m.ticked)) ∨
      onBdev Bdev.flush m = (.ok (), m.flushed) := by
  rw [onBdev_apply]
  unfold Bdev.flush
  cases faulty : m.bdev.fault m.bdev.calls with
  | some code =>
    refine .inl ⟨?_, code, rfl⟩
    intro healthy
    simp [healthy m.bdev.calls] at faulty
  | none =>
    exact .inr rfl

theorem bdevRead_cases (m : Mount) (block : Nat) :
    (¬ (Healthy m ∧ block < m.bdev.nBlocks) ∧
        ∃ code, onBdev (Bdev.read block) m = (.error code, m.ticked)) ∨
      (block < m.bdev.nBlocks ∧ onBdev (Bdev.read block) m =
          (.ok (m.bdev.disk block), m.ticked)) := by
  rw [onBdev_apply]
  unfold Bdev.read
  cases faulty : m.bdev.fault m.bdev.calls with
  | some code =>
    refine .inl ⟨?_, code, rfl⟩
    rintro ⟨healthy, -⟩
    simp [healthy m.bdev.calls] at faulty
  | none =>
    by_cases outside : block + 1 > m.bdev.nBlocks
    · simp only [outside, if_true]
      exact .inl ⟨by omega, .erange, rfl⟩
    · simp only [outside, if_false]
      exact .inr ⟨by omega, rfl⟩

theorem wp_write {block : Nat} {image : Block}
    (onFailure : ¬ (Healthy m ∧ block < m.bdev.nBlocks) → ∀ code, failed code m.ticked)
    (onSuccess : block < m.bdev.nBlocks → post () (m.written block image)) :
    Action.wp (onBdev (Bdev.write block image)) post failed m := by
  unfold Action.wp
  rcases write_cases m block image with ⟨faulty, code, ran⟩ | ⟨inRange, ran⟩
  · rw [ran]
    exact onFailure faulty code
  · rw [ran]
    exact onSuccess inRange

theorem wp_flush (onFailure : ¬ Healthy m → ∀ code, failed code m.ticked)
    (onSuccess : post () m.flushed) : Action.wp (onBdev Bdev.flush) post failed m := by
  unfold Action.wp
  rcases flush_cases m with ⟨faulty, code, ran⟩ | ran
  · rw [ran]
    exact onFailure faulty code
  · rwa [ran]

theorem wp_bdevRead {post : Block → Mount → Prop} {block : Nat}
    (onFailure : ¬ (Healthy m ∧ block < m.bdev.nBlocks) → ∀ code, failed code m.ticked)
    (onSuccess : block < m.bdev.nBlocks → post (m.bdev.disk block) m.ticked) :
    Action.wp (onBdev (Bdev.read block)) post failed m := by
  unfold Action.wp
  rcases bdevRead_cases m block with ⟨faulty, code, ran⟩ | ⟨inRange, ran⟩
  · rw [ran]
    exact onFailure faulty code
  · rw [ran]
    exact onSuccess inRange

end Requests

/-! ## The table as a map -/

def Mount.lookup (m : Mount) (block : Nat) : Option Ent :=
  (indexFind m block).map m.ent

/--
The entry table is a table: no block is cached twice, an empty slot is not
pinned, cached blocks exist on the device, and the LRU list names every slot
once.
-/
structure CacheWf (m : Mount) : Prop where
  distinct : ∀ {i j block}, (m.ent i).block = some block → (m.ent j).block = some block → i = j
  emptyUnpinned : ∀ {i}, (m.ent i).block = none → (m.ent i).pins = 0
  inRange : ∀ {i block}, (m.ent i).block = some block → block < m.bdev.nBlocks
  lruSlots : m.lru.Perm (List.range m.ents.length)

/-- Everything but the table, the LRU order and the device's history. -/
def Mount.frame (m : Mount) : Mount :=
  { m with
    bdev := { m.bdev with
      disk := fun _ => default
      stream := []
      calls := 0 }
    ents := List.replicate m.ents.length default
    lru := [] }

section Table

variable {m : Mount}

variable {idx block : Nat} {e : Ent}

theorem ent_eq_getElem (bound : idx < m.ents.length) : m.ent idx = m.ents[idx] := by
  simp [Mount.ent, bound]

theorem slot_lt_of_block (holds : (m.ent idx).block = some block) : idx < m.ents.length := by
  by_contra outside
  have empty : m.ent idx = default := by
    simp [Mount.ent, List.getElem?_eq_none (Nat.le_of_not_lt outside)]
  rw [empty] at holds
  exact absurd holds (by simp [default])

theorem ent_setEnt_same (bound : idx < m.ents.length) (e : Ent) : (m.setEnt idx e).ent idx = e := by
  simp [Mount.ent, Mount.setEnt, bound]

theorem ent_setEnt_other {other : Nat} (different : other ≠ idx) (e : Ent) :
    (m.setEnt idx e).ent other = m.ent other := by
  simp [Mount.ent, Mount.setEnt, different.symm]

theorem indexFind_eq_some (wf : CacheWf m) :
    indexFind m block = some idx ↔ (m.ent idx).block = some block := by
  unfold indexFind
  rw [List.findIdx?_eq_some_iff_getElem]
  constructor
  · rintro ⟨bound, matches_, _⟩
    rw [ent_eq_getElem bound]
    simpa using matches_
  · intro holds
    have bound := slot_lt_of_block holds
    refine ⟨bound, ?_, ?_⟩
    · rw [ent_eq_getElem bound] at holds
      simp [holds]
    · intro earlier before
      have earlierBound := Nat.lt_trans before bound
      intro alsoHolds
      have sameBlock : (m.ent earlier).block = some block := by
        rw [ent_eq_getElem earlierBound]
        simpa using alsoHolds
      exact absurd (wf.distinct sameBlock holds) (Nat.ne_of_lt before)

theorem indexFind_eq_none : indexFind m block = none ↔ ∀ idx, (m.ent idx).block ≠ some block := by
  unfold indexFind
  rw [List.findIdx?_eq_none_iff]
  constructor
  · intro absent idx holds
    have bound := slot_lt_of_block holds
    have missing := absent m.ents[idx] (List.getElem_mem bound)
    rw [ent_eq_getElem bound] at holds
    simp [holds] at missing
  · intro absent e member
    obtain ⟨idx, bound, rfl⟩ := List.getElem_of_mem member
    have different := absent idx
    rw [ent_eq_getElem bound] at different
    simpa using different

theorem lookup_eq_some (wf : CacheWf m) :
    m.lookup block = some e ↔
      ∃ idx, (m.ent idx).block = some block ∧ m.ent idx = e := by
  simp [Mount.lookup, indexFind_eq_some wf]

theorem lookup_eq_none : m.lookup block = none ↔ ∀ idx, (m.ent idx).block ≠ some block := by
  simp [Mount.lookup, indexFind_eq_none]

theorem lookup_of_missing (missing : indexFind m block = none) : m.lookup block = none := by
  simp [Mount.lookup, missing]

theorem lookup_of_slot (wf : CacheWf m) (holds : (m.ent idx).block = some block) :
    m.lookup block = some (m.ent idx) :=
  (lookup_eq_some wf).mpr ⟨idx, holds, rfl⟩

theorem cached_of_lookup (cached : m.lookup block = some e) : m.cached block = e.data := by
  unfold Mount.lookup at cached
  unfold Mount.cached
  cases found : indexFind m block with
  | none =>
    simp [found] at cached
  | some idx =>
    simp only [found, Option.map_some, Option.some.injEq] at cached
    simp [cached]

theorem ent_of_empty {n : Nat} (empty : m.ents = List.replicate n {}) (idx : Nat) :
    m.ent idx = {} := by
  unfold Mount.ent
  rw [empty]
  by_cases bound : idx < n
  · simp [bound]
  · simp [bound, default]

theorem lookup_of_empty {n : Nat} (empty : m.ents = List.replicate n {}) (block : Nat) :
    m.lookup block = none := by
  rw [lookup_eq_none]
  intro idx
  simp [ent_of_empty empty]

variable (wf : CacheWf m)
include wf

theorem wf_setEnt_keep (holds : (m.ent idx).block = some block) (same : e.block = some block) :
    CacheWf (m.setEnt idx e) := by
  have bound := slot_lt_of_block holds
  have blocks : ∀ slot, ((m.setEnt idx e).ent slot).block = (m.ent slot).block := by
    intro slot
    by_cases here : slot = idx
    · rw [here, ent_setEnt_same bound, same, holds]
    · rw [ent_setEnt_other here]
  refine ⟨?_, ?_, ?_, ?_⟩
  · intro i j query
    rw [blocks, blocks]
    exact wf.distinct
  · intro slot
    rw [blocks]
    intro empty
    have elsewhere : slot ≠ idx := by
      rintro rfl
      simp [holds] at empty
    rw [ent_setEnt_other elsewhere]
    exact wf.emptyUnpinned empty
  · intro slot query
    rw [blocks]
    exact wf.inRange
  · simpa [Mount.setEnt] using wf.lruSlots

theorem lookup_setEnt_other {query : Nat}
    (bound : idx < m.ents.length) (wfAfter : CacheWf (m.setEnt idx e))
    (notBefore : (m.ent idx).block ≠ some query)
    (notAfter : e.block ≠ some query) : (m.setEnt idx e).lookup query = m.lookup query := by
  apply Option.ext
  intro found
  rw [lookup_eq_some wfAfter, lookup_eq_some wf]
  constructor
  · rintro ⟨slot, slotHolds, rfl⟩
    have elsewhere : slot ≠ idx := by
      rintro rfl
      rw [ent_setEnt_same bound] at slotHolds
      exact notAfter slotHolds
    rw [ent_setEnt_other elsewhere] at slotHolds ⊢
    exact ⟨slot, slotHolds, rfl⟩
  · rintro ⟨slot, slotHolds, rfl⟩
    have elsewhere : slot ≠ idx := by
      rintro rfl
      exact notBefore slotHolds
    exact ⟨slot, by rw [ent_setEnt_other elsewhere]; exact slotHolds, ent_setEnt_other elsewhere e⟩

theorem lookup_setEnt_keep (holds : (m.ent idx).block = some block) (same : e.block = some block) :
    (m.setEnt idx e).lookup =
      Function.update m.lookup block (some e) := by
  have bound := slot_lt_of_block holds
  have wfAfter := wf_setEnt_keep wf holds same
  funext query
  by_cases here : query = block
  · subst here
    rw [Function.update_self, lookup_eq_some wfAfter]
    exact ⟨idx, by rw [ent_setEnt_same bound, same], ent_setEnt_same bound e⟩
  · rw [Function.update_of_ne here]
    exact lookup_setEnt_other wf bound wfAfter (by simpa [holds] using Ne.symm here)
      (by simpa [same] using Ne.symm here)

theorem wf_setEnt_clear (empty : e.block = none) (unpinned : e.pins = 0) :
    CacheWf (m.setEnt idx e) := by
  have sub : ∀ {slot block}, ((m.setEnt idx e).ent slot).block = some block →
        (m.ent slot).block = some block := by
    intro slot block holds
    by_cases here : slot = idx
    · subst here
      have bound := slot_lt_of_block holds
      simp only [Mount.setEnt, List.length_set] at bound
      rw [ent_setEnt_same bound, empty] at holds
      exact absurd holds (by simp)
    · rwa [ent_setEnt_other here] at holds
  refine ⟨?_, ?_, ?_, ?_⟩
  · intro i j block first second
    exact wf.distinct (sub first) (sub second)
  · intro slot noBlock
    by_cases here : slot = idx
    · subst here
      by_cases bound : slot < m.ents.length
      · rwa [ent_setEnt_same bound]
      · have untouched : m.setEnt slot e = m := by
          simp [Mount.setEnt, List.set_eq_of_length_le (Nat.le_of_not_lt bound)]
        rw [untouched] at noBlock ⊢
        exact wf.emptyUnpinned noBlock
    · rw [ent_setEnt_other here] at noBlock ⊢
      exact wf.emptyUnpinned noBlock
  · intro slot block holds
    exact wf.inRange (sub holds)
  · simpa [Mount.setEnt] using wf.lruSlots

theorem lookup_setEnt_clear (holds : (m.ent idx).block = some block)
    (empty : e.block = none) (unpinned : e.pins = 0) :
    (m.setEnt idx e).lookup = Function.update m.lookup block none := by
  have bound := slot_lt_of_block holds
  have wfAfter : CacheWf (m.setEnt idx e) := wf_setEnt_clear wf empty unpinned
  funext query
  by_cases here : query = block
  · subst here
    rw [Function.update_self, lookup_eq_none]
    intro slot slotHolds
    by_cases same : slot = idx
    · rw [same, ent_setEnt_same bound, empty] at slotHolds
      exact absurd slotHolds (by simp)
    · rw [ent_setEnt_other same] at slotHolds
      exact same (wf.distinct slotHolds holds)
  · rw [Function.update_of_ne here]
    exact lookup_setEnt_other wf bound wfAfter (by simpa [holds] using Ne.symm here)
      (by simp [empty])

theorem wf_setEnt_fill (bound : idx < m.ents.length)
    (absent : m.lookup block = none) (inRange : block < m.bdev.nBlocks)
    (fills : e.block = some block) : CacheWf (m.setEnt idx e) := by
  have missing := lookup_eq_none.mp absent
  refine ⟨?_, ?_, ?_, ?_⟩
  · intro i j query first second
    by_cases iHere : i = idx
    · by_cases jHere : j = idx
      · rw [iHere, jHere]
      · rw [iHere, ent_setEnt_same bound, fills] at first
        rw [ent_setEnt_other jHere, ← first] at second
        exact absurd second (missing j)
    · rw [ent_setEnt_other iHere] at first
      by_cases jHere : j = idx
      · rw [jHere, ent_setEnt_same bound, fills] at second
        rw [← second] at first
        exact absurd first (missing i)
      · rw [ent_setEnt_other jHere] at second
        exact wf.distinct first second
  · intro slot noBlock
    have elsewhere : slot ≠ idx := by
      rintro rfl
      simp [ent_setEnt_same bound, fills] at noBlock
    rw [ent_setEnt_other elsewhere] at noBlock ⊢
    exact wf.emptyUnpinned noBlock
  · intro slot query holds
    by_cases here : slot = idx
    · rw [here, ent_setEnt_same bound, fills] at holds
      rwa [← Option.some.inj holds]
    · rw [ent_setEnt_other here] at holds
      exact wf.inRange holds
  · simpa [Mount.setEnt] using wf.lruSlots

theorem lookup_setEnt_fill (bound : idx < m.ents.length)
    (vacant : (m.ent idx).block = none) (absent : m.lookup block = none)
    (inRange : block < m.bdev.nBlocks) (fills : e.block = some block) :
    (m.setEnt idx e).lookup =
      Function.update m.lookup block (some e) := by
  have wfAfter := wf_setEnt_fill wf bound absent inRange fills
  funext query
  by_cases here : query = block
  · subst here
    rw [Function.update_self, lookup_eq_some wfAfter]
    exact ⟨idx, by rw [ent_setEnt_same bound, fills], ent_setEnt_same bound e⟩
  · rw [Function.update_of_ne here]
    exact lookup_setEnt_other wf bound wfAfter (by simp [vacant])
      (by simpa [fills] using Ne.symm here)

end Table

end CaraOS.Carafs
