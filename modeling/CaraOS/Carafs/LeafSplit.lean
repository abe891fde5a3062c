import Mathlib.Algebra.Order.BigOperators.Group.List
import CaraOS.Carafs.Dir

namespace CaraOS.Carafs

/-!
# Splitting a directory leaf

`carafs_dtree_insert` splits a full leaf at the byte midpoint and copies the
new record into one of the halves without looking at the room there.  The copy
stays inside the block when no record takes more than a quarter of a leaf,
which every name does from a block size of 2048 bytes on.
-/

open List

/-- Four records of this size fit a leaf. -/
def Dirent.Quarter (bs : Nat) (entry : Dirent) : Prop :=
  4 * entry.stride ≤ bs - btBodyOff
  deriving Decidable

/-- The records of a leaf stay inside the block, and none is large. -/
structure LeafFits (bs : Nat) (recs : List Dirent) : Prop where
  room : direntsBytes recs ≤ bs - btBodyOff
  quarter : ∀ entry ∈ recs, entry.Quarter bs

section Split

variable {bs : Nat} {entry : Dirent} {recs : List Dirent}

theorem Dirent.Quarter.cap (quarter : entry.Quarter bs) : 2 ≤ btCap bs := by
  unfold Dirent.Quarter Dirent.stride direntStride align8 direntBase at quarter
  unfold btCap btRecSize
  omega

theorem insertDirent_perm (entry : Dirent) (recs : List Dirent) :
    (insertDirent entry recs).Perm (entry :: recs) := by
  refine perm_middle.trans ?_
  rw [takeWhile_append_dropWhile]

theorem direntsBytes_insertDirent (entry : Dirent) (recs : List Dirent) :
    direntsBytes (insertDirent entry recs) =
      direntsBytes recs + entry.stride := by
  unfold direntsBytes
  rw [((insertDirent_perm entry recs).map _).sum_eq, map_cons, sum_cons, Nat.add_comm]

theorem direntsBytes_take_add_drop (recs : List Dirent) (keep : Nat) :
    direntsBytes (recs.take keep) + direntsBytes (recs.drop keep) =
      direntsBytes recs := by
  unfold direntsBytes
  rw [← sum_append, ← map_append, take_append_drop]

theorem midpoint_spec {used acc i : Nat} (some : recs ≠ []) (total : acc + direntsBytes recs = used)
    (before : acc * 2 ≤ used) :
    ∃ n < recs.length, midpoint used acc i recs = i + (n + 1) ∧
      used ≤ (acc + direntsBytes (recs.take (n + 1))) * 2 ∧
      (acc + direntsBytes (recs.take n)) * 2 ≤ used := by
  induction recs generalizing acc i with
  | nil => exact absurd rfl some
  | cons entry rest ih =>
    have sum : direntsBytes (entry :: rest) = entry.stride + direntsBytes rest := rfl
    unfold midpoint
    by_cases reached : used ≤ (acc + entry.stride) * 2
    · rw [if_pos reached]
      refine ⟨0, Nat.zero_lt_succ _, rfl, ?_, ?_⟩
      · simpa [direntsBytes] using reached
      · simpa [direntsBytes] using before
    · rw [if_neg reached]
      have notLast : rest ≠ [] := by
        rintro rfl
        simp [direntsBytes] at total
        omega
      obtain ⟨n, inside, isMid, upper, lower⟩ := @ih
        (acc + entry.stride) (i + 1) notLast (by omega) (by omega)
      refine ⟨n + 1, Nat.succ_lt_succ inside, by omega, ?_, ?_⟩
      · simpa [direntsBytes, Nat.add_assoc] using upper
      · simpa [direntsBytes, Nat.add_assoc] using lower

theorem direntsBytes_take_succ_le {limit : Nat}
    (small : ∀ entry ∈ recs, entry.stride ≤ limit) (n : Nat) :
    direntsBytes (recs.take (n + 1)) ≤ direntsBytes (recs.take n) + limit := by
  rw [take_add_one]
  unfold direntsBytes
  rw [map_append, sum_append]
  refine Nat.add_le_add_left ?_ _
  cases here : recs[n]? with
  | none => exact Nat.zero_le limit
  | some entry => simpa using small entry (mem_of_getElem? here)

theorem splitKeep_spec {limit : Nat}
    (two : 2 ≤ recs.length) (small : ∀ entry ∈ recs, entry.stride ≤ limit) :
    direntsBytes (recs.take (splitKeep recs)) * 2 ≤
        direntsBytes recs + limit * 2 ∧
      (direntsBytes (recs.drop (splitKeep recs)) * 2 ≤ direntsBytes recs ∨
        direntsBytes (recs.drop (splitKeep recs)) ≤ limit) := by
  obtain ⟨n, inside, isMid, upper, lower⟩ :=
    @midpoint_spec recs (direntsBytes recs) 0 0
      (ne_nil_of_length_pos (by omega)) (Nat.zero_add _) (by omega)
  rw [Nat.zero_add] at isMid upper lower
  have step := direntsBytes_take_succ_le small n
  unfold splitKeep
  rw [isMid, Nat.max_eq_left (by omega)]
  by_cases early : n + 1 ≤ recs.length - 1
  · rw [Nat.min_eq_left early]
    have parts := direntsBytes_take_add_drop recs (n + 1)
    exact ⟨by omega, .inl (by omega)⟩
  · -- The midpoint is the last record: it alone moves.
    have isLast : n = recs.length - 1 := by omega
    rw [Nat.min_eq_right (by omega), ← isLast]
    refine ⟨by omega, .inr ?_⟩
    rw [drop_eq_getElem_cons inside, drop_of_length_le (by omega)]
    simpa [direntsBytes] using small _ (getElem_mem inside)

theorem LeafFits.insert (fits : LeafFits bs recs) (quarter : entry.Quarter bs)
    (room : direntsBytes recs + entry.stride ≤ bs - btBodyOff) :
    LeafFits bs (insertDirent entry recs) where
  room := by
    rwa [direntsBytes_insertDirent]
  quarter := fun other listed => by
    rcases mem_cons.mp ((insertDirent_perm entry recs).mem_iff.mp listed) with rfl | earlier
    · exact quarter
    · exact fits.quarter other earlier

theorem LeafFits.two (fits : LeafFits bs recs) (quarter : entry.Quarter bs)
    (full : ¬ direntsBytes recs + entry.stride ≤ bs - btBodyOff) : ¬ recs.length < 2 := by
  unfold Dirent.Quarter at quarter
  intro few
  match recs, few with
  | [], _ =>
    simp only [direntsBytes, map_nil, sum_nil] at full
    omega
  | [only], _ =>
    have small : 4 * only.stride ≤ bs - btBodyOff := fits.quarter only mem_cons_self
    simp only [direntsBytes, map_cons, map_nil, sum_cons, sum_nil] at full
    omega

theorem LeafFits.split (fits : LeafFits bs recs) (quarter : entry.Quarter bs)
    (two : 2 ≤ recs.length) :
    LeafFits bs (splitDirents recs entry).1 ∧
      LeafFits bs (splitDirents recs entry).2 := by
  have room := fits.room
  have small (other : Dirent) (listed : other ∈ recs) : other.stride ≤ (bs - btBodyOff) / 4 := by
    have := fits.quarter other listed
    unfold Dirent.Quarter at this
    omega
  obtain ⟨lower, upper⟩ := splitKeep_spec two small
  have here : 4 * entry.stride ≤ bs - btBodyOff := quarter
  have lowerFits : LeafFits bs (recs.take (splitKeep recs)) :=
    ⟨by omega, fun other listed =>
      fits.quarter other (mem_of_mem_take listed)⟩
  have upperFits : LeafFits bs (recs.drop (splitKeep recs)) :=
    ⟨by omega, fun other listed =>
      fits.quarter other (mem_of_mem_drop listed)⟩
  unfold splitDirents
  dsimp only
  split
  · exact ⟨lowerFits, upperFits.insert quarter (by omega)⟩
  · exact ⟨lowerFits.insert quarter (by omega), upperFits⟩

end Split

end CaraOS.Carafs
