import CaraOS.Croi.HandleTable

namespace CaraOS.Croi

/-!
# References held by handles

A run of a handle table with the references that others hold to its objects:
the creators, and whoever else retained one.  The callbacks that ran are those
`Kobj_Release` counts in the object.
-/

open List

/-- A table, and the references to the objects beside those of the table. -/
structure Owned where
  table : HandleTable
  creators : Nat → Nat

/-- Calls on the table, and on the objects themselves. -/
inductive OwnedOp where
  | table (op : HandleOp)
  | retain (k : Nat)
  | release (k : Nat)

/--
One step.  `none` for what nobody can do: open or retain an object that is
gone, or give up a reference one does not hold.  The count has 32 bits, so that
no object has more references outside the table than leave room for its slots.
-/
def Owned.step (o : Owned) : OwnedOp → Option Owned
  | .table (.open target) =>
    if ∀ k ∈ target, (o.table.kobjs k).refcount ≠ 0 then
      some { o with table := (handleTableOpen target o.table).2 }
    else
      none
  | .table (.close h) =>
    some { o with table := (handleTableClose h o.table).2 }
  | .retain k =>
    if (o.table.kobjs k).refcount ≠ 0 ∧ o.creators k + 2 ^ 16 < 2 ^ 32 then
      some {
        table := o.table.touch k kobjRetain
        creators := Function.update o.creators k (o.creators k + 1) }
    else
      none
  | .release k =>
    if o.creators k = 0 then
      none
    else
      some {
        table := o.table.touch k kobjRelease
        creators := Function.update o.creators k (o.creators k - 1) }

def Owned.run : List OwnedOp → Owned → Option Owned
  | [], o => some o
  | op :: rest, o => (o.step op).bind (Owned.run rest)

/-- The loop of `HandleTable_Destroy` over the slots. -/
def releaseSlots : List HandleSlot → (Nat → Kobj) → Nat → Kobj
  | [], kobjs => kobjs
  | slot :: rest, kobjs =>
    match slot.target with
    | none => releaseSlots rest kobjs
    | some k => releaseSlots rest (Function.update kobjs k (kobjRelease (kobjs k)))

def handleTableDestroy (ht : HandleTable) : HandleTable where
  slots := []
  freeHead := handleInvalid
  kobjs := releaseSlots ht.slots ht.kobjs

/-- The state after `HandleTable_Destroy`. -/
def Owned.destroy (o : Owned) : Owned :=
  { o with table := handleTableDestroy o.table }

def pointing (slots : List HandleSlot) (k : Nat) : Nat :=
  slots.countP fun slot => slot.target = some k

/-- The books of a table and its objects. -/
structure Owned.Sound (o : Owned) : Prop where
  freeList : ∃ free : List Nat, free.Nodup ∧ Threaded o.table.slots o.table.freeHead free ∧
      ∀ {idx slot}, o.table.slots[idx]? = some slot → (idx ∈ free ↔ slot.target = none)
  exhausted : ∀ k, (handleTableOpen (some k) o.table).1 = .error .enomem →
      ∀ slot ∈ o.table.slots, slot.target ≠ none
  counts : ∀ k, (o.table.kobjs k).refcount = o.creators k + pointing o.table.slots k
  destroyed : ∀ k, (o.table.kobjs k).destroyRuns =
      if (o.table.kobjs k).hasDestroy ∧ (o.table.kobjs k).refcount = 0 then 1
      else 0

/-- The objects count these references, and the callbacks ran at zero. -/
structure Counting (kobjs : Nat → Kobj) (refs : Nat → Nat) : Prop where
  counts : ∀ k, (kobjs k).refcount = refs k
  destroyed : ∀ k, (kobjs k).destroyRuns = if (kobjs k).hasDestroy ∧ refs k = 0 then 1 else 0
  fits : ∀ k, refs k < 2 ^ 32

variable {slots : List HandleSlot} {slot : HandleSlot}

section Counting

variable {kobjs : Nat → Kobj} {refs : Nat → Nat} {k : Nat}

section

variable (counting : Counting kobjs refs)
include counting

theorem Counting.of_refs
    {refs' : Nat → Nat}
    (same : ∀ k, refs' k = refs k) :
    Counting kobjs refs' := by
  rwa [funext same]

/-- One object changes and counts its references. -/
theorem Counting.update
    {changed : Kobj}
    {count : Nat}
    (counts : changed.refcount = count)
    (destroyed : changed.destroyRuns = if changed.hasDestroy ∧ count = 0 then 1 else 0)
    (fits : count < 2 ^ 32) :
    Counting (Function.update kobjs k changed) (Function.update refs k count) := by
  refine ⟨fun other => ?_, fun other => ?_, fun other => ?_⟩ <;>
    rcases eq_or_ne other k with rfl | different
  · simpa using counts
  · simp [different, counting.counts]
  · simpa using destroyed
  · simp [different, counting.destroyed]
  · simpa using fits
  · simpa [different] using counting.fits other

/-- `Kobj_Retain` counts a new reference. -/
theorem Counting.retain
    (alive : refs k ≠ 0)
    (room : refs k + 1 < 2 ^ 32) :
    Counting (Function.update kobjs k (kobjRetain (kobjs k)))
      (Function.update refs k (refs k + 1)) := by
  refine counting.update ?_ ?_ room
  · simp [kobjRetain, counting.counts]
    omega
  · simp [kobjRetain, counting.destroyed, alive]

/-- `Kobj_Release` counts a reference less, and runs the callback at the last one. -/
theorem Counting.release (alive : refs k ≠ 0) :
    Counting (Function.update kobjs k (kobjRelease (kobjs k)))
      (Function.update refs k (refs k - 1)) := by
  have fits := counting.fits k
  refine counting.update ?_ ?_ (by omega)
  · simp [kobjRelease, counting.counts]
    omega
  · simp only [kobjRelease, counting.counts, counting.destroyed, alive]
    by_cases isLast : refs k = 1
    · simp [isLast]
    · simp [isLast, show ¬ refs k - 1 = 0 by omega]

end

theorem pointing_set
    {idx : Nat}
    (found : slots[idx]? = some slot)
    (new : HandleSlot)
    (k : Nat) :
    pointing (slots.set idx new) k =
      pointing slots k - (if slot.target = some k then 1 else 0) +
        if new.target = some k then 1 else 0 := by
  obtain ⟨bound, isSlot⟩ := List.getElem?_eq_some_iff.mp found
  simp [pointing, countP_set bound, isSlot]

end Counting

/-- What holds between two steps. -/
structure Owned.Inv (o : Owned) : Prop where
  wellFormed : o.table.WellFormed
  counting : Counting o.table.kobjs fun k => o.creators k + pointing o.table.slots k
  creators : ∀ k, o.creators k + 2 ^ 16 ≤ 2 ^ 32

section Runs

variable {o after : Owned} {k h : Nat}

theorem HandleTable.WellFormed.head_free
    {ht : HandleTable}
    (wellFormed : ht.WellFormed)
    (valid : ht.freeHead ≠ handleInvalid)
    (found : ht.slots[ht.freeHead]? = some slot) :
    slot.target = none := by
  obtain ⟨free, -, threaded, exact⟩ := wellFormed.free
  refine (exact found).mp ?_
  cases free with
  | nil => exact absurd threaded valid
  | cons first rest => simp [threaded.1]

section

variable (inv : o.Inv)
include inv

theorem Owned.Inv.open (alive : (o.table.kobjs k).refcount ≠ 0) :
    Owned.Inv { o with table := (handleTableOpen (some k) o.table).2 } := by
  have wellFormed := step_wellFormed inv.wellFormed (.open (some k))
  refine ⟨wellFormed, ?_, inv.creators⟩
  unfold HandleOp.step at wellFormed
  unfold handleTableOpen at wellFormed ⊢
  split_ifs at wellFormed ⊢ with full
  · exact inv.counting
  · cases found : o.table.slots[o.table.freeHead]? with
    | none => exact inv.counting
    | some slot =>
      rw [found] at wellFormed
      have isFree := inv.wellFormed.head_free full found
      -- the slots that point at the object are one more
      have more (other : Nat) : o.creators other + pointing
          (o.table.slots.set o.table.freeHead { slot with target := some k }) other =
          Function.update (fun other => o.creators other + pointing o.table.slots other) k
            (o.creators k + pointing o.table.slots k + 1) other := by
        rw [pointing_set found, isFree]
        rcases eq_or_ne other k with rfl | different
        · simp [Nat.add_assoc]
        · simp [different, Ne.symm different]
      refine (inv.counting.retain ?_ ?_).of_refs more
      · rwa [← inv.counting.counts]
      · have creator := inv.creators k
        have room : pointing _ k ≤ _ := countP_le_length.trans wellFormed.cap
        have isMore := more k
        rw [Function.update_self] at isMore
        simp only [HandleTable.touch] at room
        omega

theorem Owned.Inv.close (h : Nat) :
    Owned.Inv { o with table := (handleTableClose h o.table).2 } := by
  refine ⟨step_wellFormed inv.wellFormed (.close h), ?_, inv.creators⟩
  unfold handleTableClose
  cases found : o.table.slots[handleIdx h]? with
  | none => exact inv.counting
  | some slot =>
    cases isTarget : slot.target with
    | none => simpa [isTarget] using inv.counting
    | some k =>
      by_cases stale : handleGen h = slot.generation
      · have points : 0 < pointing o.table.slots k :=
          countP_pos_iff.mpr ⟨slot, mem_of_getElem? found, by simpa using isTarget⟩
        have released := inv.counting.release (k := k) (by omega)
        simp only [isTarget, stale, ne_eq, not_true, if_false]
        refine released.of_refs fun other => ?_
        dsimp only [HandleTable.touch]
        rw [pointing_set found, isTarget]
        rcases eq_or_ne other k with rfl | different
        · simp
          omega
        · simp [different, Ne.symm different]
      · simpa [isTarget, stale] using inv.counting

/-- A reference outside the table is taken or given up. -/
theorem Owned.Inv.touch
    {count : Nat}
    {change : Kobj → Kobj}
    (fits : count + 2 ^ 16 ≤ 2 ^ 32)
    (counting : Counting (Function.update o.table.kobjs k (change (o.table.kobjs k)))
      (Function.update (fun k => o.creators k + pointing o.table.slots k) k
        (count + pointing o.table.slots k))) :
    Owned.Inv {
      table := o.table.touch k change
      creators := Function.update o.creators k count } := by
  refine ⟨⟨inv.wellFormed.cap, inv.wellFormed.gens, inv.wellFormed.free⟩, ?_, fun other => ?_⟩
  · refine counting.of_refs fun other => ?_
    rcases eq_or_ne other k with rfl | different
    · simp [HandleTable.touch]
    · simp [HandleTable.touch, different]
  · rcases eq_or_ne other k with rfl | different
    · simpa using fits
    · simpa [different] using inv.creators other

theorem Owned.Inv.step
    {op : OwnedOp}
    (stepped : o.step op = some after) :
    after.Inv := by
  cases op with
  | table op =>
    cases op with
    | «open» target =>
      unfold Owned.step at stepped
      dsimp only at stepped
      split_ifs at stepped with alive
      cases stepped
      cases target with
      | none => exact inv
      | some k => exact inv.open (alive k rfl)
    | close h =>
      obtain rfl := Option.some.inj stepped
      exact inv.close h
  | retain k =>
    unfold Owned.step at stepped
    dsimp only at stepped
    split_ifs at stepped with allowed
    cases stepped
    have room : pointing _ k ≤ _ := countP_le_length.trans inv.wellFormed.cap
    refine inv.touch (by omega) ?_
    rw [Nat.add_right_comm]
    refine inv.counting.retain ?_ (by omega)
    rw [← inv.counting.counts]
    exact allowed.1
  | release k =>
    unfold Owned.step at stepped
    dsimp only at stepped
    split_ifs at stepped with held
    cases stepped
    have fits := inv.creators k
    refine inv.touch (by omega) ?_
    rw [show o.creators k - 1 + pointing o.table.slots k =
      o.creators k + pointing o.table.slots k - 1 by omega]
    exact inv.counting.release (by omega)

theorem Owned.Inv.run
    {ops : List OwnedOp}
    (ran : o.run ops = some after) :
    after.Inv := by
  induction ops generalizing o with
  | nil =>
    cases ran
    exact inv
  | cons op rest ih =>
    obtain ⟨mid, stepped, ran⟩ := Option.bind_eq_some_iff.mp ran
    exact ih (inv.step stepped) ran

end

theorem Counting.releaseSlots
    {creators : Nat → Nat}
    {kobjs : Nat → Kobj}
    (counting : Counting kobjs fun k => creators k + pointing slots k) :
    Counting (releaseSlots slots kobjs) creators := by
  induction slots generalizing kobjs with
  | nil => exact counting.of_refs fun _ => rfl
  | cons slot rest ih =>
    unfold CaraOS.Croi.releaseSlots
    cases isTarget : slot.target with
    | none =>
      refine ih ?_
      simpa [pointing, isTarget] using counting
    | some k =>
      refine ih ?_
      have released := counting.release (k := k) (by simp [pointing, isTarget])
      refine released.of_refs fun other => ?_
      rcases eq_or_ne other k with rfl | different
      · simp [pointing, isTarget, ← Nat.add_assoc]
      · simp [pointing, isTarget, different, Ne.symm different]

theorem Owned.Inv.destroy (inv : o.Inv) : o.destroy.Inv := by
  refine ⟨⟨Nat.zero_le _, ?_, [], .nil, rfl, ?_⟩, inv.counting.releaseSlots, inv.creators⟩
  · nofun
  · nofun

theorem Owned.Inv.sound (inv : o.Inv) : o.Sound where
  freeList := inv.wellFormed.free
  exhausted := fun k => (open_fails_iff inv.wellFormed k).mp
  counts := inv.counting.counts
  destroyed := fun k => by
    rw [inv.counting.destroyed, inv.counting.counts]

end Runs

/--
For every table `HandleTable_Init` makes over objects as `Kobj_Init` leaves
them, after any opens, closes, retains and releases, and after
`HandleTable_Destroy`: the free list holds just the free slots, an open finds no
slot only when all are taken, each count is the number of references, and
`Kobj_Release` has run the destroy callback of an object once if the count is
zero and not at all otherwise.
-/
theorem handle_references_balance
    {kobjs : Nat → Kobj}
    {cap : Nat}
    {allocated : Bool}
    {ht : HandleTable}
    {ops : List OwnedOp}
    {o : Owned}
    (made : handleTableInit kobjs cap allocated = .ok ht)
    (fresh : ∀ k, ∃ type hasDestroy, kobjs k = kobjInit type hasDestroy)
    (ran : Owned.run ops ⟨ht, fun _ => 1⟩ = some o) :
    o.Sound ∧ o.destroy.Sound := by
  have unpointed : ∀ k, pointing ht.slots k = 0 ∧ ht.kobjs k = kobjs k := by
    unfold handleTableInit at made
    split_ifs at made
    cases made
    simp [pointing, freshSlots, countP_map, Function.comp_def]
  have start : Owned.Inv ⟨ht, fun _ => 1⟩ := by
    refine ⟨init_wellFormed made, ⟨fun k => ?_, fun k => ?_, fun k => ?_⟩,
      fun _ => show 1 + 2 ^ 16 ≤ 2 ^ 32 by decide⟩
    · obtain ⟨type, hasDestroy, isFresh⟩ := fresh k
      rw [(unpointed k).1, (unpointed k).2, isFresh]
      rfl
    · obtain ⟨type, hasDestroy, isFresh⟩ := fresh k
      simp [(unpointed k).2, isFresh, kobjInit]
    · rw [(unpointed k).1]
      show 1 + 0 < 2 ^ 32
      decide
  have inv := start.run ran
  exact ⟨inv.sound, inv.destroy.sound⟩

/--
An object opened twice and retained: both its handles are closed and both its
creators' references given up, and it has been destroyed once.
-/
theorem handle_references_balance_closed :
    ∃ o, Owned.run [.table (.open (some 64)), .retain 64, .release 64, .table (.open (some 64)),
          .table (.close 0), .release 64, .table (.close 1)]
        ⟨⟨freshSlots 2, 0, fun _ => kobjInit .task true⟩, fun _ => 1⟩ =
          some o ∧
      (o.table.kobjs 64).destroyRuns = 1 ∧ o.Sound ∧ o.destroy.Sound :=
  ⟨_, rfl, rfl, @handle_references_balance (fun _ => kobjInit .task true) 2 true _
    [.table (.open (some 64)), .retain 64, .release 64, .table (.open (some 64)),
      .table (.close 0), .release 64, .table (.close 1)] _ rfl
    (fun _ => ⟨.task, true, rfl⟩) rfl⟩

end CaraOS.Croi
