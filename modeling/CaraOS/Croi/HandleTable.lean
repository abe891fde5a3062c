import Mathlib.Data.List.Induction
import CaraOS.Lib.Action
import CaraOS.Carafs.Format

namespace CaraOS.Croi

/-!
# Handle tables

`handle_table.c` and the reference counts of `kobj.c`.  A handle is a slot
index and the generation the slot had when the handle was issued.  Closing a
handle advances the generation of its slot, in sixteen bits.
-/

open List
open Carafs (Err)

inductive KobjType where
  | none
  | task
  | msgport
  | library
  | signal
  | ring
  | memregion
  | device
  | volume
  | lock
  deriving DecidableEq

/-- `struct Kobj`; `destroyRuns` counts the calls of the destroy callback. -/
structure Kobj where
  type : KobjType
  refcount : Nat := 1
  hasDestroy : Bool := false
  destroyRuns : Nat := 0
  deriving DecidableEq

/-- `Kobj_Init`: one reference, of the creator. -/
def kobjInit (type : KobjType) (hasDestroy : Bool) : Kobj :=
  { type, refcount := 1, hasDestroy, destroyRuns := 0 }

def kobjRetain (k : Kobj) : Kobj :=
  { k with refcount := (k.refcount + 1) % 2 ^ 32 }

def kobjRelease (k : Kobj) : Kobj :=
  { k with
    refcount := (k.refcount + (2 ^ 32 - 1)) % 2 ^ 32
    destroyRuns :=
      if k.refcount = 1 ∧ k.hasDestroy then k.destroyRuns + 1 else k.destroyRuns }

def handleInvalid : Nat := 0xFFFFFFFF

def slotIndexMask : Nat := 0xFFFF

def genShift : Nat := 16

/-- `struct HandleSlot`; a target is the address of an object. -/
structure HandleSlot where
  target : Option Nat
  generation : Nat
  nextFree : Nat
  deriving DecidableEq

/-- `struct HandleTable`, whose `cap` is the number of slots, and the objects. -/
structure HandleTable where
  slots : List HandleSlot
  freeHead : Nat
  kobjs : Nat → Kobj

/-- The slots as `HandleTable_Init` links them. -/
def freshSlots (cap : Nat) : List HandleSlot :=
  (List.range cap).map fun i =>
    { target := none
      generation := 0
      nextFree := if i + 1 < cap then i + 1 else handleInvalid }

/-- `HandleTable_Init`; the heap may refuse the slot array. -/
def handleTableInit (kobjs : Nat → Kobj) (cap : Nat) (allocated : Bool) : Except Err HandleTable :=
  if cap = 0 ∨ 0xFFFF < cap then
    .error .einval
  else if !allocated then
    .error .enomem
  else
    .ok { slots := freshSlots cap, freeHead := 0, kobjs := kobjs }

/-- The handle of a slot. -/
def handleOf (generation idx : Nat) : Nat :=
  generation <<< genShift ||| (idx &&& slotIndexMask)

/-- The slot index in a handle. -/
def handleIdx (h : Nat) : Nat :=
  h &&& slotIndexMask

def handleGen (h : Nat) : Nat :=
  h >>> genShift

/-- Change the object at an address. -/
def HandleTable.touch (ht : HandleTable) (kobj : Nat) (change : Kobj → Kobj) : HandleTable :=
  { ht with kobjs := Function.update ht.kobjs kobj (change (ht.kobjs kobj)) }

def handleTableOpen (target : Option Nat) : Action Err HandleTable Nat :=
  fun ht =>
    match target with
    | none => (.error .einval, ht)
    | some kobj =>
      if ht.freeHead = handleInvalid then
        (.error .enomem, ht)
      else
        match ht.slots[ht.freeHead]? with
        | none => (.error .overrun, ht)
        | some slot =>
          (.ok (handleOf slot.generation ht.freeHead), { ht with
              slots := ht.slots.set ht.freeHead { slot with target := some kobj }
              freeHead := slot.nextFree }.touch kobj kobjRetain)

def handleTableLookup (ht : HandleTable) (h : Nat) (expected : KobjType) : Except Err Nat :=
  match ht.slots[handleIdx h]? with
  | none => .error .ebadf
  | some slot =>
    match slot.target with
    | none => .error .ebadf
    | some kobj =>
      if handleGen h ≠ slot.generation then
        .error .ebadf
      else if expected ≠ .none ∧ (ht.kobjs kobj).type ≠ expected then
        .error .ebadf
      else
        .ok kobj

def handleTableClose (h : Nat) : Action Err HandleTable Unit :=
  fun ht =>
    match ht.slots[handleIdx h]? with
    | none => (.error .ebadf, ht)
    | some slot =>
      match slot.target with
      | none => (.error .ebadf, ht)
      | some kobj =>
        if handleGen h ≠ slot.generation then
          (.error .ebadf, ht)
        else
          (.ok (), { ht with
              slots := ht.slots.set (handleIdx h)
                { target := none
                  generation := (slot.generation + 1) % 2 ^ 16
                  nextFree := ht.freeHead }
              freeHead := handleIdx h }.touch kobj kobjRelease)

/-! ## Runs -/

/-- The calls that change a table. -/
inductive HandleOp where
  | open (target : Option Nat)
  | close (h : Nat)
  deriving DecidableEq

/-- The table after a call. -/
def HandleOp.step (ht : HandleTable) : HandleOp → HandleTable
  | .open target => (handleTableOpen target ht).2
  | .close h => (handleTableClose h ht).2

/-- The table after a sequence of calls. -/
def handleRun (ht : HandleTable) (ops : List HandleOp) : HandleTable :=
  ops.foldl HandleOp.step ht

@[simp] theorem handleRun_nil (ht : HandleTable) : handleRun ht [] = ht :=
  rfl

@[simp] theorem handleRun_cons (ht : HandleTable) (op : HandleOp) (ops : List HandleOp) :
    handleRun ht (op :: ops) = handleRun (op.step ht) ops :=
  rfl

theorem handleRun_append (ht : HandleTable) (first second : List HandleOp) :
    handleRun ht (first ++ second) = handleRun (handleRun ht first) second :=
  foldl_append ..

section Handles

variable {ht : HandleTable} {h idx gen : Nat}

theorem handleIdx_eq (h : Nat) : handleIdx h = h % 2 ^ 16 :=
  Nat.and_two_pow_sub_one_eq_mod h 16

theorem handleGen_eq (h : Nat) : handleGen h = h / 2 ^ 16 :=
  Nat.shiftRight_eq_div_pow h 16

theorem handleOf_eq (small : idx < 2 ^ 16) : handleOf gen idx = gen * 2 ^ 16 + idx := by
  have masked : idx &&& slotIndexMask = idx := by
    rw [show slotIndexMask = 2 ^ 16 - 1 from rfl,
      Nat.and_two_pow_sub_one_eq_mod, Nat.mod_eq_of_lt small]
  unfold handleOf
  rw [masked, genShift, ← Nat.shiftLeft_add_eq_or_of_lt small, Nat.shiftLeft_eq]

theorem handleIdx_handleOf (small : idx < 2 ^ 16) : handleIdx (handleOf gen idx) = idx := by
  rw [handleIdx_eq, handleOf_eq small]
  omega

theorem handleGen_handleOf (small : idx < 2 ^ 16) : handleGen (handleOf gen idx) = gen := by
  rw [handleGen_eq, handleOf_eq small]
  omega

/-- What a successful open does. -/
structure Opens (ht : HandleTable) (kobj h : Nat) (after : HandleTable) :
    Prop where
  valid : ht.freeHead ≠ handleInvalid
  slot : ∃ slot, ht.slots[ht.freeHead]? = some slot ∧ h = handleOf slot.generation ht.freeHead ∧
      after.slots = ht.slots.set ht.freeHead { slot with target := some kobj } ∧
      after.freeHead = slot.nextFree

theorem open_cases (target : Option Nat) (ht : HandleTable) :
    (∃ kobj h, target = some kobj ∧ (handleTableOpen target ht).1 = .ok h ∧
      Opens ht kobj h (handleTableOpen target ht).2) ∨
    ((handleTableOpen target ht).2 = ht ∧ ∃ code, (handleTableOpen target ht).1 = .error code) := by
  cases target with
  | none => exact .inr ⟨rfl, _, rfl⟩
  | some kobj =>
    unfold handleTableOpen
    dsimp only
    by_cases full : ht.freeHead = handleInvalid
    · rw [if_pos full]
      exact .inr ⟨rfl, _, rfl⟩
    · rw [if_neg full]
      cases found : ht.slots[ht.freeHead]? with
      | none => exact .inr ⟨rfl, _, rfl⟩
      | some slot =>
        exact .inl ⟨kobj, _, rfl, rfl, full, slot, found, rfl, rfl, rfl⟩

/-- The slot of a handle is open and has the generation of the handle. -/
def HandleTable.Accepts (ht : HandleTable) (h : Nat) : Prop :=
  ∃ slot kobj, ht.slots[handleIdx h]? = some slot ∧
    slot.target = some kobj ∧ slot.generation = handleGen h

/-- What a successful close does. -/
structure Closes (ht : HandleTable) (h : Nat) (after : HandleTable) :
    Prop where
  accepts : ht.Accepts h
  slots : after.slots = ht.slots.set (handleIdx h)
      { target := none
        generation := (handleGen h + 1) % 2 ^ 16
        nextFree := ht.freeHead }
  freeHead : after.freeHead = handleIdx h

theorem close_cases (h : Nat) (ht : HandleTable) :
    ((handleTableClose h ht).1 = .ok () ∧ Closes ht h (handleTableClose h ht).2) ∨
    (handleTableClose h ht = (.error .ebadf, ht) ∧ ¬ ht.Accepts h) := by
  unfold handleTableClose HandleTable.Accepts
  cases found : ht.slots[handleIdx h]? with
  | none =>
    refine .inr ⟨rfl, ?_⟩
    rintro ⟨slot, kobj, isSlot, -⟩
    cases isSlot
  | some slot =>
    cases isOpen : slot.target with
    | none =>
      refine .inr ⟨by simp [isOpen], ?_⟩
      rintro ⟨other, kobj, isSlot, opened, -⟩
      cases isSlot
      rw [isOpen] at opened
      cases opened
    | some kobj =>
      by_cases current : handleGen h = slot.generation
      · left
        simp only [isOpen, current, ne_eq, not_true, if_false]
        refine ⟨trivial, ?_, ?_, rfl⟩
        · exact ⟨slot, kobj, found, isOpen, current.symm⟩
        · rw [current]
          rfl
      · right
        simp only [isOpen, current, ne_eq, not_false_iff, if_true]
        refine ⟨trivial, ?_⟩
        rintro ⟨other, _, isSlot, -, same⟩
        cases isSlot
        exact current same.symm

theorem close_ok_iff : (handleTableClose h ht).1 = .ok () ↔ ht.Accepts h := by
  rcases close_cases h ht with ⟨closed, closes⟩ | ⟨refused, notAccepted⟩
  · exact ⟨fun _ => closes.accepts, fun _ => closed⟩
  · rw [refused]
    exact ⟨nofun, fun accepted => absurd accepted notAccepted⟩

/-- Lookup and close refuse a handle. -/
def HandleTable.Dead (ht : HandleTable) (h : Nat) : Prop :=
  (∀ expected, handleTableLookup ht h expected = .error .ebadf) ∧
    (handleTableClose h ht).1 = .error .ebadf

theorem dead_iff : ht.Dead h ↔ ¬ ht.Accepts h := by
  constructor
  · rintro ⟨-, closeFails⟩ accepted
    rw [close_ok_iff.mpr accepted] at closeFails
    cases closeFails
  · intro notAccepted
    constructor
    · intro expected
      unfold handleTableLookup
      cases found : ht.slots[handleIdx h]? with
      | none => rfl
      | some slot =>
        cases isOpen : slot.target with
        | none => simp [isOpen]
        | some kobj =>
          have stale : handleGen h ≠ slot.generation := fun same =>
            notAccepted ⟨slot, kobj, found, isOpen, same.symm⟩
          simp [isOpen, stale]
    · rcases close_cases h ht with ⟨-, closes⟩ | ⟨refused, -⟩
      · exact absurd closes.accepts notAccepted
      · rw [refused]

end Handles

/-! ## The free list -/

/-- The free list from a slot index on. -/
def Threaded (slots : List HandleSlot) : Nat → List Nat → Prop
  | head, [] => head = handleInvalid
  | head, idx :: rest =>
    head = idx ∧
      ∃ slot, slots[idx]? = some slot ∧ Threaded slots slot.nextFree rest

/-- The free list holds exactly the closed slots, each once. -/
structure HandleTable.WellFormed (ht : HandleTable) : Prop where
  cap : ht.slots.length ≤ 0xFFFF
  gens : ∀ slot ∈ ht.slots, slot.generation < 2 ^ 16
  free : ∃ free : List Nat, free.Nodup ∧ Threaded ht.slots ht.freeHead free ∧
      ∀ {idx slot}, ht.slots[idx]? = some slot → (idx ∈ free ↔ slot.target = none)

variable {cap : Nat} {kobjs : Nat → Kobj} {allocated : Bool}

section FreeList

variable {ht after : HandleTable} {slots : List HandleSlot} {head idx : Nat} {free : List Nat}

theorem Threaded.set (threaded : Threaded slots head free) (unlisted : idx ∉ free)
    (slot : HandleSlot) : Threaded (slots.set idx slot) head free := by
  induction free generalizing head with
  | nil => exact threaded
  | cons first rest ih =>
    obtain ⟨isHead, found, isFound, restThreaded⟩ := threaded
    rw [mem_cons, not_or] at unlisted
    refine ⟨isHead, found, ?_, ih restThreaded unlisted.2⟩
    rw [List.getElem?_set_ne unlisted.1]
    exact isFound

theorem getElem?_set_cases {query : Nat} {replaced slot : HandleSlot}
    (found : (slots.set idx replaced)[query]? = some slot) :
    (query = idx ∧ slot = replaced) ∨
      (query ≠ idx ∧ slots[query]? = some slot) := by
  by_cases same : idx = query
  · subst same
    have bound : idx < slots.length := by
      have := (List.getElem?_eq_some_iff.mp found).1
      rwa [length_set] at this
    rw [List.getElem?_set_self bound] at found
    exact .inl ⟨rfl, (Option.some.inj found).symm⟩
  · rw [List.getElem?_set_ne same] at found
    exact .inr ⟨fun equal => same equal.symm, found⟩

theorem freshSlots_getElem? (inside : idx < cap) :
    (freshSlots cap)[idx]? = some
      { target := none
        generation := 0
        nextFree := if idx + 1 < cap then idx + 1 else handleInvalid } := by
  unfold freshSlots
  rw [List.getElem?_map, List.getElem?_range inside]
  rfl

theorem freshSlots_threaded (cap idx count : Nat) (inside : idx + (count + 1) = cap) :
    Threaded (freshSlots cap) idx (List.range' idx (count + 1)) := by
  induction count generalizing idx with
  | zero =>
    exact ⟨rfl, _, freshSlots_getElem? (by omega), if_neg (by omega)⟩
  | succ count ih =>
    refine ⟨rfl, _, freshSlots_getElem? (by omega), ?_⟩
    rw [if_pos (by omega)]
    exact ih (idx + 1) (by omega)

theorem init_wellFormed (made : handleTableInit kobjs cap allocated = .ok ht) : ht.WellFormed := by
  unfold handleTableInit at made
  split at made
  · cases made
  split at made
  · cases made
  obtain rfl := Except.ok.inj made
  have length : (freshSlots cap).length = cap := by simp [freshSlots]
  refine ⟨?_, ?_, List.range' 0 cap, nodup_range', ?_, ?_⟩
  · dsimp only
    omega
  · intro slot listed
    obtain ⟨i, -, rfl⟩ := mem_map.mp listed
    exact Nat.two_pow_pos 16
  · have threaded := freshSlots_threaded cap 0 (cap - 1) (by omega)
    rwa [show cap - 1 + 1 = cap by omega] at threaded
  · intro idx slot found
    have bound : idx < (freshSlots cap).length := (List.getElem?_eq_some_iff.mp found).1
    have free : slot.target = none := by
      obtain ⟨i, -, rfl⟩ := mem_map.mp (mem_of_getElem? found)
      rfl
    refine ⟨fun _ => free, fun _ => ?_⟩
    rw [mem_range'_1]
    omega

theorem Opens.wellFormed {kobj h : Nat}
    (wellFormed : ht.WellFormed) (opens : Opens ht kobj h after) : after.WellFormed := by
  obtain ⟨slot, found, -, slots, freeHead⟩ := opens.slot
  obtain ⟨free, nodup, threaded, exact⟩ := wellFormed.free
  cases free with
  | nil => exact absurd threaded opens.valid
  | cons first rest =>
    obtain ⟨isHead, other, isOther, restThreaded⟩ := threaded
    subst isHead
    obtain rfl : slot = other := by
      rw [found] at isOther
      exact Option.some.inj isOther
    obtain ⟨unlisted, restNodup⟩ := nodup_cons.mp nodup
    refine ⟨?_, ?_, rest, restNodup, ?_, ?_⟩
    · rw [slots, length_set]
      exact wellFormed.cap
    · intro changed listed
      rw [slots] at listed
      rcases mem_or_eq_of_mem_set listed with before | rfl
      · exact wellFormed.gens changed before
      · exact wellFormed.gens slot (mem_of_getElem? found)
    · rw [slots, freeHead]
      exact restThreaded.set unlisted _
    · intro idx changed isChanged
      rw [slots] at isChanged
      rcases getElem?_set_cases isChanged with ⟨rfl, rfl⟩ | ⟨other, before⟩
      · exact ⟨fun listed => absurd listed unlisted, fun impossible =>
          nomatch impossible⟩
      · rw [← exact before]
        simp [other]

theorem Closes.wellFormed {h : Nat} (wellFormed : ht.WellFormed) (closes : Closes ht h after) :
    after.WellFormed := by
  obtain ⟨slot, kobj, found, isOpen, -⟩ := closes.accepts
  obtain ⟨free, nodup, threaded, exact⟩ := wellFormed.free
  have bound := (List.getElem?_eq_some_iff.mp found).1
  have unlisted : handleIdx h ∉ free := by
    rw [exact found, isOpen]
    nofun
  refine ⟨?_, ?_, handleIdx h :: free, nodup_cons.mpr ⟨unlisted, nodup⟩, ?_, ?_⟩
  · rw [closes.slots, length_set]
    exact wellFormed.cap
  · intro changed listed
    rw [closes.slots] at listed
    rcases mem_or_eq_of_mem_set listed with before | rfl
    · exact wellFormed.gens changed before
    · exact Nat.mod_lt _ (Nat.two_pow_pos 16)
  · rw [closes.slots, closes.freeHead]
    refine ⟨rfl, _, List.getElem?_set_self bound, ?_⟩
    exact threaded.set unlisted _
  · intro idx changed isChanged
    rw [closes.slots] at isChanged
    rcases getElem?_set_cases isChanged with ⟨rfl, rfl⟩ | ⟨other, before⟩
    · exact ⟨fun _ => rfl, fun _ => mem_cons_self ..⟩
    · rw [← exact before]
      simp [other]

theorem step_wellFormed (wellFormed : ht.WellFormed) (op : HandleOp) : (op.step ht).WellFormed := by
  cases op with
  | «open» target =>
    rcases open_cases target ht with ⟨kobj, h, -, -, opens⟩ | ⟨same, -⟩
    · exact opens.wellFormed wellFormed
    · show (handleTableOpen target ht).2.WellFormed
      rw [same]
      exact wellFormed
  | close h =>
    rcases close_cases h ht with ⟨-, closes⟩ | ⟨refused, -⟩
    · exact closes.wellFormed wellFormed
    · show (handleTableClose h ht).2.WellFormed
      rw [refused]
      exact wellFormed

theorem run_wellFormed (wellFormed : ht.WellFormed) (ops : List HandleOp) :
    (handleRun ht ops).WellFormed := by
  induction ops generalizing ht with
  | nil => exact wellFormed
  | cons op ops ih =>
    exact ih (step_wellFormed wellFormed op)

theorem open_fails_iff (wellFormed : ht.WellFormed) (kobj : Nat) :
    (handleTableOpen (some kobj) ht).1 = .error .enomem ↔
      ∀ slot ∈ ht.slots, slot.target ≠ none := by
  obtain ⟨free, -, threaded, exact⟩ := wellFormed.free
  unfold handleTableOpen
  dsimp only
  cases free with
  | nil =>
    rw [if_pos (show ht.freeHead = handleInvalid from threaded)]
    refine ⟨fun _ slot listed isFree => ?_, fun _ => rfl⟩
    obtain ⟨idx, found⟩ := mem_iff_getElem?.mp listed
    nomatch (exact found).mpr isFree
  | cons first rest =>
    obtain ⟨rfl, slot, found, -⟩ := threaded
    have bound := (List.getElem?_eq_some_iff.mp found).1
    have cap := wellFormed.cap
    have valid : ht.freeHead ≠ handleInvalid := by
      unfold handleInvalid
      omega
    have isFree := (exact found).mp (mem_cons_self ..)
    rw [if_neg valid, found]
    exact ⟨nofun, fun taken =>
      absurd isFree (taken slot (mem_of_getElem? found))⟩

end FreeList

/-! ## Stale handles -/

/-- How often the handles of a slot are closed in a run. -/
def closings (idx : Nat) : HandleTable → List HandleOp → Nat
  | _, [] => 0
  | ht, op :: ops =>
    (match op with
      | .open _ => 0
      | .close h =>
        if handleIdx h = idx ∧ (handleTableClose h ht).1.isOk then 1
        else 0) +
      closings idx (op.step ht) ops

section Stale

variable {ht : HandleTable} {idx : Nat} {slot : HandleSlot}

/-- What a call does to one slot. -/
inductive SlotStep (ht : HandleTable) (idx : Nat) (op : HandleOp)
    (slot after : HandleSlot) : Prop where
  | taken (kobj : Nat) (isOpen : op = .open (some kobj))
      (head : ht.freeHead = idx) (target : after.target = some kobj)
      (generation : after.generation = slot.generation)
      (count : closings idx ht [op] = 0)
  | closed (target : after.target = none)
      (generation : after.generation = (slot.generation + 1) % 2 ^ 16)
      (count : closings idx ht [op] = 1)
  | kept (target : after.target = slot.target)
      (generation : after.generation = slot.generation)
      (count : closings idx ht [op] = 0)

theorem step_slot (found : ht.slots[idx]? = some slot) (op : HandleOp) :
    ∃ after, (op.step ht).slots[idx]? = some after ∧
      SlotStep ht idx op slot after := by
  have bound := (List.getElem?_eq_some_iff.mp found).1
  cases op with
  | «open» target =>
    rcases open_cases target ht with ⟨kobj, h, rfl, -, opens⟩ | ⟨same, -⟩
    · obtain ⟨taken, isTaken, -, slots, -⟩ := opens.slot
      show ∃ after, (handleTableOpen (some kobj) ht).2.slots[idx]? = _ ∧ _
      rw [slots]
      by_cases head : ht.freeHead = idx
      · subst head
        obtain rfl : taken = slot := by
          rw [isTaken] at found
          exact Option.some.inj found
        exact ⟨_, List.getElem?_set_self bound, .taken kobj rfl rfl rfl rfl rfl⟩
      · rw [List.getElem?_set_ne head]
        exact ⟨slot, found, .kept rfl rfl rfl⟩
    · show ∃ after, (handleTableOpen target ht).2.slots[idx]? = _ ∧ _
      rw [same]
      exact ⟨slot, found, .kept rfl rfl rfl⟩
  | close h =>
    show ∃ after, (handleTableClose h ht).2.slots[idx]? = _ ∧ _
    rcases close_cases h ht with ⟨closed, closes⟩ | ⟨refused, -⟩
    · rw [closes.slots]
      by_cases here : handleIdx h = idx
      · subst here
        obtain ⟨other, kobj, isOther, -, current⟩ := closes.accepts
        obtain rfl : other = slot := by
          rw [isOther] at found
          exact Option.some.inj found
        refine ⟨_, List.getElem?_set_self bound, .closed rfl ?_ ?_⟩
        · rw [current]
        · simp [closings, closed, Except.isOk, Except.toBool]
      · rw [List.getElem?_set_ne here]
        exact ⟨slot, found, .kept rfl rfl (by simp [closings, here])⟩
    · refine ⟨slot, ?_, .kept rfl rfl ?_⟩
      · rw [refused]
        exact found
      · simp [closings, refused, Except.isOk, Except.toBool]

theorem closings_append (idx : Nat) (ht : HandleTable) (first second : List HandleOp) :
    closings idx ht (first ++ second) =
      closings idx ht first + closings idx (handleRun ht first) second := by
  induction first generalizing ht with
  | nil => simp [closings]
  | cons op first ih =>
    simp only [cons_append, closings, ih, handleRun_cons, Nat.add_assoc]

theorem run_slot (found : ht.slots[idx]? = some slot) (small : slot.generation < 2 ^ 16)
    (ops : List HandleOp) :
    ∃ after, (handleRun ht ops).slots[idx]? = some after ∧
      after.generation =
        (slot.generation + closings idx ht ops) % 2 ^ 16 := by
  induction ops using List.reverseRecOn with
  | nil => exact ⟨slot, found, (Nat.mod_eq_of_lt small).symm⟩
  | append_singleton ops op ih =>
    obtain ⟨before, isBefore, generation⟩ := ih
    obtain ⟨after, isAfter, step⟩ := step_slot isBefore op
    rw [handleRun_append, closings_append]
    refine ⟨after, isAfter, ?_⟩
    cases step with
    | taken kobj isOpen head target same count =>
      rw [same, generation, count, Nat.add_zero]
    | closed target next count =>
      rw [next, generation, count, Nat.mod_add_mod, Nat.add_assoc]
    | kept target same count =>
      rw [same, generation, count, Nat.add_zero]

theorem accepts_iff {h : Nat} (found : ht.slots[handleIdx h]? = some slot) :
    ht.Accepts h ↔ slot.target ≠ none ∧ slot.generation = handleGen h := by
  unfold HandleTable.Accepts
  rw [found]
  constructor
  · rintro ⟨other, kobj, isSlot, isOpen, current⟩
    obtain rfl := Option.some.inj isSlot
    rw [isOpen]
    exact ⟨nofun, current⟩
  · rintro ⟨isOpen, current⟩
    obtain ⟨kobj, isKobj⟩ := Option.ne_none_iff_exists'.mp isOpen
    exact ⟨slot, kobj, rfl, isKobj, current⟩

theorem open_takes (found : ht.slots[ht.freeHead]? = some slot)
    (valid : ht.freeHead ≠ handleInvalid) (kobj : Nat) :
    ((HandleOp.open (some kobj)).step ht).slots[ht.freeHead]? =
      some { slot with target := some kobj } := by
  have bound := (List.getElem?_eq_some_iff.mp found).1
  unfold HandleOp.step handleTableOpen
  dsimp only
  rw [if_neg valid, found]
  exact List.getElem?_set_self bound

/-- The table has a handle for an object. -/
def HandleTable.Names (ht : HandleTable) (h kobj : Nat) : Prop :=
  ∃ slot, ht.slots[handleIdx h]? = some slot ∧
    slot.target = some kobj ∧ slot.generation = handleGen h

theorem lookup_names {h kobj : Nat} {expected : KobjType}
    (found : handleTableLookup ht h expected = .ok kobj) : ht.Names h kobj := by
  unfold handleTableLookup at found
  unfold HandleTable.Names
  grind

theorem step_names {op : HandleOp} {h kobj : Nat} (wellFormed : ht.WellFormed)
    (names : (op.step ht).Names h kobj) : ht.Names h kobj ∨
      op = .open (some kobj) ∧ (handleTableOpen (some kobj) ht).1 = .ok h := by
  obtain ⟨slot, found, isOpen, current⟩ := names
  cases op with
  | «open» target =>
    replace found : (handleTableOpen target ht).2.slots[_]? = some slot := found
    rcases open_cases target ht with ⟨opened, issued, rfl, answer, opens⟩ | ⟨same, -⟩
    · obtain ⟨taken, isTaken, isHandle, slots, -⟩ := opens.slot
      rw [slots] at found
      rcases getElem?_set_cases found with ⟨here, rfl⟩ | ⟨-, before⟩
      · obtain rfl := Option.some.inj isOpen
        refine .inr ⟨rfl, answer.trans (congrArg _ ?_)⟩
        have bound := (List.getElem?_eq_some_iff.mp isTaken).1
        have cap := wellFormed.cap
        rw [isHandle, handleOf_eq (by omega), ← here, handleIdx_eq,
          show taken.generation = handleGen h from current, handleGen_eq]
        omega
      · exact .inl ⟨slot, before, isOpen, current⟩
    · rw [same] at found
      exact .inl ⟨slot, found, isOpen, current⟩
  | close other =>
    replace found : (handleTableClose other ht).2.slots[_]? = some slot := found
    rcases close_cases other ht with ⟨-, closes⟩ | ⟨refused, -⟩
    · rw [closes.slots] at found
      rcases getElem?_set_cases found with ⟨-, rfl⟩ | ⟨-, before⟩
      · cases isOpen
      · exact .inl ⟨slot, before, isOpen, current⟩
    · rw [refused] at found
      exact .inl ⟨slot, found, isOpen, current⟩

theorem generation_returns_iff {gen count : Nat} (small : gen < 2 ^ 16) :
    (gen + count) % 2 ^ 16 = gen ↔ 2 ^ 16 ∣ count := by
  omega

/--
A closed handle stays dead as long as no open takes its slot after a number of
closings that sixteen bits count as none.
-/
theorem closed_handle_dead_iff {kobjs : Nat → Kobj} {cap h : Nat} {allocated : Bool}
    {earlier : List HandleOp}
    (made : handleTableInit kobjs cap allocated = .ok ht)
    (closed : (handleTableClose h (handleRun ht earlier)).1 = .ok ())
    (later : List HandleOp) :
    (∀ done, done <+: later → (handleRun ht (earlier ++ .close h :: done)).Dead h) ↔
    ∀ done kobj, done ++ [.open (some kobj)] <+: later →
      (handleRun ht (earlier ++ .close h :: done)).freeHead = handleIdx h →
      ¬ 2 ^ 16 ∣ closings (handleIdx h) (handleRun ht earlier)
        (.close h :: done) := by
  have wellFormed := run_wellFormed (init_wellFormed made) earlier
  obtain ⟨slot, kobj, found, isOpen, current⟩ := close_ok_iff.mp closed
  have small : handleGen h < 2 ^ 16 := current ▸ wellFormed.gens slot (mem_of_getElem? found)
  simp only [handleRun_append]
  -- the slot after the close and any further calls
  have slotNow (done : List HandleOp) := run_slot found (current ▸ small) (.close h :: done)
  constructor
  · intro dead done opened isPart head divides
    obtain ⟨now, isNow, generation⟩ := slotNow done
    rw [← head] at isNow
    have cap := wellFormed.cap
    have bound := (List.getElem?_eq_some_iff.mp found).1
    have valid : (handleRun (handleRun ht earlier)
        (.close h :: done)).freeHead ≠ handleInvalid := by
      unfold handleInvalid
      omega
    have taken := open_takes isNow valid opened
    have reissued := dead_iff.mp (dead _ isPart)
    rw [← cons_append, handleRun_append] at reissued
    rw [head] at taken
    refine reissued ((accepts_iff taken).mpr ⟨?_, ?_⟩)
    · nofun
    · rw [generation, current]
      exact (generation_returns_iff small).mpr divides
  · intro condition
    have closedOrEarly (done : List HandleOp) (isPart : done <+: later) :
        ∃ now, (handleRun (handleRun ht earlier)
          (.close h :: done)).slots[handleIdx h]? = some now ∧
          (now.target ≠ none → ¬ 2 ^ 16 ∣ closings (handleIdx h) (handleRun ht earlier)
              (.close h :: done)) := by
      induction done using List.reverseRecOn with
      | nil =>
        rcases close_cases h (handleRun ht earlier) with
          ⟨-, closes⟩ | ⟨-, refused⟩
        · refine ⟨⟨none, (handleGen h + 1) % 2 ^ 16, (handleRun ht earlier).freeHead⟩, ?_,
            absurd rfl⟩
          show (handleTableClose h (handleRun ht earlier)).2.slots[_]? = _
          rw [closes.slots]
          exact List.getElem?_set_self (List.getElem?_eq_some_iff.mp found).1
        · exact absurd (close_ok_iff.mp closed) refused
      | append_singleton done op ih =>
        have shorter : done <+: later := (prefix_append done [op]).trans isPart
        obtain ⟨before, isBefore, early⟩ := ih shorter
        obtain ⟨now, isNow, step⟩ := step_slot isBefore op
        rw [← cons_append, handleRun_append, closings_append]
        refine ⟨now, isNow, fun isTaken => ?_⟩
        cases step with
        | taken opened isOpened head target generation count =>
          rw [count]
          exact condition done opened (isOpened ▸ isPart) head
        | closed target generation count => exact absurd target isTaken
        | kept target generation count =>
          rw [count]
          exact early (target ▸ isTaken)
    intro done isPart
    rw [dead_iff]
    obtain ⟨now, isNow, early⟩ := closedOrEarly done isPart
    obtain ⟨same, isSame, generation⟩ := slotNow done
    obtain rfl : now = same := by
      rw [isNow] at isSame
      exact Option.some.inj isSame
    rw [accepts_iff isNow, generation, current, generation_returns_iff small]
    exact fun ⟨isTaken, divides⟩ => early isTaken divides

/-- Handles of the only slot opened and closed from a generation on. -/
def reopenings (kobj : Nat) : Nat → Nat → List HandleOp
  | 0, _ => []
  | count + 1, gen =>
    .open (some kobj) :: .close (handleOf gen 0) ::
      reopenings kobj count (gen + 1)

theorem reopenings_run {nextFree kobj count gen : Nat}
    (slots : ht.slots = [{ target := none, generation := gen, nextFree := nextFree }])
    (head : ht.freeHead = 0) (some : 0 < count) (bound : gen + count = 2 ^ 16) :
    ∃ last, (handleRun ht (reopenings kobj count gen)).slots =
        [{ target := none, generation := 0, nextFree := last }] ∧
      (handleRun ht (reopenings kobj count gen)).freeHead = 0 := by
  induction count generalizing ht gen nextFree with
  | zero => cases some
  | succ count ih =>
    have isGen : handleGen (handleOf gen 0) = gen := handleGen_handleOf (Nat.two_pow_pos 16)
    have isIdx : handleIdx (handleOf gen 0) = 0 := handleIdx_handleOf (Nat.two_pow_pos 16)
    have opened : (handleTableOpen (.some kobj) ht).2.slots =
        [{ target := .some kobj, generation := gen,
           nextFree := nextFree }] := by
      simp [handleTableOpen, slots, head, handleInvalid, HandleTable.touch]
    have closed : (handleTableClose (handleOf gen 0) (handleTableOpen (.some kobj) ht).2).2.slots =
        [{ target := none, generation := (gen + 1) % 2 ^ 16,
           nextFree := (handleTableOpen (.some kobj) ht).2.freeHead }] ∧
        (handleTableClose (handleOf gen 0) (handleTableOpen (.some kobj) ht).2).2.freeHead = 0 := by
      unfold handleTableClose
      rw [isIdx, opened, isGen]
      simp [HandleTable.touch]
    rcases Nat.eq_zero_or_pos count with rfl | more
    · rw [show gen + 1 = 2 ^ 16 from bound] at closed
      exact ⟨_, closed⟩
    · rw [Nat.mod_eq_of_lt (by omega)] at closed
      exact ih closed.1 closed.2 more (by omega)

/-- A table with one slot, and every object a task. -/
def oneSlot : HandleTable where
  slots := freshSlots 1
  freeHead := 0
  kobjs := fun _ => { type := .task }

theorem reopenings_accepts {count : Nat} (bound : count + 1 = 2 ^ 16) :
    (handleRun oneSlot ([.open (some 64)] ++ .close 0 ::
        (reopenings 64 count 1 ++ [.open (some 96)]))).Accepts 0 := by
  rw [← cons_append, ← append_assoc, handleRun_append]
  obtain ⟨last, slots, head⟩ := @reopenings_run oneSlot handleInvalid 64
    (count + 1) 0 rfl rfl (Nat.succ_pos count) (by omega)
  have taken := @open_takes (handleRun oneSlot (reopenings 64 (count + 1) 0))
    { target := none, generation := 0, nextFree := last }
    (by rw [slots, head]; rfl) (by rw [head]; decide) 96
  rw [head] at taken
  exact ⟨_, 96, taken, rfl, rfl⟩

/--
The 2^16-th closing of a slot brings back the first handle: it is accepted
again although it was closed.
-/
theorem closed_handle_accepted_again :
    handleTableInit oneSlot.kobjs 1 true = .ok oneSlot ∧
      (handleTableOpen (some 64) oneSlot).1 = .ok 0 ∧
      (handleTableClose 0 (handleRun oneSlot [.open (some 64)])).1 = .ok () ∧
      ¬ (handleRun oneSlot
          ([.open (some 64)] ++ .close 0 ::
            (reopenings 64 (2 ^ 16 - 1) 1 ++ [.open (some 96)]))).Dead 0 :=
  ⟨rfl, rfl, rfl, fun dead =>
    dead_iff.mp dead (reopenings_accepts (Nat.sub_add_cancel (Nat.two_pow_pos 16)))⟩

/-- A closed handle stays dead while its slot is opened and closed once. -/
theorem closed_handle_dead_once :
    handleTableInit oneSlot.kobjs 1 true = .ok oneSlot ∧
      (handleTableClose 0 (handleRun oneSlot [.open (some 64)])).1 = .ok () ∧
      ∀ done, done <+: [.open (some 96), .close (2 ^ 16)] →
        (handleRun oneSlot ([.open (some 64)] ++ .close 0 :: done)).Dead 0 := by
  refine ⟨rfl, rfl, (@closed_handle_dead_iff oneSlot oneSlot.kobjs 1 0 true
    [.open (some 64)] rfl rfl _).mpr ?_⟩
  intro done kobj isPart
  have short : done = [] := by
    have length := isPart.length_le
    match done, isPart with
    | [], _ => rfl
    | [first], isPart =>
      obtain ⟨rest, whole⟩ := isPart
      simp at whole
    | _ :: _ :: _, _ => simp at length
  subst short
  intro _
  decide

/--
Handles cannot be made up: whatever object a lookup finds, an earlier open was
given that object and answered with that handle.
-/
theorem lookup_issued {h kobj : Nat} {expected : KobjType} {ops : List HandleOp}
    (made : handleTableInit kobjs cap allocated = .ok ht)
    (found : handleTableLookup (handleRun ht ops) h expected = .ok kobj) :
    ∃ before later, ops = before ++ .open (some kobj) :: later ∧
      (handleTableOpen (some kobj) (handleRun ht before)).1 = .ok h := by
  have names := lookup_names found
  clear found
  induction ops using List.reverseRecOn with
  | nil =>
    obtain ⟨slot, isSlot, isOpen, -⟩ := names
    unfold handleTableInit at made
    split at made
    · cases made
    split at made
    · cases made
    · obtain rfl := Except.ok.inj made
      obtain ⟨i, -, rfl⟩ := mem_map.mp (mem_of_getElem? isSlot)
      cases isOpen
  | append_singleton ops op ih =>
    rw [handleRun_append] at names
    rcases step_names (run_wellFormed (init_wellFormed made) ops) names with
      still | ⟨rfl, issued⟩
    · obtain ⟨before, later, rfl, issued⟩ := ih still
      exact ⟨before, later ++ [op], by simp, issued⟩
    · exact ⟨ops, [], rfl, issued⟩

/-- The only slot, opened again after a close. -/
theorem lookup_issued_reopened :
    ∃ before later,
      [.open (some 64), .close 0, .open (some 96)] = before ++ .open (some 96) :: later ∧
        (handleTableOpen (some 96) (handleRun oneSlot before)).1 = .ok (2 ^ 16) :=
  @lookup_issued 1 oneSlot.kobjs true oneSlot _ _ .none _ rfl rfl

end Stale

end CaraOS.Croi
