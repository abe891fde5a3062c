import CaraOS.Lib.PhaseRing
import CaraOS.Lib.Reach
import Mathlib.Data.BitVec

namespace CaraOS.Xhci

/-!
# Transfer rings

`ep0_ring_enqueue` and `Croi_Xhci_HidArm` put transfer request blocks (TRBs) on
a ring whose last slot is a link back to the first one, and the controller
takes them off.  The two share nothing but the slots.  `xhci_trb_write` writes
the word with the cycle bit last and is one step here; the controller may run
between the TRB and the refresh of the link.
-/

open Function (update update_of_ne update_self)
open PhaseRing List
open Reach

/-! ## The code -/

/-- The four words of a TRB. -/
structure Trb where
  lo : Nat
  hi : Nat
  status : Nat
  control : BitVec 32
  deriving DecidableEq

/-- `XHCI_TRB_TYPE`. -/
def trbType (t : BitVec 32) : BitVec 32 :=
  (t &&& 0x3F) <<< 10

/-- `XHCI_TRB_LINK`. -/
def trbLink : BitVec 32 :=
  6

/-- A bit of a control word. -/
def cycleBit (cycle : Bool) : BitVec 32 :=
  if cycle then 1#32 else 0#32

namespace Trb

def cycle (trb : Trb) : Bool :=
  trb.control[0]

def isLink (trb : Trb) : Prop :=
  trb.control &&& trbType 0x3F = trbType trbLink
  deriving Decidable

/-- `XHCI_TRB_LINK_TC`. -/
def toggles (trb : Trb) : Bool :=
  trb.control[1]

/-- The TRB with the cycle bit of its producer. -/
def withCycle (trb : Trb) (cycle : Bool) : Trb :=
  { trb with control := trb.control ||| cycleBit cycle }

/-- The TRB without its cycle bit. -/
def bare (trb : Trb) : Trb :=
  { trb with control := trb.control &&& ~~~1#32 }

end Trb

/-- A transfer ring of a slot or an interface, with its enqueue index and cycle. -/
structure TransferRing where
  trbs : Nat → Trb
  size : Nat
  phys : Nat
  enqueue : Cursor

/-- The link TRB, but for its cycle bit. -/
def linkTrb (phys : Nat) : Trb :=
  ⟨phys % 2 ^ 32, phys / 2 ^ 32 % 2 ^ 32, 0, trbType trbLink ||| 2⟩

/-- The ring of `address_device` and `configure_one_int_endpoint`, on a page of zeros. -/
def TransferRing.init (size phys : Nat) : TransferRing where
  trbs := update (fun _ => ⟨0, 0, 0, 0⟩) (size - 1) (linkTrb phys)
  size := size
  phys := phys
  enqueue := ⟨0, true⟩

/-- The first `xhci_trb_write` of an enqueue. -/
def TransferRing.write (trb : Trb) (ring : TransferRing) : TransferRing :=
  { ring with
    trbs := update ring.trbs ring.enqueue.index (trb.withCycle ring.enqueue.phase) }

/-- The rest of an enqueue: the index goes on, and over the link. -/
def TransferRing.advance (ring : TransferRing) : TransferRing :=
  { ring with
    trbs :=
      if ring.enqueue.index + 1 = ring.size - 1 then
        update ring.trbs (ring.size - 1) ((linkTrb ring.phys).withCycle ring.enqueue.phase)
      else
        ring.trbs
    enqueue := ring.enqueue.next (ring.size - 1) }

/-- `ep0_ring_enqueue`. -/
def ep0RingEnqueue (lo hi status : Nat) (control : BitVec 32) (ring : TransferRing) :
    TransferRing :=
  (ring.write ⟨lo, hi, status, control⟩).advance

/-- The TRB of `Croi_Xhci_HidArm`. -/
def hidTrb (intBufPhys epMaxPacket : Nat) : Trb :=
  ⟨intBufPhys % 2 ^ 32, intBufPhys / 2 ^ 32 % 2 ^ 32, epMaxPacket, trbType 1 ||| 0x20⟩

/-- The ring after `Croi_Xhci_HidArm`, where no report is outstanding. -/
def hidArm (intBufPhys epMaxPacket : Nat) (ring : TransferRing) : TransferRing :=
  (ring.write (hidTrb intBufPhys epMaxPacket)).advance

/-! ## The controller -/

/--
The rules of the controller, which reads at a cursor: it stops at a TRB with the
other cycle bit, goes where a link points and toggles if the link says so, and
takes any other TRB.
-/
def TransferRing.consume (ring : TransferRing) (dequeue : Cursor) : Option Trb × Cursor :=
  let trb := ring.trbs dequeue.index
  if trb.cycle ≠ dequeue.phase then
    (none, dequeue)
  else if trb.isLink then
    (none, ⟨(trb.hi * 2 ^ 32 + trb.lo - ring.phys) / 16,
      if trb.toggles then !dequeue.phase else dequeue.phase⟩)
  else
    (some trb.bare, ⟨dequeue.index + 1, dequeue.phase⟩)

/-- Both sides; `enqueued` and `dequeued` are history, `half` says that an enqueue has begun. -/
structure RingRun where
  ring : TransferRing
  half : Bool
  dequeue : Cursor
  enqueued : List Trb
  dequeued : List Trb

/-- What may happen next. -/
inductive RingOp where
  | write (trb : Trb)
  | advance
  | consume

/-- One step; the two parts of an enqueue alternate. -/
def RingOp.exec (run : RingRun) : RingOp → RingRun
  | .write trb =>
    if run.half then run
    else { run with ring := run.ring.write trb, half := true, enqueued := run.enqueued ++ [trb] }
  | .advance => if run.half then { run with ring := run.ring.advance, half := false } else run
  | .consume =>
    let (trb, dequeue) := run.ring.consume run.dequeue
    { run with dequeue := dequeue, dequeued := run.dequeued ++ trb.toList }

/-- The ring as initialised, and a controller that starts with it. -/
def RingRun.start (size phys : Nat) : RingRun :=
  ⟨.init size phys, false, ⟨0, true⟩, [], []⟩

/--
The driver puts a TRB of its own on the ring, no link and without a cycle bit,
and the controller is then at most `size - 2` TRBs behind.
-/
def Roomy (run : RingRun) : RingOp → Prop
  | .write trb => ¬ trb.isLink ∧ trb.cycle = false ∧
      run.enqueued.length + 1 ≤ run.dequeued.length + (run.ring.size - 2)
  | _ => True

/-! ## Control words -/

namespace Trb

variable {trb : Trb}

theorem bare_eq (clear : trb.cycle = false) : trb.bare = trb := by
  have word : trb.control &&& ~~~1#32 = trb.control := by
    apply BitVec.eq_of_getElem_eq
    intro i inside
    rw [BitVec.getElem_and, BitVec.getElem_not]
    cases i with
    | zero =>
      unfold cycle at clear
      simp [clear]
    | succ i => simp
  unfold bare
  rw [word]

theorem withCycle_bare (cycle : Bool) : (trb.withCycle cycle).bare = trb.bare := by
  unfold withCycle bare cycleBit
  cases cycle <;> simp [BitVec.and_or_distrib_right]

theorem withCycle_cycle (cycle : Bool) (clear : trb.cycle = false) :
    (trb.withCycle cycle).cycle = cycle := by
  unfold Trb.cycle at clear
  unfold withCycle Trb.cycle cycleBit
  cases cycle <;> simp [clear]

theorem withCycle_isLink (cycle : Bool) : (trb.withCycle cycle).isLink ↔ trb.isLink := by
  have apart : cycleBit cycle &&& trbType 0x3F = 0#32 := by cases cycle <;> decide
  unfold isLink withCycle
  rw [BitVec.and_or_distrib_right, apart, BitVec.or_zero]

theorem hidTrb_clear (intBufPhys epMaxPacket : Nat) :
    ¬ (hidTrb intBufPhys epMaxPacket).isLink ∧ (hidTrb intBufPhys epMaxPacket).cycle = false :=
  ⟨show ¬ (trbType 1 ||| 0x20) &&& trbType 0x3F = trbType trbLink by decide,
    show (trbType 1 ||| 0x20)[0] = false by decide⟩

theorem linkTrb_bits (phys : Nat) (cycle : Bool) :
    ((linkTrb phys).withCycle cycle).cycle = cycle ∧
      ((linkTrb phys).withCycle cycle).isLink ∧ ((linkTrb phys).withCycle cycle).toggles = true := by
  have clear : (trbType trbLink ||| 2)[0] = false := by decide
  refine ⟨withCycle_cycle cycle clear, (withCycle_isLink cycle).mpr ?_, ?_⟩
  · show (trbType trbLink ||| 2) &&& trbType 0x3F = trbType trbLink
    decide
  · show (trbType trbLink ||| 2 ||| cycleBit cycle)[1] = true
    cases cycle <;> decide

end Trb

/-- What the controller sees in the slots. -/
def TransferRing.view (ring : TransferRing) (i : Nat) : Trb × Bool :=
  ((ring.trbs i).bare, (ring.trbs i).cycle)

/-! ## The two sides stay in step -/

/--
Both parts of an enqueue, one after the other, are `ep0_ring_enqueue`, and with
the TRB of a report `Croi_Xhci_HidArm`.
-/
structure RingRun.Enqueues (run : RingRun) : Prop where
  ep0 : ∀ trb, [.write trb, .advance].foldl RingOp.exec run =
    { run with
      ring := ep0RingEnqueue trb.lo trb.hi trb.status trb.control run.ring
      enqueued := run.enqueued ++ [trb] }
  hid : ∀ buf max, [.write (hidTrb buf max), .advance].foldl RingOp.exec run =
    { run with
      ring := hidArm buf max run.ring
      enqueued := run.enqueued ++ [hidTrb buf max] }

theorem exec_enqueue {run : RingRun} (whole : run.half = false) : run.Enqueues where
  ep0 trb := by simp [RingOp.exec, whole, ep0RingEnqueue]
  hid buf max := by simp [RingOp.exec, whole, hidArm]

theorem exec_consume {run : RingRun} {taken : Option Trb} {dequeue : Cursor}
    (step : run.ring.consume run.dequeue = (taken, dequeue)) :
    RingOp.exec run .consume =
      { run with dequeue := dequeue, dequeued := run.dequeued ++ taken.toList } := by
  simp only [RingOp.exec, step]

/--
The slots in front of the link hold the queue.  `done` enqueues are complete;
the link has the cycle bit of the pass before the one the driver is in, and the
controller is at its next TRB or still in front of the link.
-/
structure RingRun.Inv (phys last : Nat) (run : RingRun) (queue : List Trb) (done : Nat) :
    Prop where
  size : run.ring.size = last + 1
  base : run.ring.phys = phys
  fifo : run.enqueued = run.dequeued ++ queue
  complete : run.enqueued.length = done + if run.half then 1 else 0
  behind : queue.length < last
  holds : Holds last run.ring.view run.dequeued.length queue
  data : ∀ i, i < last → ¬ (run.ring.trbs i).isLink
  enqueue : run.ring.enqueue = place last done
  link : run.ring.trbs last = (linkTrb phys).withCycle !(place last done).phase
  dequeue : run.dequeue = place last run.dequeued.length ∨
    run.dequeue = ⟨last, !(place last run.dequeued.length).phase⟩ ∧
      run.dequeued.length % last = 0

variable {rest : List Trb}

namespace RingRun.Inv

variable {phys last done : Nat} {run : RingRun} {queue : List Trb} {trb : Trb}

theorem start {size : Nat} (large : 3 ≤ size) :
    (RingRun.start size phys).Inv phys (size - 1) [] 0 where
  size := by
    show size = size - 1 + 1
    omega
  base := rfl
  fifo := rfl
  complete := rfl
  behind := Nat.sub_pos_of_lt (lt_of_lt_of_le (by decide) large)
  holds := by
    have blank : Holds (size - 1) (fun _ => ((⟨0, 0, 0, 0⟩ : Trb), false)) 0 [] :=
      .blank (by omega) fun _ => rfl
    refine blank.congr fun i below => ?_
    unfold TransferRing.view RingRun.start TransferRing.init
    dsimp only
    rw [update_of_ne below.ne]
    rfl
  data := by
    intro i below
    unfold RingRun.start TransferRing.init
    dsimp only
    rw [update_of_ne below.ne]
    decide
  enqueue := place_zero.symm
  link := by
    unfold RingRun.start TransferRing.init
    rw [place_zero]
    simp [Trb.withCycle, cycleBit]
  dequeue := .inl place_zero.symm

section

variable (inv : run.Inv phys last queue done)
include inv

theorem positive : 0 < last :=
  inv.holds.positive

theorem write (whole : run.half = false) (own : ¬ trb.isLink) (clear : trb.cycle = false)
    (room : run.enqueued.length + 1 ≤ run.dequeued.length + (run.ring.size - 2)) :
    RingRun.Inv phys last
      { run with ring := run.ring.write trb, half := true, enqueued := run.enqueued ++ [trb] }
      (queue ++ [trb]) done := by
  have below := @place_index_lt last done inv.positive
  have lengths := congrArg List.length inv.fifo
  have complete := inv.complete
  rw [whole, if_neg Bool.false_ne_true] at complete
  rw [length_append] at lengths
  have size := inv.size
  have isDone : run.dequeued.length + queue.length = done := by omega
  unfold TransferRing.write
  rw [inv.enqueue]
  refine { inv with fifo := ?_, complete := ?_, behind := ?_, holds := ?_, data := ?_
                    enqueue := rfl, link := ?_ }
  · rw [inv.fifo, append_assoc]
  · simp [complete]
  · rw [length_append, length_singleton]
    omega
  · refine (inv.holds.push inv.behind trb).congr fun i _ => ?_
    unfold TransferRing.view
    dsimp only
    rw [isDone]
    by_cases here : i = (place last done).index
    · rw [here, update_self, update_self, Trb.withCycle_bare, Trb.bare_eq clear,
        Trb.withCycle_cycle _ clear]
    · rw [update_of_ne here, update_of_ne here]
  · intro i inside
    dsimp only
    by_cases here : i = (place last done).index
    · rwa [here, update_self, Trb.withCycle_isLink]
    · rw [update_of_ne here]
      exact inv.data i inside
  · dsimp only
    rw [update_of_ne below.ne']
    exact inv.link

theorem advance (half : run.half = true) :
    RingRun.Inv phys last { run with ring := run.ring.advance, half := false } queue (done + 1) := by
  have next := @place_next last done inv.positive
  have complete := inv.complete
  rw [half] at complete
  unfold TransferRing.advance
  rw [inv.size, Nat.add_sub_cancel, inv.enqueue, next]
  have kept (i : Nat) (inside : i < last) :
      (if (place last done).index + 1 = last then update run.ring.trbs last
          ((linkTrb run.ring.phys).withCycle (place last done).phase) else run.ring.trbs) i =
        run.ring.trbs i := by
    split
    · exact update_of_ne inside.ne ..
    · rfl
  refine { inv with size := rfl, complete := by simpa using complete, holds := ?_, data := ?_
                    enqueue := rfl, link := ?_ }
  · refine inv.holds.congr fun i inside => ?_
    exact congrArg (fun trb : Trb => (trb.bare, trb.cycle)) (kept i inside)
  · intro i inside
    dsimp only
    rw [kept i inside]
    exact inv.data i inside
  · dsimp only
    rw [← next, Cursor.next]
    split
    · rw [update_self, inv.base, Bool.not_not]
    · exact inv.link

/-- The driver is in the same pass as the controller, so the link is valid. -/
theorem same_pass (wrapped : run.dequeued.length % last = 0) (waiting : queue ≠ []) :
    (place last done).phase = (place last run.dequeued.length).phase := by
  have lengths := congrArg List.length inv.fifo
  have complete := inv.complete
  have behind := inv.behind
  have some := length_pos_iff.mpr waiting
  rw [length_append] at lengths
  have between : run.dequeued.length ≤ done ∧ done < run.dequeued.length + last := by
    split at complete <;> omega
  have whole : run.dequeued.length / last * last = run.dequeued.length :=
    Nat.div_mul_cancel (Nat.dvd_of_mod_eq_zero wrapped)
  have pass : done / last = run.dequeued.length / last := by
    refine Nat.div_eq_of_lt_le (by omega) ?_
    rw [Nat.succ_mul]
    omega
  unfold place
  rw [pass]

theorem consume_none (here : run.dequeue = place last run.dequeued.length) (empty : queue = []) :
    run.ring.consume run.dequeue = (none, run.dequeue) := by
  subst empty
  rw [here]
  exact if_pos inv.holds.not_new

theorem consume_next {x : Trb}
    (here : run.dequeue = place last run.dequeued.length) (waiting : queue = x :: rest) :
    run.ring.consume run.dequeue =
      (some x, ⟨(place last run.dequeued.length).index + 1,
        (place last run.dequeued.length).phase⟩) := by
  subst waiting
  obtain ⟨isTrb, isCycle⟩ := Prod.mk.inj inv.holds.first
  unfold TransferRing.consume
  rw [here]
  rw [if_neg (not_not.mpr isCycle), if_neg (inv.data _ (place_index_lt inv.positive)), isTrb]

theorem consume_link (small : phys < 2 ^ 64) (wrapped : run.dequeued.length % last = 0)
    (here : run.dequeue = ⟨last, !(place last run.dequeued.length).phase⟩) :
    run.ring.consume run.dequeue =
      if (place last done).phase = (place last run.dequeued.length).phase then
        (none, place last run.dequeued.length)
      else (none, run.dequeue) := by
  obtain ⟨isCycle, isLink, toggles⟩ := Trb.linkTrb_bits phys (!(place last done).phase)
  have target : phys / 2 ^ 32 % 2 ^ 32 * 2 ^ 32 + phys % 2 ^ 32 - phys = 0 := by omega
  have first : place last run.dequeued.length = ⟨0, (place last run.dequeued.length).phase⟩ := by
    conv_lhs => rw [place, wrapped]
    rfl
  unfold TransferRing.consume
  rw [here]
  dsimp only
  rw [inv.link, isCycle, inv.base, if_pos isLink, toggles, if_pos rfl]
  by_cases same : (place last done).phase = (place last run.dequeued.length).phase
  · rw [if_pos same, same, if_neg (not_not.mpr rfl), Bool.not_not]
    show (none, (⟨(phys / 2 ^ 32 % 2 ^ 32 * 2 ^ 32 + phys % 2 ^ 32 - phys) / 16, _⟩ : Cursor)) = _
    rw [target, ← first]
  · rw [if_neg same, if_pos (by simpa using same)]

theorem consume (small : phys < 2 ^ 64) :
    ∃ queue', (RingOp.exec run .consume).Inv phys last queue' done := by
  rcases inv.dequeue with here | ⟨here, wrapped⟩
  · cases queue with
    | nil =>
      rw [exec_consume (inv.consume_none here rfl)]
      exact ⟨[], by simpa using inv⟩
    | cons x rest =>
      have next := @place_next last run.dequeued.length inv.positive
      have behind := inv.behind
      rw [length_cons] at behind
      rw [exec_consume (inv.consume_next here rfl)]
      refine ⟨rest, { inv with fifo := ?_, behind := by omega, holds := ?_, dequeue := ?_ }⟩
      · rw [inv.fifo, Option.toList_some, append_assoc, singleton_append]
      · simpa using inv.holds.pop
      · rw [Option.toList_some, length_append, length_singleton]
        rw [Cursor.next] at next
        split at next
        · rename_i atEnd
          rw [← next, atEnd, Bool.not_not]
          exact .inr ⟨rfl, (congrArg Cursor.index next).symm⟩
        · exact .inl next
  · have step := inv.consume_link small wrapped here
    refine ⟨queue, ?_⟩
    split at step <;> rw [exec_consume step]
    · simpa using { inv with dequeue := .inl rfl }
    · simpa using inv

theorem progress {x : Trb} (small : phys < 2 ^ 64) (waiting : queue = x :: rest) :
    ∃ k ≤ 2, ((RingOp.exec · .consume)^[k] run).dequeued = run.dequeued ++ [x] := by
  have taken {run : RingRun} (inv : run.Inv phys last queue done)
      (here : run.dequeue = place last run.dequeued.length) :
      (RingOp.exec run .consume).dequeued = run.dequeued ++ [x] := by
    rw [exec_consume (inv.consume_next here waiting)]
    rfl
  rcases inv.dequeue with here | ⟨here, wrapped⟩
  · exact ⟨1, by decide, taken inv here⟩
  · have step := inv.consume_link small wrapped here
    rw [if_pos (inv.same_pass wrapped (by simp [waiting]))] at step
    refine ⟨2, le_rfl, ?_⟩
    show (RingOp.exec (RingOp.exec run .consume) .consume).dequeued = _
    rw [exec_consume step, Option.toList_none, append_nil]
    exact taken { inv with dequeue := .inl rfl } rfl

end

end RingRun.Inv

/-- The state after any number of steps. -/
def RingRun.InStep (phys last : Nat) (run : RingRun) : Prop :=
  ∃ queue done, run.Inv phys last queue done

theorem RingRun.InStep.exec {phys last : Nat} {run : RingRun} {op : RingOp} (small : phys < 2 ^ 64)
    (inStep : run.InStep phys last) (roomy : Roomy run op) :
    (RingOp.exec run op).InStep phys last := by
  obtain ⟨queue, done, inv⟩ := inStep
  cases op with
  | write trb =>
    obtain ⟨own, clear, room⟩ := roomy
    unfold RingOp.exec
    cases whole : run.half with
    | false => exact ⟨_, _, inv.write whole own clear room⟩
    | true => exact ⟨_, _, inv⟩
  | advance =>
    unfold RingOp.exec
    cases half : run.half with
    | false => exact ⟨_, _, inv⟩
    | true => exact ⟨_, _, inv.advance half⟩
  | consume =>
    obtain ⟨queue', after⟩ := inv.consume small
    exact ⟨queue', done, after⟩

/--
In every interleaving in which the controller is at most `size - 2` TRBs behind,
it has taken the first TRBs that were enqueued, in order and each once, and it
takes the next one in at most two steps.  Between two enqueues the driver's
steps are the two source functions.
-/
theorem transfer_ring_delivers {size phys : Nat} {run : RingRun}
    (large : 3 ≤ size)
    (small : phys < 2 ^ 64)
    (reaches : Reaches RingOp.exec Roomy (.start size phys) run) :
    (run.half = false → run.Enqueues) ∧
    ∃ queue, run.enqueued = run.dequeued ++ queue ∧
      ∀ x rest, queue = x :: rest →
        ∃ k ≤ 2, ((RingOp.exec · .consume)^[k] run).dequeued = run.dequeued ++ [x] := by
  have inStep : run.InStep phys (size - 1) :=
    reaches.invariant ⟨[], 0, .start large⟩ (RingRun.InStep.exec small)
  obtain ⟨queue, done, inv⟩ := inStep
  exact ⟨exec_enqueue, queue, inv.fifo, fun x rest => inv.progress small⟩

/-- Two reports on a ring of three slots, and the controller behind the link. -/
def twoReports : RingRun :=
  [.write (hidTrb 64 8), .advance, .consume, .write (hidTrb 64 8), .advance, .consume,
    .consume].foldl RingOp.exec (.start 3 4096)

theorem transfer_ring_delivers_reports :
    twoReports.dequeued.length = 2 ∧ (twoReports.half = false → twoReports.Enqueues) ∧
      ∃ queue, twoReports.enqueued = twoReports.dequeued ++ queue ∧
        ∀ x rest, queue = x :: rest →
          ∃ k ≤ 2, ((RingOp.exec · .consume)^[k] twoReports).dequeued =
            twoReports.dequeued ++ [x] := by
  have own := Trb.hidTrb_clear 64 8
  refine ⟨by decide, transfer_ring_delivers (by decide) (by decide) (Reaches.foldl .start ?_)⟩
  exact ⟨⟨own.1, own.2, by decide⟩, trivial, trivial, ⟨own.1, own.2, by decide⟩, trivial, trivial,
    trivial, trivial⟩

end CaraOS.Xhci
