import CaraOS.Croi.SchedRun

namespace CaraOS.Croi

/-!
# Message ports

`ring.h` and `msgport.c`: a message port is a ring of message slots and a
signal of its owner.  Putting a message signals the owner when the ring was
empty; waiting for the port waits for the signal and looks at nothing else.
A run interleaves the tasks that put messages with the owner that takes them.
-/

open Sched (at_eq)
open Option (isSome_iff_exists map_eq_some_iff)

/-! ## The ring -/

/-- `struct RingSlot`. -/
structure RingSlot where
  kind : BitVec 32
  length : BitVec 32
  payload : BitVec 64
  reserved : BitVec 64
  deriving DecidableEq

/-- `struct RingHeader`, but for its padding and the unused `signal_kobj`. -/
structure RingHeader where
  head : BitVec 32
  tail : BitVec 32
  capacity : BitVec 32
  mask : BitVec 32
  deriving DecidableEq

/-- `Ring_Init`; `none` is `CARA_EINVAL`. -/
def ringInit (capacity : BitVec 32) : Option RingHeader :=
  if capacity = 0 ∨ capacity &&& (capacity - 1) ≠ 0 then
    none
  else
    some { head := 0, tail := 0, capacity := capacity, mask := capacity - 1 }

/-- `Ring_Enqueue`: `none` if full, else whether a signal is needed. -/
def ringEnqueue (r : RingHeader) (slots : Nat → RingSlot) (v : RingSlot) :
    Option (Bool × RingHeader × (Nat → RingSlot)) :=
  if r.capacity ≤ r.head - r.tail then
    none
  else
    some (r.head = r.tail, { r with head := r.head + 1 },
      Function.update slots (r.head &&& r.mask).toNat v)

/-- `Ring_Dequeue`: `none` if empty. -/
def ringDequeue (r : RingHeader) (slots : Nat → RingSlot) : Option (RingSlot × RingHeader) :=
  if r.head = r.tail then
    none
  else
    some (slots (r.tail &&& r.mask).toNat, { r with tail := r.tail + 1 })

def ringIsEmpty (r : RingHeader) : Bool :=
  r.head - r.tail = 0

theorem ringIsEmpty_iff (r : RingHeader) : ringIsEmpty r = true ↔ r.head = r.tail := by
  rw [ringIsEmpty, decide_eq_true_eq]
  constructor
  · intro isZero
    bv_omega
  · intro same
    rw [same]
    exact BitVec.sub_self _

/-! ## The port -/

/-- `struct CroiMsgPort`, but for its header and its public part. -/
structure CroiMsgPort where
  ring : RingHeader
  slots : Nat → RingSlot
  owner : Nat
  signalBit : Nat

/-- `Croi_CreateMsgPort` when there is memory for the port. -/
def croiCreateMsgPort (owner signalBit : Nat) (capacity : BitVec 32) : Option CroiMsgPort :=
  if 32 ≤ signalBit ∨ capacity = 0 then
    none
  else
    (ringInit capacity).map fun ring =>
      { ring := ring
        slots := fun _ => ⟨0, 0, 0, 0⟩
        owner := owner
        signalBit := signalBit }

/-- The scheduler and a port; `inPort` while its owner is in `WaitPort`. -/
structure Ports where
  sched : Sched
  port : CroiMsgPort
  inPort : Bool

def croiPutMsg (msg : RingSlot) (st : Ports) : Bool × Ports :=
  match ringEnqueue st.port.ring st.port.slots msg with
  | none => (false, st)
  | some (needSignal, ring, slots) =>
    let st := { st with port := { st.port with ring := ring, slots := slots } }
    if needSignal then
      (true, { st with
        sched := croiSignal st.port.owner (sigMask st.port.signalBit) st.sched })
    else
      (true, st)

def croiGetMsg (st : Ports) : Option RingSlot × Ports :=
  match ringDequeue st.port.ring st.port.slots with
  | none => (none, st)
  | some (msg, ring) =>
    (some msg, { st with port := { st.port with ring := ring } })

/-- `Croi_WaitPort`, up to its return or its first switch. -/
def croiWaitPort (st : Ports) : Option (Waited × Ports) :=
  (croiWait (sigMask st.port.signalBit) st.sched).map fun (waited, sched) =>
    (waited, { st with sched := sched, inPort := waited = .blocked })

/-! ## Runs -/

/-- What the running task does next. -/
inductive PortOp where
  | putMsg (msg : RingSlot)
  | getMsg
  | waitPort
  | sched (op : SchedOp)
  deriving DecidableEq

/-- The running task goes on in `Croi_Wait`; the owner then leaves the port. -/
def resumePort (st : Ports) : Option Ports :=
  (resumeWait st.sched).map fun (waited, sched) =>
    if st.sched.current = st.port.owner then
      { st with
        sched := sched
        inPort := st.inPort && decide (waited = .blocked) }
    else
      { st with sched := sched }

/-- One step of the running task; only the owner takes and waits. -/
def PortOp.step (op : PortOp) (st : Ports) : Option Ports :=
  match (st.sched.at_ st.sched.current).inWait with
  | some _ =>
    match op with
    | .sched .resume => resumePort st
    | _ => none
  | none =>
    match op with
    | .putMsg msg => some (croiPutMsg msg st).2
    | .getMsg =>
      if st.sched.current = st.port.owner then
        some (croiGetMsg st).2
      else
        none
    | .waitPort =>
      if st.sched.current = st.port.owner then
        (croiWaitPort st).map Prod.snd
      else
        none
    | .sched op =>
      (op.step st.sched).map fun sched => { st with sched := sched }

/-- A finite sequence of steps. -/
def Ports.run : List PortOp → Ports → Option Ports
  | [], st => some st
  | op :: rest, st => (op.step st).bind (Ports.run rest)

/-- The owner sleeps in `WaitPort` and there is a message. -/
def Ports.Missed (st : Ports) : Prop :=
  st.inPort = true ∧ (st.sched.at_ st.port.owner).state = .wait ∧ ringIsEmpty st.port.ring = false
  deriving Decidable

/-- The owner may wait: its signal is set, or there is no message. -/
def Ports.MayWait (st : Ports) : Prop :=
  (st.sched.at_ st.port.owner).sigRecvd &&& sigMask st.port.signalBit ≠ 0 ∨
    ringIsEmpty st.port.ring = true

/-! ## The owner sleeps only while there is no message -/

theorem sigMask_ne {bit : Nat} (small : bit < 32) : sigMask bit ≠ 0 := by
  unfold sigMask
  intro isZero
  have isBit := congrArg (·.getLsbD bit) isZero
  simp [small] at isBit

/-- What holds between two steps, but for the messages. -/
structure Ports.Inv (st : Ports) (q : QueueId → List Nat) : Prop where
  sched : st.sched.Inv q
  known : st.sched.tasks st.port.owner ≠ none
  bit : st.port.signalBit < 32
  inside : st.inPort = true → (st.sched.at_ st.port.owner).inWait = some (sigMask st.port.signalBit)

section Steps

variable {st after : Ports} {q : QueueId → List Nat}

namespace Ports.Inv

theorem away (inv : st.Inv q) (free : (st.sched.at_ st.sched.current).inWait = none)
    (isIn : st.inPort = true) : st.port.owner ≠ st.sched.current := by
  intro same
  have inside := inv.inside isIn
  rw [same, free] at inside
  cases inside

/-- An owner that is still in the port sleeps only if it slept before. -/
def Onlooker (st : Ports) (sched : Sched) : Prop :=
  ∀ {task}, st.sched.tasks st.port.owner = some task →
    ∃ left, sched.tasks st.port.owner = some left ∧ (st.inPort = true → left.inWait = task.inWait ∧
        (left.state = .wait → task.state = .wait))

variable (inv : st.Inv q)
include inv

theorem reschedule {sched : Sched} {q' : QueueId → List Nat}
    (holds : sched.Inv q') (onlooker : Onlooker st sched) :
    Ports.Inv { st with sched := sched } q' ∧ (Missed { st with sched := sched } → st.Missed) := by
  obtain ⟨task, found⟩ := Option.ne_none_iff_exists'.mp inv.known
  obtain ⟨left, isLeft, same⟩ := onlooker found
  refine ⟨⟨holds, ?_, inv.bit, fun isIn => ?_⟩, ?_⟩
  · exact fun none => nomatch isLeft.symm.trans none
  · rw [at_eq isLeft, (same isIn).1, ← at_eq found]
    exact inv.inside isIn
  · rintro ⟨isIn, asleep, waiting⟩
    replace asleep : (sched.at_ st.port.owner).state = .wait := asleep
    rw [at_eq isLeft] at asleep
    refine ⟨isIn, ?_, waiting⟩
    rw [at_eq found]
    exact (same isIn).2 asleep

theorem putMsg (msg : RingSlot) :
    (∃ q', (croiPutMsg msg st).2.Inv q') ∧
      ((croiPutMsg msg st).2.Missed → st.Missed) := by
  unfold croiPutMsg
  cases enqueued : ringEnqueue st.port.ring st.port.slots msg with
  | none => exact ⟨⟨q, inv⟩, id⟩
  | some result =>
    obtain ⟨needSignal, ring, slots⟩ := result
    dsimp only
    unfold ringEnqueue at enqueued
    split at enqueued
    · cases enqueued
    obtain ⟨rfl, -⟩ := Prod.mk.inj (Option.some.inj enqueued)
    obtain ⟨task, found⟩ := Option.ne_none_iff_exists'.mp inv.known
    by_cases wasEmpty : st.port.ring.head = st.port.ring.tail
    · rw [if_pos (decide_eq_true wasEmpty)]
      obtain ⟨step, -, tasks⟩ := inv.sched.croiSignal inv.known (sigMask_ne inv.bit)
      obtain ⟨q', holds, -⟩ := step.next
      have isLeft : (croiSignal st.port.owner
          (sigMask st.port.signalBit) st.sched).tasks st.port.owner =
            some (task.signalled (sigMask st.port.signalBit)) := by
        rw [tasks, Sched.setTask_self, found]
        rfl
      refine ⟨⟨q', holds, ?_, inv.bit, fun isIn => ?_⟩, ?_⟩
      · exact fun none => nomatch isLeft.symm.trans none
      · have inside := inv.inside isIn
        rw [at_eq found] at inside
        rw [at_eq isLeft, Task.signalled]
        split <;> exact inside
      · rintro ⟨isIn, asleep, -⟩
        have inside := inv.inside isIn
        rw [at_eq found] at inside
        replace asleep : (Sched.at_ _ st.port.owner).state = .wait := asleep
        rw [at_eq isLeft, Task.signalled] at asleep
        split at asleep
        · cases asleep
        -- it slept for this very signal, so it has been woken
        rename_i notWoken
        obtain ⟨isMask, -⟩ := (inv.sched.tuned found).asleep asleep
        have mask := Option.some.inj (isMask.symm.trans inside)
        refine absurd ⟨asleep, ?_⟩ notWoken
        rw [mask, BitVec.or_comm]
        refine and_or_ne_zero ?_
        rw [BitVec.and_self]
        exact sigMask_ne inv.bit
    · rw [if_neg (by simpa using wasEmpty)]
      refine ⟨⟨q, { inv with }⟩, ?_⟩
      rintro ⟨isIn, asleep, -⟩
      refine ⟨isIn, asleep, ?_⟩
      rwa [← Bool.not_eq_true, ringIsEmpty_iff]

theorem getMsg (free : (st.sched.at_ st.sched.current).inWait = none)
    (isOwner : st.sched.current = st.port.owner) :
    (croiGetMsg st).2.Inv q ∧ ¬ (croiGetMsg st).2.Missed := by
  unfold croiGetMsg
  have isOut (isIn : st.inPort = true) : False := inv.away free isIn isOwner.symm
  split
  · exact ⟨inv, fun missed => isOut missed.1⟩
  · exact ⟨{ inv with }, fun missed => isOut missed.1⟩

theorem waitPort {waited : Waited} (isOwner : st.sched.current = st.port.owner)
    (isWait : croiWaitPort st = some (waited, after)) :
    (∃ q', after.Inv q') ∧ (after.Missed ↔ ¬ st.MayWait) := by
  obtain ⟨⟨isWaited, sched⟩, round, same⟩ := map_eq_some_iff.mp isWait
  obtain ⟨rfl, rfl⟩ := Prod.mk.inj same
  unfold croiWait at round
  rw [if_neg (sigMask_ne inv.bit)] at round
  obtain ⟨task, found, isRun⟩ := inv.sched.known
  cases isWaited with
  | returned hit =>
    obtain ⟨step, isHit, some, rfl⟩ := inv.sched.waitRound_returned round
    obtain ⟨q', holds, -⟩ := step.next
    refine ⟨⟨q', holds, ?_, inv.bit, nofun⟩, fun missed => (nomatch missed.1), fun early => ?_⟩
    · exact fun none => inv.known (Sched.setTask_none_iff.mp none)
    · refine absurd (.inl ?_) early
      rwa [← isOwner, ← isHit]
  | blocked =>
    obtain ⟨step, listed, noHit, tasks⟩ := inv.sched.waitRound_blocked round
    obtain ⟨q', holds, -⟩ := step.next
    have different := inv.sched.ne_current listed
    have isLeft : sched.tasks st.port.owner = some { task with
          sigWait := sigMask st.port.signalBit
          state := .wait
          inWait := some (sigMask st.port.signalBit) } := by
      rw [tasks, ← isOwner, Sched.setTask_other different.symm, Sched.setTask_self, found]
      rfl
    refine ⟨⟨q', holds, ?_, inv.bit, fun _ => ?_⟩, ?_⟩
    · exact fun none => nomatch isLeft.symm.trans none
    · rw [at_eq isLeft]
    · unfold Missed MayWait
      rw [← isOwner, noHit, isOwner]
      rw [at_eq isLeft]
      simp

theorem onlooker {op : SchedOp} {sched : Sched}
    (away : st.inPort = true → st.port.owner ≠ st.sched.current)
    (stepped : op.step st.sched = some sched) : Onlooker st sched := by
  intro task found
  obtain ⟨left, isLeft, spared⟩ := SchedOp.step_spares inv.sched found stepped 0
  refine ⟨left, isLeft, fun isIn => ?_⟩
  have kept := spared (away isIn)
  exact ⟨kept.inWait, kept.fell⟩

theorem step {op : PortOp} (stepped : op.step st = some after) :
    (∃ q', after.Inv q') ∧
      (op ≠ .waitPort → after.Missed → st.Missed) ∧
      (op = .waitPort → (after.Missed ↔ ¬ st.MayWait)) := by
  unfold PortOp.step at stepped
  cases free : (st.sched.at_ st.sched.current).inWait with
  | some mask =>
    rw [free] at stepped
    cases op with
    | sched op =>
      cases op with
      | resume =>
        obtain ⟨⟨waited, sched⟩, isWait, rfl⟩ := map_eq_some_iff.mp stepped
        have isStep : SchedOp.resume.step st.sched = some sched := by
          unfold SchedOp.step
          rw [free]
          rw [isWait]
          rfl
        obtain ⟨q', holds, -⟩ := (SchedOp.step_keeps inv.sched isStep).next
        refine ⟨?_, fun _ => ?_, nofun⟩
        all_goals dsimp only
        all_goals split
        · -- the owner is awake, so it leaves the port
          obtain ⟨hit, left, returned⟩ := inv.sched.resume_returns free
          cases isWait.symm.trans returned
          refine ⟨q', holds, ?_, inv.bit, fun isIn => ?_⟩
          · obtain ⟨task, found⟩ := Option.ne_none_iff_exists'.mp inv.known
            obtain ⟨left, isLeft, -⟩ := SchedOp.step_spares inv.sched found isStep 0
            exact fun none => nomatch isLeft.symm.trans none
          · simp at isIn
        · rename_i notOwner
          exact ⟨q', (inv.reschedule holds (inv.onlooker (fun _ => Ne.symm notOwner) isStep)).1⟩
        · obtain ⟨hit, left, returned⟩ := inv.sched.resume_returns free
          obtain ⟨rfl, rfl⟩ := Prod.mk.inj (Option.some.inj (isWait.symm.trans returned))
          rintro ⟨isIn, -⟩
          simp at isIn
        · rename_i notOwner
          exact (inv.reschedule holds (inv.onlooker (fun _ => Ne.symm notOwner) isStep)).2
      | _ => cases stepped
    | _ => cases stepped
  | none =>
    rw [free] at stepped
    cases op with
    | putMsg msg =>
      cases stepped
      obtain ⟨holds, missed⟩ := inv.putMsg msg
      exact ⟨holds, fun _ => missed, nofun⟩
    | getMsg =>
      dsimp only at stepped
      split at stepped
      · rename_i isOwner
        cases stepped
        obtain ⟨holds, calm⟩ := inv.getMsg free isOwner
        exact ⟨⟨q, holds⟩, fun _ missed => absurd missed calm, nofun⟩
      · cases stepped
    | waitPort =>
      dsimp only at stepped
      split at stepped
      · rename_i isOwner
        obtain ⟨⟨waited, left⟩, isWait, rfl⟩ := map_eq_some_iff.mp stepped
        obtain ⟨holds, missed⟩ := inv.waitPort isOwner isWait
        exact ⟨holds, absurd rfl, fun _ => missed⟩
      · cases stepped
    | sched op =>
      obtain ⟨sched, isStep, rfl⟩ := map_eq_some_iff.mp stepped
      obtain ⟨q', holds, -⟩ := (SchedOp.step_keeps inv.sched isStep).next
      obtain ⟨isInv, missed⟩ := inv.reschedule holds (inv.onlooker (inv.away free) isStep)
      exact ⟨⟨q', isInv⟩, fun _ => missed, nofun⟩

end Ports.Inv

theorem Ports.Inv.run_calm_iff {ops : List PortOp}
    (inv : st.Inv q) (calm : ¬ st.Missed) (ran : st.run ops = some after) :
    (∀ n mid, st.run (ops.take n) = some mid → ¬ mid.Missed) ↔
      ∀ n mid, ops[n]? = some .waitPort → st.run (ops.take n) = some mid →
        mid.MayWait := by
  induction ops generalizing st q with
  | nil =>
    refine ⟨nofun, fun _ n mid isMid => ?_⟩
    rw [List.take_nil] at isMid
    cases isMid
    exact calm
  | cons op rest ih =>
    obtain ⟨next, stepped, ranRest⟩ := Option.bind_eq_some_iff.mp ran
    obtain ⟨⟨q', holds⟩, other, port⟩ := inv.step stepped
    -- a run of the longer list is a step and a run of the shorter one
    have unroll (n : Nat) : st.run ((op :: rest).take (n + 1)) = next.run (rest.take n) := by
      show (op.step st).bind _ = _
      rw [stepped]
      rfl
    have nextCalm (patient : op = .waitPort → st.MayWait) : ¬ next.Missed := by
      intro missed
      by_cases isWait : op = .waitPort
      · exact (port isWait).mp missed (patient isWait)
      · exact calm (other isWait missed)
    constructor
    · intro allCalm n mid isOp isMid
      have here : ¬ next.Missed := allCalm 1 next (by rw [unroll]; rfl)
      cases n with
      | zero =>
        cases isMid
        by_contra early
        exact here ((port (Option.some.inj isOp)).mpr early)
      | succ n =>
        rw [unroll] at isMid
        refine (ih holds here ranRest).mp (fun k later isLater => ?_) n mid isOp isMid
        exact allCalm (k + 1) later (by rw [unroll]; exact isLater)
    · intro patient n mid isMid
      have here := nextCalm fun isWait =>
        patient 0 st (congrArg some isWait) rfl
      cases n with
      | zero =>
        obtain rfl := Option.some.inj isMid
        exact calm
      | succ n =>
        rw [unroll] at isMid
        refine (ih holds here ranRest).mpr (fun k later isOp isLater => ?_) n mid isMid
        exact patient (k + 1) later isOp (by rw [unroll]; exact isLater)

end Steps

theorem croiCreateMsgPort_spec {owner signalBit : Nat} {capacity : BitVec 32} {port : CroiMsgPort}
    (created : croiCreateMsgPort owner signalBit capacity = some port) :
    port.owner = owner ∧ port.signalBit < 32 := by
  unfold croiCreateMsgPort at created
  split at created
  · cases created
  · rename_i valid
    obtain ⟨ring, -, rfl⟩ := map_eq_some_iff.mp created
    exact ⟨rfl, Nat.lt_of_not_le fun large => valid (.inl large)⟩

/--
A port is created for some task of a running system.  In every run from there
that does not halt, the owner is never asleep in `WaitPort` while there is a
message if and only if it calls `WaitPort` only with its signal set or with an
empty ring.
-/
theorem no_missed_message_iff (boot : Nat) (earlier : List SchedOp) (r : Timed)
    (reached : (Timed.boot boot).run earlier = some r) (owner signalBit : Nat)
    (capacity : BitVec 32) (port : CroiMsgPort)
    (known : r.sched.tasks owner ≠ none)
    (created : croiCreateMsgPort owner signalBit capacity = some port)
    (ops : List PortOp) (after : Ports)
    (ran : Ports.run ops ⟨r.sched, port, false⟩ = some after) :
    (∀ n mid, Ports.run (ops.take n) ⟨r.sched, port, false⟩ = some mid → ¬ mid.Missed) ↔
      ∀ n mid, ops[n]? = some .waitPort →
        Ports.run (ops.take n) ⟨r.sched, port, false⟩ = some mid →
          mid.MayWait := by
  obtain ⟨q, inv⟩ := (Timed.boot_inv boot).run reached
  obtain ⟨rfl, small⟩ := croiCreateMsgPort_spec created
  have start : Ports.Inv ⟨r.sched, port, false⟩ q :=
    ⟨inv.sched, known, small, nofun⟩
  exact start.run_calm_iff (fun missed => nomatch missed.1) ran

/-- The owner waits for the port, task 1 puts a message, the owner takes it. -/
def oneMessage : List PortOp :=
  [.sched (.spawn 1 0), .waitPort, .putMsg ⟨5, 0, 1, 0⟩, .sched .yield, .sched .resume, .getMsg]

theorem no_missed_message_one :
    ∃ port after,
      croiCreateMsgPort 0 16 32 = some port ∧
        Ports.run oneMessage ⟨schedInit 0, port, false⟩ = some after ∧
          ((∀ n mid, Ports.run (oneMessage.take n)
              ⟨schedInit 0, port, false⟩ = some mid → ¬ mid.Missed) ↔
            ∀ n mid, oneMessage[n]? = some .waitPort →
              Ports.run (oneMessage.take n) ⟨schedInit 0, port, false⟩ =
                some mid → mid.MayWait) := by
  have created : (croiCreateMsgPort 0 16 32).isSome = true := by
    decide
  obtain ⟨port, isPort⟩ := isSome_iff_exists.mp created
  have runs : ((croiCreateMsgPort 0 16 32).bind fun port =>
      Ports.run oneMessage ⟨schedInit 0, port, false⟩).isSome = true := by
    decide +kernel
  rw [isPort] at runs
  obtain ⟨after, ran⟩ := isSome_iff_exists.mp runs
  exact ⟨port, after, isPort, ran, no_missed_message_iff 0 [] (.boot 0) rfl 0
    16 32 port (by decide) isPort _ after ran⟩

/-- Task 1 puts two messages; the owner takes one and waits for the port. -/
def twoMessages : List PortOp :=
  [.sched (.spawn 1 127), .sched .yield, .putMsg ⟨5, 0, 1, 0⟩,
    .putMsg ⟨5, 0, 2, 0⟩, .sched (.setSelfPriority 0), .sched .yield,
    .waitPort, .getMsg, .waitPort]

/-- The owner sleeps while the second message lies in the ring. -/
theorem second_message_missed :
    ∃ port after,
      croiCreateMsgPort 0 16 32 = some port ∧
        Ports.run twoMessages ⟨schedInit 0, port, false⟩ = some after ∧
          after.Missed := by
  have created : (croiCreateMsgPort 0 16 32).isSome = true := by
    decide
  obtain ⟨port, isPort⟩ := isSome_iff_exists.mp created
  have missed : ((croiCreateMsgPort 0 16 32).bind fun port =>
      (Ports.run twoMessages ⟨schedInit 0, port, false⟩).map fun after =>
        decide after.Missed) = some true := by
    decide +kernel
  rw [isPort] at missed
  obtain ⟨after, ran, isMissed⟩ := map_eq_some_iff.mp missed
  exact ⟨port, after, isPort, ran, of_decide_eq_true isMissed⟩

end CaraOS.Croi
