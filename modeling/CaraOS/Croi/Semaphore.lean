import Mathlib.Algebra.Group.Int.Defs
import Mathlib.Algebra.Group.Nat.Defs
import CaraOS.Croi.Sched

namespace CaraOS.Croi

/-!
# Signal semaphores

`sem.c` over the scheduler.  A semaphore is known by its address.  A task that
finds one taken queues a request, which lies on its own kernel stack, so a
request is known by the task it belongs to.  `obtaining` is the semaphore of
the call of `ObtainSemaphore` a task is inside of.
-/

open Intrusive (Links)

/-- An assignment to a `WORD`. -/
def word (value : Int) : Int :=
  value.bmod 65536

def sigfSingle : Signals :=
  sigMask 4

/-- `struct SignalSemaphore`, but for its name and its queue. -/
structure SignalSemaphore where
  nestCount : Int
  queueCount : Int
  owner : Option Nat
  deriving DecidableEq

/-- The scheduler, the semaphores and their wait queues. -/
structure Sems where
  sched : Sched
  sems : Nat → SignalSemaphore
  waits : Links Nat Nat
  obtaining : Nat → Option Nat

namespace Sems

/-- Assign to fields of a semaphore. -/
def setSem (st : Sems) (i : Nat) (change : SignalSemaphore → SignalSemaphore) : Sems :=
  { st with sems := Function.update st.sems i (change (st.sems i)) }

/-- `ss_WaitQueue`, as a walk from its header sees it. -/
def queue (st : Sems) (i : Nat) : List Nat :=
  st.waits.nodes i st.sched.count

end Sems

/-- The fields `Croi_InitSemaphore_Impl` assigns. -/
def freshSemaphore : SignalSemaphore where
  nestCount := 0
  queueCount := -1
  owner := none

/--
`Croi_ObtainSemaphore_Impl`, up to its return or its switch: whether it
returned.  `none` when the machine halts.
-/
def croiObtainSemaphore (i : Nat) (st : Sems) : Option (Bool × Sems) :=
  let me := st.sched.current
  if (st.sems i).owner = none then
    some (true, st.setSem i ({ · with owner := some me, nestCount := 1 }))
  else if (st.sems i).owner = some me then
    some (true, st.setSem i fun sem =>
      { sem with nestCount := word (sem.nestCount + 1) })
  else
    let st := { st with waits := st.waits.addTail i me }
    let st := st.setSem i fun sem =>
      { sem with queueCount := word (sem.queueCount + 1) }
    let sched := (croiSetSignal 0 sigfSingle st.sched).2
    (croiWait sigfSingle sched).map fun (waited, sched) =>
      match waited with
      | .returned _ => (true, { st with sched := sched })
      | .blocked =>
        (false, { st with
          sched := sched
          obtaining := Function.update st.obtaining me (some i) })

/-- `Croi_ReleaseSemaphore_Impl`. -/
def croiReleaseSemaphore (i : Nat) (st : Sems) : Sems :=
  let st := st.setSem i fun sem =>
    if 0 < sem.nestCount then
      { sem with nestCount := word (sem.nestCount - 1) }
    else
      sem
  if (st.sems i).nestCount ≠ 0 then
    st
  else
    match st.waits.remHead i with
    | some (waiter, links) =>
      let st := { st with waits := links }
      let st := st.setSem i fun sem =>
        { sem with
          queueCount := word (sem.queueCount - 1)
          owner := some waiter
          nestCount := 1 }
      { st with sched := croiSignal waiter sigfSingle st.sched }
    | none => st.setSem i ({ · with owner := none })

/-- `Croi_AttemptSemaphore_Impl`. -/
def croiAttemptSemaphore (i : Nat) (st : Sems) : Bool × Sems :=
  let me := st.sched.current
  if (st.sems i).owner = none then
    (true, st.setSem i ({ · with owner := some me, nestCount := 1 }))
  else if (st.sems i).owner = some me then
    (true, st.setSem i fun sem =>
      { sem with nestCount := word (sem.nestCount + 1) })
  else
    (false, st)

/-! ## Runs -/

/-- What the running task does next. -/
inductive SemOp where
  | obtain (i : Nat)
  | attempt (i : Nat)
  | release (i : Nat)
  | resume
  | sched (op : SchedOp)
  deriving DecidableEq

/-- What can be seen of a step; `obtained` with the `ss_Owner` of then. -/
inductive SemEvent where
  | obtained (t i : Nat) (owner : Option Nat)
  | attempted (t i : Nat)
  | queued (t i : Nat)
  | released (t i : Nat)
  | handed (t i : Nat)
  deriving DecidableEq

/-- One more call of the running task would not nest too deep. -/
def Sems.CanNest (st : Sems) (i : Nat) : Prop :=
  (st.sems i).owner = some st.sched.current → (st.sems i).nestCount + 1 < 2 ^ 15
  deriving Decidable

/-- The signals a task may send by itself. -/
def SchedOp.allowed : SchedOp → Bool
  | .signal _ mask => mask &&& sigfSingle = 0
  | _ => true

/-- The running task goes on in `Croi_Wait`, and then in its caller. -/
def resumeObtain (st : Sems) : Option (Sems × List SemEvent) :=
  let me := st.sched.current
  (resumeWait st.sched).map fun (waited, sched) =>
    match waited, st.obtaining me with
    | .returned _, some i =>
      ({ st with
          sched := sched
          obtaining := Function.update st.obtaining me none },
        [.obtained me i (st.sems i).owner])
    | _, _ => ({ st with sched := sched }, [])

/-- The semaphore went from the running task to a waiter. -/
def handedOver (i : Nat) (st after : Sems) : List SemEvent :=
  match (after.sems i).owner with
  | none => []
  | some waiter =>
    if waiter = st.sched.current then [] else [.handed waiter i]

/--
One step of the running task.  `none` when the machine halts, and for what
the users of semaphores must not do: release what they do not own, nest
deeper than a `WORD` counts, or send `SIGF_SINGLE` themselves.
-/
def SemOp.step (op : SemOp) (st : Sems) : Option (Sems × List SemEvent) :=
  let me := st.sched.current
  match (st.sched.at_ me).inWait with
  | some _ =>
    match op with
    | .resume => resumeObtain st
    | _ => none
  | none =>
    match op with
    | .obtain i =>
      if st.CanNest i then
        (croiObtainSemaphore i st).map fun (returned, after) =>
          (after,
            if returned then [.obtained me i (after.sems i).owner]
            else [.queued me i])
      else
        none
    | .attempt i =>
      if st.CanNest i then
        let (taken, after) := croiAttemptSemaphore i st
        some (after, if taken then [.attempted me i] else [])
      else
        none
    | .release i =>
      if (st.sems i).owner = some me then
        let after := croiReleaseSemaphore i st
        some (after, .released me i :: handedOver i st after)
      else
        none
    | .resume => none
    | .sched op =>
      if op.allowed then
        (op.step st.sched).map fun sched => ({ st with sched := sched }, [])
      else
        none

/-- `Sched_Init`, with every semaphore initialised. -/
def Sems.boot (t : Nat) : Sems where
  sched := schedInit t
  sems := fun _ => freshSemaphore
  waits := .empty
  obtaining := fun _ => none

/-- A finite sequence of steps, with everything seen of it. -/
def Sems.run : List SemOp → Sems → Option (Sems × List SemEvent)
  | [], st => some (st, [])
  | op :: rest, st =>
    (op.step st).bind fun (after, events) =>
      (Sems.run rest after).map fun (last, more) => (last, events ++ more)

/-! ## What a run shows -/

/-- The task has got the semaphore. -/
def SemEvent.takes (i t : Nat) : SemEvent → Bool
  | .obtained u j _ => u = t ∧ j = i
  | .attempted u j => u = t ∧ j = i
  | _ => false

/-- The task has released the semaphore. -/
def SemEvent.gives (i t : Nat) : SemEvent → Bool
  | .released u j => u = t ∧ j = i
  | _ => false

/-- How often the task has got the semaphore and not released it yet. -/
def held (trace : List SemEvent) (i t : Nat) : Nat :=
  trace.countP (SemEvent.takes i t) - trace.countP (SemEvent.gives i t)

def SemEvent.queuedFor (i : Nat) : SemEvent → Option Nat
  | .queued t j => if j = i then some t else none
  | _ => none

def SemEvent.handedFor (i : Nat) : SemEvent → Option Nat
  | .handed t j => if j = i then some t else none
  | _ => none

def queuedOn (trace : List SemEvent) (i : Nat) : List Nat :=
  trace.filterMap (SemEvent.queuedFor i)

def handedOn (trace : List SemEvent) (i : Nat) : List Nat :=
  trace.filterMap (SemEvent.handedFor i)

end CaraOS.Croi
