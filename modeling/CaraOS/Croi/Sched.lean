import CaraOS.Lib.Intrusive

namespace CaraOS.Croi

/-!
# The scheduler

`sched.c`: a cooperative scheduler with one run queue in order of priority.
Tasks are known by their addresses; the queues are threaded through the tasks
themselves.

A context switch leaves a task inside the call it made.  Only `Croi_Wait` goes
on after its switch: `inWait` is the argument of the call a task is inside of,
which its kernel stack keeps.
-/

open Intrusive (Links Ref)

/-- `TS_*`. -/
inductive TaskState where
  | invalid
  | added
  | run
  | ready
  | wait
  | except
  | removed
  deriving DecidableEq

/-- A set of signals. -/
abbrev Signals : Type :=
  BitVec 32

/-- The scheduler's part of `struct Task`. -/
structure Task where
  pri : Int := 0
  state : TaskState := .invalid
  idNestCnt : Int := 0
  tdNestCnt : Int := 0
  sigAlloc : Signals := 0
  sigWait : Signals := 0
  sigRecvd : Signals := 0
  inWait : Option Signals := none
  deriving DecidableEq

/-- `g_runq`, `g_sleepers` and `g_dead`. -/
inductive QueueId where
  | runq
  | sleepers
  | dead
  deriving DecidableEq

/-- The scheduler's globals and all task objects; `count` bounds walks. -/
structure Sched where
  tasks : Nat → Option Task
  links : Links Nat QueueId
  current : Nat
  count : Nat

namespace Sched

/-- The fields of a task; zeroes where there is none. -/
def at_ (s : Sched) (t : Nat) : Task :=
  (s.tasks t).getD {}

/-- Assign to fields of a task. -/
def setTask (s : Sched) (t : Nat) (change : Task → Task) : Sched :=
  { s with tasks := Function.update s.tasks t ((s.tasks t).map change) }

/-- The tasks on a queue, as a walk from its header sees them. -/
def queue (s : Sched) (l : QueueId) : List Nat :=
  s.links.nodes l s.count

end Sched

def clampPri (pri : Int) : Int :=
  if pri < -128 then -128 else if 127 < pri then 127 else pri

/-- An assignment to a `BYTE`. -/
def byte (value : Int) : Int :=
  value.bmod 256

def taskInitNode (pri : Int) : Task where
  pri := pri
  idNestCnt := -1
  tdNestCnt := -1

/-- The loop of `runq_add`: the first task of lower priority. -/
def runqFind (s : Sched) (pri : Int) : Nat → Ref Nat QueueId → Option Nat
  | 0, _ => none
  | fuel + 1, p =>
    if s.links.succ p = .null then
      none
    else
      match p with
      | .node q =>
        if (s.at_ q).pri < pri then
          some q
        else
          runqFind s pri fuel (s.links.succ p)
      | _ => none

def runqAdd (t : Nat) (s : Sched) : Sched :=
  match runqFind s (s.at_ t).pri s.count (s.links.succ (.head .runq)) with
  | some p => { s with links := s.links.insertBefore (.node p) t }
  | none => { s with links := s.links.addTail .runq t }

/-- `Sched_Init`, with the address of the boot task. -/
def schedInit (boot : Nat) : Sched where
  tasks := Function.update (fun _ => none) boot (some { taskInitNode 100 with state := .run })
  links := ((Links.none.init .runq).init .sleepers).init .dead
  current := boot
  count := 1

/-- The end of a successful spawn: a new task object joins the run queue. -/
def croiSpawn (t : Nat) (pri : Int) (s : Sched) : Sched :=
  runqAdd t { s with
      tasks := Function.update s.tasks t (some { taskInitNode (clampPri pri) with state := .ready })
      count := s.count + 1 }

/-- Take the first task of the run queue and make it the current one. -/
def dispatch (s : Sched) : Option Sched :=
  (s.links.remHead .runq).map fun (next, links) =>
    { { s with links := links }.setTask next ({ · with state := .run }) with
      current := next }

def croiYield (s : Sched) : Sched :=
  let old := s.current
  if 0 ≤ (s.at_ old).tdNestCnt ∨ 0 ≤ (s.at_ old).idNestCnt then
    s
  else
    match s.links.first .runq with
    | none => s
    | some head =>
      if (s.at_ head).pri < (s.at_ old).pri then
        s
      else
        match s.links.remHead .runq with
        | none => s
        | some (next, links) =>
          let s := { s with links := links }.setTask next ({ · with state := .run })
          let s := s.setTask old ({ · with state := .ready })
          { runqAdd old s with current := next }

/-- `Croi_TaskExit`; `none` when the machine halts. -/
def croiTaskExit (s : Sched) : Option Sched :=
  let old := s.current
  let s := s.setTask old ({ · with state := .removed })
  dispatch { s with links := s.links.addTail .dead old }

def croiTaskSetSelfPriority (pri : Int) (s : Sched) : Sched :=
  s.setTask s.current ({ · with pri := clampPri pri })

def croiForbid (s : Sched) : Sched :=
  s.setTask s.current fun task =>
    { task with tdNestCnt := byte (task.tdNestCnt + 1) }

def croiPermit (s : Sched) : Sched :=
  s.setTask s.current fun task =>
    if 0 ≤ task.tdNestCnt then
      { task with tdNestCnt := byte (task.tdNestCnt - 1) }
    else
      task

def croiDisable (s : Sched) : Sched :=
  s.setTask s.current fun task =>
    { task with idNestCnt := byte (task.idNestCnt + 1) }

def croiEnable (s : Sched) : Sched :=
  s.setTask s.current fun task =>
    if 0 ≤ task.idNestCnt then
      { task with idNestCnt := byte (task.idNestCnt - 1) }
    else
      task

/-! ## Signals -/

def sigMask (bit : Nat) : Signals :=
  1#32 <<< bit

/-- `Croi_AllocSignal`; `none` is -1. -/
def croiAllocSignal (s : Sched) : Option Nat × Sched :=
  match (List.range' 16 16).find? fun bit =>
      (s.at_ s.current).sigAlloc &&& sigMask bit = 0 with
  | none => (none, s)
  | some bit =>
    (some bit, s.setTask s.current fun task =>
      { task with
        sigAlloc := task.sigAlloc ||| sigMask bit
        sigRecvd := task.sigRecvd &&& ~~~ sigMask bit })

def croiFreeSignal (sig : Int) (s : Sched) : Sched :=
  if sig < 0 ∨ 32 ≤ sig then
    s
  else
    s.setTask s.current fun task =>
      { task with
        sigAlloc := task.sigAlloc &&& ~~~ sigMask sig.toNat
        sigRecvd := task.sigRecvd &&& ~~~ sigMask sig.toNat }

def croiSignal (target : Nat) (mask : Signals) (s : Sched) : Sched :=
  if mask = 0 then
    s
  else
    let s := s.setTask target fun task =>
      { task with sigRecvd := task.sigRecvd ||| mask }
    if (s.at_ target).state = .wait ∧ (s.at_ target).sigRecvd &&& (s.at_ target).sigWait ≠ 0 then
      let s := { s with links := s.links.remove target }
      runqAdd target (s.setTask target ({ · with state := .ready, sigWait := 0 }))
    else
      s

def croiSetSignal (newSignals mask : Signals) (s : Sched) : Signals × Sched :=
  ((s.at_ s.current).sigRecvd &&& mask, s.setTask s.current fun task =>
      { task with
        sigRecvd := task.sigRecvd &&& ~~~ mask ||| newSignals &&& mask })

/-- How a round of `Croi_Wait` ends for its caller. -/
inductive Waited where
  | returned (hit : Signals)
  | blocked
  deriving DecidableEq

/--
One round of the loop of `Croi_Wait`: take the signals, or block and switch to
the next task.  `none` when the machine halts.
-/
def waitRound (mask : Signals) (s : Sched) : Option (Waited × Sched) :=
  let hit := (s.at_ s.current).sigRecvd &&& mask
  if hit ≠ 0 then
    some (.returned hit, s.setTask s.current fun task =>
      { task with
        sigRecvd := task.sigRecvd &&& ~~~ hit
        sigWait := 0
        inWait := none })
  else
    let old := s.current
    let s := s.setTask old ({ · with sigWait := mask, state := .wait, inWait := some mask })
    (dispatch { s with links := s.links.addTail .sleepers old }).map fun s => (.blocked, s)

/-- `Croi_Wait`, up to its return or its first switch. -/
def croiWait (mask : Signals) (s : Sched) : Option (Waited × Sched) :=
  if mask = 0 then
    some (.returned 0, s)
  else
    waitRound mask s

/-- `Croi_Wait` from where the current task was switched away in it. -/
def resumeWait (s : Sched) : Option (Waited × Sched) :=
  match (s.at_ s.current).inWait with
  | none => none
  | some mask => waitRound mask s

/-! ## Steps of the running task -/

/-- What the running task does next. -/
inductive SchedOp where
  | spawn (t : Nat) (pri : Int)
  | yield
  | wait (mask : Signals)
  | resume
  | signal (target : Nat) (mask : Signals)
  | setSignal (newSignals mask : Signals)
  | allocSignal
  | freeSignal (sig : Int)
  | exit
  | setSelfPriority (pri : Int)
  | forbid
  | permit
  | disable
  | enable
  deriving DecidableEq

/--
One step of the running task.  A task that was switched away inside
`Croi_Wait` goes on there.  `none` when the machine halts, and for what no
task can do: use a task object twice or signal something that is none.
-/
def SchedOp.step (op : SchedOp) (s : Sched) : Option Sched :=
  match (s.at_ s.current).inWait with
  | some _ =>
    match op with
    | .resume => (resumeWait s).map Prod.snd
    | _ => none
  | none =>
    match op with
    | .spawn t pri =>
      if s.tasks t = none then some (croiSpawn t pri s) else none
    | .yield => some (croiYield s)
    | .wait mask => (croiWait mask s).map Prod.snd
    | .resume => none
    | .signal target mask =>
      if s.tasks target = none then none
      else some (croiSignal target mask s)
    | .setSignal newSignals mask =>
      some (croiSetSignal newSignals mask s).2
    | .allocSignal => some (croiAllocSignal s).2
    | .freeSignal sig => some (croiFreeSignal sig s)
    | .exit => croiTaskExit s
    | .setSelfPriority pri => some (croiTaskSetSelfPriority pri s)
    | .forbid => some (croiForbid s)
    | .permit => some (croiPermit s)
    | .disable => some (croiDisable s)
    | .enable => some (croiEnable s)

end CaraOS.Croi
