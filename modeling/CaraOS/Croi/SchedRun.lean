import CaraOS.Croi.SchedInv

namespace CaraOS.Croi

/-!
# Runs of the scheduler

A run is a sequence of steps of whichever task is running.  A run that is
timed keeps, beside the state of the scheduler, the step at which each task
was last put into the run queue; the scheduler itself records no such thing.
-/

open List
open Intrusive (Links Family Holds)

variable {op : SchedOp}

section Step

variable {s after : Sched} {q : QueueId → List Nat}

/-- What a step comes to. -/
inductive Moves (op : SchedOp) (s : Sched) : Sched → Prop where
  | stay : Moves op s s
  | spawn {t : Nat} (isNew : s.tasks t = none) (pri : Int) :
      Moves op s (croiSpawn t pri s)
  | yield : Moves op s (croiYield s)
  | wait {given : Signals} {waited : Waited} {after : Sched}
      (round : waitRound given s = some (waited, after)) : Moves op s after
  | signal {target : Nat} {given : Signals}
      (isOp : op = .signal target given)
      (known : s.tasks target ≠ none)
      (nonzero : given ≠ 0) : Moves op s (croiSignal target given s)
  | own (free : (s.at_ s.current).inWait = none)
      (change : Task → Task)
      (state : ∀ task, (change task).state = task.state)
      (same : ∀ task, (change task).inWait = task.inWait) :
      Moves op s (s.setTask s.current change)
  | exit {after : Sched}
      (free : (s.at_ s.current).inWait = none)
      (left : croiTaskExit s = some after) : Moves op s after

theorem SchedOp.step_moves (stepped : op.step s = some after) : Moves op s after := by
  unfold SchedOp.step at stepped
  cases inside : (s.at_ s.current).inWait with
  | some mask =>
    rw [inside] at stepped
    cases op with
    | resume =>
      obtain ⟨⟨waited, next⟩, resumed, rfl⟩ := Option.map_eq_some_iff.mp stepped
      unfold resumeWait at resumed
      rw [inside] at resumed
      exact .wait resumed
    | _ => cases stepped
  | none =>
    rw [inside] at stepped
    cases op with
    | spawn t pri =>
      dsimp only at stepped
      split at stepped
      · rename_i isNew
        cases stepped
        exact .spawn isNew pri
      · cases stepped
    | yield =>
      cases stepped
      exact .yield
    | wait mask =>
      obtain ⟨⟨waited, next⟩, isWait, rfl⟩ := Option.map_eq_some_iff.mp stepped
      unfold croiWait at isWait
      split at isWait
      · obtain ⟨-, rfl⟩ := Prod.mk.inj (Option.some.inj isWait)
        exact .stay
      · exact .wait isWait
    | resume => cases stepped
    | signal target mask =>
      dsimp only at stepped
      split at stepped
      · cases stepped
      rename_i known
      obtain rfl := Option.some.inj stepped
      by_cases empty : mask = 0
      · unfold croiSignal
        rw [if_pos empty]
        exact .stay
      · exact .signal rfl known empty
    | allocSignal =>
      obtain rfl := Option.some.inj stepped
      unfold croiAllocSignal
      split
      · exact .stay
      · exact .own inside _ (fun _ => rfl) fun _ => rfl
    | freeSignal sig =>
      cases stepped
      unfold croiFreeSignal
      split
      · exact .stay
      · exact .own inside _ (fun _ => rfl) fun _ => rfl
    | exit => exact .exit inside stepped
    | permit =>
      obtain rfl := Option.some.inj stepped
      refine .own inside _ (fun task => ?_) fun task => ?_ <;> split <;> rfl
    | enable =>
      cases stepped
      refine .own inside _ (fun task => ?_) fun task => ?_ <;> split <;> rfl
    | _ =>
      obtain rfl := Option.some.inj stepped
      exact .own inside _ (fun _ => rfl) fun _ => rfl

theorem SchedOp.step_keeps (inv : s.Inv q) (stepped : op.step s = some after) :
    SchedStep s q after := by
  cases SchedOp.step_moves stepped with
  | stay => exact inv.refl
  | spawn isNew pri => exact inv.croiSpawn isNew pri
  | yield => exact inv.croiYield.1
  | wait round => exact inv.waitRound round
  | signal isOp known nonzero => exact (inv.croiSignal known nonzero).1
  | own free change state same => exact inv.setFree free change state same
  | exit free left => exact (inv.croiTaskExit free left).1

theorem schedInit_inv (boot : Nat) : (schedInit boot).Inv fun _ => [] := by
  have isBoot : (schedInit boot).tasks boot = some { taskInitNode 100 with state := .run } := by
    simp [schedInit]
  have isOther {t : Nat} (other : t ≠ boot) : (schedInit boot).tasks t = none := by
    simp [schedInit, other]
  have runq := Intrusive.holds_init (Links.none : Links Nat QueueId) .runq
  have sleepers := Intrusive.holds_init ((Links.none : Links Nat QueueId).init .runq) .sleepers
  have dead := Intrusive.holds_init
    (((Links.none : Links Nat QueueId).init .runq).init .sleepers) .dead
  refine ⟨⟨⟨fun l => ?_, nofun⟩, nofun, ?_, ?_, .nil, rfl⟩, ?_, ?_⟩
  · have keep {L : Links Nat QueueId} {l other : QueueId}
        (holds : Holds L l []) (different : l ≠ other) : Holds (L.init other) l [] :=
      holds.frame (Intrusive.init_within L other) fun query mine =>
        mine.apart different fun _ listed => absurd listed (by simp)
    cases l with
    | runq => exact keep (keep runq (by decide)) (by decide)
    | sleepers => exact keep sleepers (by decide)
    | dead => exact dead
  · intro t inside
    obtain rfl := Finset.mem_singleton.mp inside
    refine ⟨fun none => ?_, nofun⟩
    nomatch isBoot.symm.trans none
  · intro t known outside
    refine absurd (isOther fun same => outside ?_) known
    exact Finset.mem_singleton.mpr same
  · show ((schedInit boot).at_ boot).state = .run
    rw [Sched.at_eq isBoot]
  · intro t task found
    by_cases same : t = boot
    · subst same
      rw [isBoot] at found
      cases found
      exact ⟨nofun, nofun⟩
    · rw [isOther same] at found
      cases found

theorem Sched.Inv.queue_eq (inv : s.Inv q) (l : QueueId) : s.queue l = q l := by
  refine (inv.core.queues.holds l).nodes_eq ?_
  have size := inv.core.size
  unfold queued at size
  cases l <;> omega

end Step

/-! ## What a step leaves alone -/

/--
How a step leaves a task that is not the running one: nobody else puts it to
sleep, and who spares it the signals it waits for does not wake it.
-/
structure Undisturbed (mask : Signals) (spared : Prop)
    (before after : Task) : Prop where
  inWait : after.inWait = before.inWait
  fell : after.state = .wait → before.state = .wait
  stays : spared → before.inWait = some mask → before.state = .wait → after.state = .wait

theorem Undisturbed.refl (mask : Signals) (spared : Prop) (task : Task) :
    Undisturbed mask spared task task :=
  ⟨rfl, id, fun _ _ => id⟩

theorem Undisturbed.asleep_iff {mask : Signals} {before after : Task}
    (left : Undisturbed mask True before after)
    (inside : before.inWait = some mask) : after.state = .wait ↔ before.state = .wait :=
  ⟨left.fell, left.stays trivial inside⟩

theorem Undisturbed.picked {task : Task}
    (mask : Signals) (spared : Prop) (ready : task.state = .ready) :
    Undisturbed mask spared task { task with state := .run } := by
  refine ⟨rfl, nofun, fun _ _ asleep => ?_⟩
  nomatch ready.symm.trans asleep

theorem Undisturbed.signalled {task : Task} {mask given : Signals} {spared : Prop}
    (tuned : task.Tuned) (apart : spared → given &&& mask = 0) :
    Undisturbed mask spared task (task.signalled given) := by
  unfold Task.signalled
  split
  · rename_i wakes
    refine ⟨rfl, nofun, fun isSpared inside _ => ?_⟩
    obtain ⟨isMask, quiet⟩ := tuned.asleep wakes.1
    cases inside.symm.trans isMask
    refine absurd ?_ wakes.2
    rw [BitVec.and_comm, BitVec.and_or_distrib_left,
      BitVec.and_comm task.sigWait, BitVec.and_comm task.sigWait, quiet, apart isSpared]
    rfl
  · exact ⟨rfl, id, fun _ _ => id⟩

/-- The step sends the task none of these signals. -/
def SchedOp.Spares (op : SchedOp) (t : Nat) (mask : Signals) : Prop :=
  ∀ given, op = .signal t given → given &&& mask = 0

section Frame

variable {s after : Sched} {q : QueueId → List Nat} {t : Nat} {task : Task}
  {mask : Signals} {spared : Prop}

theorem Sched.setTask_spares (found : s.tasks t = some task) (change : Task → Task) :
    ∃ left, (s.setTask s.current change).tasks t = some left ∧
      (t ≠ s.current → Undisturbed mask spared task left) := by
  by_cases isMe : t = s.current
  · subst isMe
    rw [Sched.setTask_self, found]
    exact ⟨_, rfl, absurd rfl⟩
  · rw [Sched.setTask_other isMe, found]
    exact ⟨task, rfl, fun _ => .refl mask spared task⟩

theorem Sched.Inv.picked_spares (inv : s.Inv q) (found : s.tasks t = some task)
    {change : Task → Task} (listed : after.current ∈ q .runq)
    (tasks : after.tasks = ((s.setTask s.current change).setTask after.current
        ({ · with state := .run })).tasks) :
    ∃ left, after.tasks t = some left ∧ (t ≠ s.current → Undisturbed mask spared task left) := by
  rw [tasks]
  by_cases isNext : t = after.current
  · subst isNext
    obtain ⟨next, isFound, ready⟩ := inv.core.members listed
    cases found.symm.trans isFound
    rw [Sched.setTask_self, Sched.setTask_other (inv.ne_current listed), found]
    exact ⟨_, rfl, fun _ => .picked mask spared ready⟩
  · rw [Sched.setTask_other isNext]
    exact Sched.setTask_spares found change

theorem Sched.Inv.waitRound_spares {waited : Waited} {given : Signals}
    (inv : s.Inv q) (found : s.tasks t = some task)
    (round : CaraOS.Croi.waitRound given s = some (waited, after)) :
    ∃ left, after.tasks t = some left ∧
      (t ≠ s.current → Undisturbed mask spared task left) := by
  cases waited with
  | returned hit =>
    obtain ⟨-, -, -, rfl⟩ := inv.waitRound_returned round
    exact Sched.setTask_spares found _
  | blocked =>
    obtain ⟨-, listed, -, tasks⟩ := inv.waitRound_blocked round
    exact inv.picked_spares found listed tasks

theorem SchedOp.step_spares (inv : s.Inv q) (found : s.tasks t = some task)
    (stepped : op.step s = some after) (mask : Signals) :
    ∃ left, after.tasks t = some left ∧
      (t ≠ s.current → Undisturbed mask (op.Spares t mask) task left) := by
  cases SchedOp.step_moves stepped with
  | stay => exact ⟨task, found, fun _ => .refl _ _ task⟩
  | @spawn new isNew pri =>
    have different : t ≠ new := by
      rintro rfl
      nomatch found.symm.trans isNew
    refine ⟨task, ?_, fun _ => .refl _ _ task⟩
    unfold croiSpawn
    rw [runqAdd_tasks]
    dsimp only
    rw [Function.update_of_ne different, found]
  | yield =>
    rcases inv.croiYield.2 with ⟨-, tasks⟩ | ⟨listed, tasks⟩
    · exact ⟨task, by rw [tasks, found], fun _ => .refl _ _ task⟩
    · rw [Sched.setTask_comm (inv.ne_current listed)] at tasks
      exact inv.picked_spares found listed tasks
  | wait round => exact inv.waitRound_spares found round
  | @signal target given isOp known nonzero =>
    rw [(inv.croiSignal known nonzero).2.2]
    by_cases isTarget : t = target
    · subst isTarget
      rw [Sched.setTask_self, found]
      exact ⟨_, rfl, fun _ =>
        .signalled (inv.tuned found) fun spares => spares given isOp⟩
    · rw [Sched.setTask_other isTarget, found]
      exact ⟨task, rfl, fun _ => .refl _ _ task⟩
  | own free change => exact Sched.setTask_spares found change
  | exit free left =>
    obtain ⟨-, listed, tasks⟩ := inv.croiTaskExit free left
    exact inv.picked_spares found listed tasks

end Frame

/-! ## What must happen -/

section Progress

variable {s : Sched} {q : QueueId → List Nat}

theorem Core.dispatch_isSome {out : Finset Nat} {t : Nat}
    (core : Core s q out) (listed : t ∈ q .runq) :
    ∃ after, CaraOS.Croi.dispatch s = some after := by
  unfold CaraOS.Croi.dispatch
  rw [core.queues.remHead_eq]
  cases isQueue : q .runq with
  | nil =>
    rw [isQueue] at listed
    cases listed
  | cons first rest => exact ⟨_, rfl⟩

theorem Sched.Inv.waitRound_isSome {t : Nat}
    (inv : s.Inv q) (listed : t ∈ q .runq) (mask : Signals) :
    ∃ waited after, CaraOS.Croi.waitRound mask s = some (waited, after) := by
  obtain ⟨task, found, -⟩ := inv.known
  unfold CaraOS.Croi.waitRound
  dsimp only
  split
  · exact ⟨_, _, rfl⟩
  have core := (inv.core.setTask ({ · with sigWait := mask, state := .wait, inWait := some mask })
    (absurd (Finset.mem_singleton_self _))).addTail
      (l := .sleepers) (Finset.mem_singleton_self _)
      (by rw [Sched.setTask_at_self found]; rfl) (by decide)
  obtain ⟨after, switched⟩ := core.dispatch_isSome (by rwa [Function.update_of_ne (by decide)])
  exact ⟨.blocked, after, by rw [switched]; rfl⟩

end Progress

/-! ## Timed runs -/

/-- A state of the scheduler with the times of insertion. -/
structure Timed where
  sched : Sched
  time : Nat
  since : Nat → Nat

namespace Timed

/-- `Sched_Init`, at time 0. -/
def boot (t : Nat) : Timed where
  sched := schedInit t
  time := 0
  since := fun _ => 0

/-- One step; tasks that are new in the run queue get the present time. -/
def step (op : SchedOp) (r : Timed) : Option Timed :=
  (op.step r.sched).map fun after =>
    { sched := after
      time := r.time + 1
      since := fun t =>
        if t ∈ after.queue .runq ∧ t ∉ r.sched.queue .runq then r.time
        else r.since t }

/-- A finite sequence of steps. -/
def run : List SchedOp → Timed → Option Timed
  | [], r => some r
  | op :: rest, r => (r.step op).bind (run rest)

end Timed

/-- Where a task can be. -/
inductive Place where
  | current
  | on (l : QueueId)
  deriving DecidableEq

/-- The task is there. -/
def Sched.At (s : Sched) (t : Nat) : Place → Prop
  | .current => t = s.current
  | .on l => t ∈ s.queue l

/-- The `tc_State` that belongs to a place. -/
def Place.state : Place → TaskState
  | .current => .run
  | .on l => l.state

/-- `a` may stand before `b` in the run queue. -/
def Timed.Before (r : Timed) (a b : Nat) : Prop :=
  (r.sched.at_ b).pri < (r.sched.at_ a).pri ∨
    ((r.sched.at_ b).pri = (r.sched.at_ a).pri ∧ r.since a < r.since b)

/-- What holds of the scheduler between two steps. -/
structure Timed.Sound (r : Timed) : Prop where
  once : ∀ t, r.sched.tasks t ≠ none → ∃! place, r.sched.At t place
  state : ∀ t place, r.sched.At t place →
      ∃ task, r.sched.tasks t = some task ∧ task.state = place.state
  nodup : ∀ l, (r.sched.queue l).Nodup
  ordered : (r.sched.queue .runq).Pairwise r.Before
  asleep : ∀ t ∈ r.sched.queue .sleepers, (r.sched.at_ t).sigRecvd &&& (r.sched.at_ t).sigWait = 0

structure Timed.Inv (r : Timed) (q : QueueId → List Nat) : Prop where
  sched : r.sched.Inv q
  ordered : (q .runq).Pairwise r.Before
  past : ∀ t, t ∈ q .runq → r.since t < r.time

section Timed

variable {r after : Timed} {q : QueueId → List Nat}

theorem RunqAdded.mem {s : Sched} {t : Nat} {before queue : List Nat}
    (added : RunqAdded s t before queue) : t ∈ queue := by
  obtain ⟨xs, ys, -, rfl, -⟩ := added.place
  exact mem_append_right _ (mem_cons_self ..)

theorem RunqAdded.ordered {t : Nat} {before queue : List Nat}
    (added : RunqAdded r.sched t before queue) (ordered : before.Pairwise r.Before)
    (newest : ∀ a ∈ before, r.since a < r.since t) : queue.Pairwise r.Before := by
  obtain ⟨xs, ys, rfl, rfl, above, below⟩ := added.place
  rw [pairwise_append] at ordered ⊢
  obtain ⟨first, second, across⟩ := ordered
  refine ⟨first, pairwise_cons.mpr ⟨?_, second⟩, ?_⟩
  · intro b isB
    exact .inl (below b isB)
  · intro a isA b isB
    cases mem_cons.mp isB with
    | inl same =>
      subst same
      cases lt_or_eq_of_le (above a isA) with
      | inl lower => exact .inl lower
      | inr equal =>
        exact .inr ⟨equal, newest a (mem_append_left _ isA)⟩
    | inr later => exact across a isA b later

theorem Timed.Inv.step (inv : r.Inv q) (stepped : r.step op = some after) : ∃ q', after.Inv q' := by
  obtain ⟨next, isNext, rfl⟩ := Option.map_eq_some_iff.mp stepped
  have keeps := SchedOp.step_keeps inv.sched isNext
  obtain ⟨q', holds, move⟩ := keeps.next
  refine ⟨q', holds, ?_, ?_⟩
  all_goals
    have walked := holds.queue_eq .runq
    have walkedBefore := inv.sched.queue_eq .runq
  · rw [walked, walkedBefore]
    set timed : Timed := ⟨next, r.time + 1, fun t =>
      if t ∈ q' .runq ∧ t ∉ q .runq then r.time else r.since t⟩ with isTimed
    have old {t : Nat} (listed : t ∈ q .runq) : timed.since t = r.since t :=
      if_neg fun new => new.2 listed
    -- tasks that were queued before stand as they stood
    have stayed : (q .runq).Pairwise timed.Before := by
      refine inv.ordered.imp_of_mem fun {a b} isA isB before => ?_
      unfold Timed.Before at before ⊢
      rw [old isA, old isB]
      rwa [keeps.pri isA, keeps.pri isB]
    have stamp {t : Nat} (new : t ∉ q .runq) (listed : t ∈ q' .runq) : timed.since t = r.time :=
      if_pos ⟨listed, new⟩
    cases move with
    | kept same => rwa [same]
    | taken first isFirst =>
      rw [isFirst] at stayed
      exact (pairwise_cons.mp stayed).2
    | added t new place =>
      refine RunqAdded.ordered place stayed fun a isA => ?_
      rw [old isA, stamp new place.mem]
      exact inv.past a isA
    | swapped first t rest isFirst new place =>
      have behind {a : Nat} (isA : a ∈ rest) : a ∈ q .runq := by
        rw [isFirst]
        exact mem_cons_of_mem _ isA
      rw [isFirst] at stayed
      refine RunqAdded.ordered place (pairwise_cons.mp stayed).2 fun a isA => ?_
      rw [old (behind isA), stamp new place.mem]
      exact inv.past a (behind isA)
  · intro t listed
    rw [walked, walkedBefore]
    show (if _ then _ else _) < r.time + 1
    split
    · exact Nat.lt_succ_self _
    rename_i notNew
    have wasListed : t ∈ q .runq := by
      by_contra new
      exact notNew ⟨listed, new⟩
    exact Nat.lt_succ_of_lt (inv.past t wasListed)

theorem Timed.Inv.run {ops : List SchedOp} (inv : r.Inv q) (ran : r.run ops = some after) :
    ∃ q', after.Inv q' := by
  induction ops generalizing r q with
  | nil =>
    cases ran
    exact ⟨q, inv⟩
  | cons op rest ih =>
    obtain ⟨next, stepped, rest⟩ := Option.bind_eq_some_iff.mp ran
    obtain ⟨q', holds⟩ := inv.step stepped
    exact ih holds rest

theorem Timed.Inv.sound (inv : r.Inv q) : r.Sound := by
  have core := inv.sched.core
  have walked := inv.sched.queue_eq
  refine ⟨?_, ?_, ?_, ?_, ?_⟩
  · intro t known
    by_cases isCurrent : t = r.sched.current
    · refine ⟨.current, isCurrent, fun place there => ?_⟩
      cases place with
      | current => rfl
      | on l =>
        rw [Sched.At, walked, isCurrent] at there
        exact absurd there (inv.sched.unlisted l)
    · obtain ⟨l, listed⟩ := core.all known (by simpa using isCurrent)
      refine ⟨.on l, ?_, fun place there => ?_⟩
      · show t ∈ r.sched.queue l
        rwa [walked]
      · cases place with
        | current => exact absurd there isCurrent
        | on other =>
          rw [Sched.At, walked] at there
          rw [core.queues.apart there listed]
  · intro t place there
    cases place with
    | current =>
      obtain rfl : t = r.sched.current := there
      exact inv.sched.known
    | on l =>
      rw [Sched.At, walked] at there
      exact core.members there
  · intro l
    rw [walked]
    exact (core.queues.holds l).nodup
  · rw [walked]
    exact inv.ordered
  · intro t listed
    rw [walked] at listed
    obtain ⟨task, found, state⟩ := core.members listed
    rw [Sched.at_eq found]
    exact ((inv.sched.tuned found).asleep state).2

theorem Timed.boot_inv (t : Nat) : (Timed.boot t).Inv fun _ => [] where
  sched := schedInit_inv t
  ordered := .nil
  past := nofun

end Timed

/--
After `Sched_Init` and any run that does not halt, every task is in one place
and its state agrees, the run queue is in order of priority and, within one
priority, of insertion, and nobody sleeps through a signal.
-/
theorem sched_run_sound (boot : Nat) (ops : List SchedOp) (after : Timed)
    (ran : (Timed.boot boot).run ops = some after) : after.Sound := by
  obtain ⟨q, inv⟩ := (Timed.boot_inv boot).run ran
  exact inv.sound

/-- The boot task sleeps and the first of two equal tasks wakes it. -/
theorem sched_run_sound_woken :
    ∃ after,
      (Timed.boot 0).run [.spawn 1 5, .spawn 2 5, .wait 1, .signal 0 1] =
        some after ∧ after.Sound := by
  have runs : ((Timed.boot 0).run
      [.spawn 1 5, .spawn 2 5, .wait 1, .signal 0 1]).isSome = true := by
    decide
  obtain ⟨after, ran⟩ := Option.isSome_iff_exists.mp runs
  exact ⟨after, ran, sched_run_sound 0 _ after ran⟩

end CaraOS.Croi
