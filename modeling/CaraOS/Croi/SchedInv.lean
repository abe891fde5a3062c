import Mathlib.Data.Finset.Card
import Mathlib.Data.Finset.Insert
import Mathlib.Tactic.Common
import CaraOS.Croi.Sched

namespace CaraOS.Croi

/-!
# The queues of the scheduler

Between two steps of the running task every task is the current one or on
exactly one queue, and its state says which.  In the course of a step some
tasks are on no queue: `Core` describes the scheduler with a set of them.
-/

open List
open Function (update update_of_ne update_self)
open Intrusive (Links Ref Family Holds)

def QueueId.state : QueueId → TaskState
  | .runq => .ready
  | .sleepers => .wait
  | .dead => .removed

theorem QueueId.state_inj {l other : QueueId} (same : l.state = other.state) : l = other := by
  cases l <;> cases other <;> first | rfl | cases same

/-- The number of tasks on all queues. -/
def queued (q : QueueId → List Nat) : Nat :=
  (q .runq).length + (q .sleepers).length + (q .dead).length

/-- The queues hold these tasks, and the tasks `out` are on none of them. -/
structure Core (s : Sched) (q : QueueId → List Nat) (out : Finset Nat) :
    Prop where
  queues : Family s.links q
  members : ∀ {l t}, t ∈ q l → ∃ task, s.tasks t = some task ∧ task.state = l.state
  outside : ∀ {t}, t ∈ out → s.tasks t ≠ none ∧ ∀ l, t ∉ q l
  all : ∀ {t}, s.tasks t ≠ none → t ∉ out → ∃ l, t ∈ q l
  sorted : (q .runq).Pairwise fun a b => (s.at_ b).pri ≤ (s.at_ a).pri
  size : queued q + out.card = s.count

/-- What a task's signals say of its waiting. -/
structure Task.Tuned (task : Task) : Prop where
  asleep : task.state = .wait → task.inWait = some task.sigWait ∧ task.sigRecvd &&& task.sigWait = 0
  woken : ∀ {mask}, task.inWait = some mask → task.state ≠ .wait → task.sigRecvd &&& mask ≠ 0

/-- The scheduler between two steps. -/
structure Sched.Inv (s : Sched) (q : QueueId → List Nat) : Prop where
  core : Core s q {s.current}
  running : (s.at_ s.current).state = .run
  tuned : ∀ {t task}, s.tasks t = some task → task.Tuned

section Core

variable {s : Sched} {q : QueueId → List Nat} {out : Finset Nat} {t : Nat}
  {l : QueueId} {xs ys : List Nat} {change : Task → Task}

variable {task : Task} {query : Nat}

theorem Sched.at_eq (found : s.tasks t = some task) : s.at_ t = task := by
  rw [Sched.at_, found]
  rfl

@[simp] theorem Sched.setTask_current (s : Sched) (t : Nat) (change : Task → Task) :
    (s.setTask t change).current = s.current :=
  rfl

@[simp] theorem Sched.setTask_self (s : Sched) (t : Nat) (change : Task → Task) :
    (s.setTask t change).tasks t = (s.tasks t).map change :=
  update_self ..

theorem Sched.setTask_other (other : query ≠ t) (change : Task → Task) :
    (s.setTask t change).tasks query = s.tasks query :=
  update_of_ne other ..

theorem Sched.setTask_at_other (other : query ≠ t) (change : Task → Task) :
    (s.setTask t change).at_ query = s.at_ query := by
  unfold Sched.at_
  rw [Sched.setTask_other other]

theorem Sched.setTask_at_self (found : s.tasks t = some task) (change : Task → Task) :
    (s.setTask t change).at_ t = change task := by
  unfold Sched.at_
  rw [Sched.setTask_self, found]
  rfl

theorem Sched.setTask_twice {other : Sched} {first second whole : Task → Task}
    (found : s.tasks t = some task) (before : other.tasks = (s.setTask t first).tasks)
    (same : second (first task) = whole task) :
    (other.setTask t second).tasks = (s.setTask t whole).tasks := by
  simp only [Sched.setTask] at before ⊢
  rw [before, found, update_self, Function.update_idem]
  exact congrArg (fun task => update s.tasks t (some task)) same

theorem Sched.setTask_congr {whole : Task → Task} (found : s.tasks t = some task)
    (same : change task = whole task) : (s.setTask t change).tasks = (s.setTask t whole).tasks := by
  simp only [Sched.setTask, found]
  exact congrArg (fun task => update s.tasks t (some task)) same

theorem Sched.setTask_comm {other : Nat} {before : Task → Task} (different : other ≠ t) :
    ((s.setTask other before).setTask t change).tasks =
      ((s.setTask t change).setTask other before).tasks := by
  unfold Sched.setTask
  dsimp only
  rw [update_of_ne different.symm, update_of_ne different]
  exact Function.update_comm different ..

theorem Sched.setTask_none_iff :
    (s.setTask t change).tasks query = none ↔ s.tasks query = none := by
  by_cases other : query = t
  · subst other
    rw [Sched.setTask_self, Option.map_eq_none_iff]
  · rw [Sched.setTask_other other]

theorem Core.setTask (core : Core s q out) (change : Task → Task)
    (same : t ∉ out → ∀ task, (change task).state = task.state ∧ (change task).pri = task.pri) :
    Core (s.setTask t change) q out where
  queues := core.queues
  members := by
    intro l query listed
    obtain ⟨task, found, state⟩ := core.members listed
    by_cases other : query = t
    · subst other
      have inside : query ∉ out := fun isOut =>
        (core.outside isOut).2 l listed
      refine ⟨change task, ?_, (same inside task).1.trans state⟩
      rw [Sched.setTask_self, found]
      rfl
    · rw [Sched.setTask_other other]
      exact ⟨task, found, state⟩
  outside := by
    intro query isOut
    rw [ne_eq, Sched.setTask_none_iff]
    exact core.outside isOut
  all := by
    intro query known
    rw [ne_eq, Sched.setTask_none_iff] at known
    exact core.all known
  sorted := by
    have samePri {query : Nat} (listed : query ∈ q .runq) :
        ((s.setTask t change).at_ query).pri = (s.at_ query).pri := by
      by_cases other : query = t
      · subst other
        obtain ⟨task, found, -⟩ := core.members listed
        have inside : query ∉ out := fun isOut =>
          (core.outside isOut).2 .runq listed
        rw [Sched.setTask_at_self found, Sched.at_eq found]
        exact (same inside task).2
      · rw [Sched.setTask_at_other other]
    refine core.sorted.imp_of_mem ?_
    intro a b isA isB ordered
    rwa [samePri isA, samePri isB]
  size := core.size

theorem queued_update (q : QueueId → List Nat) (l : QueueId) (xs : List Nat) :
    queued (update q l xs) + (q l).length = queued q + xs.length := by
  unfold queued
  cases l <;> simp <;> omega

theorem mem_insert_iff {other : QueueId} (split : q l = xs ++ ys) :
    query ∈ update q l (xs ++ t :: ys) other ↔ query ∈ q other ∨ (query = t ∧ other = l) := by
  by_cases same : other = l
  · subst same
    simp only [update_self, split, mem_append, mem_cons, and_true]
    tauto
  · simp [same]

/-- A task taken off its queue is out. -/
theorem Core.dequeue (core : Core s q out) (split : q l = xs ++ t :: ys) :
    Core { s with links := s.links.remove t } (update q l (xs ++ ys)) (insert t out) := by
  have listed : t ∈ q l := by simp [split]
  have notOut : t ∉ out := fun isOut => (core.outside isOut).2 l listed
  have nodup : (xs ++ t :: ys).Nodup := split ▸ (core.queues.holds l).nodup
  have whole {other : QueueId} {query : Nat} :
      query ∈ q other ↔ query ∈ update q l (xs ++ ys) other ∨ (query = t ∧ other = l) := by
    rw [← mem_insert_iff (update_self ..), Function.update_idem, ← split, Function.update_eq_self]
  have gone (other : QueueId) : t ∉ update q l (xs ++ ys) other := by
    intro isListed
    by_cases same : other = l
    · rw [same, update_self] at isListed
      exact (nodup_middle.mp nodup).notMem isListed
    · rw [update_of_ne same] at isListed
      exact same (core.queues.apart isListed listed)
  refine ⟨core.queues.remove split, ?_, ?_, ?_, ?_, ?_⟩
  · intro other query isListed
    exact core.members (whole.mpr (.inl isListed))
  · intro query isOut
    rcases Finset.mem_insert.mp isOut with rfl | before
    · obtain ⟨task, found, -⟩ := core.members listed
      refine ⟨fun none => ?_, gone⟩
      nomatch found.symm.trans none
    · obtain ⟨known, unlisted⟩ := core.outside before
      exact ⟨known, fun other isListed => unlisted other (whole.mpr (.inl isListed))⟩
  · intro query known stillIn
    rw [Finset.mem_insert, not_or] at stillIn
    obtain ⟨other, isListed⟩ := core.all known stillIn.2
    exact ⟨other, (whole.mp isListed).resolve_right fun same => stillIn.1 same.1⟩
  · by_cases isRunq : l = .runq
    · subst isRunq
      refine core.sorted.sublist ?_
      rw [split]
      exact List.Sublist.append_left (sublist_cons_self t ys) xs
    · rw [update_of_ne (Ne.symm isRunq)]
      exact core.sorted
  · have card := Finset.card_insert_of_notMem notOut
    have size := core.size
    have lengths := queued_update q l (xs ++ ys)
    rw [split] at lengths
    simp only [length_append, length_cons] at lengths
    show _ = s.count
    omega

/-- A task that is out joins the queue of its state. -/
theorem Core.enqueue {links : Links Nat QueueId}
    (core : Core s q out) (split : q l = xs ++ ys) (isOut : t ∈ out)
    (state : (s.at_ t).state = l.state) (linked : Family links (update q l (xs ++ t :: ys)))
    (sorted : l = .runq → (xs ++ t :: ys).Pairwise fun a b => (s.at_ b).pri ≤ (s.at_ a).pri) :
    Core { s with links := links } (update q l (xs ++ t :: ys)) (out.erase t) := by
  obtain ⟨known, unlisted⟩ := core.outside isOut
  refine ⟨linked, ?_, ?_, ?_, ?_, ?_⟩
  · intro other query isListed
    rcases (mem_insert_iff split).mp isListed with before | ⟨rfl, rfl⟩
    · exact core.members before
    · obtain ⟨task, found⟩ := Option.ne_none_iff_exists'.mp known
      exact ⟨task, found, by rw [← state, Sched.at_eq found]⟩
  · intro query stillOut
    obtain ⟨different, before⟩ := Finset.mem_erase.mp stillOut
    obtain ⟨isKnown, isUnlisted⟩ := core.outside before
    refine ⟨isKnown, fun other isListed => ?_⟩
    rcases (mem_insert_iff split).mp isListed with earlier | ⟨same, -⟩
    · exact isUnlisted other earlier
    · exact different same
  · intro query isKnown nowIn
    by_cases same : query = t
    · subst same
      exact ⟨l, (mem_insert_iff split).mpr (.inr ⟨rfl, rfl⟩)⟩
    · have wasIn : query ∉ out := fun isOut =>
        nowIn (Finset.mem_erase.mpr ⟨same, isOut⟩)
      obtain ⟨other, isListed⟩ := core.all isKnown wasIn
      exact ⟨other, (mem_insert_iff split).mpr (.inl isListed)⟩
  · by_cases isRunq : l = .runq
    · subst isRunq
      exact sorted rfl
    · rw [update_of_ne (Ne.symm isRunq)]
      exact core.sorted
  · have card := Finset.card_erase_of_mem isOut
    have positive := Finset.card_pos.mpr ⟨t, isOut⟩
    have size := core.size
    have lengths := queued_update q l (xs ++ t :: ys)
    rw [split] at lengths
    simp only [length_append, length_cons] at lengths
    show _ = s.count
    omega

theorem Core.addTail (core : Core s q out) (isOut : t ∈ out) (state : (s.at_ t).state = l.state)
    (notRunq : l ≠ .runq) :
    Core { s with links := s.links.addTail l t } (update q l (q l ++ [t])) (out.erase t) :=
  core.enqueue (append_nil _).symm isOut state (core.queues.addTail (core.outside isOut).2)
    fun isRunq => absurd isRunq notRunq

/-! ## The run queue -/

theorem runqFind_eq {pri : Int} {fuel : Nat} {a : Ref Nat QueueId}
    (linked : Intrusive.Linked s.links a xs (.tail .runq))
    (ending : s.links.succ (.tail .runq) = .null) (enough : xs.length ≤ fuel) :
    runqFind s pri fuel (s.links.succ a) =
      xs.find? fun p => (s.at_ p).pri < pri := by
  induction xs generalizing a fuel with
  | nil =>
    rw [linked.1]
    cases fuel with
    | zero => rfl
    | succ fuel =>
      unfold runqFind
      rw [if_pos ending]
      rfl
  | cons x xs ih =>
    obtain ⟨forward, -, rest⟩ := linked
    cases fuel with
    | zero => cases enough
    | succ fuel =>
      have goesOn : s.links.succ (.node x) ≠ .null := by
        rw [rest.succ_first]
        cases xs <;> nofun
      rw [forward]
      unfold runqFind
      rw [if_neg goesOn, ih rest (Nat.le_of_succ_le_succ enough)]
      by_cases lower : (s.at_ x).pri < pri <;> simp [lower]

/-- The task goes behind those of its own priority and above. -/
structure RunqAdded (s : Sched) (t : Nat) (before after : List Nat) :
    Prop where
  place : ∃ xs ys, before = xs ++ ys ∧ after = xs ++ t :: ys ∧
      (∀ a ∈ xs, (s.at_ t).pri ≤ (s.at_ a).pri) ∧
      ∀ b ∈ ys, (s.at_ b).pri < (s.at_ t).pri

/-- A ready task enters behind its equals. -/
theorem Core.runqAdd (core : Core s q out) (isOut : t ∈ out) (state : (s.at_ t).state = .ready) :
    ∃ after, RunqAdded s t (q .runq) after ∧
      Core (runqAdd t s) (update q .runq after) (out.erase t) := by
  have holds := core.queues.holds .runq
  have enough : (q .runq).length ≤ s.count := by
    have size := core.size
    unfold queued at size
    omega
  unfold CaraOS.Croi.runqAdd
  rw [runqFind_eq holds.linked holds.ending enough]
  have unlisted := (core.outside isOut).2
  -- the tasks passed over are not below the new one
  have passed {xs ys : List Nat} (split : q .runq = xs ++ ys)
      (above : ∀ a ∈ xs, ¬ (s.at_ a).pri < (s.at_ t).pri)
      (below : ∀ b ∈ ys, (s.at_ b).pri < (s.at_ t).pri) :
      RunqAdded s t (q .runq) (xs ++ t :: ys) ∧ (xs ++ t :: ys).Pairwise
          fun a b => (s.at_ b).pri ≤ (s.at_ a).pri := by
    refine ⟨⟨xs, ys, split, rfl, fun a listed => not_lt.mp (above a listed), below⟩, ?_⟩
    have sorted := core.sorted
    rw [split, pairwise_append] at sorted
    rw [pairwise_append, pairwise_cons]
    refine ⟨sorted.1, ⟨fun b listed => le_of_lt (below b listed), sorted.2.1⟩, ?_⟩
    intro a isA b isB
    rcases mem_cons.mp isB with rfl | later
    · exact not_lt.mp (above a isA)
    · exact sorted.2.2 a isA b later
  cases found : (q .runq).find? fun p => (s.at_ p).pri < (s.at_ t).pri with
  | none =>
    have above := List.find?_eq_none.mp found
    obtain ⟨added, sorted⟩ := passed (append_nil _).symm
      (fun a listed => by simpa using above a listed) (fun b listed => by cases listed)
    exact ⟨_, added, core.enqueue (append_nil _).symm isOut state
      (core.queues.addTail unlisted) fun _ => sorted⟩
  | some p =>
    obtain ⟨lower, xs, ys, split, above⟩ := List.find?_eq_some_iff_append.mp found
    have sortedBefore := core.sorted
    rw [split, pairwise_append, pairwise_cons] at sortedBefore
    obtain ⟨added, sorted⟩ := passed split (fun a listed => by simpa using above a listed)
      (fun b listed => by
        rcases mem_cons.mp listed with rfl | later
        · simpa using lower
        · exact lt_of_le_of_lt (sortedBefore.2.1.1 b later) (by simpa using lower))
    exact ⟨_, added, core.enqueue split isOut state
      (core.queues.insertBefore split unlisted) fun _ => sorted⟩

/-- The head of the run queue runs next. -/
theorem Core.dispatch {after : Sched} (core : Core s q ∅) (switched : dispatch s = some after) :
    ∃ rest, q .runq = after.current :: rest ∧
      Core after (update q .runq rest) {after.current} ∧
      (after.at_ after.current).state = .run ∧
      after.tasks = (s.setTask after.current
        ({ · with state := .run })).tasks := by
  unfold CaraOS.Croi.dispatch at switched
  rw [core.queues.remHead_eq] at switched
  cases isQueue : q .runq with
  | nil =>
    rw [isQueue] at switched
    cases switched
  | cons next rest =>
    rw [isQueue] at switched
    cases switched
    obtain ⟨task, found, -⟩ := core.members (show next ∈ q .runq by simp [isQueue])
    have free := @Core.dequeue s q ∅ next .runq [] rest core isQueue
    refine ⟨rest, rfl, ?_, ?_, rfl⟩
    · have set := free.setTask ({ · with state := .run })
        (absurd (Finset.mem_insert_self ..))
      exact { set with }
    · exact congrArg Task.state (Sched.setTask_at_self found _)

theorem Core.ne_new (core : Core s q out) (new : s.tasks t = none) (listed : query ∈ q l) :
    query ≠ t := by
  rintro rfl
  obtain ⟨task, found, -⟩ := core.members listed
  nomatch found.symm.trans new

theorem Core.add (core : Core s q out) (new : s.tasks t = none) (task : Task) :
    Core
      { s with
        tasks := update s.tasks t (some task)
        count := s.count + 1 } q (insert t out) := by
  have known {query : Nat} (isKnown : s.tasks query ≠ none) : query ≠ t := by
    rintro rfl
    exact isKnown new
  have listed {l : QueueId} {query : Nat} : query ∈ q l → query ≠ t := core.ne_new new
  have notOut : t ∉ out := fun isOut => (core.outside isOut).1 new
  have sameTask {query : Nat} (other : query ≠ t) :
      update s.tasks t (some task) query = s.tasks query :=
    update_of_ne other ..
  refine ⟨core.queues, ?_, ?_, ?_, ?_, ?_⟩
  · intro l query isListed
    dsimp only
    rw [sameTask (listed isListed)]
    exact core.members isListed
  · intro query isOut
    rcases Finset.mem_insert.mp isOut with rfl | before
    · refine ⟨?_, fun l isListed => listed isListed rfl⟩
      dsimp only
      rw [update_self]
      nofun
    · obtain ⟨isKnown, unlisted⟩ := core.outside before
      refine ⟨?_, unlisted⟩
      dsimp only
      rwa [sameTask (known isKnown)]
  · intro query isKnown isIn
    rw [Finset.mem_insert, not_or] at isIn
    dsimp only at isKnown
    rw [sameTask isIn.1] at isKnown
    exact core.all isKnown isIn.2
  · refine core.sorted.imp_of_mem ?_
    intro a b isA isB ordered
    unfold Sched.at_ at ordered ⊢
    dsimp only
    rwa [sameTask (listed isA), sameTask (listed isB)]
  · have card := Finset.card_insert_of_notMem notOut
    have size := core.size
    show _ = s.count + 1
    omega

@[simp] theorem runqAdd_tasks (t : Nat) (s : Sched) : (runqAdd t s).tasks = s.tasks := by
  unfold CaraOS.Croi.runqAdd
  split <;> rfl

@[simp] theorem runqAdd_current (t : Nat) (s : Sched) : (runqAdd t s).current = s.current := by
  unfold CaraOS.Croi.runqAdd
  split <;> rfl

@[simp] theorem runqAdd_at (t query : Nat) (s : Sched) : (runqAdd t s).at_ query = s.at_ query := by
  unfold Sched.at_
  rw [runqAdd_tasks]

theorem RunqAdded.runqAdd {before queue : List Nat} (added : RunqAdded s t before queue) :
    RunqAdded (runqAdd t s) t before queue := by
  obtain ⟨xs, ys, split, isQueue, above, below⟩ := added.place
  exact ⟨xs, ys, split, isQueue, by simpa using above, by simpa using below⟩

end Core

/-! ## Steps -/

theorem and_or_ne_zero {recvd more mask : Signals} (hit : recvd &&& mask ≠ 0) :
    (recvd ||| more) &&& mask ≠ 0 := by
  intro zero
  apply hit
  ext i bound
  have bit := congrArg (BitVec.getLsbD · i) zero
  simp only [BitVec.getLsbD_and, BitVec.getLsbD_or] at bit
  cases isSet : recvd.getLsbD i <;> simp_all

def Task.signalled (mask : Signals) (task : Task) : Task :=
  if task.state = .wait ∧ (task.sigRecvd ||| mask) &&& task.sigWait ≠ 0 then
    { task with
      sigRecvd := task.sigRecvd ||| mask
      state := .ready
      sigWait := 0 }
  else
    { task with sigRecvd := task.sigRecvd ||| mask }

theorem Task.Tuned.signalled {task : Task} (tuned : task.Tuned) (mask : Signals) :
    (task.signalled mask).Tuned := by
  unfold Task.signalled
  split
  · rename_i wakes
    refine ⟨nofun, fun inside _ => ?_⟩
    rw [(tuned.asleep wakes.1).1] at inside
    cases inside
    exact wakes.2
  · rename_i sleeps
    rw [not_and, not_not] at sleeps
    refine ⟨fun asleep => ⟨(tuned.asleep asleep).1, sleeps asleep⟩, ?_⟩
    intro other inside awake
    exact and_or_ne_zero (tuned.woken inside awake)

theorem Task.Tuned.resumed {task : Task} {state : TaskState} (tuned : task.Tuned)
    (awake : task.state ≠ .wait) (stays : state ≠ .wait) : Task.Tuned { task with state := state } :=
  ⟨fun asleep => absurd asleep stays, fun inside _ => tuned.woken inside awake⟩

theorem Sched.tuned_setTask {s : Sched} {t query : Nat} {task : Task} {change : Task → Task}
    (tuned : ∀ {t task}, s.tasks t = some task → task.Tuned)
    (here : ∀ task, s.tasks t = some task → (change task).Tuned)
    (found : (s.setTask t change).tasks query = some task) : task.Tuned := by
  by_cases same : query = t
  · rw [same, Sched.setTask_self] at found
    obtain ⟨old, isOld, rfl⟩ := Option.map_eq_some_iff.mp found
    exact here old isOld
  · rw [Sched.setTask_other same] at found
    exact tuned found

/-- What a step does to the run queue. -/
inductive RunqMove (s : Sched) (before after : List Nat) : Prop where
  | kept (same : after = before)
  | taken (next : Nat) (first : before = next :: after)
  | added (t : Nat) (new : t ∉ before) (place : RunqAdded s t before after)
  | swapped (next t : Nat) (rest : List Nat) (first : before = next :: rest)
      (new : t ∉ before) (place : RunqAdded s t rest after)

/-- A step from one state between steps to another. -/
structure SchedStep (s : Sched) (q : QueueId → List Nat) (after : Sched) :
    Prop where
  next : ∃ q', after.Inv q' ∧ RunqMove after (q .runq) (q' .runq)
  pri : ∀ {t}, t ∈ q .runq → (after.at_ t).pri = (s.at_ t).pri

/-- The running task has made way for `next` and is queued again. -/
structure Switched (s : Sched) (next : Nat) (rest : List Nat) (after : Sched) :
    Prop where
  current : after.current = next
  tasks : after.tasks = ((s.setTask next ({ · with state := .run })).setTask s.current
      ({ · with state := .ready })).tasks
  queue : ∃ q', after.Inv q' ∧ RunqAdded after s.current rest (q' .runq)

variable {rest : List Nat}

section Steps

variable {s after : Sched} {q : QueueId → List Nat} {t : Nat}

theorem Sched.setTask_at_state (s : Sched) (t query : Nat) (new : TaskState) :
    ∃ state, (s.setTask t ({ · with state := new })).at_ query =
      { s.at_ query with state := state } := by
  by_cases same : query = t
  · subst same
    unfold Sched.at_
    rw [Sched.setTask_self]
    cases s.tasks query with
    | none => exact ⟨.invalid, rfl⟩
    | some task => exact ⟨new, rfl⟩
  · rw [Sched.setTask_at_other same]
    exact ⟨_, rfl⟩

theorem Switched.at_ {next : Nat} (switched : Switched s next rest after) (query : Nat) :
    ∃ state, after.at_ query = { s.at_ query with state := state } := by
  obtain ⟨state, isNow⟩ := Sched.setTask_at_state
    (s.setTask next ({ · with state := .run })) s.current query .ready
  obtain ⟨other, isOther⟩ := s.setTask_at_state next query .run
  rw [isOther] at isNow
  refine ⟨state, ?_⟩
  unfold Sched.at_ at isNow ⊢
  rw [switched.tasks, isNow]

namespace Sched.Inv

section

variable (inv : s.Inv q)
include inv

theorem known : ∃ task, s.tasks s.current = some task ∧ task.state = .run := by
  have exists_ := (inv.core.outside (Finset.mem_singleton_self _)).1
  obtain ⟨task, found⟩ := Option.ne_none_iff_exists'.mp exists_
  exact ⟨task, found, by rw [← inv.running, Sched.at_eq found]⟩

theorem unlisted (l : QueueId) : s.current ∉ q l :=
  (inv.core.outside (Finset.mem_singleton_self _)).2 l

theorem ne_current {l : QueueId} (listed : t ∈ q l) : t ≠ s.current := by
  rintro rfl
  exact inv.unlisted l listed

theorem mem_of_state {l : QueueId} {task : Task} (found : s.tasks t = some task)
    (state : task.state = l.state) : t ∈ q l := by
  have notCurrent : t ≠ s.current := by
    rintro rfl
    have running := inv.running
    rw [Sched.at_eq found, state] at running
    cases l <;> cases running
  obtain ⟨other, isListed⟩ := inv.core.all (by rw [found]; nofun) (by simpa using notCurrent)
  obtain ⟨same, isSame, isState⟩ := inv.core.members isListed
  cases found.symm.trans isSame
  rwa [← QueueId.state_inj (isState.symm.trans state)]

theorem setCurrent (change : Task → Task) (state : ∀ task, (change task).state = task.state)
    (tuned : ∀ task, s.tasks s.current = some task → (change task).Tuned) :
    SchedStep s q (s.setTask s.current change) := by
  obtain ⟨task, found, isRun⟩ := inv.known
  refine ⟨⟨q, ⟨?_, ?_, ?_⟩, .kept rfl⟩, ?_⟩
  · exact inv.core.setTask change (absurd (Finset.mem_singleton_self _))
  · rwa [Sched.setTask_current, Sched.setTask_at_self found, state]
  · exact Sched.tuned_setTask inv.tuned tuned
  · intro query listed
    rw [Sched.setTask_at_other (inv.ne_current listed)]

end

theorem Tuned_of_running {task : Task} (running : task.state = .run) (free : task.inWait = none) :
    task.Tuned where
  asleep := fun asleep => by
    rw [running] at asleep
    cases asleep
  woken := fun inside => by
    rw [free] at inside
    cases inside

theorem setFree (inv : s.Inv q) (free : (s.at_ s.current).inWait = none)
    (change : Task → Task) (state : ∀ task, (change task).state = task.state)
    (same : ∀ task, (change task).inWait = task.inWait) :
    SchedStep s q (s.setTask s.current change) := by
  refine inv.setCurrent change state fun task found => ?_
  obtain ⟨running, isRunning, isRun⟩ := inv.known
  cases found.symm.trans isRunning
  rw [Sched.at_eq found] at free
  exact Tuned_of_running ((state task).trans isRun) ((same task).trans free)

/-- A new task is ready. -/
theorem croiSpawn (inv : s.Inv q) (new : s.tasks t = none) (pri : Int) :
    SchedStep s q (croiSpawn t pri s) := by
  unfold CaraOS.Croi.croiSpawn
  have core := inv.core.add new { taskInitNode (clampPri pri) with state := .ready }
  obtain ⟨task, found, isRun⟩ := inv.known
  have notCurrent : s.current ≠ t := by
    rintro rfl
    nomatch found.symm.trans new
  have listed {query : Nat} : query ∈ q .runq → query ≠ t := inv.core.ne_new new
  have ready : (Sched.at_ { s with
        tasks := update s.tasks t (some { taskInitNode (clampPri pri) with state := .ready })
        count := s.count + 1 } t).state = .ready := by
    unfold Sched.at_
    dsimp only
    rw [update_self]
    rfl
  obtain ⟨queue, added, joined⟩ := core.runqAdd (Finset.mem_insert_self ..) ready
  rw [Finset.erase_insert (by simpa using notCurrent.symm)] at joined
  refine ⟨⟨update q .runq queue, ⟨?_, ?_, ?_⟩, ?_⟩, ?_⟩
  · rwa [runqAdd_current]
  · rw [runqAdd_current, runqAdd_at]
    unfold Sched.at_
    dsimp only
    rwa [update_of_ne notCurrent, found]
  · intro query other isOther
    rw [runqAdd_tasks] at isOther
    dsimp only at isOther
    by_cases same : query = t
    · subst same
      rw [update_self] at isOther
      cases isOther
      exact ⟨nofun, nofun⟩
    · rw [update_of_ne same] at isOther
      exact inv.tuned isOther
  · exact .added t (fun isListed => listed isListed rfl) added.runqAdd
  · intro query isListed
    rw [runqAdd_at]
    unfold Sched.at_
    dsimp only
    rw [update_of_ne (listed isListed)]

/-- The running task waits on a list, and the next one runs. -/
theorem park {l : QueueId} (inv : s.Inv q) (notRunq : l ≠ .runq) (change : Task → Task)
    (state : ∀ task, (change task).state = l.state)
    (tuned : ∀ task, s.tasks s.current = some task → (change task).Tuned)
    (switched : dispatch { s.setTask s.current change with
          links := s.links.addTail l s.current } = some after) :
    SchedStep s q after ∧ after.current ∈ q .runq ∧
      after.tasks = ((s.setTask s.current change).setTask after.current
        ({ · with state := .run })).tasks := by
  obtain ⟨task, found, isRun⟩ := inv.known
  have core := (inv.core.setTask change (absurd (Finset.mem_singleton_self _))).addTail (Finset.mem_singleton_self _)
      (by rw [Sched.setTask_at_self found]; exact state task) notRunq
  rw [Finset.erase_singleton] at core
  obtain ⟨rest, first, current, running, tasks⟩ := core.dispatch switched
  rw [update_of_ne (Ne.symm notRunq)] at first
  have isListed : after.current ∈ q .runq := by simp [first]
  have different := inv.ne_current isListed
  obtain ⟨next, isNext, ready⟩ := inv.core.members isListed
  have sameTasks : after.tasks = ((s.setTask s.current change).setTask
      after.current ({ · with state := .run })).tasks := tasks
  refine ⟨⟨⟨_, ⟨current, running, ?_⟩, ?_⟩, ?_⟩, isListed, sameTasks⟩
  · intro query other isOther
    rw [sameTasks] at isOther
    refine Sched.tuned_setTask (Sched.tuned_setTask inv.tuned tuned) (fun task found => ?_) isOther
    rw [Sched.setTask_other different] at found
    cases isNext.symm.trans found
    exact (inv.tuned found).resumed (by rw [ready]; nofun) nofun
  · exact .taken _ first
  · intro query listed
    unfold Sched.at_
    rw [sameTasks]
    by_cases isNow : query = after.current
    · subst isNow
      rw [Sched.setTask_self, Sched.setTask_other different, isNext]
      rfl
    · rw [Sched.setTask_other isNow, Sched.setTask_other (inv.ne_current listed)]

theorem croiTaskExit (inv : s.Inv q) (free : (s.at_ s.current).inWait = none)
    (exited : croiTaskExit s = some after) :
    SchedStep s q after ∧ after.current ∈ q .runq ∧
      after.tasks = ((s.setTask s.current
        ({ · with state := .removed })).setTask after.current
          ({ · with state := .run })).tasks := by
  refine inv.park (by decide) _ (fun _ => rfl) ?_ exited
  intro task found
  rw [Sched.at_eq found] at free
  refine ⟨nofun, fun inside => ?_⟩
  nomatch free.symm.trans inside

variable {mask : Signals}

variable (inv : s.Inv q)
include inv

/-- A wait blocks while none of its signals is there. -/
theorem waitRound_blocked (waited : waitRound mask s = some (.blocked, after)) :
    SchedStep s q after ∧ after.current ∈ q .runq ∧
      (s.at_ s.current).sigRecvd &&& mask = 0 ∧
      after.tasks = ((s.setTask s.current
        ({ · with sigWait := mask, state := .wait, inWait := some mask
           })).setTask after.current ({ · with state := .run })).tasks := by
  unfold waitRound at waited
  dsimp only at waited
  split at waited
  · cases waited
  rename_i noHit
  rw [not_not] at noHit
  obtain ⟨next, switched, same⟩ := Option.map_eq_some_iff.mp waited
  obtain rfl : next = after := congrArg Prod.snd same
  obtain ⟨step, listed, tasks⟩ := inv.park (by decide) _ (fun _ => rfl) (fun task found => by
      rw [Sched.at_eq found] at noHit
      exact ⟨fun _ => ⟨rfl, noHit⟩, fun _ awake => absurd rfl awake⟩)
    switched
  exact ⟨step, listed, noHit, tasks⟩

/-- A wait returns the signals it consumed. -/
theorem waitRound_returned {hit : Signals}
    (waited : waitRound mask s = some (.returned hit, after)) :
    SchedStep s q after ∧ hit = (s.at_ s.current).sigRecvd &&& mask ∧
      hit ≠ 0 ∧
      after = s.setTask s.current fun task =>
        { task with
          sigRecvd := task.sigRecvd &&& ~~~ hit
          sigWait := 0
          inWait := none } := by
  unfold waitRound at waited
  dsimp only at waited
  split at waited
  · rename_i isHit
    obtain ⟨same, rfl⟩ := Prod.mk.inj (Option.some.inj waited)
    obtain rfl := Waited.returned.inj same
    refine ⟨?_, rfl, isHit, rfl⟩
    refine inv.setCurrent _ (fun _ => rfl) fun task found => ?_
    obtain ⟨running, isRunning, isRun⟩ := inv.known
    cases found.symm.trans isRunning
    exact Tuned_of_running isRun rfl
  · obtain ⟨next, -, same⟩ := Option.map_eq_some_iff.mp waited
    cases same

theorem waitRound {waited : Waited} (round : waitRound mask s = some (waited, after)) :
    SchedStep s q after := by
  cases waited with
  | returned hit => exact (inv.waitRound_returned round).1
  | blocked => exact (inv.waitRound_blocked round).1

theorem resume_returns (inside : (s.at_ s.current).inWait = some mask) :
    ∃ hit after, resumeWait s = some (.returned hit, after) := by
  obtain ⟨task, found, isRun⟩ := inv.known
  rw [Sched.at_eq found] at inside
  have isHit := (inv.tuned found).woken inside (by rw [isRun]; nofun)
  unfold resumeWait CaraOS.Croi.waitRound
  rw [Sched.at_eq found, inside]
  dsimp only
  rw [if_pos isHit]
  exact ⟨_, _, rfl⟩

theorem refl : SchedStep s q s :=
  ⟨⟨q, inv, .kept rfl⟩, fun _ => rfl⟩

/-- A signal is recorded, and wakes the task that waits for it. -/
theorem croiSignal (known : s.tasks t ≠ none) (some : mask ≠ 0) :
    SchedStep s q (croiSignal t mask s) ∧
      (croiSignal t mask s).current = s.current ∧
      (croiSignal t mask s).tasks =
        (s.setTask t (Task.signalled mask)).tasks := by
  obtain ⟨task, found⟩ := Option.ne_none_iff_exists'.mp known
  unfold CaraOS.Croi.croiSignal
  rw [if_neg some]
  dsimp only
  set mark : Task → Task := fun task => { task with sigRecvd := task.sigRecvd ||| mask }
  have marked := inv.core.setTask (t := t) mark fun _ _ => ⟨rfl, rfl⟩
  have isMarked := Sched.setTask_at_self found mark
  have stillTuned {query : Nat} {other : Task}
      (isOther : (s.setTask t (Task.signalled mask)).tasks query = .some other) : other.Tuned :=
    Sched.tuned_setTask inv.tuned (fun task found => (inv.tuned found).signalled mask) isOther
  rw [isMarked]
  by_cases wakes : task.state = .wait ∧ (task.sigRecvd ||| mask) &&& task.sigWait ≠ 0
  · rw [if_pos wakes]
    -- the sleeper is unlinked, becomes ready and joins the run queue
    have listed := inv.mem_of_state (l := .sleepers) found wakes.1
    obtain ⟨xs, ys, split⟩ := append_of_mem listed
    have free := (marked.dequeue split).setTask ({ · with state := .ready, sigWait := 0 })
      (absurd (Finset.mem_insert_self ..))
    have notCurrent := inv.ne_current listed
    set marks := s.setTask t mark
    set woken := Sched.setTask { marks with links := marks.links.remove t } t
      ({ · with state := .ready, sigWait := 0 }) with isWoken
    have tasks : woken.tasks = (s.setTask t (Task.signalled mask)).tasks :=
      Sched.setTask_twice found rfl (if_pos wakes).symm
    have ready : (woken.at_ t).state = .ready := by
      have isNow : woken.tasks t = .some (task.signalled mask) := by
        rw [tasks, Sched.setTask_self, found]
        rfl
      rw [Sched.at_eq isNow, Task.signalled, if_pos wakes]
    obtain ⟨queue, added, joined⟩ := free.runqAdd (Finset.mem_insert_self ..) ready
    rw [Finset.erase_insert (by simpa using notCurrent)] at joined
    have same {query : Nat} (other : query ≠ t) : (runqAdd t woken).at_ query = s.at_ query := by
      unfold Sched.at_
      rw [runqAdd_tasks, tasks, Sched.setTask_other other]
    have notRunq : t ∉ q .runq := fun isListed =>
      nomatch inv.core.queues.apart listed isListed
    refine ⟨⟨⟨update (update q .sleepers (xs ++ ys)) .runq queue, ⟨?_, ?_, ?_⟩, ?_⟩, ?_⟩, ?_, ?_⟩
    · rwa [runqAdd_current]
    · rw [runqAdd_current]
      show ((runqAdd t woken).at_ s.current).state = _
      rw [same notCurrent.symm]
      exact inv.running
    · intro query other isOther
      rw [runqAdd_tasks, tasks] at isOther
      exact stillTuned isOther
    · exact .added t notRunq added.runqAdd
    · intro query isListed
      rw [same]
      rintro rfl
      exact notRunq isListed
    · rw [runqAdd_current]
      rfl
    · rw [runqAdd_tasks, tasks]
  · rw [if_neg wakes]
    have tasks : (s.setTask t mark).tasks = (s.setTask t (Task.signalled mask)).tasks :=
      Sched.setTask_congr found (if_neg wakes).symm
    refine ⟨⟨⟨q, ⟨marked, ?_, ?_⟩, .kept rfl⟩, ?_⟩, rfl, tasks⟩
    · rw [Sched.setTask_current]
      by_cases same : s.current = t
      · subst same
        rw [isMarked, ← inv.running, Sched.at_eq found]
      · rw [Sched.setTask_at_other same]
        exact inv.running
    · intro query other isOther
      rw [tasks] at isOther
      exact stillTuned isOther
    · intro query _
      by_cases same : query = t
      · subst same
        rw [isMarked, Sched.at_eq found]
      · rw [Sched.setTask_at_other same]

theorem croiYield_switched {next : Nat} (isQueue : q .runq = next :: rest)
    (free : (s.at_ s.current).tdNestCnt < 0 ∧ (s.at_ s.current).idNestCnt < 0)
    (urgent : (s.at_ s.current).pri ≤ (s.at_ next).pri) : Switched s next rest (croiYield s) := by
  unfold CaraOS.Croi.croiYield
  rw [if_neg (by omega), (inv.core.queues.holds .runq).first_eq,
    inv.core.queues.remHead_eq, isQueue]
  dsimp only [List.head?, Option.map]
  rw [if_neg (not_lt.mpr urgent)]
  have listed : next ∈ q .runq := by simp [isQueue]
  have different := inv.ne_current listed
  obtain ⟨task, found, isRun⟩ := inv.known
  obtain ⟨head, isHead, isReady⟩ := inv.core.members listed
  have free := ((@Core.dequeue s q _ next .runq [] rest inv.core
    isQueue).setTask ({ · with state := .run }) (absurd (Finset.mem_insert_self ..))).setTask
      (t := s.current) ({ · with state := .ready }) (absurd (by simp))
  set parked := Sched.setTask (Sched.setTask { s with links := s.links.remove next } next
      ({ · with state := .run })) s.current ({ · with state := .ready }) with isParked
  have tasks : parked.tasks = ((s.setTask next ({ · with state := .run })).setTask s.current
        ({ · with state := .ready })).tasks := rfl
  have isOld : parked.tasks s.current = some { task with state := .ready } := by
    rw [Sched.setTask_self, Sched.setTask_other different.symm, found]
    rfl
  have isNext : parked.tasks next = some { head with state := .run } := by
    rw [Sched.setTask_other different, Sched.setTask_self, isHead]
    rfl
  obtain ⟨queue, added, joined⟩ := free.runqAdd (t := s.current)
    (by simp) (by rw [Sched.at_eq isOld])
  have rests : (insert next {s.current} : Finset Nat).erase s.current = {next} := by
    rw [Finset.erase_insert_of_ne different, Finset.erase_singleton]
    rfl
  rw [rests] at joined
  refine ⟨rfl, ?_, update (update q .runq ([] ++ rest)) .runq queue, ⟨?_, ?_, ?_⟩, ?_⟩
  · rwa [runqAdd_tasks]
  · exact { joined with }
  · show ((runqAdd s.current parked).at_ next).state = .run
    rw [runqAdd_at, Sched.at_eq isNext]
  · intro query other isOther
    replace isOther : (runqAdd s.current parked).tasks query = some other := isOther
    rw [runqAdd_tasks] at isOther
    refine Sched.tuned_setTask (Sched.tuned_setTask inv.tuned fun other isOther => ?_)
      (fun other isOther => ?_) isOther
    · cases isHead.symm.trans isOther
      exact (inv.tuned isHead).resumed (by rw [isReady]; nofun) nofun
    · rw [Sched.setTask_other different.symm] at isOther
      cases found.symm.trans isOther
      exact (inv.tuned found).resumed (by rw [isRun]; nofun) nofun
  · exact ⟨added.runqAdd.place⟩

theorem croiYield_stays (stays : (s.at_ s.current).tdNestCnt < 0 ∧ (s.at_ s.current).idNestCnt < 0 →
        ∀ next ∈ (q .runq).head?, (s.at_ next).pri < (s.at_ s.current).pri) : croiYield s = s := by
  unfold CaraOS.Croi.croiYield
  dsimp only
  split
  · rfl
  rw [(inv.core.queues.holds .runq).first_eq]
  cases isHead : (q .runq).head? with
  | none => rfl
  | some next =>
    dsimp only
    rw [if_pos (stays (by omega) next isHead)]

/-- A yield stays, or hands over to a ready task. -/
theorem croiYield :
    SchedStep s q (croiYield s) ∧
      ((croiYield s).current = s.current ∧ (croiYield s).tasks = s.tasks ∨
        (croiYield s).current ∈ q .runq ∧
          (croiYield s).tasks =
            ((s.setTask (croiYield s).current ({ · with state := .run })).setTask s.current
                ({ · with state := .ready })).tasks) := by
  by_cases stays : (s.at_ s.current).tdNestCnt < 0 ∧ (s.at_ s.current).idNestCnt < 0 →
        ∀ next ∈ (q .runq).head?, (s.at_ next).pri < (s.at_ s.current).pri
  · rw [inv.croiYield_stays stays]
    exact ⟨inv.refl, .inl ⟨rfl, rfl⟩⟩
  · push Not at stays
    obtain ⟨free, next, isHead, urgent⟩ := stays
    obtain ⟨rest, isQueue⟩ := List.head?_eq_some_iff.mp isHead
    have switched := inv.croiYield_switched isQueue free urgent
    obtain ⟨q', inv', place⟩ := switched.queue
    refine ⟨⟨⟨q', inv', .swapped next s.current rest isQueue
      (inv.unlisted .runq) place⟩, fun {query} _ => ?_⟩, .inr ?_⟩
    · obtain ⟨state, isNow⟩ := switched.at_ query
      rw [isNow]
    · rw [switched.current, isQueue]
      exact ⟨mem_cons_self .., switched.tasks⟩

end Sched.Inv

end Steps

end CaraOS.Croi
