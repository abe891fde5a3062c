import CaraOS.Croi.Semaphore
import CaraOS.Croi.SchedRun

namespace CaraOS.Croi

/-!
# Semaphores exclude and hand over in order

A waiter trusts the releaser: when it wakes it looks at nothing.  What makes
this right is an invariant over the semaphores, their queues and the states of
the tasks: whoever is inside `ObtainSemaphore` sleeps if and only if its
request is queued, and owns the semaphore otherwise.
-/

open List
open Intrusive (Links Family Holds)

theorem sigfSingle_ne : sigfSingle ≠ 0 := by
  decide

theorem word_small {value : Int} (low : -2 ^ 15 ≤ value) (high : value < 2 ^ 15) :
    word value = value := by
  exact Int.bmod_eq_of_le (by omega) (by omega)

theorem word_add (value more : Int) : word (word value + more) = word (value + more) :=
  Int.bmod_add_bmod ..

/-! ## One semaphore -/

def SemEvent.sem : SemEvent → Nat
  | .obtained _ i _ => i
  | .attempted _ i => i
  | .queued _ i => i
  | .released _ i => i
  | .handed _ i => i

/-- How often the task holds the semaphore, going by its fields. -/
def holding (i : Nat) (sem : SignalSemaphore) (obtaining : Nat → Option Nat) (t : Nat) : Nat :=
  if sem.owner = some t ∧ obtaining t ≠ some i then sem.nestCount.toNat else 0

/-- A semaphore fits its queue, its users and what has been seen of it. -/
structure SemOk (i : Nat) (sem : SignalSemaphore) (waiters : List Nat)
    (obtaining : Nat → Option Nat) (trace : List SemEvent) : Prop where
  free : sem.owner = none → sem.nestCount = 0 ∧ waiters = []
  nest : sem.owner ≠ none → 0 < sem.nestCount ∧ sem.nestCount < 2 ^ 15
  granted : ∀ {t}, obtaining t = some i → t ∉ waiters → sem.owner = some t ∧ sem.nestCount = 1
  notOwner : ∀ {t}, t ∈ waiters → sem.owner ≠ some t
  count : sem.queueCount = word (waiters.length - 1)
  log : handedOn trace i ++ waiters = queuedOn trace i
  taken : ∀ t, trace.countP (SemEvent.takes i t) =
      trace.countP (SemEvent.gives i t) + holding i sem obtaining t

variable {event : SemEvent}

section Traces

variable {trace events : List SemEvent} {i me t : Nat}

theorem handedOn_append : handedOn (trace ++ events) i = handedOn trace i ++ handedOn events i :=
  filterMap_append

theorem queuedOn_append : queuedOn (trace ++ events) i = queuedOn trace i ++ queuedOn events i :=
  filterMap_append

theorem SemEvent.elsewhere (other : event.sem ≠ i) :
    event.handedFor i = none ∧ event.queuedFor i = none ∧
      event.takes i t = false ∧ event.gives i t = false := by
  cases event with
  | obtained => exact ⟨rfl, rfl, decide_eq_false fun same => other same.2, rfl⟩
  | attempted =>
    exact ⟨rfl, rfl, decide_eq_false fun same => other same.2, rfl⟩
  | queued => exact ⟨rfl, if_neg other, rfl, rfl⟩
  | released =>
    exact ⟨rfl, rfl, rfl, decide_eq_false fun same => other same.2⟩
  | handed => exact ⟨if_neg other, rfl, rfl, rfl⟩

theorem events_elsewhere (others : ∀ e ∈ events, e.sem ≠ i) :
    handedOn events i = [] ∧ queuedOn events i = [] ∧
      ∀ t, events.countP (SemEvent.takes i t) = 0 ∧
        events.countP (SemEvent.gives i t) = 0 := by
  refine ⟨filterMap_eq_nil_iff.mpr fun e isE => ?_, filterMap_eq_nil_iff.mpr fun e isE => ?_,
    fun t => ⟨countP_eq_zero.mpr fun e isE => ?_, countP_eq_zero.mpr fun e isE => ?_⟩⟩
  · exact (SemEvent.elsewhere (t := 0) (others e isE)).1
  · exact (SemEvent.elsewhere (t := 0) (others e isE)).2.1
  · rw [(SemEvent.elsewhere (others e isE)).2.2.1]
    exact Bool.false_ne_true
  · rw [(SemEvent.elsewhere (others e isE)).2.2.2]
    exact Bool.false_ne_true

theorem countP_self {p : SemEvent → Bool}
    (isSelf : p event = decide (me = t ∧ i = i)) : [event].countP p = if me = t then 1 else 0 := by
  rw [countP_cons, countP_nil, Nat.zero_add, isSelf]
  simp only [and_true, decide_eq_true_eq]

/-- An event that is the running task getting the semaphore. -/
inductive IsTake (me i : Nat) : SemEvent → Prop
  | obtained : IsTake me i (.obtained me i (some me))
  | attempted : IsTake me i (.attempted me i)

theorem IsTake.counts (isTake : IsTake me i event) (t : Nat) :
    [event].countP (SemEvent.takes i t) = (if me = t then 1 else 0) ∧
      [event].countP (SemEvent.gives i t) = 0 := by
  cases isTake with
  | obtained => exact ⟨countP_self rfl, rfl⟩
  | attempted => exact ⟨countP_self rfl, rfl⟩

theorem IsTake.logs (isTake : IsTake me i event) :
    handedOn [event] i = [] ∧ queuedOn [event] i = [] := by
  cases isTake with
  | obtained => exact ⟨rfl, rfl⟩
  | attempted => exact ⟨rfl, rfl⟩

theorem released_counts (t : Nat) :
    [SemEvent.released me i].countP (SemEvent.takes i t) = 0 ∧
      [SemEvent.released me i].countP (SemEvent.gives i t) =
        if me = t then 1 else 0 :=
  ⟨rfl, countP_self rfl⟩

end Traces

section Holding

variable {i t : Nat} {sem : SignalSemaphore} {obtaining : Nat → Option Nat}

theorem holding_eq (mine : sem.owner = some t) (outside : obtaining t ≠ some i) :
    holding i sem obtaining t = sem.nestCount.toNat :=
  if_pos ⟨mine, outside⟩

theorem holding_other (notMine : sem.owner ≠ some t) : holding i sem obtaining t = 0 :=
  if_neg fun held => notMine held.1

theorem holding_inside (inside : obtaining t = some i) : holding i sem obtaining t = 0 :=
  if_neg fun held => held.2 inside

end Holding

variable {after : SignalSemaphore}

namespace SemOk

variable {i me : Nat} {sem : SignalSemaphore} {waiters : List Nat}
  {obtaining : Nat → Option Nat} {trace : List SemEvent}

theorem fresh (i : Nat) : SemOk i freshSemaphore [] (fun _ => none) [] where
  free := fun _ => ⟨rfl, rfl⟩
  nest := absurd rfl
  granted := nofun
  notOwner := nofun
  count := rfl
  log := rfl
  taken := fun _ => rfl

section

variable (ok : SemOk i sem waiters obtaining trace)
include ok

theorem taken_append {inside : Nat → Option Nat} {events : List SemEvent}
    (step : ∀ t, holding i sem obtaining t + events.countP (SemEvent.takes i t) =
        events.countP (SemEvent.gives i t) + holding i after inside t) (t : Nat) :
    (trace ++ events).countP (SemEvent.takes i t) =
      (trace ++ events).countP (SemEvent.gives i t) +
        holding i after inside t := by
  rw [countP_append, countP_append, ok.taken t, Nat.add_assoc, step t, Nat.add_assoc]

theorem log_append {after : List Nat} {events : List SemEvent}
    (step : handedOn events i ++ after = waiters ++ queuedOn events i) :
    handedOn (trace ++ events) i ++ after = queuedOn (trace ++ events) i := by
  rw [handedOn_append, queuedOn_append, append_assoc, step, ← ok.log, append_assoc]

theorem elsewhere {after : Nat → Option Nat} {events : List SemEvent}
    (same : ∀ t, after t = some i ↔ obtaining t = some i)
    (others : ∀ e ∈ events, e.sem ≠ i) : SemOk i sem waiters after (trace ++ events) := by
  obtain ⟨handed, queued, counts⟩ := events_elsewhere others
  refine ⟨ok.free, ok.nest, fun inside => ok.granted ((same _).mp inside),
    ok.notOwner, ok.count, ok.log_append ?_, ok.taken_append fun t => ?_⟩
  · rw [handed, queued, append_nil, nil_append]
  · rw [(counts t).1, (counts t).2, Nat.add_zero, Nat.zero_add]
    unfold holding
    simp only [ne_eq, same]

theorem take (free : sem.owner = none)
    (outside : obtaining me = none) (isTake : IsTake me i event) :
    SemOk i { sem with owner := some me, nestCount := 1 } waiters obtaining (trace ++ [event]) := by
  obtain ⟨-, rfl⟩ := ok.free free
  refine ⟨nofun, fun _ => ⟨Int.one_pos, by simp⟩, ?_, nofun, ok.count, ok.log_append ?_,
    ok.taken_append fun t => ?_⟩
  · intro t inside unlisted
    have granted := (ok.granted inside unlisted).1
    nomatch free.symm.trans granted
  · rw [isTake.logs.1, isTake.logs.2, append_nil]
  · rw [(isTake.counts t).1, (isTake.counts t).2, Nat.zero_add, holding_other (by rw [free]; nofun)]
    by_cases mine : me = t
    · subst mine
      rw [if_pos rfl, holding_eq rfl (by rw [outside]; simp)]
      rfl
    · rw [if_neg mine, holding_other]
      exact fun same => mine (Option.some.inj same)

/-- The owner nests. -/
theorem takeAgain (mine : sem.owner = some me)
    (room : sem.nestCount + 1 < 2 ^ 15) (outside : obtaining me = none)
    (isTake : IsTake me i event) :
    SemOk i { sem with nestCount := word (sem.nestCount + 1) } waiters
      obtaining (trace ++ [event]) := by
  obtain ⟨positive, -⟩ := ok.nest (by simp [mine])
  have notInside : obtaining me ≠ some i := by
    rw [outside]
    nofun
  rw [word_small (by omega) room]
  refine ⟨fun none => (nomatch mine.symm.trans none),
    fun _ => ⟨Int.lt_add_one_of_le positive.le, room⟩, ?_, ok.notOwner,
    ok.count, ok.log_append ?_, ok.taken_append fun t => ?_⟩
  · intro t inside unlisted
    have granted := (ok.granted inside unlisted).1
    cases mine.symm.trans granted
    exact absurd inside notInside
  · rw [isTake.logs.1, isTake.logs.2, append_nil, nil_append]
  · rw [(isTake.counts t).1, (isTake.counts t).2, Nat.zero_add]
    by_cases same : me = t
    · subst same
      have now := @holding_eq i me
        { sem with nestCount := sem.nestCount + 1 } obtaining mine notInside
      rw [if_pos rfl, holding_eq mine notInside, now]
      exact (Int.toNat_add positive.le Int.one_nonneg).symm
    · have notMine : sem.owner ≠ some t := by
        rw [mine]
        exact fun equal => same (Option.some.inj equal)
      rw [if_neg same, holding_other notMine]
      exact (if_neg fun held => notMine held.1).symm

/-- Any other task queues at the end. -/
theorem enqueue (taken : sem.owner ≠ none) (notMine : sem.owner ≠ some me) :
    SemOk i { sem with queueCount := word (sem.queueCount + 1) }
      (waiters ++ [me]) (Function.update obtaining me (some i))
      (trace ++ [.queued me i]) := by
  refine ⟨fun none => absurd none taken, fun _ => ok.nest taken, ?_, ?_, ?_,
    ok.log_append ?_, ok.taken_append fun t => ?_⟩
  · intro t inside unlisted
    rw [mem_append, not_or, mem_singleton] at unlisted
    rw [Function.update_of_ne unlisted.2] at inside
    exact ok.granted inside unlisted.1
  · intro t listed
    rcases mem_append.mp listed with before | isMe
    · exact ok.notOwner before
    · obtain rfl := mem_singleton.mp isMe
      exact notMine
  · show word (sem.queueCount + 1) = _
    rw [ok.count, word_add, length_append]
    congr 1
    push_cast [length_singleton]
    omega
  · have queued : queuedOn [.queued me i] i = [me] := by
      simp [queuedOn, SemEvent.queuedFor]
    rw [queued]
    rfl
  · show holding i sem obtaining t + 0 = 0 + _
    rw [Nat.add_zero, Nat.zero_add]
    by_cases same : t = me
    · subst same
      rw [holding_other notMine]
      exact (if_neg fun held => notMine held.1).symm
    · unfold holding
      rw [Function.update_of_ne same]

theorem wake (inside : obtaining me = some i) (unlisted : me ∉ waiters) :
    SemOk i sem waiters (Function.update obtaining me none)
      (trace ++ [.obtained me i (some me)]) := by
  obtain ⟨mine, once⟩ := ok.granted inside unlisted
  have isTake : IsTake me i (.obtained me i (some me)) := .obtained
  refine ⟨ok.free, ok.nest, ?_, ok.notOwner, ok.count, ok.log_append ?_,
    ok.taken_append fun t => ?_⟩
  · intro t isInside notListed
    have notMe : t ≠ me := by
      rintro rfl
      rw [Function.update_self] at isInside
      cases isInside
    rw [Function.update_of_ne notMe] at isInside
    exact ok.granted isInside notListed
  · rw [isTake.logs.1, isTake.logs.2, append_nil, nil_append]
  · rw [(isTake.counts t).1, (isTake.counts t).2, Nat.zero_add]
    by_cases same : me = t
    · subst same
      rw [holding_inside inside, if_pos rfl, holding_eq mine, once]
      · rfl
      · rw [Function.update_self]
        nofun
    · rw [if_neg same, Nat.add_zero]
      unfold holding
      rw [Function.update_of_ne (Ne.symm same)]

theorem inside_listed {t : Nat} (mine : sem.owner = some me)
    (outside : obtaining me = none) (inside : obtaining t = some i) : t ∈ waiters := by
  by_contra unlisted
  have granted := (ok.granted inside unlisted).1
  cases mine.symm.trans granted
  nomatch outside.symm.trans inside

/-- A nested release keeps the owner. -/
theorem giveBack (mine : sem.owner = some me)
    (outside : obtaining me = none) (deeper : 1 < sem.nestCount) :
    SemOk i { sem with nestCount := sem.nestCount - 1 } waiters obtaining
      (trace ++ [.released me i]) := by
  obtain ⟨-, small⟩ := ok.nest (by simp [mine])
  have notInside : obtaining me ≠ some i := by
    rw [outside]
    nofun
  refine ⟨fun none => (nomatch mine.symm.trans none), fun _ => ?_, ?_,
    ok.notOwner, ok.count, ok.log_append ?_, ok.taken_append fun t => ?_⟩
  · dsimp only
    exact ⟨by omega, by omega⟩
  · intro t inside unlisted
    exact absurd (ok.inside_listed mine outside inside) unlisted
  · exact (append_nil _).symm
  · rw [(released_counts t).1, (released_counts t).2, Nat.add_zero]
    by_cases same : me = t
    · subst same
      have now := @holding_eq i me
        { sem with nestCount := sem.nestCount - 1 } obtaining mine notInside
      rw [if_pos rfl, holding_eq mine notInside, now]
      dsimp only
      omega
    · have notMine : sem.owner ≠ some t := by
        rw [mine]
        exact fun equal => same (Option.some.inj equal)
      rw [if_neg same, holding_other notMine, Nat.zero_add]
      exact (if_neg fun held => notMine held.1).symm

end

theorem lastHold (mine : sem.owner = some me) (outside : obtaining me = none)
    (last : sem.nestCount = 1) (nobody : ∀ t, holding i after obtaining t = 0) (t : Nat) :
    holding i sem obtaining t +
        [SemEvent.released me i].countP (SemEvent.takes i t) =
      [SemEvent.released me i].countP (SemEvent.gives i t) +
        holding i after obtaining t := by
  rw [(released_counts t).1, (released_counts t).2, nobody]
  by_cases same : me = t
  · subst same
    rw [if_pos rfl, holding_eq mine, last]
    · rfl
    · rw [outside]
      nofun
  · rw [if_neg same, holding_other]
    rw [mine]
    exact fun equal => same (Option.some.inj equal)

/-- The last release hands over to the first in the queue. -/
theorem handOver {waiter : Nat} {rest : List Nat}
    (ok : SemOk i sem (waiter :: rest) obtaining trace)
    (mine : sem.owner = some me) (outside : obtaining me = none)
    (last : sem.nestCount = 1) (inside : obtaining waiter = some i)
    (nodup : (waiter :: rest).Nodup) :
    SemOk i
      { nestCount := 1
        queueCount := word (sem.queueCount - 1)
        owner := some waiter }
      rest obtaining (trace ++ [.released me i, .handed waiter i]) := by
  obtain ⟨new, -⟩ := nodup_cons.mp nodup
  refine ⟨nofun, fun _ => ⟨Int.one_pos, by simp⟩, ?_, ?_, ?_, ok.log_append ?_, ok.taken_append ?_⟩
  · intro t isInside unlisted
    rcases mem_cons.mp (ok.inside_listed mine outside isInside)
      with rfl | later
    · exact ⟨rfl, rfl⟩
    · exact absurd later unlisted
  · intro t listed same
    cases same
    exact new listed
  · show word (sem.queueCount - 1) = _
    rw [ok.count, Int.sub_eq_add_neg, word_add, length_cons]
    congr 1
    push_cast
    omega
  · have handed : handedOn [.released me i, .handed waiter i] i = [waiter] := by
      simp [handedOn, filterMap_cons, SemEvent.handedFor]
    rw [handed]
    exact (append_nil _).symm
  · intro t
    refine lastHold mine outside last (fun other => ?_) t
    by_cases same : waiter = other
    · subst same
      exact holding_inside inside
    · exact holding_other fun equal => same (Option.some.inj equal)

theorem giveUp (ok : SemOk i sem [] obtaining trace) (mine : sem.owner = some me)
    (outside : obtaining me = none) (last : sem.nestCount = 1) :
    SemOk i { sem with owner := none, nestCount := 0 } [] obtaining
      (trace ++ [.released me i]) := by
  refine ⟨fun _ => ⟨rfl, rfl⟩, absurd rfl, ?_,
    nofun, ok.count, ok.log_append rfl, ok.taken_append ?_⟩
  · intro t inside
    exact absurd (ok.inside_listed mine outside inside) (by simp)
  · exact lastHold mine outside last fun t =>
      holding_other nofun

end SemOk

end CaraOS.Croi
