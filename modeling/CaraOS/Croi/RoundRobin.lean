import Mathlib.Data.List.Rotate
import CaraOS.Croi.SchedRun

namespace CaraOS.Croi

/-!
# Tasks that only yield

The tasks of the highest priority form a ring: the running task and, in the
order of the run queue, its peers.  Each `Croi_Yield` turns the ring by one.
-/

open List

/--
The running task yields.  If it was switched away inside `Croi_Wait`, it
returns from there first.
-/
def yieldTurn (s : Sched) : Option Sched :=
  match (s.at_ s.current).inWait with
  | none => SchedOp.yield.step s
  | some _ => (SchedOp.resume.step s).bind SchedOp.yield.step

/-- The running task and the queued tasks of its priority. -/
def Sched.ring (s : Sched) : List Nat :=
  s.current :: (s.queue .runq).filter fun t =>
    (s.at_ t).pri = (s.at_ s.current).pri

/-- A task of a priority that is not inside `Forbid` or `Disable`. -/
structure Task.Free (task : Task) (pri : Int) : Prop where
  pri : task.pri = pri
  permitted : task.tdNestCnt < 0
  enabled : task.idNestCnt < 0

/-- The ring is at the head of the run queue, before all that is below it. -/
structure Rotating (s : Sched) (q : QueueId → List Nat) (peers rest : List Nat)
    (pri : Int) : Prop where
  inv : s.Inv q
  queue : q .runq = peers ++ rest
  free : ∀ t ∈ s.current :: peers, (s.at_ t).Free pri
  lower : ∀ t ∈ rest, (s.at_ t).pri < pri

section Turn

variable {s after : Sched} {q : QueueId → List Nat} {peers rest : List Nat} {pri : Int}

theorem cut_unique {xs ys : List Nat} (urgent : Nat → Prop) [DecidablePred urgent]
    (same : xs ++ ys = peers ++ rest) (first : ∀ t ∈ xs, urgent t)
    (second : ∀ t ∈ ys, ¬ urgent t) (isPeer : ∀ t ∈ peers, urgent t)
    (isLower : ∀ t ∈ rest, ¬ urgent t) : xs = peers ∧ ys = rest := by
  have kept := congrArg (List.filter fun t => decide (urgent t)) same
  simp only [filter_append] at kept
  rw [filter_eq_self.mpr (by simpa using first), filter_eq_nil_iff.mpr (by simpa using second),
    filter_eq_self.mpr (by simpa using isPeer), filter_eq_nil_iff.mpr (by simpa using isLower),
    append_nil, append_nil] at kept
  subst kept
  exact ⟨rfl, append_cancel_left same⟩

theorem Rotating.resume {mask : Signals} (rotating : Rotating s q peers rest pri)
    (inside : (s.at_ s.current).inWait = some mask) :
    ∃ mid, SchedOp.resume.step s = some mid ∧
      Rotating mid q peers rest pri ∧ mid.current = s.current ∧
      (mid.at_ mid.current).inWait = none := by
  obtain ⟨hit, mid, resumed⟩ := rotating.inv.resume_returns inside
  have stepped : SchedOp.resume.step s = some mid := by
    unfold SchedOp.step
    rw [inside, resumed]
    rfl
  have round := resumed
  rw [resumeWait, inside] at round
  obtain ⟨step, -, -, rfl⟩ := rotating.inv.waitRound_returned round
  obtain ⟨q', inv', -⟩ := step.next
  obtain rfl : q' = q := by
    funext l
    rw [← inv'.queue_eq l, ← rotating.inv.queue_eq l]
    rfl
  obtain ⟨task, found, -⟩ := rotating.inv.known
  refine ⟨_, stepped, ⟨inv', rotating.queue, ?_, ?_⟩, rfl, ?_⟩
  · intro t listed
    have free := rotating.free t listed
    by_cases isCurrent : t = s.current
    · subst isCurrent
      rw [Sched.at_eq found] at free
      rw [Sched.setTask_at_self found]
      exact ⟨free.pri, free.permitted, free.enabled⟩
    · rwa [Sched.setTask_at_other isCurrent]
  · intro t listed
    have isQueued : t ∈ q' .runq := by
      rw [rotating.queue]
      exact mem_append_right _ listed
    rw [Sched.setTask_at_other (rotating.inv.ne_current isQueued)]
    exact rotating.lower t listed
  · rw [Sched.setTask_current, Sched.setTask_at_self found]

theorem Rotating.switch {first : Nat} (rotating : Rotating s q (first :: peers) rest pri) :
    (croiYield s).current = first ∧
      ∃ q', Rotating (croiYield s) q' (peers ++ [s.current]) rest pri := by
  have free := rotating.free s.current (mem_cons_self ..)
  have isFirst := rotating.free first (by simp)
  have switched := rotating.inv.croiYield_switched rotating.queue
    ⟨free.permitted, free.enabled⟩ (by rw [free.pri, isFirst.pri])
  obtain ⟨q', inv', place⟩ := switched.queue
  obtain ⟨xs, ys, isSplit, isQueue, above, below⟩ := place.place
  have priOf (t : Nat) : ((croiYield s).at_ t).pri = (s.at_ t).pri := by
    obtain ⟨state, isNow⟩ := switched.at_ t
    rw [isNow]
  simp only [priOf, free.pri] at above below
  -- the place behind the equals is behind the peers
  obtain ⟨rfl, rfl⟩ := cut_unique (fun t => pri ≤ (s.at_ t).pri)
    isSplit.symm above (fun t isIn => not_le.mpr (below t isIn))
    (fun t isIn => (rotating.free t (by simp [isIn])).pri.ge)
    (fun t isIn => not_le.mpr (rotating.lower t isIn))
  refine ⟨switched.current, q', inv', by simp [isQueue], ?_, ?_⟩
  · intro t isIn
    have before : (s.at_ t).Free pri := rotating.free t (by
      rw [switched.current] at isIn
      simp only [mem_cons, mem_append, not_mem_nil] at isIn ⊢
      tauto)
    obtain ⟨state, isNow⟩ := switched.at_ t
    rw [isNow]
    exact ⟨before.pri, before.permitted, before.enabled⟩
  · intro t isIn
    rw [priOf]
    exact rotating.lower t isIn

theorem Rotating.alone (rotating : Rotating s q [] rest pri) : croiYield s = s := by
  refine rotating.inv.croiYield_stays fun _ next isHead => ?_
  rw [(rotating.free s.current (mem_cons_self ..)).pri]
  rw [rotating.queue] at isHead
  exact rotating.lower next (mem_of_mem_head? isHead)

theorem Rotating.turn (rotating : Rotating s q peers rest pri) :
    ∃ after q' peers', yieldTurn s = some after ∧
      Rotating after q' peers' rest pri ∧
      after.current :: peers' = (s.current :: peers).rotate 1 := by
  -- the yield itself, from outside of `Croi_Wait`
  have yields {mid : Sched} (rotating : Rotating mid q peers rest pri)
      (outside : (mid.at_ mid.current).inWait = none) :
      ∃ after q' peers', SchedOp.yield.step mid = some after ∧ Rotating after q' peers' rest pri ∧
        after.current :: peers' = (mid.current :: peers).rotate 1 := by
    have stepped : SchedOp.yield.step mid = some (croiYield mid) := by
      unfold SchedOp.step
      rw [outside]
    cases peers with
    | nil => exact ⟨_, q, [], stepped, by rwa [rotating.alone],
        by rw [rotating.alone, rotate_singleton]⟩
    | cons first peers =>
      obtain ⟨switched, q', rotated⟩ := rotating.switch
      exact ⟨_, q', _, stepped, rotated, by rw [switched]; rfl⟩
  cases inside : (s.at_ s.current).inWait with
  | none =>
    obtain ⟨after, q', peers', stepped, rotated, isRing⟩ := yields rotating inside
    exact ⟨after, q', peers', by simp [yieldTurn, inside, stepped], rotated, isRing⟩
  | some mask =>
    obtain ⟨mid, resumed, again, same, outside⟩ := rotating.resume inside
    obtain ⟨after, q', peers', stepped, rotated, isRing⟩ := yields again outside
    exact ⟨after, q', peers', by simp [yieldTurn, inside, resumed, stepped], rotated, same ▸ isRing⟩

theorem Rotating.of_highest (inv : s.Inv q)
    (highest : ∀ t ∈ s.queue .runq, (s.at_ t).pri ≤ (s.at_ s.current).pri)
    (free : ∀ t ∈ s.ring, (s.at_ t).tdNestCnt < 0 ∧ (s.at_ t).idNestCnt < 0) :
    ∃ peers rest, s.ring = s.current :: peers ∧
      Rotating s q peers rest (s.at_ s.current).pri := by
  unfold Sched.ring at free ⊢
  rw [inv.queue_eq] at highest free ⊢
  refine ⟨_, (q .runq).filter fun t => !decide ((s.at_ t).pri =
    (s.at_ s.current).pri), rfl, inv, ?_, ?_, ?_⟩
  · -- in a sorted queue the tasks of the highest priority come first
    have sorted := inv.core.sorted
    generalize q .runq = queue at highest sorted
    clear free
    induction queue with
    | nil => rfl
    | cons first others ih =>
      rw [pairwise_cons] at sorted
      have inner := ih (fun t isIn =>
        highest t (mem_cons_of_mem _ isIn)) sorted.2
      by_cases isPeer : (s.at_ first).pri = (s.at_ s.current).pri
      · simpa [isPeer] using inner
      · have below : ∀ t ∈ others, ¬ (s.at_ t).pri =
            (s.at_ s.current).pri := fun t isIn same => isPeer
          (le_antisymm (highest first (mem_cons_self ..)) (same ▸ sorted.1 t isIn))
        rw [filter_cons_of_neg (by simpa using isPeer),
          filter_eq_nil_iff.mpr (by simpa using below),
          filter_eq_self.mpr (by simpa [isPeer] using below), nil_append]
  · intro t isIn
    refine ⟨?_, (free t isIn).1, (free t isIn).2⟩
    rcases mem_cons.mp isIn with rfl | isPeer
    · rfl
    · simpa using (mem_filter.mp isPeer).2
  · intro t isIn
    obtain ⟨listed, isLower⟩ := mem_filter.mp isIn
    exact lt_of_le_of_ne (highest t listed) (by simpa using isLower)

end Turn

/--
From a state in which the running task is of the highest priority and no task
of this priority is inside `Forbid` or `Disable`, tasks that only yield run for
ever, and any turns as many as the tasks of that priority run each of them
once, always in the order of the ring.
-/
theorem yields_go_round {s : Sched} {q : QueueId → List Nat} (inv : s.Inv q)
    (highest : ∀ t ∈ s.queue .runq, (s.at_ t).pri ≤ (s.at_ s.current).pri)
    (free : ∀ t ∈ s.ring, (s.at_ t).tdNestCnt < 0 ∧ (s.at_ t).idNestCnt < 0) :
    s.ring.Nodup ∧ ∃ turn : Nat → Sched, turn 0 = s ∧
      (∀ k, yieldTurn (turn k) = some (turn (k + 1))) ∧
      (∀ k, (turn k).current ∈ s.ring) ∧
      ∀ k, ((List.range s.ring.length).map fun i =>
        (turn (k + 1 + i)).current) = s.ring.rotate (k + 1) := by
  obtain ⟨peers, rest, isRing, rotating⟩ := Rotating.of_highest inv highest free
  have nodup : s.ring.Nodup := by
    have inQueue := (inv.core.queues.holds .runq).nodup
    rw [rotating.queue, nodup_append] at inQueue
    rw [isRing, nodup_cons]
    refine ⟨fun isIn => inv.unlisted .runq ?_, inQueue.1⟩
    rw [rotating.queue]
    exact mem_append_left _ isIn
  -- the state after `k` turns, with its own ring
  have turns (k : Nat) : ∃ after, (fun o : Option Sched =>
      o.bind yieldTurn)^[k] (some s) = some after ∧
      ∃ q' peers', Rotating after q' peers' rest (s.at_ s.current).pri ∧
        after.current :: peers' = s.ring.rotate k := by
    induction k with
    | zero => exact ⟨s, rfl, q, peers, rotating, by simp [isRing]⟩
    | succ k ih =>
      obtain ⟨mid, reached, q', peers', again, ring⟩ := ih
      obtain ⟨after, q'', peers'', stepped, rotated, turned⟩ := again.turn
      refine ⟨after, ?_, q'', peers'', rotated, ?_⟩
      · rwa [Function.iterate_succ_apply', reached]
      · rw [turned, ring, rotate_rotate]
  choose turn reached _ others _ isTurned using turns
  have nonempty : 0 < s.ring.length := by simp [isRing]
  have head (k : Nat) : some (turn k).current = s.ring[k % s.ring.length]? := by
    have first := congrArg List.head? (isTurned k)
    rw [List.head?_cons, List.head?_eq_getElem?,
      List.getElem?_rotate (by simpa using nonempty), Nat.zero_add] at first
    exact first
  refine ⟨nodup, turn, ?_, ?_, ?_, ?_⟩
  · exact (Option.some.inj (reached 0)).symm
  · intro k
    have next := reached (k + 1)
    rwa [Function.iterate_succ_apply', reached k] at next
  · intro k
    exact mem_of_getElem? (head k).symm
  · intro k
    refine ext_getElem? fun i => ?_
    by_cases inside : i < s.ring.length
    · rw [List.getElem?_map, List.getElem?_range inside,
        List.getElem?_rotate inside, Option.map_some, head, Nat.add_comm i (k + 1)]
    · rw [List.getElem?_eq_none (by simpa using inside),
        List.getElem?_eq_none (by simpa using inside)]

/-- Two equal tasks and a lower one after `Sched_Init`. -/
def threeTasks : Sched :=
  croiSpawn 3 5 (croiSpawn 2 100 (croiSpawn 1 100 (schedInit 0)))

/-- The three tasks of the boot task's priority take turns. -/
theorem yields_go_round_three :
    threeTasks.ring = [0, 1, 2] ∧ ∃ turn : Nat → Sched,
      turn 0 = threeTasks ∧
      ∀ k, ((List.range 3).map fun i => (turn (k + 1 + i)).current) =
        [0, 1, 2].rotate (k + 1) := by
  obtain ⟨q₁, inv₁, -⟩ := ((schedInit_inv 0).croiSpawn (t := 1) rfl 100).next
  obtain ⟨q₂, inv₂, -⟩ := (inv₁.croiSpawn (t := 2) (by decide) 100).next
  obtain ⟨q₃, inv₃, -⟩ := (inv₂.croiSpawn (t := 3) (by decide) 5).next
  have isRing : threeTasks.ring = [0, 1, 2] := by decide
  obtain ⟨-, turn, first, -, -, rounds⟩ :=
    yields_go_round inv₃ (by decide) (by decide)
  exact ⟨isRing, turn, first, rounds⟩

end CaraOS.Croi
