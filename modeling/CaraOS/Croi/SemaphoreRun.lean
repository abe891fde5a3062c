import CaraOS.Croi.SemaphoreInv

namespace CaraOS.Croi

/-!
# Runs of tasks that share semaphores

The invariant of every interleaving, and what users of the semaphores see of
it.  `ss_QueueCount` is a `WORD`: it counts the queue modulo 2^16.
-/

open Option (map_eq_some_iff)
open List
open Sched (at_eq setTask_other setTask_self)
open Function (update update_idem update_of_ne update_self)
open Intrusive (Links Family Holds)

/-- What holds between two steps. -/
structure Sems.Inv (st : Sems) (trace : List SemEvent)
    (q : QueueId → List Nat) (w : Nat → List Nat) : Prop where
  sched : st.sched.Inv q
  waits : Family st.waits w
  inside : ∀ {t i}, st.obtaining t = some i → ∃ task, st.sched.tasks t = some task ∧
        task.inWait = some sigfSingle ∧ (task.state = .wait ↔ t ∈ w i)
  listed : ∀ {t i}, t ∈ w i → st.obtaining t = some i
  sems : ∀ i, SemOk i (st.sems i) (w i) st.obtaining trace
  returns : ∀ {t i owner}, .obtained t i owner ∈ trace → owner = some t

variable {event : SemEvent}

section Steps

variable {st : Sems} {trace : List SemEvent} {q : QueueId → List Nat} {w : Nat → List Nat} {i : Nat}

namespace Sems.Inv

theorem boot (t : Nat) : (Sems.boot t).Inv [] (fun _ => []) fun _ => [] where
  sched := schedInit_inv t
  waits := ⟨Intrusive.holds_empty, nofun⟩
  inside := nofun
  listed := nofun
  sems := .fresh
  returns := nofun

theorem outside (inv : st.Inv trace q w) (free : (st.sched.at_ st.sched.current).inWait = none) :
    st.obtaining st.sched.current = none := by
  cases isInside : st.obtaining st.sched.current with
  | none => rfl
  | some i =>
    obtain ⟨task, found, waits, -⟩ := inv.inside isInside
    rw [at_eq found, waits] at free
    cases free

variable {events : List SemEvent} {after : Sched}

variable (inv : st.Inv trace q w)
include inv

/-- What happens to one semaphore leaves the others as they are. -/
theorem semsAt {sem : SignalSemaphore} {waiters : List Nat} {obtaining : Nat → Option Nat}
    (here : ∀ e ∈ events, e.sem = i)
    (same : ∀ t j, j ≠ i → (obtaining t = some j ↔ st.obtaining t = some j))
    (ok : SemOk i sem waiters obtaining (trace ++ events)) (j : Nat) :
    SemOk j (update st.sems i sem j) (update w i waiters j) obtaining (trace ++ events) := by
  by_cases isI : j = i
  · subst isI
    rwa [update_self, update_self]
  · rw [update_of_ne isI, update_of_ne isI]
    exact (inv.sems j).elsewhere (fun t => same t j isI) fun e isE isJ =>
      isI (isJ.symm.trans (here e isE))

theorem returnsAppend (new : ∀ {t j owner}, .obtained t j owner ∈ events → owner = some t)
    {t j : Nat} {owner : Option Nat} (isReturn : .obtained t j owner ∈ trace ++ events) :
    owner = some t :=
  (mem_append.mp isReturn).elim inv.returns new

theorem setSem (change : SignalSemaphore → SignalSemaphore) (here : ∀ e ∈ events, e.sem = i)
    (ok : SemOk i (change (st.sems i)) (w i) st.obtaining (trace ++ events))
    (returns : ∀ {t j owner}, .obtained t j owner ∈ events → owner = some t) :
    (st.setSem i change).Inv (trace ++ events) q w where
  sched := inv.sched
  waits := inv.waits
  inside := inv.inside
  listed := inv.listed
  sems := fun j => by
    have all := inv.semsAt here (fun _ _ _ => .rfl) ok j
    rwa [Function.update_eq_self] at all
  returns := inv.returnsAppend returns

theorem reschedule {q' : QueueId → List Nat} (sched : after.Inv q')
    (spared : ∀ {t i task}, st.obtaining t = some i → st.sched.tasks t = some task →
        ∃ left, after.tasks t = some left ∧
          Undisturbed sigfSingle True task left) :
    Sems.Inv { st with sched := after } trace q' w where
  sched := sched
  waits := inv.waits
  inside := by
    intro t i isInside
    obtain ⟨task, found, waits, asleep⟩ := inv.inside isInside
    obtain ⟨left, isLeft, kept⟩ := spared isInside found
    exact ⟨left, isLeft, kept.inWait.trans waits, (kept.asleep_iff waits).trans asleep⟩
  listed := inv.listed
  sems := inv.sems
  returns := inv.returns

theorem schedStep {op : SchedOp} (free : (st.sched.at_ st.sched.current).inWait = none)
    (allowed : op.allowed = true) (stepped : op.step st.sched = some after) :
    ∃ q', Sems.Inv { st with sched := after } trace q' w := by
  obtain ⟨q', holds, -⟩ := (SchedOp.step_keeps inv.sched stepped).next
  refine ⟨q', inv.reschedule holds fun {t i task} isInside found => ?_⟩
  have other : t ≠ st.sched.current := by
    rintro rfl
    nomatch (inv.outside free).symm.trans isInside
  have spares : op.Spares t sigfSingle := by
    rintro given rfl
    exact of_decide_eq_true allowed
  obtain ⟨left, isLeft, spared⟩ := SchedOp.step_spares inv.sched found stepped sigfSingle
  have kept := spared other
  exact ⟨left, isLeft, kept.inWait, kept.fell, fun _ => kept.stays spares⟩

theorem take (free : (st.sems i).owner = none) (outside : st.obtaining st.sched.current = none)
    (isTake : IsTake st.sched.current i event) :
    (st.setSem i ({ · with owner := some st.sched.current, nestCount := 1 }
      )).Inv (trace ++ [event]) q w := by
  refine inv.setSem _ ?_ ((inv.sems i).take free outside isTake) ?_
  · intro e isE
    obtain rfl := mem_singleton.mp isE
    cases isTake <;> rfl
  · intro t j owner isReturn
    obtain rfl := mem_singleton.mp isReturn
    cases isTake
    rfl

theorem takeAgain (mine : (st.sems i).owner = some st.sched.current)
    (room : (st.sems i).nestCount + 1 < 2 ^ 15) (outside : st.obtaining st.sched.current = none)
    (isTake : IsTake st.sched.current i event) :
    (st.setSem i fun sem =>
      { sem with nestCount := word (sem.nestCount + 1) }).Inv (trace ++ [event]) q w := by
  refine inv.setSem _ ?_ ((inv.sems i).takeAgain mine room outside isTake) ?_
  · intro e isE
    obtain rfl := mem_singleton.mp isE
    cases isTake <;> rfl
  · intro t j owner isReturn
    obtain rfl := mem_singleton.mp isReturn
    cases isTake
    rfl

theorem enqueue {waited : Waited} (taken : (st.sems i).owner ≠ none)
    (notMine : (st.sems i).owner ≠ some st.sched.current)
    (free : (st.sched.at_ st.sched.current).inWait = none)
    (isWait : croiWait sigfSingle (croiSetSignal 0 sigfSingle st.sched).2 = some (waited, after)) :
    waited = .blocked ∧ ∃ q', Sems.Inv
      { sched := after
        sems := update st.sems i { st.sems i with queueCount := word ((st.sems i).queueCount + 1) }
        waits := st.waits.addTail i st.sched.current
        obtaining := update st.obtaining st.sched.current (some i) }
      (trace ++ [.queued st.sched.current i]) q'
      (update w i (w i ++ [st.sched.current])) := by
  have outside := inv.outside free
  have unlisted (j : Nat) : st.sched.current ∉ w j := fun listed =>
    nomatch outside.symm.trans (inv.listed listed)
  set cleared := (croiSetSignal 0 sigfSingle st.sched).2 with isCleared
  obtain ⟨q₁, holds, -⟩ := (inv.sched.setFree free (fun task => { task with
      sigRecvd := task.sigRecvd &&& ~~~ sigfSingle ||| 0 &&& sigfSingle })
    (fun _ => rfl) fun _ => rfl).next
  replace holds : cleared.Inv q₁ := holds
  obtain ⟨task, found, -⟩ := inv.sched.known
  -- the stale signal is gone, so the wait blocks
  have noHit : (cleared.at_ cleared.current).sigRecvd &&& sigfSingle = 0 := by
    show ((st.sched.setTask _ _).at_ st.sched.current).sigRecvd &&& _ = 0
    rw [Sched.setTask_at_self found]
    simp [BitVec.and_assoc, BitVec.not_and_self]
  cases waited with
  | returned hit =>
    obtain ⟨-, isHit, some, -⟩ := holds.waitRound_returned isWait
    exact absurd (isHit.trans noHit) some
  | blocked =>
    obtain ⟨step, listed, -, tasks⟩ := holds.waitRound_blocked isWait
    obtain ⟨q', isInv, -⟩ := step.next
    have notNext := holds.ne_current listed
    replace notNext : after.current ≠ st.sched.current := notNext
    have asleep : ∃ left, after.tasks st.sched.current = some left ∧
        left.inWait = some sigfSingle ∧ left.state = .wait := by
      refine ⟨{ task with
        sigRecvd := task.sigRecvd &&& ~~~ sigfSingle ||| 0 &&& sigfSingle
        sigWait := sigfSingle
        state := .wait
        inWait := some sigfSingle }, ?_, rfl, rfl⟩
      rw [tasks, setTask_other notNext.symm]
      show ((st.sched.setTask _ _).setTask st.sched.current _).tasks st.sched.current = _
      rw [setTask_self, setTask_self, found]
      rfl
    refine ⟨rfl, q', isInv, inv.waits.addTail unlisted, ?_, ?_, ?_, ?_⟩
    · intro t j isInside
      dsimp only at isInside
      by_cases isMe : t = st.sched.current
      · subst isMe
        rw [update_self] at isInside
        cases isInside
        obtain ⟨left, isLeft, waits, state⟩ := asleep
        refine ⟨left, isLeft, waits, fun _ => ?_, fun _ => state⟩
        rw [update_self]
        exact mem_append_right _ (mem_cons_self ..)
      · rw [update_of_ne isMe] at isInside
        obtain ⟨waiter, isFound, waits, state⟩ := inv.inside isInside
        have stays : cleared.tasks t = some waiter := by
          show (st.sched.setTask _ _).tasks t = _
          rw [setTask_other isMe, isFound]
        obtain ⟨left, isLeft, spared⟩ := holds.picked_spares stays listed tasks
        have kept := spared isMe
        refine ⟨left, isLeft, kept.inWait.trans waits,
          ((kept.asleep_iff waits).trans state).trans ?_⟩
        by_cases same : j = i
        · subst same
          rw [update_self, mem_append, mem_singleton]
          exact ⟨.inl, fun either => either.resolve_right isMe⟩
        · rw [update_of_ne same]
    · intro t j isListed
      dsimp only
      by_cases isMe : t = st.sched.current
      · subst isMe
        rw [update_self]
        by_cases same : j = i
        · rw [same]
        · rw [update_of_ne same] at isListed
          exact absurd isListed (unlisted j)
      · rw [update_of_ne isMe]
        by_cases same : j = i
        · subst same
          rw [update_self, mem_append, mem_singleton]
            at isListed
          exact inv.listed (isListed.resolve_right isMe)
        · rw [update_of_ne same] at isListed
          exact inv.listed isListed
    · refine inv.semsAt (by simp [SemEvent.sem]) (fun t j other => ?_)
        ((inv.sems i).enqueue taken notMine)
      dsimp only
      by_cases isMe : t = st.sched.current
      · subst isMe
        rw [update_self, outside]
        exact ⟨fun now => absurd (Option.some.inj now).symm other, nofun⟩
      · rw [update_of_ne isMe]
    · exact inv.returnsAppend (by simp)

theorem resume {after : Sems} (resumed : resumeObtain st = some (after, events)) :
    ∃ q', after.Inv (trace ++ events) q' w := by
  obtain ⟨⟨waited, sched⟩, isWait, same⟩ := map_eq_some_iff.mp resumed
  have spared {t : Nat} {task : Task} (other : t ≠ st.sched.current)
      (found : st.sched.tasks t = some task) :
      ∃ left, sched.tasks t = some left ∧ Undisturbed sigfSingle True task left := by
    unfold resumeWait at isWait
    split at isWait
    · cases isWait
    · obtain ⟨left, isLeft, kept⟩ := inv.sched.waitRound_spares found isWait
      exact ⟨left, isLeft, kept other⟩
  have isInv : ∃ q', sched.Inv q' := by
    unfold resumeWait at isWait
    split at isWait
    · cases isWait
    · obtain ⟨q', holds, -⟩ := (inv.sched.waitRound isWait).next
      exact ⟨q', holds⟩
  obtain ⟨q', holds⟩ := isInv
  refine ⟨q', ?_⟩
  cases isInside : st.obtaining st.sched.current with
  | none =>
    rw [isInside] at same
    have unchanged : after = { st with sched := sched } ∧ events = [] := by
      cases waited <;> exact (Prod.mk.inj same).imp Eq.symm Eq.symm
    obtain ⟨rfl, rfl⟩ := unchanged
    rw [append_nil]
    refine inv.reschedule holds fun {t i task} inside found => ?_
    refine spared (fun isMe => ?_) found
    subst isMe
    nomatch isInside.symm.trans inside
  | some i =>
    obtain ⟨task, found, waits, asleep⟩ := inv.inside isInside
    obtain ⟨running, isRunning, isRun⟩ := inv.sched.known
    cases found.symm.trans isRunning
    have unlisted : st.sched.current ∉ w i := fun listed =>
      nomatch isRun.symm.trans (asleep.mpr listed)
    obtain ⟨mine, -⟩ := (inv.sems i).granted isInside unlisted
    -- a task that runs has been woken, so the wait returns
    obtain ⟨hit, left, returned⟩ := inv.sched.resume_returns (by rw [at_eq found]; exact waits)
    cases isWait.symm.trans returned
    rw [isInside] at same
    cases same
    rw [mine]
    refine ⟨holds, inv.waits, ?_, ?_, ?_, ?_⟩
    · intro t j inside
      dsimp only at inside
      have other : t ≠ st.sched.current := by
        rintro rfl
        rw [update_self] at inside
        cases inside
      rw [update_of_ne other] at inside
      obtain ⟨waiter, isFound, isWaiting, state⟩ := inv.inside inside
      obtain ⟨left, isLeft, kept⟩ := spared other isFound
      exact ⟨left, isLeft, kept.inWait.trans isWaiting, (kept.asleep_iff isWaiting).trans state⟩
    · intro t j listed
      dsimp only
      rw [update_of_ne]
      · exact inv.listed listed
      · rintro rfl
        have isSame := (inv.listed listed).symm.trans isInside
        cases isSame
        exact unlisted listed
    · intro j
      have all := inv.semsAt (by simp [SemEvent.sem]) (fun t j other => ?_)
        ((inv.sems i).wake isInside unlisted) j
      · rwa [Function.update_eq_self, Function.update_eq_self] at all
      · by_cases isMe : t = st.sched.current
        · subst isMe
          rw [update_self, isInside]
          exact ⟨nofun, fun some => absurd (Option.some.inj some).symm other⟩
        · rw [update_of_ne isMe]
    · exact inv.returnsAppend (by simp +contextual)

section

variable (mine : (st.sems i).owner = some st.sched.current)
include mine

theorem nestCount_pred :
    (if 0 < (st.sems i).nestCount then
        { st.sems i with nestCount := word ((st.sems i).nestCount - 1) }
      else st.sems i) =
      { st.sems i with nestCount := (st.sems i).nestCount - 1 } ∧
      0 < (st.sems i).nestCount := by
  obtain ⟨positive, small⟩ := (inv.sems i).nest (by simp [mine])
  rw [if_pos positive, word_small (by omega) (by omega)]
  exact ⟨rfl, positive⟩

theorem handOver {waiter : Nat} {rest : List Nat} (outside : st.obtaining st.sched.current = none)
    (last : (st.sems i).nestCount = 1) (isQueue : w i = waiter :: rest) :
    ∃ q', Sems.Inv
      { st with
        sched := croiSignal waiter sigfSingle st.sched
        sems := update st.sems i
          { nestCount := 1
            queueCount := word ((st.sems i).queueCount - 1)
            owner := some waiter }
        waits := st.waits.remove waiter }
      (trace ++ [.released st.sched.current i, .handed waiter i]) q'
      (update w i rest) := by
  have listed : waiter ∈ w i := by simp [isQueue]
  have isInside := inv.listed listed
  obtain ⟨task, found, waits, asleep⟩ := inv.inside isInside
  have isAsleep := asleep.mpr listed
  have nodup := (inv.waits.holds i).nodup
  rw [isQueue] at nodup
  obtain ⟨new, -⟩ := nodup_cons.mp nodup
  obtain ⟨step, -, tasks⟩ := inv.sched.croiSignal
    (by rw [found]; exact Option.some_ne_none _) sigfSingle_ne
  obtain ⟨q', holds, -⟩ := step.next
  refine ⟨q', holds, inv.waits.remove (show w i = [] ++ waiter :: rest from isQueue),
    ?_, ?_, ?_, ?_⟩
  · intro t j inside
    replace inside : st.obtaining t = some j := inside
    rw [tasks]
    by_cases isWaiter : t = waiter
    · subst isWaiter
      cases isInside.symm.trans inside
      -- the waiter sleeps on this very signal
      have mask : task.sigWait = sigfSingle := by
        obtain ⟨isMask, -⟩ := (inv.sched.tuned found).asleep isAsleep
        exact Option.some.inj (isMask.symm.trans waits)
      have wakes : task.state = .wait ∧ (task.sigRecvd ||| sigfSingle) &&& task.sigWait ≠ 0 := by
        refine ⟨isAsleep, ?_⟩
        rw [mask, BitVec.or_comm]
        refine and_or_ne_zero ?_
        decide
      rw [setTask_self, found, update_self]
      refine ⟨_, rfl, ?_, ?_⟩
      · rwa [Task.signalled, if_pos wakes]
      · rw [Task.signalled, if_pos wakes]
        exact iff_of_false TaskState.noConfusion new
    · obtain ⟨other, isOther, isWaiting, state⟩ := inv.inside inside
      refine ⟨other, ?_, isWaiting, state.trans ?_⟩
      · rw [setTask_other isWaiter, isOther]
      · by_cases same : j = i
        · subst same
          rw [update_self, isQueue, mem_cons]
          exact ⟨fun either => either.resolve_left isWaiter, .inr⟩
        · rw [update_of_ne same]
  · intro t j isListed
    by_cases same : j = i
    · subst same
      rw [update_self] at isListed
      exact inv.listed (by rw [isQueue]; exact mem_cons_of_mem _ isListed)
    · rw [update_of_ne same] at isListed
      exact inv.listed isListed
  · have ok := inv.sems i
    rw [isQueue] at ok
    exact inv.semsAt (by simp [SemEvent.sem]) (fun _ _ _ => .rfl)
      (ok.handOver mine outside last isInside nodup)
  · exact inv.returnsAppend (by simp)

theorem release (outside : st.obtaining st.sched.current = none) :
    ∃ q' w', (croiReleaseSemaphore i st).Inv
      (trace ++ .released st.sched.current i ::
        handedOver i st (croiReleaseSemaphore i st)) q' w' := by
  obtain ⟨pred, positive⟩ := inv.nestCount_pred mine
  unfold croiReleaseSemaphore Sems.setSem handedOver
  simp only [update_self, pred]
  by_cases deeper : (st.sems i).nestCount - 1 ≠ 0
  · rw [if_pos deeper]
    simp only [update_self, mine, if_pos]
    rw [← mine]
    refine ⟨q, w, inv.setSem (fun sem =>
      { sem with nestCount := sem.nestCount - 1 }) ?_ ?_ ?_⟩
    · intro e isE
      obtain rfl := mem_singleton.mp isE
      rfl
    · exact (inv.sems i).giveBack mine outside (by omega)
    · intro t j owner isReturn
      cases mem_singleton.mp isReturn
  · rw [if_neg deeper]
    have last : (st.sems i).nestCount = 1 := by omega
    rw [inv.waits.remHead_eq]
    cases isQueue : w i with
    | nil =>
      dsimp only [List.head?, Option.map]
      simp only [update_self, update_idem]
      refine ⟨q, w, inv.setSem (fun sem =>
        { sem with owner := none, nestCount := sem.nestCount - 1 }) ?_ ?_ ?_⟩
      · intro e isE
        obtain rfl := mem_singleton.mp isE
        rfl
      · have ok := inv.sems i
        rw [isQueue] at ok ⊢
        rw [last]
        exact ok.giveUp mine outside last
      · intro t j owner isReturn
        cases mem_singleton.mp isReturn
    | cons waiter rest =>
      dsimp only [List.head?, Option.map]
      simp only [update_self, update_idem]
      have notMe : waiter ≠ st.sched.current := by
        rintro rfl
        have listed : st.sched.current ∈ w i := by simp [isQueue]
        nomatch outside.symm.trans (inv.listed listed)
      rw [if_neg notMe]
      obtain ⟨q', holds⟩ := inv.handOver mine outside last isQueue
      exact ⟨q', _, holds⟩

end

theorem step {op : SemOp} {after : Sems} (stepped : op.step st = some (after, events)) :
    ∃ q' w', after.Inv (trace ++ events) q' w' := by
  unfold SemOp.step at stepped
  dsimp only at stepped
  cases isFree : (st.sched.at_ st.sched.current).inWait with
  | some mask =>
    rw [isFree] at stepped
    cases op with
    | resume =>
      obtain ⟨q', holds⟩ := inv.resume stepped
      exact ⟨q', w, holds⟩
    | _ => cases stepped
  | none =>
    rw [isFree] at stepped
    have outside := inv.outside isFree
    cases op with
    | obtain i =>
      dsimp only at stepped
      split at stepped
      · rename_i room
        obtain ⟨⟨returned, left⟩, obtained, same⟩ := map_eq_some_iff.mp stepped
        cases same
        unfold croiObtainSemaphore at obtained
        dsimp only at obtained
        split at obtained
        · rename_i free
          cases obtained
          refine ⟨q, w, ?_⟩
          have owner : ((st.setSem i ({ · with
              owner := some st.sched.current, nestCount := 1 })).sems
                i).owner = some st.sched.current := by
            simp [Sems.setSem]
          rw [owner]
          exact inv.take free outside .obtained
        · rename_i taken
          split at obtained
          · rename_i mine
            cases obtained
            refine ⟨q, w, ?_⟩
            have owner : ((st.setSem i fun sem => { sem with
                nestCount := word (sem.nestCount + 1) }).sems i).owner = some st.sched.current := by
              simp [Sems.setSem, mine]
            rw [owner]
            exact inv.takeAgain mine (room mine) outside .obtained
          · rename_i notMine
            obtain ⟨⟨waited, sched⟩, isWait, isLeft⟩ := map_eq_some_iff.mp obtained
            obtain ⟨rfl, q', holds⟩ := inv.enqueue taken notMine isFree isWait
            cases isLeft
            exact ⟨q', _, holds⟩
      · cases stepped
    | attempt i =>
      dsimp only at stepped
      split at stepped
      · rename_i room
        unfold croiAttemptSemaphore at stepped
        dsimp only at stepped
        split at stepped
        · rename_i free
          cases stepped
          exact ⟨q, w, inv.take free outside .attempted⟩
        · split at stepped
          · rename_i mine
            cases stepped
            exact ⟨q, w, inv.takeAgain mine (room mine) outside .attempted⟩
          · cases stepped
            refine ⟨q, w, ?_⟩
            rwa [if_neg Bool.false_ne_true, append_nil]
      · cases stepped
    | release i =>
      dsimp only at stepped
      split at stepped
      · rename_i mine
        cases stepped
        exact inv.release mine outside
      · cases stepped
    | resume => cases stepped
    | sched op =>
      dsimp only at stepped
      split at stepped
      · rename_i allowed
        obtain ⟨sched, isStep, same⟩ := map_eq_some_iff.mp stepped
        obtain ⟨rfl, rfl⟩ := Prod.mk.inj same
        obtain ⟨q', holds⟩ := inv.schedStep isFree allowed isStep
        rw [append_nil]
        exact ⟨q', w, holds⟩
      · cases stepped

theorem run {ops : List SemOp} {last : Sems} {more : List SemEvent}
    (ran : st.run ops = some (last, more)) : ∃ q' w', last.Inv (trace ++ more) q' w' := by
  induction ops generalizing st trace q w more with
  | nil =>
    cases ran
    rw [append_nil]
    exact ⟨q, w, inv⟩
  | cons op rest ih =>
    obtain ⟨⟨after, events⟩, stepped, rest⟩ := Option.bind_eq_some_iff.mp ran
    obtain ⟨⟨end_, later⟩, ranRest, same⟩ := map_eq_some_iff.mp rest
    cases same
    obtain ⟨q', w', holds⟩ := inv.step stepped
    rw [← append_assoc]
    exact ih holds ranRest

theorem queue_eq (i : Nat) : st.queue i = w i := by
  have holds := inv.waits.holds i
  refine holds.nodes_eq ?_
  have asleep : w i ⊆ q .sleepers := by
    intro t listed
    obtain ⟨task, found, -, asleep⟩ := inv.inside (inv.listed listed)
    exact inv.sched.mem_of_state found (asleep.mpr listed)
  have short := (subperm_of_subset holds.nodup asleep).length_le
  have size := inv.sched.core.size
  unfold queued at size
  omega

end Sems.Inv

end Steps

/-- What the users of semaphores see. -/
structure Sems.Sound (st : Sems) (trace : List SemEvent) : Prop where
  returns : ∀ t i owner, .obtained t i owner ∈ trace → owner = some t
  owner : ∀ t i, 0 < held trace i t → (st.sems i).owner = some t
  exclusive : ∀ i t u, 0 < held trace i t → 0 < held trace i u → t = u
  order : ∀ i, handedOn trace i ++ st.queue i = queuedOn trace i
  busy : ∀ i, st.queue i ≠ [] → (st.sems i).owner ≠ none
  count : ∀ i, (st.sems i).queueCount = word ((st.queue i).length - 1)
  exact : ∀ i, (st.queue i).length ≤ 2 ^ 15 → (st.sems i).queueCount + 1 = (st.queue i).length

theorem Sems.Inv.sound {st : Sems} {trace : List SemEvent} {q : QueueId → List Nat}
    {w : Nat → List Nat} (inv : st.Inv trace q w) : st.Sound trace := by
  have owner (t i : Nat) (isHeld : 0 < held trace i t) : (st.sems i).owner = some t := by
    by_contra notMine
    unfold held at isHeld
    rw [(inv.sems i).taken t, holding_other notMine] at isHeld
    omega
  have count (i : Nat) : (st.sems i).queueCount = word ((st.queue i).length - 1) := by
    rw [inv.queue_eq]
    exact (inv.sems i).count
  refine ⟨fun t i owner => inv.returns, owner, ?_, ?_, ?_, count, ?_⟩
  · intro i t u isT isU
    have same := (owner t i isT).symm.trans (owner u i isU)
    exact Option.some.inj same
  · intro i
    rw [inv.queue_eq]
    exact (inv.sems i).log
  · intro i waiting free
    rw [inv.queue_eq] at waiting
    exact waiting ((inv.sems i).free free).2
  · intro i short
    rw [count i, word_small (by omega) (by omega)]
    omega

/--
In every interleaving `ObtainSemaphore` returns to the owner, a semaphore has
one owner at a time, waiters get it in the order they queued, and
`ss_QueueCount` counts them as far as a `WORD` can.
-/
theorem semaphores_run_sound (boot : Nat) (ops : List SemOp) (st : Sems) (trace : List SemEvent)
    (ran : (Sems.boot boot).run ops = some (st, trace)) : st.Sound trace := by
  obtain ⟨q, w, inv⟩ := (Sems.Inv.boot boot).run ran
  exact inv.sound

/-- Two tasks and one semaphore, which is handed over. -/
theorem semaphores_run_sound_handed :
    ∃ st trace,
      (Sems.boot 0).run
          [.obtain 7, .sched (.spawn 1 127), .sched .yield, .obtain 7,
            .release 7, .sched .yield, .resume] = some (st, trace) ∧
        st.Sound trace := by
  have runs : ((Sems.boot 0).run [.obtain 7, .sched (.spawn 1 127), .sched .yield, .obtain 7,
        .release 7, .sched .yield, .resume]).isSome = true := by
    decide
  obtain ⟨⟨st, trace⟩, ran⟩ := Option.isSome_iff_exists.mp runs
  exact ⟨st, trace, ran, semaphores_run_sound 0 _ st trace ran⟩

/-! ## A crowd of waiters -/

/-- One task runs, and everybody else sleeps: the owner of semaphore 0 and those that wait for it. -/
structure Crowd (n : Nat) (st : Sems) : Prop where
  inv : ∃ trace q w, st.Inv trace q w ∧ (w 0).length = n
  current : st.sched.current = n + 1
  free : (st.sched.at_ (n + 1)).inWait = none
  asleep : ∀ {t task}, t ≠ n + 1 → st.sched.tasks t = some task → task.state = .wait
  room : ∀ {t}, n + 1 < t → st.sched.tasks t = none
  owner : (st.sems 0).owner = some 0

/-- The running task starts another one and queues up itself. -/
theorem Crowd.grow {n : Nat} {st : Sems} (crowd : Crowd n st) :
    ∃ middle after events, (SemOp.sched (.spawn (n + 2) 0)).step st = some (middle, []) ∧
      (SemOp.obtain 0).step middle = some (after, events) ∧ Crowd (n + 1) after := by
  obtain ⟨trace, q, w, inv, waiters⟩ := crowd.inv
  have free : (st.sched.at_ st.sched.current).inWait = none := by
    rw [crowd.current]
    exact crowd.free
  have spawned : (SchedOp.spawn (n + 2) 0).step st.sched = some (croiSpawn (n + 2) 0 st.sched) := by
    unfold SchedOp.step
    rw [free]
    exact if_pos (crowd.room (Nat.lt_succ_self _))
  obtain ⟨q₁, inv₁⟩ := inv.schedStep free rfl spawned
  set born := croiSpawn (n + 2) 0 st.sched with isBorn
  have current₁ : born.current = n + 1 := by
    rw [isBorn, croiSpawn, runqAdd_current]
    exact crowd.current
  have tasks₁ : born.tasks = update st.sched.tasks (n + 2)
      (some { taskInitNode (clampPri 0) with state := .ready }) := by
    rw [isBorn, croiSpawn, runqAdd_tasks]
  have free₁ : (born.at_ born.current).inWait = none := by
    rw [current₁, Sched.at_, tasks₁, update_of_ne (by omega)]
    exact crowd.free
  have taken : (st.sems 0).owner ≠ none := by
    rw [crowd.owner]
    exact Option.some_ne_none _
  have notMine : (st.sems 0).owner ≠ some born.current := by
    rw [crowd.owner, current₁]
    simp
  -- the new task is ready, so there is somebody to switch to
  set cleared := (croiSetSignal 0 sigfSingle born).2 with isCleared
  obtain ⟨q₂, holds, -⟩ := (inv₁.sched.setFree free₁ (fun task => { task with
      sigRecvd := task.sigRecvd &&& ~~~ sigfSingle ||| 0 &&& sigfSingle })
    (fun _ => rfl) fun _ => rfl).next
  replace holds : cleared.Inv q₂ := holds
  have others {t : Nat} (notOld : t ≠ n + 1) : cleared.tasks t = born.tasks t :=
    setTask_other (by rw [current₁]; exact notOld) _
  have isNew : cleared.tasks (n + 2) = some { taskInitNode (clampPri 0) with state := .ready } := by
    rw [others (by omega), tasks₁, update_self]
  obtain ⟨waited, after, round⟩ := holds.waitRound_isSome (holds.mem_of_state isNew rfl) sigfSingle
  have isWait : croiWait sigfSingle cleared = some (waited, after) := by
    unfold croiWait
    rwa [if_neg sigfSingle_ne]
  obtain ⟨rfl, q', isInv⟩ := inv₁.enqueue taken notMine free₁ isWait
  obtain ⟨-, listed, -, tasks⟩ := holds.waitRound_blocked round
  have next : after.current = n + 2 := by
    obtain ⟨task, found, ready⟩ := holds.core.members listed
    have notOld : after.current ≠ n + 1 := by
      rw [← current₁]
      exact holds.ne_current listed
    by_contra notNew
    rw [others notOld, tasks₁, update_of_ne notNew] at found
    cases ready.symm.trans (crowd.asleep notOld found)
  rw [next, show cleared.current = n + 1 from current₁] at tasks
  refine ⟨{ st with sched := born }, _, [.queued born.current 0], ?_, ?_,
    ⟨_, _, _, isInv, ?_⟩, next, ?_, ?_, ?_, crowd.owner⟩
  · unfold SemOp.step
    dsimp only
    rw [free]
    show Option.map _ ((SchedOp.spawn (n + 2) 0).step st.sched) = _
    rw [spawned]
    rfl
  · have canNest : Sems.CanNest { st with sched := born } 0 := fun mine => absurd mine notMine
    unfold SemOp.step
    dsimp only
    rw [free₁]
    rw [if_pos canNest]
    unfold croiObtainSemaphore
    rw [if_neg taken, if_neg notMine]
    show Option.map _ (Option.map _ (croiWait sigfSingle cleared)) = _
    rw [isWait]
    rfl
  · rw [update_self, length_append, waiters]
    rfl
  · show (after.at_ (n + 2)).inWait = none
    rw [Sched.at_, tasks, setTask_self, setTask_other (by omega), isNew]
    rfl
  · intro t task notNew found
    replace found : after.tasks t = some task := found
    rw [tasks, setTask_other notNew] at found
    by_cases isOld : t = n + 1
    · subst isOld
      rw [setTask_self] at found
      obtain ⟨before, -, rfl⟩ := map_eq_some_iff.mp found
      rfl
    · rw [setTask_other isOld, others isOld, tasks₁, update_of_ne notNew] at found
      exact crowd.asleep isOld found
  · intro t beyond
    show after.tasks t = none
    rw [tasks, setTask_other (by omega), setTask_other (by omega), others (by omega), tasks₁,
      update_of_ne (by omega)]
    exact crowd.room (by omega)

theorem Crowd.grows {n : Nat} {st : Sems} (crowd : Crowd n st) (more : Nat) :
    ∃ ops after trace, st.run ops = some (after, trace) ∧ Crowd (n + more) after := by
  induction more generalizing n st with
  | zero => exact ⟨[], st, [], rfl, crowd⟩
  | succ more ih =>
    obtain ⟨middle, queued, events, spawned, obtained, grown⟩ := crowd.grow
    obtain ⟨ops, after, trace, ran, grownAll⟩ := ih grown
    refine ⟨.sched (.spawn (n + 2) 0) :: .obtain 0 :: ops, after, [] ++ (events ++ trace), ?_, ?_⟩
    · simp only [Sems.run, spawned, obtained, ran, Option.bind_some, Option.map_some]
    · rwa [Nat.add_right_comm] at grownAll

theorem Sems.run_append (ops more : List SemOp) (st : Sems) :
    st.run (ops ++ more) = (st.run ops).bind fun middle =>
      (middle.1.run more).map fun last => (last.1, middle.2 ++ last.2) := by
  induction ops generalizing st with
  | nil => simp [Sems.run]
  | cons op rest ih =>
    simp [Sems.run, ih, Option.bind_map, Option.map_bind, Option.bind_assoc, Function.comp_def]

/-- With 32769 tasks in the queue, `ss_QueueCount` has wrapped around. -/
theorem queueCount_wraps :
    ∃ ops st trace,
      (Sems.boot 0).run ops = some (st, trace) ∧
        (st.queue 0).length = 32769 ∧
          (st.sems 0).queueCount + 1 ≠ (st.queue 0).length := by
  -- the boot task takes the semaphore and goes to sleep with it
  let first : List SemOp := [.obtain 0, .sched (.spawn 1 0), .sched (.wait 1)]
  obtain ⟨asleep, before, slept, crowd⟩ : ∃ st trace,
      (Sems.boot 0).run first = some (st, trace) ∧ Crowd 0 st := by
    refine ⟨_, _, rfl, ?_, rfl, rfl, ?_, ?_, rfl⟩
    · obtain ⟨q, w, inv⟩ := (Sems.Inv.boot 0).run (show (Sems.boot 0).run first = _ from rfl)
      exact ⟨_, q, w, inv, congrArg length (inv.queue_eq 0).symm⟩
    · intro t task notNew found
      match t with
      | 0 =>
        cases found
        rfl
      | t + 2 => cases found
    · intro t beyond
      match t with
      | t + 2 => rfl
  obtain ⟨ops, st, trace, ran, full⟩ := crowd.grows 32769
  obtain ⟨seen, q, w, inv, waiters⟩ := full.inv
  have length : (st.queue 0).length = 32769 := by
    rw [inv.queue_eq, waiters]
  refine ⟨first ++ ops, st, before ++ trace, ?_, length, ?_⟩
  · rw [Sems.run_append, slept, Option.bind_some, ran]
    rfl
  · rw [inv.sound.count 0, length]
    decide

end CaraOS.Croi
