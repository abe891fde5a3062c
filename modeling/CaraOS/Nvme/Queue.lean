import CaraOS.Carafs.Format
import CaraOS.Lib.PhaseRing
import CaraOS.Lib.Reach

namespace CaraOS.Nvme

/-!
# Commands and completions

`nvme_submit_sync` of `queue.c`: a command is written into the submission
queue, and the completion queue is polled until an entry with the expected
phase shows up.  The controller completes the commands in the order in which
they were submitted, each once, whenever it likes.

A call is known by its number.  Which call a completion answers is history: the
driver sees the command identifier only, of which there are `2 ^ 16`.
-/

open Carafs (Err)
open PhaseRing List
open Reach

/-! ## The code -/

/-- The arguments of a call. -/
structure Args where
  opcode : Nat
  nsid : Nat
  prp1 : Nat
  prp2 : Nat
  cdw10 : Nat
  cdw11 : Nat
  cdw12 : Nat

/-- A submission queue entry. -/
structure Sqe where
  args : Args
  cid : Nat

/-- A completion queue entry without its phase; `call` is history. -/
structure Cqe where
  dw0 : Nat
  cid : Nat
  status : Nat
  call : Nat
  deriving DecidableEq

/-- `struct NvmeQueue`; a completion slot has an entry and its phase tag. -/
structure NvmeQueue where
  entries : Nat
  sq : Nat → Sqe
  cq : Nat → Cqe × Bool
  sqTail : Nat
  cqHead : Nat
  cqPhase : Bool
  nextCid : Nat

/-- The first half of `nvme_submit_sync`: the entry that is handed over. -/
def NvmeQueue.submit (args : Args) (q : NvmeQueue) : Sqe × NvmeQueue :=
  let sqe : Sqe := ⟨args, q.nextCid⟩
  (sqe, { q with
      nextCid := (q.nextCid + 1) % 2 ^ 16
      sq := Function.update q.sq q.sqTail sqe
      sqTail := (q.sqTail + 1) % q.entries })

/-- The entry at the head of the completion queue, if it is new. -/
def NvmeQueue.peek (q : NvmeQueue) : Option Cqe :=
  if (q.cq q.cqHead).2 = q.cqPhase then some (q.cq q.cqHead).1 else none

/-- The head goes on. -/
def NvmeQueue.advance (q : NvmeQueue) : NvmeQueue :=
  let head := (q.cqHead + 1) % q.entries
  { q with
    cqHead := head
    cqPhase := if head = 0 then !q.cqPhase else q.cqPhase }

/-- What a call makes of the entry it has found. -/
def outcome (cid : Nat) (cqe : Cqe) : Except Err Nat :=
  if cqe.cid ≠ cid then .error .eio
  else if cqe.status ≠ 0 then .error .eio
  else .ok cqe.dw0

/-- How often a call polls. -/
def pollBudget : Nat :=
  1000000

/-! ## Driver and controller -/

/-- A command in the controller, and the call that submitted it. -/
structure Command where
  call : Nat
  sqe : Sqe

/-- The controller: what it has not completed, and where it posts next. -/
structure Controller where
  waiting : List Command
  tail : Cursor

/-- A call that polls: its number, its identifier and its polls so far. -/
structure Active where
  call : Nat
  cid : Nat
  spin : Nat

/-- A call that has returned, with what had been posted by then. -/
structure CallRecord where
  call : Nat
  result : Except Err Nat
  consumed : Option Cqe
  posted : List Cqe

/--
One queue and its users.  `posted` is everything that has been posted, `taken`
the number of entries that the driver has consumed.
-/
structure NvmeRun where
  q : NvmeQueue
  controller : Controller
  active : Option Active
  submitted : Nat
  taken : Nat
  posted : List Cqe
  calls : List CallRecord

/-- What may happen next. -/
inductive NvmeOp where
  | submit (args : Args)
  | post (status dw0 : Nat)
  | poll

namespace NvmeRun

/-- A call starts. -/
def submit (args : Args) (run : NvmeRun) : NvmeRun :=
  let (sqe, q) := run.q.submit args
  { run with
    q := q
    controller :=
      { run.controller with
        waiting := run.controller.waiting ++ [⟨run.submitted, sqe⟩] }
    active := some ⟨run.submitted, sqe.cid, 0⟩
    submitted := run.submitted + 1 }

/-- The controller completes its oldest command, if the ring has room. -/
def post (status dw0 : Nat) (run : NvmeRun) : NvmeRun :=
  match run.controller.waiting with
  | [] => run
  | command :: rest =>
    if run.posted.length < run.taken + run.q.entries then
      let cqe : Cqe := ⟨dw0, command.sqe.cid, status, command.call⟩
      let tail := run.controller.tail
      { run with
        q := { run.q with
          cq := Function.update run.q.cq tail.index (cqe, tail.phase) }
        controller := ⟨rest, tail.next run.q.entries⟩
        posted := run.posted ++ [cqe] }
    else
      run

/-- The call that polls returns. -/
def finish (active : Active) (result : Except Err Nat) (consumed : Option Cqe)
    (run : NvmeRun) : NvmeRun :=
  { run with
    active := none
    calls := run.calls ++ [⟨active.call, result, consumed, run.posted⟩] }

/-- One turn of the loop of `nvme_submit_sync`. -/
def poll (active : Active) (run : NvmeRun) : NvmeRun :=
  match run.q.peek with
  | some cqe =>
    finish active (outcome active.cid cqe) (some cqe)
      { run with q := run.q.advance, taken := run.taken + 1 }
  | none =>
    if active.spin + 1 = pollBudget then
      finish active (.error .eagain) none run
    else
      { run with active := some { active with spin := active.spin + 1 } }

end NvmeRun

/-- One step; there is one call at a time. -/
def NvmeOp.exec (run : NvmeRun) : NvmeOp → NvmeRun
  | .submit args =>
    match run.active with
    | none => run.submit args
    | some _ => run
  | .post status dw0 => run.post status dw0
  | .poll =>
    match run.active with
    | none => run
    | some active => run.poll active

/-- The queue as `Croi_Nvme_Setup` leaves it: zeroed, phase one expected. -/
def NvmeRun.fresh (entries : Nat) : NvmeRun where
  q := ⟨entries, fun _ => ⟨⟨0, 0, 0, 0, 0, 0, 0⟩, 0⟩, fun _ => (⟨0, 0, 0, 0⟩, false), 0, 0, true, 0⟩
  controller := ⟨[], ⟨0, true⟩⟩
  active := none
  submitted := 0
  taken := 0
  posted := []
  calls := []

/-! ## What a call owes -/

/--
A call succeeds only with its own, successful completion; and it succeeds if
that one had been posted when it returned.
-/
structure CallRecord.Sound (call : CallRecord) : Prop where
  own : ∀ dw0, call.result = .ok dw0 →
      ∃ cqe, call.consumed = some cqe ∧ cqe.call = call.call ∧ cqe.status = 0
  answered : ∀ cqe ∈ call.posted, cqe.call = call.call → cqe.status = 0 →
      ∃ dw0, call.result = .ok dw0

/-- No earlier call on the queue has timed out. -/
def NoTimeout (run : NvmeRun) : NvmeOp → Prop
  | .submit _ => ∀ call ∈ run.calls, call.result ≠ .error .eagain
  | _ => True

/-! ## The ring -/

/-- The queue is the ring of the completions that have not been consumed. -/
structure NvmeRun.Ring (run : NvmeRun) : Prop where
  holds : Holds run.q.entries run.q.cq run.taken (run.posted.drop run.taken)
  bound : run.taken ≤ run.posted.length
  head : place run.q.entries run.taken = ⟨run.q.cqHead, run.q.cqPhase⟩
  tail : place run.q.entries run.posted.length = run.controller.tail

variable {cqe : Cqe} {rest : List Cqe}

section Ring

variable {run : NvmeRun}

theorem NvmeRun.Ring.fresh {entries : Nat} (positive : 0 < entries) :
    (NvmeRun.fresh entries).Ring where
  holds := Holds.blank positive fun _ => rfl
  bound := Nat.le_refl 0
  head := place_zero
  tail := place_zero

theorem NvmeRun.Ring.peek_none (ring : run.Ring) (empty : run.taken = run.posted.length) :
    run.q.peek = none := by
  have holds := ring.holds
  rw [empty, drop_length] at holds
  have notNew := holds.not_new
  rw [← empty, ring.head] at notNew
  exact if_neg notNew

theorem NvmeRun.Ring.peek_some
    (ring : run.Ring) (isQueue : run.posted.drop run.taken = cqe :: rest) :
    run.q.peek = some cqe := by
  have holds := ring.holds
  rw [isQueue] at holds
  have isFirst := holds.first
  rw [ring.head] at isFirst
  unfold NvmeQueue.peek
  rw [isFirst, if_pos rfl]

theorem advance_eq {q : NvmeQueue} (below : q.cqHead < q.entries) :
    (⟨q.advance.cqHead, q.advance.cqPhase⟩ : Cursor) =
      Cursor.next q.entries ⟨q.cqHead, q.cqPhase⟩ := by
  unfold NvmeQueue.advance Cursor.next
  dsimp only
  by_cases last : q.cqHead + 1 = q.entries
  · rw [last, Nat.mod_self, if_pos rfl, if_pos rfl]
  · have small : q.cqHead + 1 < q.entries := by omega
    rw [Nat.mod_eq_of_lt small, if_neg (Nat.succ_ne_zero _), if_neg last]

theorem NvmeRun.Ring.advance (ring : run.Ring) (isQueue : run.posted.drop run.taken = cqe :: rest) :
    NvmeRun.Ring
      { run with q := run.q.advance, taken := run.taken + 1 } := by
  have holds := ring.holds
  have bound : run.taken < run.posted.length := by
    by_contra past
    rw [drop_eq_nil_of_le (Nat.not_lt.mp past)] at isQueue
    nomatch isQueue
  have later : run.posted.drop (run.taken + 1) = rest := by
    rw [← drop_drop, isQueue]
    rfl
  have below : run.q.cqHead < run.q.entries := by
    have isIndex : (place run.q.entries run.taken).index = run.q.cqHead :=
      congrArg Cursor.index ring.head
    rw [← isIndex]
    exact place_index_lt holds.positive
  rw [isQueue] at holds
  refine ⟨?_, bound, ?_, ring.tail⟩
  · rw [later]
    exact holds.pop
  · show place run.q.entries (run.taken + 1) = _
    rw [advance_eq below, ← ring.head, place_next holds.positive]

theorem NvmeRun.Ring.post (ring : run.Ring) (status dw0 : Nat) : (run.post status dw0).Ring := by
  unfold NvmeRun.post
  split
  · exact ring
  rename_i command rest isWaiting
  split
  · have bound := ring.bound
    have length : run.taken + (run.posted.drop run.taken).length = run.posted.length := by
      rw [length_drop]
      omega
    have pushed := ring.holds.push (by omega) (⟨dw0, command.sqe.cid, status, command.call⟩ : Cqe)
    rw [length, ring.tail] at pushed
    refine ⟨?_, ?_, ring.head, ?_⟩
    · rwa [drop_append_of_le_length bound]
    · show run.taken ≤ (run.posted ++ [_]).length
      rw [length_append]
      omega
    · rw [length_append, length_singleton, ← place_next ring.holds.positive, ring.tail]
  · exact ring

end Ring

/-! ## One call after the other -/

/-- Where the only outstanding command is. -/
inductive NvmeRun.Phase (run : NvmeRun) : Prop
  | idle :
      run.active = none → run.controller.waiting = [] →
      run.taken = run.posted.length → Phase run
  | waiting {active : Active} {sqe : Sqe} :
      run.active = some active →
      run.controller.waiting = [⟨active.call, sqe⟩] → sqe.cid = active.cid →
      run.taken = run.posted.length →
      (∀ cqe ∈ run.posted, cqe.call ≠ active.call) → Phase run
  | answered {active : Active} {front : List Cqe} {cqe : Cqe} :
      run.active = some active → run.controller.waiting = [] →
      run.posted = front ++ [cqe] → run.taken = front.length →
      cqe.call = active.call → cqe.cid = active.cid →
      (∀ old ∈ front, old.call ≠ active.call) → Phase run
  | late {call : CallRecord} :
      run.active = none → call ∈ run.calls →
      call.result = .error .eagain → Phase run

/-- What holds as long as no call follows one that has timed out. -/
structure NvmeRun.Inv (run : NvmeRun) : Prop where
  ring : run.Ring
  phase : run.Phase
  posted : ∀ cqe ∈ run.posted, cqe.call < run.submitted
  waiting : ∀ command ∈ run.controller.waiting, command.call < run.submitted
  sound : ∀ call ∈ run.calls, call.Sound

section Calls

variable {run : NvmeRun}

theorem NvmeRun.Inv.fresh {entries : Nat} (positive : 0 < entries) :
    (NvmeRun.fresh entries).Inv where
  ring := .fresh positive
  phase := .idle rfl rfl rfl
  posted := forall_mem_nil _
  waiting := forall_mem_nil _
  sound := forall_mem_nil _

theorem NvmeRun.Inv.submit (inv : run.Inv) (free : run.active = none)
    (inTime : ∀ call ∈ run.calls, call.result ≠ .error .eagain) (args : Args) :
    (run.submit args).Inv := by
  have ring : (run.submit args).Ring :=
    ⟨inv.ring.holds, inv.ring.bound, inv.ring.head, inv.ring.tail⟩
  cases inv.phase with
  | idle _ nothing caught =>
    have isWaiting : (run.submit args).controller.waiting =
        [⟨run.submitted, (run.q.submit args).1⟩] := by
      unfold NvmeRun.submit
      rw [nothing]
      rfl
    refine ⟨ring, .waiting rfl isWaiting rfl caught ?_, ?_, ?_, inv.sound⟩
    · intro cqe listed
      exact (inv.posted cqe listed).ne
    · intro cqe listed
      exact (inv.posted cqe listed).trans (Nat.lt_succ_self _)
    · rw [isWaiting]
      intro command listed
      rw [mem_singleton.mp listed]
      exact Nat.lt_succ_self _
  | waiting isActive => nomatch free.symm.trans isActive
  | answered isActive => nomatch free.symm.trans isActive
  | late _ listed timedOut => exact absurd timedOut (inTime _ listed)

theorem NvmeRun.Inv.post (inv : run.Inv) (status dw0 : Nat) : (run.post status dw0).Inv := by
  have ring := inv.ring.post status dw0
  unfold NvmeRun.post at ring ⊢
  split at ring
  · exact inv
  rename_i command rest isWaiting
  by_cases room : run.posted.length < run.taken + run.q.entries
  · rw [if_pos room] at ring ⊢
    have isCommand := inv.waiting command (by simp [isWaiting])
    refine ⟨ring, ?_, ?_, ?_, inv.sound⟩
    · cases inv.phase with
      | idle _ nothing => nomatch isWaiting.symm.trans nothing
      | waiting isActive isOwn isCid caught others =>
        obtain ⟨rfl, rfl⟩ := List.cons.inj (isWaiting.symm.trans isOwn)
        exact .answered isActive rfl rfl caught rfl isCid others
      | answered _ nothing => nomatch isWaiting.symm.trans nothing
      | late free listed timedOut => exact .late free listed timedOut
    · intro cqe listed
      rcases mem_append.mp listed with before | new
      · exact inv.posted cqe before
      · rwa [mem_singleton.mp new]
    · intro later listed
      exact inv.waiting later (by simp [isWaiting, show later ∈ rest from listed])
  · rwa [if_neg room]

theorem CallRecord.Sound.timedOut {call : Nat} {posted : List Cqe}
    (others : ∀ cqe ∈ posted, cqe.call ≠ call) :
    CallRecord.Sound ⟨call, .error .eagain, none, posted⟩ where
  own := by
    intro dw0 isOk
    nomatch isOk
  answered := by
    intro cqe listed isOwn
    exact absurd isOwn (others cqe listed)

theorem CallRecord.Sound.found {front : List Cqe} (others : ∀ old ∈ front, old.call ≠ cqe.call) :
    CallRecord.Sound
      ⟨cqe.call, outcome cqe.cid cqe, some cqe, front ++ [cqe]⟩ where
  own := by
    intro dw0 isOk
    refine ⟨cqe, rfl, rfl, ?_⟩
    by_contra failed
    have isFailed : outcome cqe.cid cqe = .error .eio := by
      unfold outcome
      rw [if_neg (not_not.mpr rfl), if_pos failed]
    nomatch isFailed.symm.trans isOk
  answered := by
    intro found listed isOwn isGood
    rcases mem_append.mp listed with before | new
    · exact absurd isOwn (others found before)
    · obtain rfl := mem_singleton.mp new
      refine ⟨found.dw0, ?_⟩
      unfold outcome
      rw [if_neg (not_not.mpr rfl), if_neg (not_not.mpr isGood)]

theorem NvmeRun.Inv.finish {active : Active} {result : Except Err Nat} {consumed : Option Cqe}
    (ring : run.Ring) (phase : (run.finish active result consumed).Phase)
    (posted : ∀ cqe ∈ run.posted, cqe.call < run.submitted)
    (waiting : ∀ command ∈ run.controller.waiting, command.call < run.submitted)
    (sound : ∀ call ∈ run.calls, call.Sound)
    (new : CallRecord.Sound ⟨active.call, result, consumed, run.posted⟩) :
    (run.finish active result consumed).Inv := by
  refine ⟨⟨ring.holds, ring.bound, ring.head, ring.tail⟩, phase, posted, waiting, ?_⟩
  intro call listed
  rcases mem_append.mp listed with before | isNew
  · exact sound call before
  · rwa [mem_singleton.mp isNew]

theorem NvmeRun.Inv.poll {active : Active} (inv : run.Inv) (isActive : run.active = some active) :
    (run.poll active).Inv := by
  unfold NvmeRun.poll
  cases inv.phase with
  | idle free => nomatch free.symm.trans isActive
  | late free => nomatch free.symm.trans isActive
  | waiting isOwner isOwn isCid caught others =>
    cases isOwner.symm.trans isActive
    rw [inv.ring.peek_none caught]
    dsimp only
    split
    · exact .finish inv.ring (.late rfl (mem_append_right _ (mem_singleton_self _)) rfl)
        inv.posted inv.waiting inv.sound (.timedOut others)
    · exact ⟨⟨inv.ring.holds, inv.ring.bound, inv.ring.head, inv.ring.tail⟩,
        .waiting rfl isOwn isCid caught others, inv.posted, inv.waiting, inv.sound⟩
  | @answered owner front cqe isOwner nothing isPosted isTaken isOwn isCid others =>
      obtain rfl := Option.some.inj (isOwner.symm.trans isActive)
      have isQueue : run.posted.drop run.taken = [cqe] := by
        rw [isPosted, isTaken, drop_left]
      rw [inv.ring.peek_some isQueue]
      refine .finish (inv.ring.advance isQueue) (.idle rfl nothing ?_)
        inv.posted inv.waiting inv.sound ?_
      · show run.taken + 1 = run.posted.length
        rw [isTaken, isPosted, length_append, length_singleton]
      · rw [← isOwn, ← isCid, isPosted]
        rw [← isOwn] at others
        exact .found others

theorem NvmeRun.Inv.exec {op : NvmeOp} (inv : run.Inv) (inTime : NoTimeout run op) :
    (op.exec run).Inv := by
  cases op with
  | submit args =>
    unfold NvmeOp.exec
    dsimp only
    split
    · rename_i free
      exact inv.submit free inTime args
    · exact inv
  | post status dw0 => exact inv.post status dw0
  | poll =>
    unfold NvmeOp.exec
    dsimp only
    split
    · exact inv
    · rename_i active isActive
      exact inv.poll isActive

end Calls

/-! ## A late completion -/

/-- The command of the examples. -/
def flush : Args :=
  ⟨0, 1, 0, 0, 0, 0, 0⟩

/-- What the first call leaves behind. -/
def timedOut : NvmeRun :=
  ((NvmeRun.fresh 64).submit flush).finish ⟨0, 0, pollBudget - 1⟩ (.error .eagain) none

end CaraOS.Nvme
