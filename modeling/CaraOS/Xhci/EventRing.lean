import CaraOS.Lib.PhaseRing
import CaraOS.Lib.Reach

namespace CaraOS.Xhci

/-!
# The event ring

`transfer.c`, `slots.c` and `endpoint.c`: control transfers and commands poll
the one event ring for their own event, and `Croi_Xhci_HidServiceEvents` hands
the interrupt transfers to their interfaces.  Each of them takes every event it
sees off the ring.

A request is known by its number, and which request an event answers is
history: the driver goes by the address of the transfer request block (TRB).
-/

open Function (update update_of_ne update_self)
open PhaseRing List
open Reach

/-! ## The code -/

def maxSlots : Nat :=
  32

/-- `CARA_XHCI_MAX_INTERFACES_PER_SLOT`. -/
def maxInterfaces : Nat :=
  4

/-- The kinds of events that are told apart. -/
inductive EventKind where
  | transfer
  | command
  | other
  deriving DecidableEq

/--
An event: its kind, the TRB it points at, completion code and residue.  `data`
is what the controller has written into the buffer of the TRB; `request` is
history.
-/
structure Event where
  kind : EventKind
  trb : Nat
  cc : Nat
  residue : Nat
  data : List (BitVec 8)
  request : Option Nat

/-- A transfer or command ring; the last slot is the link. -/
structure TrbRing where
  phys : Nat
  size : Nat
  enqueue : Nat
  cycle : Bool

/-- Enqueue a TRB; the value is its address. -/
def TrbRing.push (ring : TrbRing) : Nat × TrbRing :=
  let trb := ring.phys + ring.enqueue * 16
  if ring.enqueue + 1 = ring.size - 1 then
    (trb, { ring with enqueue := 0, cycle := !ring.cycle })
  else
    (trb, { ring with enqueue := ring.enqueue + 1 })

/--
An interface of a slot.  `usable` says that it is valid and that its interrupt
endpoint has been configured; `request` is history.
-/
structure Iface where
  usable : Bool
  intRing : TrbRing
  epMaxPacket : Nat
  outstanding : Bool
  outstandingTrb : Nat
  lastReport : List (BitVec 8)
  lastReportBytes : Nat
  reportReady : Bool
  request : Nat

/-- A slot, but for its interfaces. -/
structure Slot where
  inUse : Bool
  nInterfaces : Nat
  ep0Ring : TrbRing

/-- `struct XhciController`; an interface is known by its slot and index. -/
structure Controller where
  slots : Nat → Slot
  ifaces : Nat × Nat → Iface
  cmdRing : TrbRing
  events : Nat → Event × Bool
  size : Nat
  dequeue : Cursor

/-- The event at the dequeue pointer, if its cycle bit is the expected one. -/
def Controller.peek (c : Controller) : Option Event :=
  if (c.events c.dequeue.index).2 = c.dequeue.phase then
    some (c.events c.dequeue.index).1
  else
    none

/-- The dequeue pointer goes on. -/
def Controller.advance (c : Controller) : Controller :=
  { c with dequeue := c.dequeue.next c.size }

/-- A completed interrupt transfer is recorded for its interface. -/
def Iface.complete (event : Event) (iface : Iface) : Iface :=
  let iface := { iface with outstanding := false }
  if event.cc = 1 ∨ event.cc = 13 then
    let received :=
      if event.residue ≤ iface.epMaxPacket then
        iface.epMaxPacket - event.residue
      else
        0
    let cap := if received < 8 then received else 8
    { iface with
      lastReport := (List.range 8).map fun k =>
        if k < cap then event.data.getD k 0 else 0
      lastReportBytes := received
      reportReady := true }
  else
    iface

/-- The interface of a slot that waits for that TRB. -/
def Controller.matchSlot (c : Controller) (trb sid : Nat) : Option (Nat × Nat) :=
  if (c.slots sid).inUse then
    ((List.range (c.slots sid).nInterfaces).find? fun j =>
      (c.ifaces (sid, j)).outstanding &&
        decide ((c.ifaces (sid, j)).outstandingTrb = trb)).map fun j => (sid, j)
  else
    none

/-- The loops of `Croi_Xhci_HidServiceEvents` over slots and interfaces. -/
def Controller.matchIface (c : Controller) (trb : Nat) : Option (Nat × Nat) :=
  (List.range' 1 maxSlots).findSome? (c.matchSlot trb)

/-- What `Croi_Xhci_HidServiceEvents` does with an event. -/
def Controller.service (event : Event) (c : Controller) : Controller :=
  if event.kind = .transfer then
    match c.matchIface event.trb with
    | some key =>
      { c with
        ifaces :=
          update c.ifaces key ((c.ifaces key).complete event) }
    | none => c
  else
    c

/-! ## Pollers and device -/

/-- How often a control transfer or a command polls. -/
def pollBudget : Nat :=
  1000000

/-- What a control transfer or a command polls for. -/
structure Waiter where
  kind : EventKind
  trb : Nat
  request : Nat
  spin : Nat

/-- What a task does on the controller. -/
inductive Task where
  | idle
  | waits (waiter : Waiter)
  | services

/-- A request the device has not answered. -/
structure Pending where
  kind : EventKind
  trb : Nat
  request : Nat

/--
Controller, tasks and device.  `results` is what the last wait of a task has
returned; `taken` and `queue` describe the ring: how many events have been
removed, and which are on it.
-/
structure XhciRun where
  c : Controller
  tasks : Nat → Task
  results : Nat → Option (Nat × Nat)
  pending : List Pending
  tail : Cursor
  taken : Nat
  queue : List Event
  next : Nat

/-- What may happen next. -/
inductive XhciOp where
  | arm (sid j : Nat)
  | control (t sid : Nat) (hasData : Bool)
  | command (t : Nat)
  | service (t : Nat)
  | poll (t : Nat)
  | answer (i cc residue : Nat) (data : List (BitVec 8))
  | notice

namespace XhciRun

/-- `Croi_Xhci_HidArm`. -/
def arm (sid j : Nat) (run : XhciRun) : XhciRun :=
  let iface := run.c.ifaces (sid, j)
  if sid = 0 ∨ maxSlots < sid ∨ maxInterfaces ≤ j ∨ iface.usable = false then
    run
  else if iface.outstanding then
    run
  else
    let (trb, ring) := iface.intRing.push
    { run with
      c := { run.c with
        ifaces := update run.c.ifaces (sid, j) { iface with
            intRing := ring
            outstanding := true
            outstandingTrb := trb
            request := run.next } }
      pending := run.pending ++ [⟨.transfer, trb, run.next⟩]
      next := run.next + 1 }

/-- A task starts to poll for a request. -/
def wait (t : Nat) (kind : EventKind) (trb : Nat) (run : XhciRun) : XhciRun :=
  { run with
    tasks := update run.tasks t (.waits ⟨kind, trb, run.next, 0⟩)
    pending := run.pending ++ [⟨kind, trb, run.next⟩]
    next := run.next + 1 }

/-- `Croi_Xhci_ControlTransfer`, up to its polling. -/
def control (t sid : Nat) (hasData : Bool) (run : XhciRun) : XhciRun :=
  let slot := run.c.slots sid
  if sid = 0 ∨ maxSlots < sid ∨ slot.inUse = false then
    run
  else
    let ring := slot.ep0Ring.push.2
    let ring := if hasData then ring.push.2 else ring
    let (trb, ring) := ring.push
    wait t .transfer trb { run with c := { run.c with
        slots := update run.c.slots sid { slot with ep0Ring := ring } } }

/-- `xhci_cmd_send`, up to its polling. -/
def command (t : Nat) (run : XhciRun) : XhciRun :=
  let (trb, ring) := run.c.cmdRing.push
  wait t .command trb { run with c := { run.c with cmdRing := ring } }

/-- A wait ends. -/
def finish (t cc residue : Nat) (run : XhciRun) : XhciRun :=
  { run with
    tasks := update run.tasks t .idle
    results := update run.results t (some (cc, residue)) }

/-- A wait goes on, unless its budget is used up. -/
def spin (t : Nat) (waiter : Waiter) (run : XhciRun) : XhciRun :=
  if waiter.spin + 1 = pollBudget then
    finish t 0 0 run
  else
    { run with
      tasks := update run.tasks t (.waits { waiter with spin := waiter.spin + 1 }) }

/-- The event at the dequeue pointer leaves the ring. -/
def remove (run : XhciRun) : XhciRun :=
  { run with
    c := run.c.advance
    taken := run.taken + 1
    queue := run.queue.tail }

/-- One turn of a polling loop. -/
def poll (t : Nat) (run : XhciRun) : XhciRun :=
  match run.tasks t, run.c.peek with
  | .idle, _ => run
  | .waits waiter, none => run.spin t waiter
  | .waits waiter, some event =>
    if event.kind = waiter.kind ∧ event.trb = waiter.trb then
      run.remove.finish t event.cc event.residue
    else
      run.remove.spin t waiter
  | .services, none => { run with tasks := update run.tasks t .idle }
  | .services, some event =>
    let run := run.remove
    { run with c := run.c.service event }

/-- The device puts an event on the ring, if there is room. -/
def post (event : Event) (run : XhciRun) : XhciRun :=
  { run with
    c := { run.c with
      events := update run.c.events run.tail.index (event, run.tail.phase) }
    tail := run.tail.next run.c.size
    queue := run.queue ++ [event] }

/-- The device answers a request, once. -/
def answer (i cc residue : Nat) (data : List (BitVec 8)) (run : XhciRun) : XhciRun :=
  match run.pending[i]? with
  | none => run
  | some request =>
    if run.queue.length < run.c.size then
      post ⟨request.kind, request.trb, cc, residue, data, some request.request⟩
        { run with pending := run.pending.eraseIdx i }
    else
      run

/-- The device reports something that no request asks for. -/
def notice (run : XhciRun) : XhciRun :=
  if run.queue.length < run.c.size then
    post ⟨.other, 0, 0, 0, [], none⟩ run
  else
    run

/-- A task starts something only if it does nothing. -/
def begin (t : Nat) (run : XhciRun) (after : XhciRun) : XhciRun :=
  match run.tasks t with
  | .idle => after
  | _ => run

end XhciRun

/-- One step. -/
def XhciOp.exec (run : XhciRun) : XhciOp → XhciRun
  | .arm sid j => run.arm sid j
  | .control t sid hasData => run.begin t (run.control t sid hasData)
  | .command t => run.begin t (run.command t)
  | .service t =>
    run.begin t { run with tasks := update run.tasks t .services }
  | .poll t => run.poll t
  | .answer i cc residue data => run.answer i cc residue data
  | .notice => run.notice

/-! ## Whom an event is for -/

/--
A poll that removes an event which an outstanding request waits for hands the
event to that request: it is recorded for the interface, or the wait returns
with it.
-/
structure XhciRun.Handed (run : XhciRun) (t : Nat) (event : Event) : Prop where
  iface : ∀ key, (run.c.ifaces key).outstanding = true →
      (event.request = some (run.c.ifaces key).request ∨ (event.kind = .transfer ∧
          event.trb = (run.c.ifaces key).outstandingTrb)) →
      (run.poll t).c.ifaces key = (run.c.ifaces key).complete event
  waiter : ∀ u waiter, run.tasks u = .waits waiter → event.request = some waiter.request →
      (run.poll t).tasks u = .idle ∧ (run.poll t).results u = some (event.cc, event.residue)

/-- A poll takes no event away from the request it answers. -/
def XhciRun.PollSound (run : XhciRun) (t : Nat) : Prop :=
  run.tasks t ≠ .idle → ∀ event, run.c.peek = some event → run.Handed t event

/-- The task polls for a control transfer or a command. -/
def Task.Waits (task : Task) : Prop :=
  ∃ waiter, task = .waits waiter

/--
A control transfer or a command is alone: it starts when no interface is armed
and no task polls, and until it is over no interface is armed and nobody else
polls.
-/
def Alone (run : XhciRun) : XhciOp → Prop
  | .arm _ _ => ∀ u, ¬ (run.tasks u).Waits
  | .control _ _ _ | .command _ =>
    (∀ u, run.tasks u = .idle) ∧
      ∀ key, (run.c.ifaces key).outstanding = false
  | .service _ => ∀ u, ¬ (run.tasks u).Waits
  | _ => True

/-! ## The layout of the rings -/

/--
The interfaces as enumeration leaves them: one that can be used belongs to a
slot in use and is counted there, and the rings have their own memory.
-/
structure Laid (c : Controller) : Prop where
  known : ∀ sid j, (c.ifaces (sid, j)).usable = true →
      (c.slots sid).inUse = true ∧ j < (c.slots sid).nInterfaces
  inside : ∀ key, (c.ifaces key).usable = true →
      (c.ifaces key).intRing.enqueue + 1 < (c.ifaces key).intRing.size
  apart : ∀ key other, (c.ifaces key).usable = true → (c.ifaces other).usable = true → key ≠ other →
      (c.ifaces key).intRing.phys + 16 * (c.ifaces key).intRing.size ≤
          (c.ifaces other).intRing.phys ∨
        (c.ifaces other).intRing.phys + 16 * (c.ifaces other).intRing.size ≤
          (c.ifaces key).intRing.phys

/-- An armed interface can be found by its TRB, which lies on its ring. -/
structure Armed (c : Controller) (key : Nat × Nat) : Prop where
  usable : (c.ifaces key).usable = true
  low : 1 ≤ key.1
  high : key.1 ≤ maxSlots
  trb : ∃ i, i < (c.ifaces key).intRing.size ∧
      (c.ifaces key).outstandingTrb = (c.ifaces key).intRing.phys + i * 16

section Layout

variable {c : Controller} {key other : Nat × Nat} {trb : Nat}

theorem push_spec (ring : TrbRing) (inside : ring.enqueue + 1 < ring.size) :
    ring.push.1 = ring.phys + ring.enqueue * 16 ∧
      ring.push.2.phys = ring.phys ∧ ring.push.2.size = ring.size ∧
      ring.push.2.enqueue + 1 < ring.size := by
  unfold TrbRing.push
  split <;> exact ⟨rfl, rfl, rfl, by dsimp only; omega⟩

theorem complete_spec (event : Event) (iface : Iface) :
    (iface.complete event).outstanding = false ∧
      (iface.complete event).usable = iface.usable ∧
      (iface.complete event).intRing = iface.intRing := by
  unfold Iface.complete
  split <;> exact ⟨rfl, rfl, rfl⟩

theorem Laid.update {iface : Iface} (laid : Laid c) (usable : iface.usable = (c.ifaces key).usable)
    (phys : iface.intRing.phys = (c.ifaces key).intRing.phys)
    (size : iface.intRing.size = (c.ifaces key).intRing.size)
    (inside : iface.usable = true → iface.intRing.enqueue + 1 < iface.intRing.size) :
    Laid { c with ifaces := Function.update c.ifaces key iface } := by
  have same (other : Nat × Nat) : (Function.update c.ifaces key iface other).usable =
          (c.ifaces other).usable ∧
        (Function.update c.ifaces key iface other).intRing.phys = (c.ifaces other).intRing.phys ∧
        (Function.update c.ifaces key iface other).intRing.size =
          (c.ifaces other).intRing.size := by
    by_cases isKey : other = key
    · subst isKey
      rw [update_self]
      exact ⟨usable, phys, size⟩
    · rw [update_of_ne isKey]
      exact ⟨rfl, rfl, rfl⟩
  refine ⟨fun sid j isUsable => ?_, fun other isUsable => ?_,
    fun first second isFirst isSecond different => ?_⟩
  · exact laid.known sid j ((same (sid, j)).1.symm.trans isUsable)
  · by_cases isKey : other = key
    · subst isKey
      dsimp only at isUsable ⊢
      rw [update_self] at isUsable ⊢
      exact inside isUsable
    · dsimp only at isUsable ⊢
      rw [update_of_ne isKey] at isUsable ⊢
      exact laid.inside other isUsable
  · rw [(same first).1] at isFirst
    rw [(same second).1] at isSecond
    rw [(same first).2.1, (same first).2.2, (same second).2.1, (same second).2.2]
    exact laid.apart first second isFirst isSecond different

theorem Laid.congr {after : Controller} (laid : Laid c) (ifaces : after.ifaces = c.ifaces)
    (slots : ∀ sid, (after.slots sid).inUse = (c.slots sid).inUse ∧
        (after.slots sid).nInterfaces = (c.slots sid).nInterfaces) : Laid after where
  known := by
    intro sid j
    rw [ifaces, (slots sid).1, (slots sid).2]
    exact laid.known sid j
  inside := by
    rw [ifaces]
    exact laid.inside
  apart := by
    rw [ifaces]
    exact laid.apart

theorem Armed.congr {after : Controller}
    (same : after.ifaces key = c.ifaces key) (armed : Armed c key) : Armed after key where
  usable := by
    rw [same]
    exact armed.usable
  low := armed.low
  high := armed.high
  trb := by
    rw [same]
    exact armed.trb

theorem Armed.unique (laid : Laid c) (armed : Armed c key) (armedOther : Armed c other)
    (same : (c.ifaces key).outstandingTrb = (c.ifaces other).outstandingTrb) : key = other := by
  by_contra different
  obtain ⟨i, below, isTrb⟩ := armed.trb
  obtain ⟨k, belowOther, isOther⟩ := armedOther.trb
  have apart := laid.apart key other armed.usable armedOther.usable different
  omega

theorem matchIface_sound (found : c.matchIface trb = some key) :
    (c.ifaces key).outstanding = true ∧
      (c.ifaces key).outstandingTrb = trb := by
  obtain ⟨sid, -, isMatch⟩ := exists_of_findSome?_eq_some found
  unfold Controller.matchSlot at isMatch
  split at isMatch
  · obtain ⟨j, isFirst, rfl⟩ := Option.map_eq_some_iff.mp isMatch
    have isBoth := List.find?_some isFirst
    rwa [Bool.and_eq_true, decide_eq_true_eq] at isBoth
  · nomatch isMatch

theorem Armed.matchIface (laid : Laid c)
    (all : ∀ key, (c.ifaces key).outstanding = true → Armed c key)
    (outstanding : (c.ifaces key).outstanding = true) :
    c.matchIface (c.ifaces key).outstandingTrb = some key := by
  have armed := all key outstanding
  obtain ⟨inUse, counted⟩ := laid.known key.1 key.2 armed.usable
  cases isMatch : c.matchIface (c.ifaces key).outstandingTrb with
  | none =>
    have noSlot := List.findSome?_eq_none_iff.mp isMatch key.1
      (mem_range'_1.mpr ⟨armed.low, Nat.lt_one_add_iff.mpr armed.high⟩)
    unfold Controller.matchSlot at noSlot
    rw [if_pos inUse, Option.map_eq_none_iff, List.find?_eq_none] at noSlot
    have notHere := noSlot key.2 (mem_range.mpr counted)
    refine absurd ?_ notHere
    rw [Bool.and_eq_true, decide_eq_true_eq]
    exact ⟨outstanding, rfl⟩
  | some found =>
    obtain ⟨isOutstanding, isTrb⟩ := matchIface_sound isMatch
    rw [Armed.unique laid (all found isOutstanding) armed isTrb]

end Layout

/-! ## Events and requests -/

/-- An event of that request is the one its owner waits for. -/
structure Linked (run : XhciRun) (kind : EventKind) (trb request : Nat) :
    Prop where
  old : request < run.next
  iface : ∀ key, (run.c.ifaces key).outstanding = true → (run.c.ifaces key).request = request →
      kind = .transfer ∧ trb = (run.c.ifaces key).outstandingTrb
  waiter : ∀ u waiter, run.tasks u = .waits waiter → waiter.request = request →
      kind = waiter.kind ∧ trb = waiter.trb

/-- Nothing has become outstanding. -/
structure Fewer (run after : XhciRun) : Prop where
  next : run.next ≤ after.next
  iface : ∀ key, (after.c.ifaces key).outstanding = true → after.c.ifaces key = run.c.ifaces key
  waiter : ∀ u waiter, after.tasks u = .waits waiter →
      ∃ spin, run.tasks u = .waits { waiter with spin := spin }

theorem Linked.fewer {run after : XhciRun} {kind : EventKind} {trb request : Nat}
    (linked : Linked run kind trb request) (fewer : Fewer run after) :
    Linked after kind trb request where
  old := linked.old.trans_le fewer.next
  iface := by
    intro key outstanding isRequest
    have same := fewer.iface key outstanding
    rw [same] at outstanding isRequest ⊢
    exact linked.iface key outstanding isRequest
  waiter := by
    intro u waiter isWaiter isRequest
    obtain ⟨spin, isBefore⟩ := fewer.waiter u waiter isWaiter
    exact linked.waiter u { waiter with spin := spin } isBefore isRequest

/-- Who may be waiting: interfaces, or one control transfer or command. -/
inductive XhciRun.Mode (run : XhciRun) : Prop
  | interfaces : (∀ u, ¬ (run.tasks u).Waits) → Mode run
  | alone {t : Nat} {waiter : Waiter} :
      run.tasks t = .waits waiter →
      (∀ u, u ≠ t → run.tasks u = .idle) →
      (∀ key, (run.c.ifaces key).outstanding = false) → Mode run

/-- The event ring holds the queue, and both ends are where they belong. -/
def XhciRun.Queued (run : XhciRun) : Prop :=
  Holds run.c.size run.c.events run.taken run.queue ∧ place run.c.size run.taken = run.c.dequeue ∧
    place run.c.size (run.taken + run.queue.length) = run.tail

/-- What holds as long as waits are alone. -/
structure XhciRun.Inv (run : XhciRun) : Prop where
  ring : run.Queued
  laid : Laid run.c
  armed : ∀ key, (run.c.ifaces key).outstanding = true → Armed run.c key
  numbered : ∀ key, (run.c.ifaces key).outstanding = true → (run.c.ifaces key).request < run.next
  pending : ∀ p ∈ run.pending, Linked run p.kind p.trb p.request
  queued : ∀ event ∈ run.queue, ∀ request, event.request = some request →
      Linked run event.kind event.trb request
  mode : run.Mode

section Polling

variable {run : XhciRun} {t : Nat} {event : Event}

theorem XhciRun.Inv.peek (inv : run.Inv) : run.c.peek = run.queue.head? := by
  have holds := inv.ring.1
  unfold Controller.peek
  rw [← inv.ring.2.1]
  cases isQueue : run.queue with
  | nil =>
    rw [isQueue] at holds
    rw [if_neg holds.not_new]
    rfl
  | cons event rest =>
    rw [isQueue] at holds
    rw [holds.first, if_pos rfl]
    rfl

theorem XhciRun.Inv.pollSound (inv : run.Inv) (t : Nat) : run.PollSound t := by
  intro busy event isPeek
  have isHead : run.queue.head? = some event := inv.peek.symm.trans isPeek
  have linked := inv.queued event (mem_of_mem_head? isHead)
  cases inv.mode with
  | interfaces nobody =>
    have isTask : run.tasks t = .services := by
      cases isTask : run.tasks t with
      | idle => exact absurd isTask busy
      | waits waiter => exact absurd ⟨waiter, isTask⟩ (nobody t)
      | services => rfl
    refine ⟨fun key outstanding isOurs => ?_, fun u waiter isWaiter => ?_⟩
    · have isTrb : event.kind = .transfer ∧ event.trb = (run.c.ifaces key).outstandingTrb := by
        rcases isOurs with isRequest | isTrb
        · exact (linked _ isRequest).iface key outstanding rfl
        · exact isTrb
      have isMatch : run.c.advance.matchIface event.trb = some key := by
        show run.c.matchIface event.trb = some key
        rw [isTrb.2]
        exact Armed.matchIface inv.laid inv.armed outstanding
      unfold XhciRun.poll
      rw [isTask, isPeek]
      dsimp only [XhciRun.remove]
      unfold Controller.service
      rw [if_pos isTrb.1, isMatch]
      exact update_self ..
    · exact absurd ⟨waiter, isWaiter⟩ (nobody u)
  | @alone owner waiter isOwner others unarmed =>
    refine ⟨fun key outstanding => ?_, fun u other isOther isRequest => ?_⟩
    · nomatch (unarmed key).symm.trans outstanding
    · have isU : u = owner := by
        by_contra different
        nomatch (others u different).symm.trans isOther
      have isT : t = owner := by
        by_contra different
        exact busy (others t different)
      subst isU
      subst isT
      cases isOther.symm.trans isOwner
      obtain ⟨isKind, isTrb⟩ := (linked _ isRequest).waiter t waiter isOwner rfl
      unfold XhciRun.poll
      rw [isOwner, isPeek]
      dsimp only
      rw [if_pos ⟨isKind, isTrb⟩]
      exact ⟨update_self .., update_self ..⟩

variable {after : XhciRun}

theorem Fewer.same (next : after.next = run.next) (ifaces : after.c.ifaces = run.c.ifaces)
    (tasks : after.tasks = run.tasks) : Fewer run after where
  next := next.ge
  iface := fun key _ => congrFun ifaces key
  waiter := by
    intro u waiter isWaiter
    rw [tasks] at isWaiter
    exact ⟨waiter.spin, isWaiter⟩

theorem XhciRun.Mode.congr (mode : run.Mode) (ifaces : after.c.ifaces = run.c.ifaces)
    (tasks : after.tasks = run.tasks) : after.Mode := by
  cases mode with
  | interfaces nobody => exact .interfaces (by rwa [tasks])
  | alone isOwner others unarmed =>
    exact .alone (by rwa [tasks]) (by rwa [tasks]) (by rwa [ifaces])

theorem XhciRun.Inv.fewer (inv : run.Inv) (fewer : Fewer run after) (ring : after.Queued)
    (laid : Laid after.c) (pending : after.pending ⊆ run.pending)
    (queued : ∀ event ∈ after.queue, event ∈ run.queue ∨ ∀ request, event.request = some request →
          Linked run event.kind event.trb request) (mode : after.Mode) : after.Inv := by
  refine ⟨ring, laid, fun key outstanding => ?_,
    fun key outstanding => ?_, fun p listed => ?_, fun event listed request isRequest => ?_, mode⟩
  · have same := fewer.iface key outstanding
    rw [same] at outstanding
    exact (inv.armed key outstanding).congr same
  · have same := fewer.iface key outstanding
    rw [same] at outstanding ⊢
    exact (inv.numbered key outstanding).trans_le fewer.next
  · exact (inv.pending p (pending listed)).fewer fewer
  · rcases queued event listed with before | new
    · exact (inv.queued event before request isRequest).fewer fewer
    · exact (new request isRequest).fewer fewer

theorem XhciRun.Inv.same (inv : run.Inv) (next : after.next = run.next)
    (ifaces : after.c.ifaces = run.c.ifaces) (tasks : after.tasks = run.tasks)
    (slots : ∀ sid, (after.c.slots sid).inUse = (run.c.slots sid).inUse ∧
        (after.c.slots sid).nInterfaces = (run.c.slots sid).nInterfaces)
    (ring : after.Queued) (pending : after.pending ⊆ run.pending)
    (queued : ∀ event ∈ after.queue, event ∈ run.queue ∨ ∀ request, event.request = some request →
          Linked run event.kind event.trb request) : after.Inv :=
  inv.fewer (.same next ifaces tasks) ring (inv.laid.congr ifaces slots) pending queued
    (inv.mode.congr ifaces tasks)

theorem XhciRun.Inv.remove (inv : run.Inv) (isPeek : run.c.peek = some event) : run.remove.Inv := by
  have isHead : run.queue.head? = some event := inv.peek.symm.trans isPeek
  obtain ⟨rest, isQueue⟩ := List.head?_eq_some_iff.mp isHead
  have isTail : run.queue.tail = rest := by
    rw [isQueue]
    rfl
  obtain ⟨holds, head, tail⟩ := inv.ring
  rw [isQueue] at holds tail
  refine inv.same rfl rfl rfl (fun _ => ⟨rfl, rfl⟩) ⟨?_, ?_, ?_⟩
    (.refl _) fun other listed => .inl (mem_of_mem_tail listed)
  · show Holds run.c.size run.c.events (run.taken + 1) run.queue.tail
    rw [isTail]
    exact holds.pop
  · show place run.c.size (run.taken + 1) = run.c.dequeue.next run.c.size
    rw [← head, place_next holds.positive]
  · show place run.c.size (run.taken + 1 + run.queue.tail.length) = run.tail
    rw [← tail, isTail, length_cons, Nat.add_assoc, Nat.add_comm 1]

variable {results : Nat → Option (Nat × Nat)}

theorem XhciRun.Inv.setTask {task : Task} (inv : run.Inv) (old : ∀ waiter, task = .waits waiter →
        ∃ spin, run.tasks t = .waits { waiter with spin := spin })
    (mode : XhciRun.Mode { run with tasks := update run.tasks t task, results := results }) :
    XhciRun.Inv { run with tasks := update run.tasks t task, results := results } := by
  refine inv.fewer ⟨Nat.le_refl _, fun _ _ => rfl, fun u waiter isWaiter => ?_⟩
    inv.ring inv.laid (.refl _) (fun _ => .inl) mode
  dsimp only at isWaiter
  by_cases isT : u = t
  · subst isT
    rw [update_self] at isWaiter
    exact old waiter isWaiter
  · rw [update_of_ne isT] at isWaiter
    exact ⟨waiter.spin, isWaiter⟩

variable {waiter : Waiter}

theorem XhciRun.Inv.others (inv : run.Inv) (isWaiter : run.tasks t = .waits waiter) :
    (∀ u, u ≠ t → run.tasks u = .idle) ∧
      ∀ key, (run.c.ifaces key).outstanding = false := by
  cases inv.mode with
  | interfaces nobody => exact absurd ⟨waiter, isWaiter⟩ (nobody t)
  | @alone owner _ isOwner others unarmed =>
    have isT : t = owner := by
      by_contra different
      nomatch (others t different).symm.trans isWaiter
    subst isT
    exact ⟨others, unarmed⟩

theorem XhciRun.Inv.nobody (inv : run.Inv) (servicing : run.tasks t = .services) :
    ∀ u, ¬ (run.tasks u).Waits := by
  rintro u ⟨waiter, isWaiter⟩
  by_cases isT : t = u
  · rw [isT, isWaiter] at servicing
    nomatch servicing
  · nomatch ((inv.others isWaiter).1 t isT).symm.trans servicing

theorem XhciRun.Mode.quiet {task : Task}
    (others : ∀ u, u ≠ t → ¬ (run.tasks u).Waits) (quiet : ¬ task.Waits) :
    XhciRun.Mode { run with tasks := update run.tasks t task, results := results } := by
  refine .interfaces fun u => ?_
  dsimp only
  by_cases isT : u = t
  · rwa [isT, update_self]
  · rw [update_of_ne isT]
    exact others u isT

theorem not_waits_idle : ¬ Task.idle.Waits := by
  rintro ⟨waiter, isWaiter⟩
  nomatch isWaiter

theorem XhciRun.Inv.finish (inv : run.Inv) (isWaiter : run.tasks t = .waits waiter)
    (cc residue : Nat) : (run.finish t cc residue).Inv := by
  refine inv.setTask nofun (.quiet (fun u different => ?_) not_waits_idle)
  rw [(inv.others isWaiter).1 u different]
  exact not_waits_idle

theorem XhciRun.Inv.spin
    (inv : run.Inv) (isWaiter : run.tasks t = .waits waiter) : (run.spin t waiter).Inv := by
  unfold XhciRun.spin
  split
  · exact inv.finish isWaiter 0 0
  obtain ⟨others, unarmed⟩ := inv.others isWaiter
  refine inv.setTask ?_ ?_
  · intro next isNext
    cases isNext
    exact ⟨waiter.spin, isWaiter⟩
  · refine .alone (update_self ..) (fun u different => ?_) unarmed
    exact (update_of_ne different ..).trans (others u different)

theorem XhciRun.Inv.service (inv : run.Inv) (nobody : ∀ u, ¬ (run.tasks u).Waits) (event : Event) :
    XhciRun.Inv { run with c := run.c.service event } := by
  unfold Controller.service
  split
  · split
    · rename_i key isMatch
      obtain ⟨done, usable, ring⟩ := complete_spec event (run.c.ifaces key)
      refine inv.fewer ⟨Nat.le_refl _, fun other outstanding => ?_,
        fun u waiter isWaiter => ⟨waiter.spin, isWaiter⟩⟩
        inv.ring ?_ (.refl _) (fun _ => .inl) (.interfaces nobody)
      · dsimp only at outstanding ⊢
        by_cases isKey : other = key
        · rw [isKey, update_self, done] at outstanding
          nomatch outstanding
        · exact update_of_ne isKey ..
      · refine inv.laid.update usable ?_ ?_ ?_
        · rw [ring]
        · rw [ring]
        · rw [ring, usable]
          exact inv.laid.inside key
    · exact inv
  · exact inv

theorem XhciRun.Inv.poll (inv : run.Inv) (t : Nat) : (run.poll t).Inv := by
  unfold XhciRun.poll
  split
  · exact inv
  · rename_i waiter isTask _
    exact inv.spin isTask
  · rename_i waiter event isTask isPeek
    have removed := inv.remove isPeek
    split
    · exact removed.finish isTask event.cc event.residue
    · exact removed.spin isTask
  · rename_i isTask _
    exact inv.setTask nofun (.quiet (fun u _ => inv.nobody isTask u) not_waits_idle)
  · rename_i event isTask isPeek
    exact (inv.remove isPeek).service (inv.nobody isTask) event

end Polling

/-! ## Starting requests -/

section Requests

variable {run : XhciRun} {t : Nat}

variable (inv : run.Inv)
include inv

theorem XhciRun.Inv.arm (nobody : ∀ u, ¬ (run.tasks u).Waits) (sid j : Nat) :
    (run.arm sid j).Inv := by
  unfold XhciRun.arm
  dsimp only
  split
  · exact inv
  rename_i allowed
  rw [not_or, not_or, not_or, Bool.not_eq_false] at allowed
  obtain ⟨low, high, -, usable⟩ := allowed
  split
  · exact inv
  obtain ⟨isTrb, isPhys, isSize, inside⟩ := push_spec
    (run.c.ifaces (sid, j)).intRing (inv.laid.inside (sid, j) usable)
  set iface : Iface :=
    { run.c.ifaces (sid, j) with
      intRing := (run.c.ifaces (sid, j)).intRing.push.2
      outstanding := true
      outstandingTrb := (run.c.ifaces (sid, j)).intRing.push.1
      request := run.next } with isIface
  have linked {kind : EventKind} {trb request : Nat} (linked : Linked run kind trb request) :
      Linked { run with
          c := { run.c with
            ifaces := update run.c.ifaces (sid, j) iface }
          pending := run.pending ++ [⟨.transfer, (run.c.ifaces (sid, j)).intRing.push.1, run.next⟩]
          next := run.next + 1 } kind trb request := by
    refine ⟨linked.old.trans (Nat.lt_succ_self _), ?_, linked.waiter⟩
    intro key outstanding isRequest
    dsimp only at outstanding isRequest ⊢
    by_cases isKey : key = (sid, j)
    · rw [isKey, update_self] at isRequest
      exact absurd isRequest.symm linked.old.ne
    · rw [update_of_ne isKey] at outstanding isRequest ⊢
      exact linked.iface key outstanding isRequest
  refine ⟨inv.ring, ?_, ?_, ?_, ?_, ?_, .interfaces nobody⟩
  · exact inv.laid.update rfl isPhys isSize fun _ => by
      rwa [show iface.intRing.size = _ from isSize]
  · intro key outstanding
    by_cases isKey : key = (sid, j)
    · subst isKey
      have self : update run.c.ifaces (sid, j) iface (sid, j) = iface := update_self ..
      refine ⟨?_, Nat.pos_of_ne_zero low, Nat.not_lt.mp high,
        (run.c.ifaces (sid, j)).intRing.enqueue, ?_, ?_⟩
      · dsimp only
        rwa [self]
      · dsimp only
        rw [self, show iface.intRing.size = _ from isSize]
        exact (Nat.lt_succ_self _).trans (inv.laid.inside (sid, j) usable)
      · dsimp only
        rwa [self, show iface.intRing.phys = _ from isPhys]
    · have same : update run.c.ifaces (sid, j) iface key = run.c.ifaces key := update_of_ne isKey ..
      refine Armed.congr same (inv.armed key ?_)
      rwa [← same]
  · intro key outstanding
    dsimp only at outstanding ⊢
    by_cases isKey : key = (sid, j)
    · rw [isKey, update_self]
      exact Nat.lt_succ_self _
    · rw [update_of_ne isKey] at outstanding ⊢
      exact (inv.numbered key outstanding).trans (Nat.lt_succ_self _)
  · intro p listed
    rcases mem_append.mp listed with before | new
    · exact linked (inv.pending p before)
    · rw [mem_singleton.mp new]
      refine ⟨Nat.lt_succ_self _, ?_, ?_⟩
      · intro key outstanding isRequest
        dsimp only at outstanding isRequest ⊢
        by_cases isKey : key = (sid, j)
        · rw [isKey, update_self]
          exact ⟨rfl, rfl⟩
        · rw [update_of_ne isKey] at outstanding isRequest
          exact absurd isRequest (inv.numbered key outstanding).ne
      · intro u waiter isWaiter
        exact absurd ⟨waiter, isWaiter⟩ (nobody u)
  · intro event listed request isRequest
    exact linked (inv.queued event listed request isRequest)

section

variable (idle : ∀ u, run.tasks u = .idle)
include idle

section

variable (unarmed : ∀ key, (run.c.ifaces key).outstanding = false)
include unarmed

theorem XhciRun.Inv.wait (kind : EventKind) (trb : Nat) : (run.wait t kind trb).Inv := by
  have isOwner : (run.wait t kind trb).tasks t = .waits ⟨kind, trb, run.next, 0⟩ := update_self ..
  have others (u : Nat) (different : u ≠ t) : (run.wait t kind trb).tasks u = .idle :=
    (update_of_ne different ..).trans (idle u)
  have only {u : Nat} {waiter : Waiter} (isWaiter : (run.wait t kind trb).tasks u = .waits waiter) :
      waiter = ⟨kind, trb, run.next, 0⟩ := by
    by_cases isT : u = t
    · rw [isT] at isWaiter
      cases isWaiter.symm.trans isOwner
      rfl
    · nomatch (others u isT).symm.trans isWaiter
  have unlinked {P : Nat × Nat → Prop} (key : Nat × Nat)
      (outstanding : (run.c.ifaces key).outstanding = true) : P key :=
    nomatch (unarmed key).symm.trans outstanding
  have linked {kind' : EventKind} {trb' request : Nat} (linked : Linked run kind' trb' request) :
      Linked (run.wait t kind trb) kind' trb' request := by
    refine ⟨linked.old.trans (Nat.lt_succ_self _), unlinked, fun u waiter isWaiter isRequest => ?_⟩
    rw [only isWaiter] at isRequest
    exact absurd isRequest.symm linked.old.ne
  refine ⟨inv.ring, inv.laid, inv.armed, unlinked, ?_, ?_,
    .alone isOwner others unarmed⟩
  · intro p listed
    rcases mem_append.mp listed with before | new
    · exact linked (inv.pending p before)
    · rw [mem_singleton.mp new]
      refine ⟨Nat.lt_succ_self _, unlinked, fun u waiter isWaiter _ => ?_⟩
      rw [only isWaiter]
      exact ⟨rfl, rfl⟩
  · intro event listed request isRequest
    exact linked (inv.queued event listed request isRequest)

theorem XhciRun.Inv.control (sid : Nat) (hasData : Bool) : (run.control t sid hasData).Inv := by
  unfold XhciRun.control
  dsimp only
  split
  · exact inv
  apply XhciRun.Inv.wait
  · refine inv.same rfl rfl rfl (fun other => ?_) inv.ring
      (.refl _) fun _ => .inl
    dsimp only
    by_cases isSid : other = sid
    · rw [isSid, update_self]
      exact ⟨rfl, rfl⟩
    · rw [update_of_ne isSid]
      exact ⟨rfl, rfl⟩
  · exact idle
  · exact unarmed

theorem XhciRun.Inv.command : (run.command t).Inv := by
  apply XhciRun.Inv.wait
  · exact inv.same rfl rfl rfl (fun _ => ⟨rfl, rfl⟩) inv.ring
      (.refl _) fun _ => .inl
  · exact idle
  · exact unarmed

end

end

theorem XhciRun.Inv.post {event : Event} (room : run.queue.length < run.c.size)
    (linked : ∀ request, event.request = some request → Linked run event.kind event.trb request) :
    (run.post event).Inv := by
  obtain ⟨holds, head, tail⟩ := inv.ring
  refine inv.same rfl rfl rfl (fun _ => ⟨rfl, rfl⟩) ⟨?_, head, ?_⟩ (.refl _) fun other listed => ?_
  · have holds := holds.push room event
    rwa [tail] at holds
  · show place run.c.size (run.taken + (run.queue ++ [event]).length) = run.tail.next run.c.size
    rw [← tail, place_next holds.positive, length_append]
    rfl
  · rcases mem_append.mp listed with before | new
    · exact .inl before
    · rw [mem_singleton.mp new]
      exact .inr linked

theorem XhciRun.Inv.answer (i cc residue : Nat) (data : List (BitVec 8)) :
    (run.answer i cc residue data).Inv := by
  unfold XhciRun.answer
  split
  · exact inv
  rename_i request isRequest
  split
  · rename_i room
    have fewer : Fewer run { run with pending := run.pending.eraseIdx i } := .same rfl rfl rfl
    have kept : XhciRun.Inv { run with pending := run.pending.eraseIdx i } :=
      inv.same rfl rfl rfl (fun _ => ⟨rfl, rfl⟩) inv.ring
        (fun _ => mem_of_mem_eraseIdx) fun _ => .inl
    refine kept.post room fun number isNumber => ?_
    cases isNumber
    exact (inv.pending request (mem_of_getElem? isRequest)).fewer fewer
  · exact inv

theorem XhciRun.Inv.notice : run.notice.Inv := by
  unfold XhciRun.notice
  split
  · rename_i room
    exact inv.post room nofun
  · exact inv

theorem XhciRun.Inv.exec {op : XhciOp} (alone : Alone run op) : (XhciOp.exec run op).Inv := by
  have start {t : Nat} {after : XhciRun} (kept : after.Inv) : (run.begin t after).Inv := by
    unfold XhciRun.begin
    split
    · exact kept
    · exact inv
  cases op with
  | arm sid j => exact inv.arm alone sid j
  | control t sid hasData => exact start (inv.control alone.1 alone.2 sid hasData)
  | command t => exact start (inv.command alone.1 alone.2)
  | service t =>
    refine start (inv.setTask nofun (.quiet (fun u _ => alone u) ?_))
    rintro ⟨waiter, isWaiter⟩
    nomatch isWaiter
  | poll t => exact inv.poll t
  | answer i cc residue data => exact inv.answer i cc residue data
  | notice => exact inv.notice

end Requests

/-! ## Whole runs -/

/--
The controller after enumeration: the event ring is empty, nobody polls and
nothing is outstanding.
-/
structure XhciRun.Fresh (run : XhciRun) : Prop where
  size : 0 < run.c.size
  clear : ∀ i, (run.c.events i).2 = false
  dequeue : run.c.dequeue = ⟨0, true⟩
  tail : run.tail = ⟨0, true⟩
  taken : run.taken = 0
  queue : run.queue = []
  pending : run.pending = []
  idle : ∀ t, run.tasks t = .idle
  unarmed : ∀ key, (run.c.ifaces key).outstanding = false
  laid : Laid run.c

theorem XhciRun.Fresh.inv {run : XhciRun} (fresh : run.Fresh) : run.Inv := by
  have unlinked {P : Nat × Nat → Prop} (key : Nat × Nat)
      (outstanding : (run.c.ifaces key).outstanding = true) : P key :=
    nomatch (fresh.unarmed key).symm.trans outstanding
  refine ⟨⟨?_, ?_, ?_⟩, fresh.laid, unlinked, unlinked, ?_, ?_, ?_⟩
  · rw [fresh.taken, fresh.queue]
    exact .blank fresh.size fresh.clear
  · rw [fresh.taken, fresh.dequeue]
    exact place_zero
  · rw [fresh.taken, fresh.queue, fresh.tail]
    exact place_zero
  · rw [fresh.pending]
    nofun
  · rw [fresh.queue]
    nofun
  · refine .interfaces fun u => ?_
    rw [fresh.idle u]
    exact not_waits_idle

/--
As long as control transfers and commands are alone, no poll takes an event
away from the request it answers.
-/
theorem polls_hand_over {start run : XhciRun}
    (fresh : start.Fresh) (reaches : Reaches XhciOp.exec Alone start run)
    (t : Nat) : run.PollSound t := by
  have inv : run.Inv := reaches.invariant fresh.inv fun inv alone =>
    inv.exec alone
  exact inv.pollSound t

/-- One keyboard in slot 1. -/
def keyboard : XhciRun where
  c :=
    { slots := fun sid =>
        ⟨decide (sid = 1), if sid = 1 then 1 else 0, ⟨0x1000, 16, 0, true⟩⟩
      ifaces := fun key =>
        ⟨decide (key = (1, 0)), ⟨0x2000, 16, 0, true⟩, 8, false, 0, [], 0, false, 0⟩
      cmdRing := ⟨0x3000, 16, 0, true⟩
      events := fun _ => (⟨.other, 0, 0, 0, [], none⟩, false)
      size := 64
      dequeue := ⟨0, true⟩ }
  tasks := fun _ => .idle
  results := fun _ => none
  pending := []
  tail := ⟨0, true⟩
  taken := 0
  queue := []
  next := 0

theorem keyboard_fresh : keyboard.Fresh where
  size := by decide
  clear := fun _ => rfl
  dequeue := rfl
  tail := rfl
  taken := rfl
  queue := rfl
  pending := rfl
  idle := fun _ => rfl
  unarmed := fun _ => rfl
  laid := by
    refine ⟨fun sid j usable => ?_, fun _ _ => (by decide : 0 + 1 < 16),
      fun key other usable usableOther different => ?_⟩
    · cases of_decide_eq_true usable
      exact ⟨rfl, Nat.zero_lt_one⟩
    · exact absurd ((of_decide_eq_true usable).trans (of_decide_eq_true usableOther).symm) different

/-- The keyboard is armed and answers, and its report is collected. -/
def reported : XhciRun :=
  [.arm 1 0, .answer 0 1 0 [4], .service 0].foldl XhciOp.exec keyboard

/-- The poll of `Croi_Xhci_HidServiceEvents` records the report. -/
theorem polls_hand_over_report :
    keyboard.Fresh ∧ Reaches XhciOp.exec Alone keyboard reported ∧
      reported.PollSound 0 ∧
      ((reported.poll 0).c.ifaces (1, 0)).lastReport =
        [4, 0, 0, 0, 0, 0, 0, 0] := by
  have quiet (u : Nat) : ¬ Task.Waits ((fun _ => .idle : Nat → Task) u) := not_waits_idle
  have reaches : Reaches XhciOp.exec Alone keyboard reported :=
    Reaches.foldl .start ⟨quiet, trivial, quiet, trivial⟩
  exact ⟨keyboard_fresh, reaches, polls_hand_over keyboard_fresh reaches 0, rfl⟩

/-- The keyboard is armed and answers while a control transfer polls. -/
def overheard : XhciRun :=
  [.arm 1 0, .control 0 1 true, .answer 0 1 0 [4]].foldl XhciOp.exec keyboard

/--
The control transfer removes the event of the keyboard and drops it: the
interface stays outstanding for ever.
-/
theorem control_transfer_drops_report :
    keyboard.Fresh ∧
      Reaches XhciOp.exec (fun _ _ => True) keyboard overheard ∧
      ((overheard.poll 0).c.ifaces (1, 0)).outstanding = true ∧
      (overheard.poll 0).queue = [] ∧
      ¬ overheard.PollSound 0 := by
  refine ⟨keyboard_fresh, reaches_foldl _ _ _, rfl, rfl, fun sound => ?_⟩
  have handed := sound nofun ⟨.transfer, 0x2000, 1, 0, [4], some 0⟩ rfl
  have recorded := handed.iface (1, 0) rfl (.inl rfl)
  have isOutstanding : ((overheard.poll 0).c.ifaces (1, 0)).outstanding = true := rfl
  rw [recorded] at isOutstanding
  nomatch isOutstanding

end CaraOS.Xhci
