import Mathlib.Algebra.Group.Nat.Defs
import Mathlib.Data.List.Basic
import Mathlib.Logic.Function.Basic
import CaraOS.Lib.Reach

namespace CaraOS.Croi

/-!
# Console input

`console_input.c`: bytes from the terminal are cooked into lines, and tasks
read the lines piece by piece.  The line under construction is one buffer for
all readers; how much of it is filled is a local of the reader that fills it.

Tasks are switched in `Croi_Yield` only, so a turn of a reader lasts until
there is no more input or until its line is complete.
-/

open Function (update update_of_ne update_self)
open Reach List

/-- One character. -/
abbrev Byte : Type :=
  BitVec 8

/-! ## The code -/

def rawCap : Nat :=
  256

def lineCap : Nat :=
  256

/--
The globals of the file: the ring of injected bytes, the receiver of the UART,
`g_line` with what lies behind it, and what has been sent to the terminal.
`typed` is history: all bytes that `console_getc` has returned.
-/
structure Console where
  raw : List Byte
  uart : List Byte
  line : Nat → Byte
  lineLen : Nat
  linePos : Nat
  screen : List Byte
  typed : List Byte

namespace Console

/-- `raw_push`: a byte that finds the ring full is dropped. -/
def rawPush (console : Console) (c : Byte) : Console :=
  if console.raw.length = rawCap - 1 then
    console
  else
    { console with raw := console.raw ++ [c] }

def inject (bytes : List Byte) (console : Console) : Console :=
  bytes.foldl rawPush console

/-- `console_getc`: injected bytes first. -/
def getc (console : Console) : Option (Byte × Console) :=
  match console.raw, console.uart with
  | c :: raw, _ =>
    some (c, { console with raw := raw, typed := console.typed ++ [c] })
  | [], c :: uart =>
    some (c, { console with uart := uart, typed := console.typed ++ [c] })
  | [], [] => none

/-- `console_putc`. -/
def putc (bytes : List Byte) (console : Console) : Console :=
  { console with screen := console.screen ++ bytes }

end Console

/-- Carriage return or line feed. -/
def IsEnter (c : Byte) : Prop :=
  c = 0x0D ∨ c = 0x0A
  deriving Decidable

/-- Backspace or delete. -/
def IsErase (c : Byte) : Prop :=
  c = 0x08 ∨ c = 0x7F
  deriving Decidable

/-- The characters that go into a line. -/
def IsPrintable (c : Byte) : Prop :=
  0x20 ≤ c ∧ c < 0x7F
  deriving Decidable

/--
The loop of `fill_line` until it yields, with the `n` it yields with, or until
the line is complete.  The fuel bounds the bytes that are there to be read.
-/
def fillLoop : Nat → Nat → Console → Option Nat × Console
  | 0, n, console => (some n, console)
  | fuel + 1, n, console =>
    match console.getc with
    | none => (some n, console)
    | some (c, console) =>
      if IsEnter c then
        (none, { console.putc [0x0D, 0x0A] with
            line := update console.line n 0x0A
            lineLen := n + 1 })
      else if IsErase c then
        if 0 < n then
          fillLoop fuel (n - 1) (console.putc [0x08, 0x20, 0x08])
        else
          fillLoop fuel n console
      else if IsPrintable c ∧ n < lineCap - 1 then
        fillLoop fuel (n + 1) { console.putc [c] with
            line := update console.line n c }
      else
        fillLoop fuel n console

/--
The console and its readers: what a task inside `fill_line` has been asked for
and its local `n`.  `reads` is history: what the reads have returned so far,
but for the empty ones.
-/
structure ConsoleRun where
  console : Console
  inside : Nat → Option (Nat × Nat)
  reads : List (List Byte)

/-- `k` bytes of the line from `pos` on. -/
def segment (line : Nat → Byte) (pos k : Nat) : List Byte :=
  (List.range' pos k).map line

namespace ConsoleRun

/-- The end of `Croi_ConsoleInput_Read`: the bytes are copied out. -/
def deliver (len : Nat) (run : ConsoleRun) : ConsoleRun :=
  let avail := (run.console.lineLen + 2 ^ 64 - run.console.linePos) % 2 ^ 64
  let k := if len < avail then len else avail
  { run with
    console := { run.console with linePos := run.console.linePos + k }
    reads :=
      if k = 0 then run.reads
      else run.reads ++ [segment run.console.line run.console.linePos k] }

/-- A turn of a task that is inside `fill_line`. -/
def turn (t len n : Nat) (run : ConsoleRun) : ConsoleRun :=
  match fillLoop (run.console.raw.length + run.console.uart.length) n run.console with
  | (some n, console) =>
    { run with
      console := console
      inside := update run.inside t (some (len, n)) }
  | (none, console) =>
    deliver len { run with
        console := console
        inside := update run.inside t none }

/-- `Croi_ConsoleInput_Read`, up to the first yield. -/
def read (t len : Nat) (run : ConsoleRun) : ConsoleRun :=
  if len = 0 then
    run
  else if run.console.linePos < run.console.lineLen then
    deliver len run
  else
    turn t len 0 { run with console := { run.console with linePos := 0, lineLen := 0 } }

end ConsoleRun

/-- What may happen next. -/
inductive ConsoleOp where
  | inject (bytes : List Byte)
  | receive (c : Byte)
  | read (t len : Nat)
  | resume (t : Nat)

/-- One step; a task reads only when it is not inside a read. -/
def ConsoleOp.exec (run : ConsoleRun) : ConsoleOp → ConsoleRun
  | .inject bytes => { run with console := run.console.inject bytes }
  | .receive c =>
    { run with
      console := { run.console with uart := run.console.uart ++ [c] } }
  | .read t len =>
    match run.inside t with
    | some _ => run
    | none => run.read t len
  | .resume t =>
    match run.inside t with
    | some (len, n) => run.turn t len n
    | none => run

/-- The state at boot. -/
def ConsoleRun.boot : ConsoleRun where
  console := ⟨[], [], fun _ => 0, 0, 0, [], []⟩
  inside := fun _ => none
  reads := []

/-! ## Lines -/

/-- Complete lines, each with its newline, and the line being typed. -/
structure Cooked where
  lines : List (List Byte)
  current : List Byte

/-- What one key does to the lines. -/
def Cooked.key (cooked : Cooked) (c : Byte) : Cooked :=
  if IsEnter c then
    ⟨cooked.lines ++ [cooked.current ++ [0x0A]], []⟩
  else if IsErase c then
    { cooked with current := cooked.current.dropLast }
  else if IsPrintable c ∧ cooked.current.length < 255 then
    { cooked with current := cooked.current ++ [c] }
  else
    cooked

/-- The lines that have been typed. -/
def cook (typed : List Byte) : Cooked :=
  typed.foldl Cooked.key ⟨[], []⟩

/--
Lines delivered in order and piece by piece: a piece is the next part of the
line that is being delivered, and a line starts when the one before it has
been delivered completely.
-/
inductive Delivered : List (List Byte) → List (List Byte) → List Byte → Prop
  | start : Delivered [] [] []
  | line {lines reads : List (List Byte)} (next : List Byte) :
      Delivered lines reads [] → Delivered (lines ++ [next]) reads next
  | piece {lines reads : List (List Byte)} {part rest : List Byte} :
      Delivered lines reads (part ++ rest) → part ≠ [] →
      Delivered lines (reads ++ [part]) rest

/-- All that has been typed is delivered, but for the rest of one line. -/
def ConsoleRun.Sound (run : ConsoleRun) : Prop :=
  ∃ rest, Delivered (cook run.console.typed).lines run.reads rest

theorem Delivered.flatten_eq {lines reads : List (List Byte)} {rest : List Byte}
    (delivered : Delivered lines reads rest) : lines.flatten = reads.flatten ++ rest := by
  induction delivered with
  | start => rfl
  | line next _ ih =>
    rw [flatten_append, ih, append_nil, flatten_singleton]
  | piece _ _ ih =>
    rw [ih, flatten_append, flatten_singleton, append_assoc]

section Cook

variable {typed : List Byte} {c : Byte}

theorem cook_append : cook (typed ++ [c]) = (cook typed).key c := by
  unfold cook
  rw [foldl_append]
  rfl

end Cook

/-! ## The buffer -/

section Buffer

variable {line : Nat → Byte} {pos n k : Nat} {c : Byte}

theorem segment_length : (segment line pos n).length = n := by
  unfold segment
  rw [length_map, length_range']

theorem segment_append :
    segment line pos k ++ segment line (pos + k) n =
      segment line pos (k + n) := by
  unfold segment
  rw [← map_append, range'_append_1]

theorem segment_push : segment (update line n c) 0 (n + 1) = segment line 0 n ++ [c] := by
  have front : segment (update line n c) 0 n = segment line 0 n := by
    refine map_congr_left fun i listed => ?_
    have below := (mem_range'_1.mp listed).2
    exact update_of_ne (by omega) ..
  have last : segment (update line n c) (0 + n) 1 = [c] := by
    unfold segment
    simp
  rw [← segment_append, front, last]

theorem segment_pop (some : 0 < n) : segment line 0 (n - 1) = (segment line 0 n).dropLast := by
  obtain ⟨m, rfl⟩ : ∃ m, n = m + 1 := ⟨n - 1, by omega⟩
  have last : segment line (0 + m) 1 = [line (0 + m)] := rfl
  rw [← segment_append, last, dropLast_concat, Nat.add_sub_cancel]

end Buffer

/-! ## One reader -/

/-- A line is being typed, and `n` bytes of it are in the buffer. -/
structure Filling (lines : List (List Byte)) (console : Console) (n : Nat) :
    Prop where
  pos : console.linePos = 0
  len : console.lineLen = 0
  room : n < lineCap
  lines : (cook console.typed).lines = lines
  current : (cook console.typed).current = segment console.line 0 n

/-- A line has been completed and nobody has read from it. -/
structure Filled (lines : List (List Byte)) (console : Console) : Prop where
  pos : console.linePos = 0
  some : 0 < console.lineLen
  small : console.lineLen ≤ lineCap
  lines : (cook console.typed).lines = lines ++ [segment console.line 0 console.lineLen]
  current : (cook console.typed).current = []

section Fill

variable {console : Console} {lines : List (List Byte)} {n : Nat}

/-- What a key leaves behind. -/
inductive FillOutcome (lines : List (List Byte)) : Option Nat × Console → Prop
  | more {n : Nat} {console : Console} :
      Filling lines console n → FillOutcome lines (some n, console)
  | done {console : Console} :
      Filled lines console → FillOutcome lines (none, console)

theorem getc_eq {c : Byte} {after : Console} (got : console.getc = some (c, after)) :
    after.linePos = console.linePos ∧ after.lineLen = console.lineLen ∧
      after.line = console.line ∧ after.typed = console.typed ++ [c] := by
  unfold Console.getc at got
  split at got
  · cases got
    exact ⟨rfl, rfl, rfl, rfl⟩
  · cases got
    exact ⟨rfl, rfl, rfl, rfl⟩
  · nomatch got

theorem Filling.loop (fuel : Nat) (filling : Filling lines console n) :
    FillOutcome lines (fillLoop fuel n console) := by
  induction fuel generalizing console n with
  | zero => exact .more filling
  | succ fuel ih =>
    unfold fillLoop
    cases isGot : console.getc with
    | none => exact .more filling
    | some got =>
      obtain ⟨c, after⟩ := got
      obtain ⟨isPos, isLen, isLine, isTyped⟩ := getc_eq isGot
      have cooked : cook after.typed = (cook console.typed).key c := by
        rw [isTyped, cook_append]
      have length : (cook console.typed).current.length = n := by
        rw [filling.current, segment_length]
      have pos := isPos.trans filling.pos
      have len := isLen.trans filling.len
      unfold Cooked.key at cooked
      dsimp only
      by_cases isEnter : IsEnter c
      · rw [if_pos isEnter] at cooked ⊢
        refine .done ⟨pos, Nat.succ_pos n, filling.room, ?_, ?_⟩
        · show (cook after.typed).lines = _
          rw [cooked, filling.lines, filling.current, ← segment_push, isLine]
        · show (cook after.typed).current = _
          rw [cooked]
      rw [if_neg isEnter] at cooked ⊢
      by_cases isErase : IsErase c
      · rw [if_pos isErase] at cooked ⊢
        by_cases some : 0 < n
        · rw [if_pos some]
          have room := filling.room
          refine ih ⟨pos, len, by omega, ?_, ?_⟩
          · show (cook after.typed).lines = _
            rw [cooked, filling.lines]
          · show (cook after.typed).current = segment after.line 0 (n - 1)
            rw [cooked, filling.current, segment_pop some, isLine]
        · rw [if_neg some]
          have empty : n = 0 := Nat.eq_zero_of_not_pos some
          refine ih ⟨pos, len, filling.room, ?_, ?_⟩
          · rw [cooked, filling.lines]
          · rw [cooked, filling.current, empty]
            rfl
      have isCap : lineCap - 1 = 255 := rfl
      rw [if_neg isErase] at cooked ⊢
      rw [length, ← isCap] at cooked
      by_cases fits : IsPrintable c ∧ n < lineCap - 1
      · rw [if_pos fits] at cooked ⊢
        refine ih ⟨pos, len, Nat.add_lt_of_lt_sub fits.2, ?_, ?_⟩
        · show (cook after.typed).lines = _
          rw [cooked, filling.lines]
        · show (cook after.typed).current = _
          rw [cooked, filling.current, ← segment_push, isLine]
      · rw [if_neg fits] at cooked ⊢
        refine ih ⟨pos, len, filling.room, ?_, ?_⟩
        · rw [cooked, filling.lines]
        · rw [cooked, filling.current, isLine]

end Fill

/-! ## All readers -/

/--
What holds as long as one task at a time is inside `fill_line`: the buffer has
the line being typed, or the part of a line that has not been read.
-/
inductive ConsoleRun.Inv (run : ConsoleRun) : Prop
  | filling {t len n : Nat} :
      run.inside t = some (len, n) → len ≠ 0 →
      (∀ other, other ≠ t → run.inside other = none) →
      Filling (cook run.console.typed).lines run.console n →
      Delivered (cook run.console.typed).lines run.reads [] → Inv run
  | idle :
      (∀ t, run.inside t = none) →
      run.console.linePos ≤ run.console.lineLen →
      run.console.lineLen ≤ lineCap →
      (cook run.console.typed).current = [] →
      Delivered (cook run.console.typed).lines run.reads
        (segment run.console.line run.console.linePos
          (run.console.lineLen - run.console.linePos)) → Inv run

/-- A task enters `fill_line` only if no other one is inside. -/
def OneReader (run : ConsoleRun) : ConsoleOp → Prop
  | .read _ len => len = 0 ∨ ∀ t, run.inside t = none
  | _ => True

variable {op : ConsoleOp}

section Readers

variable {run : ConsoleRun} {t len n : Nat}

theorem inject_eq (bytes : List Byte) (console : Console) :
    ∃ raw, console.inject bytes = { console with raw := raw } := by
  induction bytes generalizing console with
  | nil => exact ⟨console.raw, rfl⟩
  | cons c bytes ih =>
    obtain ⟨raw, rest⟩ := ih (console.rawPush c)
    refine ⟨raw, rest.trans ?_⟩
    unfold Console.rawPush
    split
    · rfl
    · rfl

theorem ConsoleRun.Inv.arrive (inv : run.Inv) (raw uart : List Byte) :
    ConsoleRun.Inv
      { run with console := { run.console with raw := raw, uart := uart } } := by
  cases inv with
  | filling isInside some others filling delivered =>
    exact .filling isInside some others ⟨filling.pos, filling.len, filling.room, filling.lines,
        filling.current⟩ delivered
  | idle nobody inBuffer small current delivered =>
    exact .idle nobody inBuffer small current delivered

theorem ConsoleRun.deliver_eq (inBuffer : run.console.linePos < run.console.lineLen)
    (small : run.console.lineLen ≤ lineCap) (some : len ≠ 0) :
    ∃ k, 0 < k ∧ k ≤ len ∧ k ≤ run.console.lineLen - run.console.linePos ∧
      run.deliver len =
        { run with
          console := { run.console with linePos := run.console.linePos + k }
          reads := run.reads ++ [segment run.console.line run.console.linePos k] } := by
  have isSmall : run.console.lineLen ≤ 256 := small
  have avail : (run.console.lineLen + 2 ^ 64 - run.console.linePos) % 2 ^ 64 =
      run.console.lineLen - run.console.linePos := by omega
  unfold ConsoleRun.deliver
  dsimp only
  rw [avail]
  generalize isK : (if len < run.console.lineLen - run.console.linePos then len
    else run.console.lineLen - run.console.linePos) = k
  have bounds : 0 < k ∧ k ≤ len ∧ k ≤ run.console.lineLen - run.console.linePos := by
    split at isK
    · omega
    · omega
  rw [if_neg (Nat.ne_of_gt bounds.1)]
  exact ⟨k, bounds.1, bounds.2.1, bounds.2.2, rfl⟩

theorem ConsoleRun.Inv.deliver (nobody : ∀ t, run.inside t = none)
    (inBuffer : run.console.linePos < run.console.lineLen) (small : run.console.lineLen ≤ lineCap)
    (current : (cook run.console.typed).current = [])
    (delivered : Delivered (cook run.console.typed).lines run.reads
      (segment run.console.line run.console.linePos (run.console.lineLen - run.console.linePos)))
    (some : len ≠ 0) : (run.deliver len).Inv := by
  obtain ⟨k, positive, -, bound, isDeliver⟩ := run.deliver_eq inBuffer small some
  rw [isDeliver]
  refine .idle nobody ?_ small current ?_
  · show run.console.linePos + k ≤ run.console.lineLen
    omega
  · refine .piece ?_ ?_
    · rw [segment_append]
      have whole : k + (run.console.lineLen - (run.console.linePos + k)) =
          run.console.lineLen - run.console.linePos := by omega
      rwa [whole]
    · intro empty
      have length := congrArg List.length empty
      rw [segment_length] at length
      exact Nat.ne_of_gt positive length

theorem ConsoleRun.Inv.turn (others : ∀ other, other ≠ t → run.inside other = none)
    (filling : Filling (cook run.console.typed).lines run.console n)
    (delivered : Delivered (cook run.console.typed).lines run.reads [])
    (some : len ≠ 0) : (run.turn t len n).Inv := by
  have outcome := filling.loop (run.console.raw.length + run.console.uart.length)
  unfold ConsoleRun.turn
  cases isLoop : fillLoop (run.console.raw.length + run.console.uart.length) n run.console with
  | mk result console =>
  rw [isLoop] at outcome
  cases outcome with
  | more next =>
    refine .filling (update_self ..) some ?_ ?_ ?_
    · intro other different
      exact (update_of_ne different ..).trans (others other different)
    · exact ⟨next.pos, next.len, next.room, rfl, next.current⟩
    · rwa [next.lines]
  | done filled =>
    refine ConsoleRun.Inv.deliver ?_ ?_ filled.small filled.current ?_ some
    · intro other
      by_cases same : other = t
      · subst same
        exact update_self ..
      · exact (update_of_ne same ..).trans (others other same)
    · rw [filled.pos]
      exact filled.some
    · rw [filled.lines, filled.pos]
      exact .line _ delivered

theorem ConsoleRun.Inv.read (inv : run.Inv) (nobody : ∀ t, run.inside t = none) :
    (run.read t len).Inv := by
  unfold ConsoleRun.read
  by_cases some : len = 0
  · rwa [if_pos some]
  rw [if_neg some]
  cases inv with
  | filling isInside =>
    rw [nobody] at isInside
    nomatch isInside
  | idle _ inBuffer small current delivered =>
    by_cases pending : run.console.linePos < run.console.lineLen
    · rw [if_pos pending]
      exact .deliver nobody pending small current delivered some
    · rw [if_neg pending]
      have nothing : run.console.lineLen - run.console.linePos = 0 :=
        Nat.sub_eq_zero_of_le (Nat.not_lt.mp pending)
      rw [nothing] at delivered
      exact .turn (fun other _ => nobody other) ⟨rfl, rfl, by decide, rfl, current⟩ delivered some

theorem ConsoleRun.Inv.exec (inv : run.Inv) (oneReader : OneReader run op) : (op.exec run).Inv := by
  cases op with
  | inject bytes =>
    obtain ⟨raw, isInject⟩ := inject_eq bytes run.console
    unfold ConsoleOp.exec
    dsimp only
    rw [isInject]
    exact inv.arrive raw run.console.uart
  | receive c => exact inv.arrive run.console.raw (run.console.uart ++ [c])
  | read t len =>
    unfold ConsoleOp.exec
    dsimp only
    split
    · exact inv
    rcases oneReader with empty | nobody
    · unfold ConsoleRun.read
      rwa [if_pos empty]
    · exact inv.read nobody
  | resume t =>
    unfold ConsoleOp.exec
    dsimp only
    split
    · rename_i len n isInside
      cases inv with
      | @filling reader asked m isReader some others filling delivered =>
        have same : t = reader := by
          by_contra different
          rw [others t different] at isInside
          nomatch isInside
        subst same
        cases isReader.symm.trans isInside
        exact .turn others filling delivered some
      | idle nobody =>
        rw [nobody] at isInside
        nomatch isInside
    · exact inv

/--
As long as no task reads while another one is inside `fill_line`, every line
is delivered piece by piece and in order, whoever reads.
-/
theorem console_reads_sound (reaches : Reaches ConsoleOp.exec OneReader .boot run) : run.Sound := by
  have inv : run.Inv := reaches.invariant
    (.idle (fun _ => rfl) (Nat.le_refl 0) (by decide) rfl .start) ConsoleRun.Inv.exec
  cases inv with
  | filling _ _ _ _ delivered => exact ⟨_, delivered⟩
  | idle _ _ _ _ delivered => exact ⟨_, delivered⟩

end Readers

/-! ## One reader -/

/-- All reads are made by one task. -/
def ReadsBy (t : Nat) (_ : ConsoleRun) : ConsoleOp → Prop
  | .read reader _ => reader = t
  | _ => True

/-- No other task is inside a read. -/
def ConsoleRun.OnlyReader (t : Nat) (run : ConsoleRun) : Prop :=
  run.Inv ∧ ∀ other, other ≠ t → run.inside other = none

section Single

variable {run : ConsoleRun} {t len n : Nat}

theorem turn_inside {other : Nat} (different : other ≠ t) :
    (run.turn t len n).inside other = run.inside other := by
  unfold ConsoleRun.turn
  split <;> exact update_of_ne different ..

theorem exec_inside {other : Nat} (readsBy : ReadsBy t run op)
    (different : other ≠ t) (resumes : ∀ r, op = .resume r → r = t ∨ run.inside r = none) :
    (op.exec run).inside other = run.inside other := by
  cases op with
  | inject bytes => rfl
  | receive c => rfl
  | read reader len =>
    cases readsBy
    unfold ConsoleOp.exec
    dsimp only
    split
    · rfl
    unfold ConsoleRun.read
    split
    · rfl
    · split
      · rfl
      · exact turn_inside different
  | resume r =>
    unfold ConsoleOp.exec
    dsimp only
    rcases resumes r rfl with rfl | free
    · split
      · exact turn_inside different
      · rfl
    · rw [free]

theorem ConsoleRun.OnlyReader.exec (inv : OnlyReader t run)
    (readsBy : ReadsBy t run op) : OnlyReader t (op.exec run) := by
  have others (other : Nat) (different : other ≠ t) : (op.exec run).inside other = none := by
    refine (exec_inside readsBy different fun r _ => ?_).trans (inv.2 other different)
    by_cases same : r = t
    · exact .inl same
    · exact .inr (inv.2 r same)
  refine ⟨?_, others⟩
  cases op with
  | inject bytes => exact inv.1.exec trivial
  | receive c => exact inv.1.exec trivial
  | resume r => exact inv.1.exec trivial
  | read reader len =>
    cases readsBy
    cases isInside : run.inside t with
    | some waiting =>
      have busy : ConsoleOp.exec run (.read t len) = run := by simp [ConsoleOp.exec, isInside]
      rw [busy]
      exact inv.1
    | none =>
      refine inv.1.exec (.inr fun other => ?_)
      by_cases same : other = t
      · rw [same, isInside]
      · exact inv.2 other same

end Single

/-! ## Two readers -/

/-- One task waits for a line, which is then typed and read in two pieces. -/
def oneLine : ConsoleRun :=
  [.read 1 2, .receive 0x68, .receive 0x69, .receive 0x0D, .resume 1,
    .read 2 9].foldl ConsoleOp.exec .boot

theorem console_reads_sound_line :
    Reaches ConsoleOp.exec OneReader .boot oneLine ∧
      oneLine.reads = [[0x68, 0x69], [0x0A]] ∧ oneLine.Sound := by
  have nobody (t : Nat) : ([.read 1 2, .receive 0x68, .receive 0x69,
      .receive 0x0D, .resume 1].foldl ConsoleOp.exec .boot).inside t = none := by
    by_cases same : t = 1
    · subst same
      rfl
    · exact (update_of_ne same ..).trans (update_of_ne same ..)
  have reaches : Reaches ConsoleOp.exec OneReader .boot oneLine :=
    Reaches.foldl .start ⟨.inr fun _ => rfl, trivial, trivial, trivial, trivial, .inr nobody,
        trivial⟩
  exact ⟨reaches, by decide, console_reads_sound reaches⟩

/-- While the first task has `ab` of a line, a second one asks for a line. -/
def twoReaders : List ConsoleOp :=
  [.read 1 9, .receive 0x61, .receive 0x62, .resume 1, .read 2 9,
    .receive 0x63, .receive 0x64, .receive 0x0D, .resume 2]

/-- The line `abcd` has been typed, and what is read is `cd`. -/
theorem console_line_torn :
    ∃ run, Reaches ConsoleOp.exec (fun _ _ => True) .boot run ∧
      (cook run.console.typed).lines = [[0x61, 0x62, 0x63, 0x64, 0x0A]] ∧
      run.reads = [[0x63, 0x64, 0x0A]] ∧ ¬ run.Sound := by
  have isLines : (cook (twoReaders.foldl ConsoleOp.exec .boot).console.typed).lines =
        [[0x61, 0x62, 0x63, 0x64, 0x0A]] := by decide
  have isReads : (twoReaders.foldl ConsoleOp.exec .boot).reads = [[0x63, 0x64, 0x0A]] := by decide
  refine ⟨_, reaches_foldl _ _ twoReaders, isLines, isReads, ?_⟩
  rintro ⟨rest, delivered⟩
  have flat := delivered.flatten_eq
  exact absurd (List.cons.inj flat).1 (by decide)

end CaraOS.Croi
