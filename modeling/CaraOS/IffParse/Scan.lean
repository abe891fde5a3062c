import CaraOS.IffParse.Reader

namespace CaraOS.IffParse

/-!
# Scanning ends

`Croi_Iff_ParseIFF_Impl` with `IFFPARSE_SCAN`.  The sizes in a file can make
the count of the form stand still or go back; what a scan uses up is the file.
-/

open List

/-- A registration: type, id and what has been gathered, the newest first. -/
structure Registration where
  type : ULong
  id : ULong
  gathered : List (Int × List Byte) := []

def Registration.Names (node : ContextNode) (reg : Registration) : Prop :=
  reg.type = node.cnType ∧ reg.id = node.cnID
  deriving Decidable

/-- The handle of a reader; `allocs` counts the allocations tried so far. -/
structure Scan where
  ci : CaraIff
  stops : List Registration
  props : List Registration
  colls : List Registration
  allocs : Nat

/-- The body of a registered chunk, if there is memory for it. -/
def gatherBody (memory : Bool) (node : ContextNode) (ci : CaraIff) :
    Option (Int × List Byte) × CaraIff :=
  if memory = false then
    (none, ci)
  else if 0 < node.cnSize then
    match readChunkBytes node.cnSize ci with
    | .error _ => (none, ci)
    | .ok (data, later) =>
      (if data.length = node.cnSize then some (node.cnSize, data) else none, later)
  else
    (some (node.cnSize, []), ci)

/-- `iff_gather`; `memory` says which allocations succeed. -/
def iffGather (memory : Nat → Bool) (s : Scan) : Bool × Scan :=
  match s.ci.nodes with
  | node :: _ :: _ =>
    let isProp := s.props.findIdx? (·.Names node)
    let isColl := s.colls.findIdx? (·.Names node)
    if isProp = none ∧ isColl = none then
      (false, s)
    else
      let (body, ci) := gatherBody (memory s.allocs) node s.ci
      let s := { s with ci := ci, allocs := s.allocs + 1 }
      match body, isProp, isColl with
      | some body, some i, _ =>
        (true, { s with props := s.props.modify i ({ · with gathered := [body] }) })
      | some body, none, some i =>
        (true, { s with colls := s.colls.modify i fun reg =>
          { reg with gathered := body :: reg.gathered } })
      | _, _, _ => (false, s)
  | _ => (false, s)

/-- `iff_is_stop` for the current chunk. -/
def isStop (s : Scan) : Bool :=
  s.ci.nodes.head?.any fun node => s.stops.any (·.Names node)

/-- `Croi_Iff_ParseIFF_Impl` for a scan that may take so many steps; what it
returns comes with the steps it did not take. -/
def parseScan (memory : Nat → Bool) : Nat → Scan → Option (Except IffErr (Nat × Scan))
  | 0, _ => none
  | steps + 1, s =>
    match iffStep s.ci with
    | .error e => some (.error e)
    | .ok ci =>
      let (gathered, s) := iffGather memory { s with ci := ci }
      if gathered = false ∧ isStop s then
        some (.ok (steps, s))
      else
        parseScan memory steps s

/-- A client that scans and reads what it found, again and again until a call
returns an error; the steps are those of all the calls together. -/
def scanCalls (memory : Nat → Bool) :
    List (List Int) → Nat → Scan → Option (Except IffErr (Nat × Scan))
  | [], steps, s => some (.ok (steps, s))
  | sizes :: later, steps, s =>
    match parseScan memory steps s with
    | some (.ok (left, s)) =>
      match readMany sizes s.ci with
      | .error e => some (.error e)
      | .ok (_, ci) => scanCalls memory later left { s with ci := ci }
    | failed => failed

/-! ## The position -/

/-- Reading leaves the file alone and never moves back. -/
def Ahead (file later : Stream) : Prop :=
  later.bytes = file.bytes ∧ file.pos ≤ later.pos

theorem Ahead.refl (file : Stream) : Ahead file file :=
  ⟨rfl, le_refl _⟩

theorem Ahead.trans {file mid later : Stream} (first : Ahead file mid) (second : Ahead mid later) :
    Ahead file later :=
  ⟨second.1.trans first.1, first.2.trans second.2⟩

theorem readBe32_ahead {file later : Stream} {v : ULong} (read : readBe32 file = some (v, later)) :
    later.bytes = file.bytes ∧ later.pos = file.pos + 4 ∧
      later.pos ≤ file.bytes.length := by
  unfold readBe32 at read
  split at read
  · rename_i a b c d after isRead
    cases read
    have data := congrArg (fun r => r.1.length) isRead
    have after := congrArg (fun r => r.2) isRead
    simp only [Stream.read, length_take, length_drop, length_cons, length_nil] at data after
    rw [← after]
    refine ⟨rfl, ?_, ?_⟩
    · dsimp only
      omega
    · dsimp only
      omega
  · cases read

theorem formLevel_ahead {ci : CaraIff} {file : Stream} {top : ContextNode}
    (level : formLevel ci = .ok (file, top)) : Ahead ci.stream file := by
  unfold formLevel at level
  split at level
  · split at level
    · cases level
    rename_i named first
    split at level
    · cases level
    split at level
    · cases level
    rename_i sized second
    split at level
    · cases level
    rename_i typed third
    cases level
    have first := readBe32_ahead first
    have second := readBe32_ahead second
    have third := readBe32_ahead third
    exact ⟨third.1.trans (second.1.trans first.1), by omega⟩
  · cases level
    exact .refl _
  · dsimp only at level
    split at level
    · unfold Stream.seek at level
      rw [if_neg (by omega)] at level
      cases level
      exact ⟨rfl, by dsimp only; omega⟩
    · cases level
      exact .refl _

theorem iffStep_ahead {ci after : CaraIff} (stepped : iffStep ci = .ok after) :
    after.stream.bytes = ci.stream.bytes ∧ ci.stream.pos + 8 ≤ after.stream.pos ∧
      after.stream.pos ≤ ci.stream.bytes.length := by
  unfold iffStep at stepped
  cases isLevel : formLevel ci with
  | error e => simp [isLevel, bind, Except.bind] at stepped
  | ok level =>
    obtain ⟨bytes, pos⟩ := formLevel_ahead isLevel
    simp only [isLevel, bind, Except.bind, nextChunk] at stepped
    split at stepped
    · cases stepped
    rename_i chunk isChunk
    split at isChunk
    · cases isChunk
    split at isChunk
    · cases isChunk
    rename_i named first
    split at isChunk
    · cases isChunk
    rename_i sized second
    cases isChunk
    cases stepped
    have first := readBe32_ahead first
    have second := readBe32_ahead second
    rw [first.1, bytes] at second
    exact ⟨second.1, by dsimp only; omega, second.2.2⟩

variable {data : List Byte}

theorem readChunkBytes_ahead {size : Int} {ci after : CaraIff}
    (read : readChunkBytes size ci = .ok (data, after)) : Ahead ci.stream after.stream := by
  unfold readChunkBytes at read
  split at read
  · dsimp only at read
    split at read
    · cases read
      exact .refl _
    · cases read
      exact ⟨rfl, Nat.le_add_right ..⟩
  · cases read

theorem readMany_ahead {sizes : List Int} {ci after : CaraIff}
    (read : readMany sizes ci = .ok (data, after)) : Ahead ci.stream after.stream := by
  induction sizes generalizing ci data with
  | nil =>
    cases read
    exact .refl _
  | cons size sizes ih =>
    simp only [readMany, bind, Except.bind] at read
    split at read
    · cases read
    rename_i first isFirst
    split at read
    · cases read
    · rename_i rest isRest
      cases read
      exact (readChunkBytes_ahead isFirst).trans (ih isRest)

theorem gatherBody_ahead (memory : Bool) (node : ContextNode) (ci : CaraIff) :
    Ahead ci.stream (gatherBody memory node ci).2.stream := by
  unfold gatherBody
  split
  · exact .refl _
  split
  · split
    · exact .refl _
    · rename_i read
      exact readChunkBytes_ahead read
  · exact .refl _

theorem iffGather_ahead (memory : Nat → Bool) (s : Scan) :
    Ahead s.ci.stream (iffGather memory s).2.ci.stream := by
  unfold iffGather
  split
  · rename_i node _ _ _
    have ahead := gatherBody_ahead (memory s.allocs) node s.ci
    dsimp only
    split
    · exact .refl _
    · split <;> exact ahead
  · exact .refl _

/-! ## The end -/

/-- The steps are more than the rest of the file has room for. -/
def Enough (steps : Nat) (file : Stream) : Prop :=
  0 < steps ∧ file.bytes.length < 8 * steps + file.pos

variable {steps : Nat}

theorem Enough.ahead {file later : Stream}
    (enough : Enough steps file) (ahead : Ahead file later) : Enough steps later := by
  have room := enough.2
  have pos := ahead.2
  refine ⟨enough.1, ?_⟩
  rw [ahead.1]
  omega

theorem Enough.step {ci after : CaraIff}
    (enough : Enough (steps + 1) ci.stream) (stepped : iffStep ci = .ok after) :
    Enough steps after.stream := by
  obtain ⟨bytes, pos, inside⟩ := iffStep_ahead stepped
  have room := enough.2
  refine ⟨by omega, ?_⟩
  rw [bytes]
  omega

theorem parseScan_ends (memory : Nat → Bool) {s : Scan} (enough : Enough steps s.ci.stream) :
    ∃ outcome, parseScan memory steps s = some outcome ∧
      ∀ left last, outcome = .ok (left, last) → left < steps ∧ Enough left last.ci.stream := by
  induction steps generalizing s with
  | zero => exact absurd enough.1 (Nat.lt_irrefl 0)
  | succ steps ih =>
    unfold parseScan
    cases isStep : iffStep s.ci with
    | error e => exact ⟨.error e, rfl, by simp⟩
    | ok ci =>
      have gathered := (enough.step isStep).ahead (iffGather_ahead memory { s with ci := ci })
      dsimp only
      split
      · refine ⟨_, rfl, fun left last isLast => ?_⟩
        cases isLast
        exact ⟨Nat.lt_succ_self _, gathered⟩
      · obtain ⟨outcome, ended, rest⟩ := ih gathered
        refine ⟨outcome, ended, fun left last isLast => ?_⟩
        exact ⟨(rest left last isLast).1.trans (Nat.lt_succ_self _), (rest left last isLast).2⟩

theorem scanCalls_ends (memory : Nat → Bool) {calls : List (List Int)} {s : Scan}
    (enough : Enough steps s.ci.stream) :
    ∃ outcome, scanCalls memory calls steps s = some outcome ∧
      ∀ left last, outcome = .ok (left, last) → calls.length + left ≤ steps ∧ 0 < left := by
  induction calls generalizing steps s with
  | nil =>
    refine ⟨_, rfl, fun left last isLast => ?_⟩
    cases isLast
    exact ⟨(Nat.zero_add _).le, enough.1⟩
  | cons sizes later ih =>
    obtain ⟨outcome, ended, rest⟩ := parseScan_ends memory enough
    unfold scanCalls
    rw [ended]
    cases outcome with
    | error e => exact ⟨.error e, rfl, by simp⟩
    | ok found =>
      obtain ⟨left, found⟩ := found
      obtain ⟨fewer, enough⟩ := rest left found rfl
      dsimp only
      cases isRead : readMany sizes found.ci with
      | error e => exact ⟨.error e, rfl, by simp⟩
      | ok read =>
        obtain ⟨outcome, ended, rest⟩ :=
          @ih left { found with ci := read.2 } (enough.ahead (readMany_ahead isRead))
        refine ⟨outcome, ended, fun left last isLast => ?_⟩
        have more := rest left last isLast
        rw [length_cons]
        omega

/-- All calls together take at most a step for every eight bytes of the file
and one that fails; a call too many returns an error. -/
theorem scanning_ends (memory : Nat → Bool) (calls : List (List Int)) (s : Scan) :
    ∃ outcome, scanCalls memory calls (s.ci.stream.bytes.length / 8 + 1) s = some outcome ∧
      ∀ left last, outcome = .ok (left, last) →
        calls.length ≤ s.ci.stream.bytes.length / 8 := by
  have enough : Enough (s.ci.stream.bytes.length / 8 + 1) s.ci.stream :=
    ⟨Nat.succ_pos _, by omega⟩
  obtain ⟨outcome, ended, rest⟩ := scanCalls_ends memory enough
  refine ⟨outcome, ended, fun left last isLast => ?_⟩
  have more := rest left last isLast
  omega

end CaraOS.IffParse
