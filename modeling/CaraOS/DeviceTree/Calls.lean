import CaraOS.DeviceTree.Bounds

namespace CaraOS.DeviceTree

/-!
# The calls of the device-tree reader

Properties and nodes are found by walks over tokens, so the calls inherit their
bounds from those of the tokens.  The reservation block is different: the
offset of an entry is computed from the cursor, and the check of its end wraps.
-/

open Reader Outcome

variable {compat : List (BitVec 8)}

namespace Fdt

variable {fdt : Fdt} {turns node : Nat}

/-! ## Strings -/

theorem stringsGet_meets {nameoff : Nat} (valid : fdt.Valid) (enough : Enough turns) :
    Meets (fdt.stringsGet turns nameoff) fun found =>
      ∀ a, found = some a → fdt.Ended a := by
  have total := valid.total
  have strings := valid.strings
  unfold Enough at enough
  unfold stringsGet
  split
  case isTrue => rintro a ⟨⟩
  case isFalse inBlock =>
    apply Meets.loop (fun i => nameoff ≤ i ∧ i ≤ fdt.sizeStrings) (fun i => fdt.sizeStrings - i)
    · rintro i ⟨after, inside⟩
      split
      case isFalse => rintro a ⟨⟩
      case isTrue notEnd =>
        rw [meets_bind, meets_byte]
        refine ⟨by omega, ?_⟩
        split
        case isTrue isZero =>
          rintro a ⟨⟩
          exact ⟨fdt.offStrings + i, by omega, by omega, isZero⟩
        case isFalse =>
          rw [meets_pure, u32_of_lt (by omega)]
          omega
    · omega
    · omega

variable {a : Nat} {name : List (BitVec 8)}

section

variable (ended : fdt.Ended a)
include ended

theorem Ended.next (notZero : fdt.blob a ≠ 0) : fdt.Ended (a + 1) := by
  obtain ⟨last, after, inside, isZero⟩ := ended
  have further : a ≠ last := by
    rintro rfl
    exact notZero isZero
  exact ⟨last, by omega, inside, isZero⟩

theorem Ended.inside : a < fdt.totalsize := by
  obtain ⟨last, after, inside, -⟩ := ended
  omega

theorem sameString_meets (s : List (BitVec 8)) : Meets (fdt.sameString a s) fun _ => True := by
  induction s generalizing a with
  | nil =>
    unfold sameString
    rw [meets_bind, meets_byte]
    exact ⟨ended.inside, trivial⟩
  | cons c rest ih =>
    unfold sameString
    rw [meets_bind, meets_byte]
    refine ⟨ended.inside, ?_⟩
    split
    case isTrue same => exact ih (ended.next same.1)
    case isFalse => exact trivial

theorem segmentMatches_meets (seg : List (BitVec 8)) :
    Meets (fdt.segmentMatches a seg) fun _ => True := by
  induction seg generalizing a with
  | nil =>
    unfold segmentMatches
    rw [meets_bind, meets_byte]
    exact ⟨ended.inside, trivial⟩
  | cons c rest ih =>
    unfold segmentMatches
    rw [meets_bind, meets_byte]
    refine ⟨ended.inside, ?_⟩
    split
    case isTrue same => exact ih (ended.next same.1)
    case isFalse => exact trivial

end

/-! ## Properties -/

section

variable (valid : fdt.Valid)
include valid

section

variable (enough : Enough turns)
include enough

theorem propRaw_meets :
    Meets (fdt.propRaw turns node name) fun data =>
      data.1 + data.2 ≤ fdt.sizeStruct := by
  have total := valid.total
  have structs := valid.structs
  unfold propRaw findProp
  apply (nodeBody_meets valid enough).bind
  rintro body -
  apply Meets.loop (fun _ => True) (fun off => fdt.rest off)
  · intro off _
    refine .when fun _ => ?_
    apply (readToken_meets valid enough).bind
    intro found sound
    cases isToken : found.token with
    | beginNode => exact trivial
    | endNode => exact trivial
    | finish => exact trivial
    | nop => exact ⟨trivial, sound.shorter⟩
    | prop =>
      have room := sound.prop isToken
      have isPayload := sound.payload
      rw [meets_bind, meets_readBe32]
      refine ⟨by omega, ?_⟩
      rw [meets_bind, meets_readBe32]
      refine ⟨by omega, ?_⟩
      apply (stringsGet_meets valid enough).bind
      intro result isString
      cases result with
      | none => exact trivial
      | some propName =>
        apply (sameString_meets (isString propName rfl) name).bind
        rintro same -
        split
        · rw [meets_pure, u32_of_lt (by omega)]
          omega
        · exact ⟨trivial, sound.shorter⟩
  · exact trivial
  · exact rest_lt_turns valid enough body

theorem propU32_meets : Meets (fdt.propU32 turns node name) fun _ => True := by
  have structs := valid.structs
  unfold propU32
  apply (propRaw_meets valid enough).bind
  rintro ⟨dataOff, len⟩ inside
  dsimp only at inside ⊢
  refine .unless fun isFour => ?_
  rw [meets_readBe32]
  exact ⟨by omega, trivial⟩

theorem propStrIter_meets {cursor : Nat} :
    Meets (fdt.propStrIter turns node name cursor) fun result =>
      fdt.InStruct result.1 ∧ cursor < result.2 ∧
        result.2 ≤ fdt.sizeStruct := by
  have total := valid.total
  have structs := valid.structs
  unfold propStrIter
  apply (propRaw_meets valid enough).bind
  rintro ⟨dataOff, len⟩ inside
  unfold Enough at enough
  dsimp only at inside ⊢
  refine .unless fun inData => ?_
  rw [meets_bind, meets_byte]
  refine ⟨by omega, ?_⟩
  refine .unless fun _ => ?_
  refine Meets.bind (show Meets _ (fun i => cursor ≤ i ∧ i ≤ len ∧
    (i < len → fdt.blob (fdt.offStruct + dataOff + i) = 0)) from ?_) ?_
  · apply Meets.loop (fun i => cursor ≤ i ∧ i ≤ len) (fun i => len - i)
    · rintro i ⟨after, before⟩
      split
      case isFalse atEnd => exact ⟨after, before, fun notEnd => absurd notEnd atEnd⟩
      case isTrue notEnd =>
        rw [meets_bind, meets_byte]
        refine ⟨by omega, ?_⟩
        split
        case isTrue =>
          rw [meets_pure, u32_of_lt (by omega)]
          omega
        case isFalse isZero =>
          exact ⟨after, before, fun _ => not_not.mp isZero⟩
    · omega
    · omega
  · rintro i ⟨after, before, isZero⟩
    refine .unless fun notEnd => ?_
    rw [u32_of_lt (by omega)]
    refine ⟨⟨fdt.offStruct + dataOff + i, by omega, by omega, by omega,
      isZero (by omega)⟩, by omega, by omega⟩

theorem nodeIsCompatible_meets : Meets (fdt.nodeIsCompatible turns node compat) fun _ => True := by
  have total := valid.total
  have structs := valid.structs
  apply Meets.loop (fun cursor => cursor ≤ fdt.sizeStruct) (fun cursor => fdt.sizeStruct - cursor)
  · intro cursor inside
    rw [meets_bind, meets_attempt]
    constructor
    · apply (propStrIter_meets valid enough).mono
      rintro ⟨s, next⟩ ⟨inStruct, further, nextInside⟩
      apply (sameString_meets (inStruct.ended valid) compat).bind
      rintro same -
      split
      · exact trivial
      · rw [meets_pure]
        omega
    · intro code _
      exact trivial
  · exact Nat.zero_le _
  · unfold Enough at enough
    omega

theorem findParent_meets {child : Nat} : Meets (fdt.findParent turns child) fun _ => True := by
  apply Meets.loop (fun _ => True) (fun state : List Nat × Nat => fdt.rest state.2)
  · rintro ⟨ancestors, off⟩ -
    unfold parentTurn
    dsimp only
    refine .when fun _ => ?_
    apply (readToken_meets valid enough).bind
    intro found sound
    have goesOn (outer : List Nat) : Meets (pure (Turn.next (outer, found.next)) :
            Outcome Err (Turn (List Nat × Nat) Nat)) fun
          | .next after => True ∧ fdt.rest after.2 < fdt.rest off
          | .done _ => True :=
      ⟨trivial, sound.shorter⟩
    cases found.token with
    | beginNode =>
      dsimp only
      split
      · cases ancestors <;> exact trivial
      · split
        · exact trivial
        · exact goesOn _
    | endNode =>
      cases ancestors with
      | nil => exact trivial
      | cons inner outer => exact goesOn outer
    | prop => exact goesOn ancestors
    | nop => exact goesOn ancestors
    | finish => exact trivial
  · exact trivial
  · exact rest_lt_turns valid enough 0

theorem getParentCells_meets : Meets (fdt.getParentCells turns node) fun _ => True := by
  unfold getParentCells
  rw [meets_bind, meets_attempt]
  constructor
  · apply (findParent_meets valid enough).mono
    rintro parent -
    rw [meets_bind, meets_attempt]
    constructor
    · apply (propU32_meets valid enough).mono
      rintro addr -
      rw [meets_bind, meets_attempt]
      exact ⟨(propU32_meets valid enough).mono fun _ _ => trivial, fun _ _ => trivial⟩
    · intro code _
      rw [meets_bind, meets_attempt]
      exact ⟨(propU32_meets valid enough).mono fun _ _ => trivial, fun _ _ => trivial⟩
  · intro code _
    exact trivial

end

end

theorem readCells_meets {off n acc : Nat} (inside : off + 4 * n ≤ fdt.totalsize) :
    Meets (fdt.readCells off n acc) fun _ => True := by
  induction n generalizing off acc with
  | zero => exact trivial
  | succ n ih =>
    unfold readCells
    rw [meets_bind, meets_readBe32]
    exact ⟨by omega, ih (by omega)⟩

theorem propReg_meets {index : Nat} (valid : fdt.Valid) (enough : Enough turns) :
    Meets (fdt.propReg turns node index) fun _ => True := by
  have total := valid.total
  have structs := valid.structs
  unfold propReg
  apply (getParentCells_meets valid enough).bind
  rintro ⟨addrCells, sizeCells⟩ -
  dsimp only
  refine .unless fun cells => ?_
  apply (propRaw_meets valid enough).bind
  rintro ⟨dataOff, len⟩ inside
  dsimp only at inside ⊢
  refine .unless fun whole => ?_
  refine .unless fun inData => ?_
  have entry : (index + 1) * ((addrCells + sizeCells) * 4) ≤ len := by
    apply Nat.mul_le_of_le_div
    omega
  rw [Nat.succ_mul] at entry
  rw [u32_of_lt (by omega : index * ((addrCells + sizeCells) * 4) < 4294967296), meets_bind]
  apply (readCells_meets (by omega)).mono
  rintro base -
  apply (readCells_meets (by omega)).bind
  rintro size -
  exact trivial

/-! ## Nodes -/

variable (valid : fdt.Valid)
include valid

section

variable (enough : Enough turns)
include enough

theorem childIter_meets {cursor : Nat} :
    Meets (fdt.childIter turns node cursor) fun result =>
      result.1 + 4 ≤ fdt.sizeStruct ∧ 0 < result.2 ∧
        (cursor ≠ 0 → fdt.rest result.2 < fdt.rest cursor) := by
  refine Meets.bind (show Meets _ (fun start => cursor ≠ 0 → start = cursor) from ?_) ?_
  · unfold childStart
    split
    case isTrue isZero =>
      apply (nodeBody_meets valid enough).mono
      rintro body - notZero
      exact absurd isZero notZero
    case isFalse =>
      rw [meets_pure]
      exact fun _ => rfl
  · intro start isStart
    apply Meets.loop (fun off => cursor ≠ 0 → fdt.rest off ≤ fdt.rest cursor)
      (fun off => fdt.rest off)
    · intro off before
      refine .when fun _ => ?_
      apply (readToken_meets valid enough).bind
      intro found sound
      have goesOn : (cursor ≠ 0 → fdt.rest found.next ≤ fdt.rest cursor) ∧
          fdt.rest found.next < fdt.rest off :=
        ⟨fun notZero => (sound.shorter.trans_le (before notZero)).le, sound.shorter⟩
      cases found.token with
      | prop => exact goesOn
      | nop => exact goesOn
      | endNode => exact trivial
      | finish => exact trivial
      | beginNode =>
        apply (skipNode_meets valid enough).bind
        rintro after ⟨positive, -, shorter⟩
        exact ⟨sound.inside, positive, fun notZero => shorter.trans_le (before notZero)⟩
    · intro notZero
      rw [isStart notZero]
    · exact rest_lt_turns valid enough start

theorem resolveSegment_meets {seg : List (BitVec 8)} :
    Meets (fdt.resolveSegment turns node seg) fun off =>
      off + 4 ≤ fdt.sizeStruct := by
  have total := valid.total
  have structs := valid.structs
  -- The first cursor is zero and none of the later ones is.
  apply Meets.loop (fun _ => True) (fun cursor =>
      if cursor = 0 then fdt.sizeStruct + 2 else fdt.rest cursor)
  · intro cursor _
    rw [meets_bind, meets_attempt]
    constructor
    · apply (childIter_meets valid enough).mono
      rintro ⟨child, next⟩ ⟨inside, positive, shorter⟩
      have fewer : (if next = 0 then fdt.sizeStruct + 2 else fdt.rest next) <
          if cursor = 0 then fdt.sizeStruct + 2 else fdt.rest cursor := by
        rw [if_neg positive.ne']
        split
        case isTrue =>
          unfold rest
          split <;> omega
        case isFalse notZero => exact shorter notZero
      apply (nodeName_meets valid enough).bind
      intro result isName
      cases result with
      | none => exact ⟨trivial, fewer⟩
      | some name =>
        apply (segmentMatches_meets ((isName name rfl).ended valid) seg).bind
        rintro same -
        split
        · exact inside
        · exact ⟨trivial, fewer⟩
    · intro code _
      exact trivial
  · exact trivial
  · unfold Enough at enough
    rw [if_pos rfl]
    omega

theorem resolveSegments_meets {segs : List (List (BitVec 8))} (inside : node + 4 ≤ fdt.sizeStruct) :
    Meets (fdt.resolveSegments turns node segs) fun off =>
      off + 4 ≤ fdt.sizeStruct := by
  induction segs generalizing node with
  | nil => exact inside
  | cons seg rest ih =>
    unfold resolveSegments
    refine .unless fun _ => ?_
    apply (resolveSegment_meets valid enough).bind
    intro next nextInside
    exact ih nextInside

theorem resolvePath_meets {path : List (BitVec 8)} :
    Meets (fdt.resolvePath turns path) fun off =>
      off + 4 ≤ fdt.sizeStruct := by
  unfold resolvePath
  cases path with
  | nil => exact trivial
  | cons c rest =>
    dsimp only
    refine .unless fun _ => ?_
    apply (root_meets valid enough).bind
    intro cur inside
    exact resolveSegments_meets valid enough inside

theorem findByCompatible_meets {start : Nat} :
    Meets (fdt.findByCompatible turns compat start) fun off =>
      off + 4 ≤ fdt.sizeStruct := by
  refine Meets.bind (show Meets _ (fun _ => True) from ?_) ?_
  · unfold findStart
    split
    case isTrue => exact trivial
    case isFalse => exact (skipNode_meets valid enough).mono fun _ _ => trivial
  · rintro first -
    apply Meets.loop (fun _ => True) (fun off => fdt.rest off)
    · intro off _
      refine .when fun _ => ?_
      apply (readToken_meets valid enough).bind
      intro found sound
      cases found.token with
      | beginNode =>
        apply (nodeIsCompatible_meets valid enough).bind
        rintro isCompatible -
        split
        · exact sound.inside
        · exact ⟨trivial, sound.shorter⟩
      | finish => exact trivial
      | endNode => exact ⟨trivial, sound.shorter⟩
      | prop => exact ⟨trivial, sound.shorter⟩
      | nop => exact ⟨trivial, sound.shorter⟩
    · exact trivial
    · exact rest_lt_turns valid enough first

end

theorem rsvIter_meets_iff (cursor : Nat) :
    Meets (fdt.rsvIter cursor) (fun _ => True) ↔
      fdt.entryOff cursor < 4294967280 := by
  have total := valid.total
  have header := valid.header
  have isU32 : fdt.entryOff cursor < 4294967296 := Nat.mod_lt _ (by decide)
  unfold rsvIter
  dsimp only
  generalize fdt.entryOff cursor = entryOff at isU32 ⊢
  split
  case isTrue beyond =>
    unfold u32 at beyond
    simp only [meets_error, true_iff]
    omega
  case isFalse within =>
    unfold u32 at within
    simp only [meets_bind, meets_readBe64]
    constructor
    · rintro ⟨-, inside, -⟩
      omega
    · intro noWrap
      refine ⟨by omega, by omega, ?_⟩
      split <;> exact trivial

end Fdt

/-! ## All calls -/

/-- The calls, with `u32` arguments and strings of the caller. -/
inductive Call where
  | rsvIter (cursor : BitVec 32)
  | childIter (parent cursor : BitVec 32)
  | resolvePath (path : List (BitVec 8))
  | findByCompatible (compat : List (BitVec 8)) (start : BitVec 32)
  | propRaw (node : BitVec 32) (name : List (BitVec 8))
  | propStrIter (node : BitVec 32) (name : List (BitVec 8)) (cursor : BitVec 32)
  | propReg (node index : BitVec 32)
  | nodeName (node : BitVec 32)

/-- What is returned, apart from numbers. -/
inductive Answer where
  | number
  | node (off : Nat)
  | data (dataOff len : Nat)
  | string (a : Option Nat)

/-- A call on an open blob, with so many turns for each loop. -/
def Call.run (turns : Nat) (fdt : Fdt) : Call → Outcome Err Answer
  | .rsvIter cursor => do
      let _ ← fdt.rsvIter cursor.toNat
      pure .number
  | .childIter parent cursor => do
      let (child, _) ← fdt.childIter turns parent.toNat cursor.toNat
      pure (.node child)
  | .resolvePath path => do
      let node ← fdt.resolvePath turns path
      pure (.node node)
  | .findByCompatible compat start => do
      let node ← fdt.findByCompatible turns compat start.toNat
      pure (.node node)
  | .propRaw node name => do
      let (dataOff, len) ← fdt.propRaw turns node.toNat name
      pure (.data dataOff len)
  | .propStrIter node name cursor => do
      let (a, _) ← fdt.propStrIter turns node.toNat name cursor.toNat
      pure (.string (some a))
  | .propReg node index => do
      let _ ← fdt.propReg turns node.toNat index.toNat
      pure .number
  | .nodeName node => do
      let a ← fdt.nodeName turns node.toNat
      pure (.string a)

/-- What is returned lies inside the structure block. -/
def Answer.InBlock (fdt : Fdt) : Answer → Prop
  | .number => True
  | .node off => off + 4 ≤ fdt.sizeStruct
  | .data dataOff len => dataOff + len ≤ fdt.sizeStruct
  | .string a => ∀ first, a = some first → fdt.InStruct first

/-- The offset of a reservation entry is not among the last of the range. -/
def Call.NoWrap (fdt : Fdt) : Call → Prop
  | .rsvIter cursor => fdt.entryOff cursor.toNat < 4294967280
  | _ => True

/--
A call on an accepted blob ends, reads nothing outside the blob and returns what
lies inside the structure block, except for those entries of the reservation
block whose offset is one of the last in the range of a `u32`.
-/
theorem calls_stay_inside_iff {address : Nat} {blob : Blob} {fdt : Fdt}
    (accepted : fdtOpen address blob = .ok fdt) (call : Call) :
    (∀ turns, Fdt.Enough turns → Meets (call.run turns fdt) (Answer.InBlock fdt)) ↔
      call.NoWrap fdt := by
  have valid := Fdt.fdtOpen_valid accepted
  have always (stays : ∀ turns, Fdt.Enough turns →
      Meets (call.run turns fdt) (Answer.InBlock fdt)) (noWrap : call.NoWrap fdt) :
      (∀ turns, Fdt.Enough turns →
        Meets (call.run turns fdt) (Answer.InBlock fdt)) ↔ call.NoWrap fdt :=
    ⟨fun _ => noWrap, fun _ => stays⟩
  cases call
  case rsvIter cursor =>
    have entry := Fdt.rsvIter_meets_iff valid cursor.toNat
    constructor
    · intro stays
      have once := stays 4294967298 (Nat.lt_succ_self 4294967297)
      simp only [Call.run, meets_bind, meets_pure] at once
      exact entry.mp (once.mono fun _ _ => trivial)
    · intro noWrap turns _
      simp only [Call.run, meets_bind, meets_pure]
      exact (entry.mpr noWrap).mono fun _ _ => trivial
  -- the other calls have no condition to meet
  all_goals
    refine always (fun turns enough => ?_) trivial
    simp only [Call.run, meets_bind, meets_pure]
  case childIter => exact (Fdt.childIter_meets valid enough).mono fun _ result => result.1
  case resolvePath => exact Fdt.resolvePath_meets valid enough
  case findByCompatible => exact Fdt.findByCompatible_meets valid enough
  case propRaw => exact Fdt.propRaw_meets valid enough
  case propStrIter =>
    apply (Fdt.propStrIter_meets valid enough).mono
    rintro ⟨a, next⟩ ⟨inStruct, -⟩ first ⟨⟩
    exact inStruct
  case propReg => exact (Fdt.propReg_meets valid enough).mono fun _ _ => trivial
  case nodeName => exact Fdt.nodeName_meets valid enough

/-! ### A tree with a root only -/

/-- Header, an empty reservation block and a structure block of four tokens. -/
def rootOnly : Blob :=
  fun off => [0xD0, 0x0D, 0xFE, 0xED, 0, 0, 0, 72, 0, 0, 0, 56, 0, 0, 0, 72,
    0, 0, 0, 40, 0, 0, 0, 17, 0, 0, 0, 16, 0, 0, 0, 0, 0, 0, 0, 0, 0, 0, 0, 16,
    0, 0, 0, 0, 0, 0, 0, 0, 0, 0, 0, 0, 0, 0, 0, 0,
    0, 0, 0, 1, 0, 0, 0, 0, 0, 0, 0, 2, 0, 0, 0, 9].getD off 0

/-- The blob when it is open. -/
def rootTree : Fdt :=
  ⟨rootOnly, 72, 56, 16, 72, 0, 40, 17, 0⟩

theorem rootOnly_accepted : fdtOpen 0 rootOnly = .ok rootTree := by
  have header : (word rootOnly 0 = 0xD00DFEED ∧ word rootOnly 4 = 72 ∧
        word rootOnly 8 = 56 ∧ word rootOnly 12 = 72 ∧ word rootOnly 16 = 40) ∧
      word rootOnly 20 = 17 ∧ word rootOnly 24 = 16 ∧ word rootOnly 28 = 0 ∧
        word rootOnly 32 = 0 ∧ word rootOnly 36 = 16 := by
    decide +kernel
  obtain ⟨⟨magic, total, structs, strings, rsvmap⟩, version, lastComp, cpu,
    sizeStrings, sizeStructs⟩ := header
  unfold fdtOpen
  rw [magic, total, structs, strings, rsvmap, version, lastComp, sizeStrings, sizeStructs]
  rfl

/-- The first entry of the reservation block can be read. -/
theorem calls_stay_inside_first :
    fdtOpen 0 rootOnly = .ok rootTree ∧ ∀ turns, Fdt.Enough turns →
      Meets (Call.run turns rootTree (.rsvIter 0))
        (Answer.InBlock rootTree) := by
  refine ⟨rootOnly_accepted, (calls_stay_inside_iff rootOnly_accepted (.rsvIter 0)).mpr ?_⟩
  show rootTree.entryOff 0 < 4294967280
  decide

/-- An entry far behind the last one is read eight bytes below 4 GiB. -/
theorem rsvIter_reads_outside :
    fdtOpen 0 rootOnly = .ok rootTree ∧
      ∀ turns, Call.run turns rootTree (.rsvIter 0x0FFFFFFD) = .outside := by
  refine ⟨rootOnly_accepted, fun turns => ?_⟩
  rfl

end CaraOS.DeviceTree
