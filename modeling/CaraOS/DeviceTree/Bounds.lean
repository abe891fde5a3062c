import CaraOS.DeviceTree.Fdt
import Mathlib.Tactic.IntervalCases

namespace CaraOS.DeviceTree

/-!
# Reading inside the blob

What `Fdt_Open` accepts keeps every walk inside the blob.  Walks end because
the next token lies behind the one that was read.  Only a node name at the very
end of a structure block of nearly 4 GiB makes the next offset wrap to zero;
such a block starts with the header, whose magic number is no token.
-/

open Reader Outcome

namespace Fdt

/-- What `Fdt_Open` makes sure of. -/
structure Valid (fdt : Fdt) : Prop where
  total : fdt.totalsize < 4294967296
  header : 40 ≤ fdt.totalsize
  structs : fdt.offStruct + fdt.sizeStruct ≤ fdt.totalsize
  strings : fdt.offStrings + fdt.sizeStrings ≤ fdt.totalsize
  aligned : fdt.offStruct % 4 = 0
  nonempty : 4 ≤ fdt.sizeStruct
  magic : word fdt.blob 0 = 0xD00DFEED

/-- How much a walk still has to go from an offset. -/
def rest (off : Nat) (fdt : Fdt) : Nat :=
  if fdt.offStruct = 0 ∧ off = 0 then 0 else fdt.sizeStruct + 1 - off

/-- A string that ends inside the structure block. -/
def InStruct (a : Nat) (fdt : Fdt) : Prop :=
  ∃ last, a ≤ last ∧ last < fdt.offStruct + fdt.sizeStruct ∧ fdt.offStruct ≤ a ∧ fdt.blob last = 0

/-- A string that ends inside the blob. -/
def Ended (a : Nat) (fdt : Fdt) : Prop :=
  ∃ last, a ≤ last ∧ last < fdt.totalsize ∧ fdt.blob last = 0

/-- What a token of the structure block says about the block. -/
structure Sound (off : Nat) (found : Found) (fdt : Fdt) : Prop where
  payload : found.payload = off + 4
  inside : off + 4 ≤ fdt.sizeStruct
  next : found.next ≤ fdt.sizeStruct
  advances : off < found.next ∨ found.token = .beginNode
  shorter : fdt.rest found.next < fdt.rest off
  prop : found.token = .prop → off + 12 +
    word fdt.blob (fdt.offStruct + found.payload) ≤ fdt.sizeStruct
  name : found.token = .beginNode → fdt.InStruct (fdt.offStruct + found.payload)

theorem word_lt (blob : Blob) (off : Nat) : word blob off < 4294967296 := by
  unfold word be32
  omega

theorem refuseIf_bind_eq_ok {bad : Prop} [Decidable bad] {code : Err} {next : Unit → Except Err Fdt}
    {fdt : Fdt} : (refuseIf bad code >>= next) = .ok fdt ↔ ¬ bad ∧ next () = .ok fdt := by
  by_cases isBad : bad
  · simp [refuseIf, isBad, bind, Except.bind]
  · simp [refuseIf, isBad, bind, Except.bind]

theorem fdtOpen_valid {address : Nat} {blob : Blob} {fdt : Fdt}
    (accepted : fdtOpen address blob = .ok fdt) : fdt.Valid := by
  have total := word_lt blob 4
  unfold fdtOpen at accepted
  simp only [refuseIf_bind_eq_ok] at accepted
  obtain ⟨-, magic, -, -, header, structs, strings, -, aligned, -, isFdt⟩ := accepted
  cases isFdt
  constructor <;> dsimp only
  · exact total
  · omega
  · omega
  · omega
  · omega
  · omega
  · exact not_not.mp magic

variable {post : Nat → Prop}

section Reads

variable {fdt : Fdt} {off turns : Nat}

@[simp] theorem meets_byte {post : BitVec 8 → Prop} :
    Meets (fdt.byte off) post ↔ off < fdt.totalsize ∧ post (fdt.blob off) := by
  unfold byte
  split
  case isTrue inside => simp [inside]
  case isFalse outside => simp [outside, Meets]

@[simp] theorem meets_readBe32 :
    Meets (fdt.readBe32 off) post ↔
      off + 4 ≤ fdt.totalsize ∧ post (word fdt.blob off) := by
  simp only [readBe32, meets_bind, meets_byte, meets_pure]
  constructor
  · rintro ⟨-, -, -, last, meets⟩
    exact ⟨last, meets⟩
  · rintro ⟨inside, meets⟩
    exact ⟨by omega, by omega, by omega, by omega, meets⟩

@[simp] theorem meets_readBe64 :
    Meets (fdt.readBe64 off) post ↔
      off + 8 ≤ fdt.totalsize ∧
        post (word fdt.blob off * 4294967296 + word fdt.blob (off + 4)) := by
  simp only [readBe64, meets_bind, meets_readBe32, meets_pure]
  constructor
  · rintro ⟨-, last, meets⟩
    exact ⟨last, meets⟩
  · rintro ⟨inside, meets⟩
    exact ⟨by omega, by omega, meets⟩

theorem InStruct.ended {a : Nat} (valid : fdt.Valid) (inStruct : fdt.InStruct a) : fdt.Ended a := by
  obtain ⟨last, after, inside, -, isZero⟩ := inStruct
  exact ⟨last, after, inside.trans_le valid.structs, isZero⟩

end Reads

/-! ## Tokens -/

/-- More turns than there are offsets. -/
def Enough (turns : Nat) : Prop :=
  4294967297 < turns

variable {node : Nat}

section Tokens

variable {fdt : Fdt} {off payload turns : Nat}

theorem u32_of_lt {x : Nat} (small : x < 4294967296) : u32 x = x :=
  Nat.mod_eq_of_lt small

theorem nameEnd_meets (valid : fdt.Valid) (enough : Enough turns)
    (inside : payload ≤ fdt.sizeStruct) :
    Meets (fdt.nameEnd turns payload) fun i =>
      payload + i ≤ fdt.sizeStruct ∧ (payload + i < fdt.sizeStruct →
        fdt.blob (fdt.offStruct + (payload + i)) = 0) := by
  have total := valid.total
  have structs := valid.structs
  unfold Enough at enough
  apply Meets.loop (fun i => payload + i ≤ fdt.sizeStruct) (fun i => fdt.sizeStruct - (payload + i))
  · intro i before
    rw [u32_of_lt (by omega : payload + i < 4294967296)]
    split
    case isFalse atEnd =>
      rw [meets_pure]
      exact ⟨before, fun notEnd => absurd notEnd atEnd⟩
    case isTrue notEnd =>
      rw [meets_bind, meets_byte]
      refine ⟨by omega, ?_⟩
      split
      case isTrue =>
        rw [meets_pure, u32_of_lt (by omega)]
        omega
      case isFalse isZero =>
        rw [meets_pure]
        exact ⟨before, fun _ => not_not.mp isZero⟩
  · omega
  · omega

theorem align4_cases (x : Nat) : (x ≤ align4 x ∧ align4 x < x + 4) ∨ 4294967296 ≤ x + 3 := by
  unfold align4 u32
  omega

theorem afterName_meets (valid : fdt.Valid) (enough : Enough turns)
    (inside : payload ≤ fdt.sizeStruct) :
    Meets (fdt.afterName turns payload) fun next =>
      next ≤ fdt.sizeStruct ∧ fdt.InStruct (fdt.offStruct + payload) ∧
        (payload < next ∨ next = 0 ∧ fdt.offStruct = 0) := by
  have total := valid.total
  have structs := valid.structs
  have aligned := valid.aligned
  unfold afterName
  apply (nameEnd_meets valid enough inside).bind
  rintro i ⟨before, isZero⟩
  rw [u32_of_lt (by omega : payload + i < 4294967296)]
  refine .unless fun notEnd => ?_
  rw [u32_of_lt (by omega : payload + i + 1 < 4294967296)]
  dsimp only
  refine .unless fun fits => ?_
  rw [meets_pure]
  refine ⟨by omega, ⟨fdt.offStruct + (payload + i), by omega, by omega,
    by omega, isZero (by omega)⟩, ?_⟩
  rcases align4_cases (payload + i + 1) with rounded | wrapped
  · left
    omega
  · right
    unfold align4 u32
    omega

theorem afterProp_meets (valid : fdt.Valid) (inside : payload ≤ fdt.sizeStruct) :
    Meets (fdt.afterProp payload) fun next =>
      payload + 8 + word fdt.blob (fdt.offStruct + payload) ≤ fdt.sizeStruct ∧
        payload < next ∧ next ≤ fdt.sizeStruct := by
  have total := valid.total
  have structs := valid.structs
  unfold afterProp
  refine .unless fun room => ?_
  rw [meets_bind, meets_readBe32]
  refine ⟨by omega, ?_⟩
  rw [u32_of_lt (by omega : payload + 8 < 4294967296)]
  dsimp only
  have isLen := word_lt fdt.blob (fdt.offStruct + payload)
  generalize word fdt.blob (fdt.offStruct + payload) = len at isLen ⊢
  refine .unless fun noOverflow => ?_
  refine .unless fun fits => ?_
  rw [meets_pure, u32_of_lt (by omega)]
  omega

theorem magic_no_token : Token.ofNumber 0xD00DFEED = none := by
  decide

theorem rest_lt {next : Nat} (start : ¬ (fdt.offStruct = 0 ∧ off = 0))
    (inside : off + 4 ≤ fdt.sizeStruct)
    (isNext : off < next ∨ next = 0 ∧ fdt.offStruct = 0) : fdt.rest next < fdt.rest off := by
  unfold rest
  rw [if_neg start]
  rcases isNext with farther | ⟨isZero, isStart⟩
  · split <;> omega
  · rw [if_pos ⟨isStart, isZero⟩]
    omega

variable (valid : fdt.Valid)
include valid

section

variable (enough : Enough turns)
include enough

theorem readToken_meets : Meets (fdt.readToken turns off) fun found => fdt.Sound off found := by
  have total := valid.total
  have structs := valid.structs
  unfold readToken
  refine .unless fun room => ?_
  refine .unless fun _ => ?_
  have inside : off + 4 ≤ fdt.sizeStruct := by omega
  rw [meets_bind, meets_readBe32]
  refine ⟨by omega, ?_⟩
  rw [u32_of_lt (by omega : off + 4 < 4294967296)]
  by_cases start : fdt.offStruct = 0 ∧ off = 0
  · have noToken : Token.ofNumber (word fdt.blob (fdt.offStruct + off)) = none := by
      rw [start.1, start.2]
      exact (congrArg Token.ofNumber valid.magic).trans magic_no_token
    rw [noToken]
    exact trivial
  · split
    case h_1 =>
      apply (afterName_meets valid enough inside).bind
      rintro next ⟨nextInside, name, isNext⟩
      have farther : off < next ∨ next = 0 ∧ fdt.offStruct = 0 :=
        isNext.imp_left fun after => by omega
      rw [meets_pure]
      refine ⟨rfl, inside, nextInside, .inr rfl,
        rest_lt start inside farther, ?_, fun _ => name⟩
      nofun
    case h_2 =>
      apply (afterProp_meets valid inside).bind
      rintro next ⟨dataInside, after, nextInside⟩
      have farther : off < next := by omega
      rw [meets_pure]
      refine ⟨rfl, inside, nextInside, .inl farther,
        rest_lt start inside (.inl farther), fun _ => ?_, ?_⟩
      · omega
      · nofun
    case h_3 token notBegin notProp _ =>
      have farther : off < off + 4 := by omega
      rw [meets_pure]
      refine ⟨rfl, inside, inside, .inl farther, rest_lt start inside (.inl farther), ?_, ?_⟩
      · rintro rfl
        exact absurd rfl notProp
      · rintro rfl
        exact absurd rfl notBegin
    case h_4 => exact trivial

theorem rest_lt_turns (off : Nat) : fdt.rest off < turns := by
  have total := valid.total
  have structs := valid.structs
  unfold Enough at enough
  unfold rest
  split <;> omega

theorem nodeBody_meets :
    Meets (fdt.nodeBody turns node) fun body =>
      body ≤ fdt.sizeStruct ∧ fdt.rest body < fdt.rest node := by
  unfold nodeBody
  apply (readToken_meets valid enough).bind
  intro found sound
  refine .unless fun _ => ?_
  rw [meets_pure]
  exact ⟨sound.next, sound.shorter⟩

theorem skipNode_meets :
    Meets (fdt.skipNode turns node) fun after =>
      0 < after ∧ after ≤ fdt.sizeStruct ∧ fdt.rest after < fdt.rest node := by
  unfold skipNode
  apply (nodeBody_meets valid enough).bind
  rintro body ⟨bodyInside, bodyShorter⟩
  apply Meets.loop (fun state : Nat × Nat => (state.1 = 0 → 0 < state.2) ∧
      state.2 ≤ fdt.sizeStruct ∧ fdt.rest state.2 < fdt.rest node) (fun state => fdt.rest state.2)
  · rintro ⟨depth, off⟩ ⟨positive, inside, shorter⟩
    dsimp only at positive inside shorter ⊢
    split
    case isTrue isEnd =>
      rw [meets_pure]
      exact ⟨positive isEnd, inside, shorter⟩
    case isFalse notEnd =>
      apply (readToken_meets valid enough).bind
      intro found sound
      have further := sound.shorter.trans shorter
      cases isToken : found.token with
      | beginNode =>
        exact ⟨⟨fun isZero => absurd isZero (Nat.succ_ne_zero depth), sound.next,
          further⟩, sound.shorter⟩
      | endNode =>
        have farther : off < found.next := by
          apply sound.advances.resolve_right
          rw [isToken]
          exact Token.noConfusion
        exact ⟨⟨fun _ => Nat.zero_lt_of_lt farther, sound.next, further⟩, sound.shorter⟩
      | prop =>
        exact ⟨⟨fun isZero => absurd isZero notEnd, sound.next, further⟩, sound.shorter⟩
      | nop =>
        exact ⟨⟨fun isZero => absurd isZero notEnd, sound.next, further⟩, sound.shorter⟩
      | finish => exact trivial
  · exact ⟨fun isZero => absurd isZero Nat.one_ne_zero, bodyInside, bodyShorter⟩
  · exact rest_lt_turns valid enough body

theorem root_meets : Meets (fdt.root turns) fun off => off + 4 ≤ fdt.sizeStruct := by
  have nonempty := valid.nonempty
  apply Meets.loop (fun _ => True) (fun off => fdt.rest off)
  · intro off _
    split
    case isFalse => exact nonempty
    case isTrue =>
      rw [meets_bind, meets_attempt]
      constructor
      · apply (readToken_meets valid enough).mono
        intro found sound
        cases isToken : found.token with
        | beginNode =>
          simp only [isToken]
          exact sound.inside
        | nop =>
          simp only [isToken]
          exact ⟨trivial, sound.shorter⟩
        | endNode => simp only [isToken]; exact nonempty
        | prop => simp only [isToken]; exact nonempty
        | finish => simp only [isToken]; exact nonempty
      · intro code _
        exact nonempty
  · exact trivial
  · exact rest_lt_turns valid enough 0

theorem nodeName_meets :
    Meets (fdt.nodeName turns node) fun name =>
      ∀ a, name = some a → fdt.InStruct a := by
  unfold nodeName
  rw [meets_bind, meets_attempt]
  constructor
  · apply (readToken_meets valid enough).mono
    intro found sound
    dsimp only
    split
    case isTrue =>
      rintro a ⟨⟩
    case isFalse isBegin =>
      rintro a ⟨⟩
      exact sound.name (not_not.mp isBegin)
  · rintro code - a ⟨⟩

end

end Tokens

end Fdt

end CaraOS.DeviceTree
