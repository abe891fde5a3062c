import CaraOS.DeviceTree.Calls

namespace CaraOS.DeviceTree

/-!
# The cells of the parent

`Fdt_PropReg` takes the numbers of cells from the parent of the node, which
`fdt_find_parent` finds on a walk over all tokens before the node.  The walk
keeps the open nodes on a stack of 16 places; when that is full the search
fails, and the default numbers are used instead.
-/

open Reader Outcome

namespace Fdt

/--
The tokens from the start of the structure block lead to that offset, where
these nodes are open, the innermost first; so many were open at most.
-/
inductive Walk (turns : Nat) (fdt : Fdt) : List Nat → Nat → Nat → Prop where
  | start : Walk turns fdt [] 0 0
  | enter {nodes : List Nat} {off deepest : Nat} {found : Found}
      (walk : Walk turns fdt nodes off deepest)
      (isFound : fdt.readToken turns off = .value found)
      (isBegin : found.token = .beginNode) :
      Walk turns fdt (off :: nodes) found.next (max deepest (nodes.length + 1))
  | leave {node : Nat} {nodes : List Nat} {off deepest : Nat} {found : Found}
      (walk : Walk turns fdt (node :: nodes) off deepest)
      (isFound : fdt.readToken turns off = .value found)
      (isEnd : found.token = .endNode) :
      Walk turns fdt nodes found.next deepest
  | skip {nodes : List Nat} {off deepest : Nat} {found : Found}
      (walk : Walk turns fdt nodes off deepest)
      (isFound : fdt.readToken turns off = .value found)
      (isOther : found.token = .prop ∨ found.token = .nop) :
      Walk turns fdt nodes found.next deepest

/-- What a node says about a number of cells, or the default. -/
def IsCells (turns node : Nat) (name : String) (default count : Nat) (fdt : Fdt) : Prop :=
  fdt.propU32 turns node (bytes name) = .value count ∨
    fdt.propRaw turns node (bytes name) = .error .enotfound ∧ count = default

/-- The number in so many cells, the most significant one first. -/
def cells (blob : Blob) (off : Nat) : Nat → Nat
  | 0 => 0
  | n + 1 => cells blob off n * 4294967296 + word blob (off + 4 * n)

/--
The base and the size of the entry of that index, if the register of the node
is read with so many address cells and so many size cells.
-/
def RegEntry (turns node index addr size : Nat) (entry : Nat × Nat) (fdt : Fdt) : Prop :=
  (1 ≤ addr ∧ addr ≤ 2 ∧ size ≤ 2) ∧
    ∃ dataOff len, fdt.propRaw turns node (bytes "reg") = .value (dataOff, len) ∧
      len % ((addr + size) * 4) = 0 ∧ index < len / ((addr + size) * 4) ∧
        let p := fdt.offStruct + dataOff + index * ((addr + size) * 4)
        entry = (cells fdt.blob p addr, cells fdt.blob (p + addr * 4) size)

variable {fdt : Fdt} {turns node index off deepest : Nat} {nodes : List Nat} {found : Found}

theorem Walk.search
    (node : Nat)
    (valid : fdt.Valid)
    (enough : Enough turns)
    (walk : Walk turns fdt nodes off deepest)
    (before : fdt.rest node ≤ fdt.rest off) :
    ∃ k, k + fdt.rest off ≤ fdt.rest 0 ∧ ∀ n,
      loop (fdt.parentTurn turns node) (n + k) ([], 0)
        = if deepest ≤ 16 then loop (fdt.parentTurn turns node) n (nodes, off)
          else .error .erange := by
  -- the node lies behind all offsets of the walk
  have earlier {off : Nat} {found : Found} (isFound : fdt.readToken turns off = .value found)
      (before : fdt.rest node ≤ fdt.rest found.next) :
      off < fdt.sizeStruct ∧ off ≠ node ∧ fdt.rest found.next < fdt.rest off := by
    have sound : Meets (fdt.readToken turns off) _ := readToken_meets valid enough
    rw [isFound] at sound
    have shorter := Sound.shorter sound
    have inside := Sound.inside sound
    exact ⟨by omega, by rintro rfl; omega, shorter⟩
  induction walk with
  | start => exact ⟨0, by simp, fun n => by simp⟩
  | @enter nodes off deepest found walk isFound isBegin ih =>
    obtain ⟨inside, isEarlier, shorter⟩ := earlier isFound before
    obtain ⟨k, steps, reached⟩ := ih (by omega)
    have turn : fdt.parentTurn turns node (nodes, off) = if 16 ≤ nodes.length then .error .erange
          else .value (.next (off :: nodes, found.next)) := by
      simp [parentTurn, inside, isFound, isBegin, isEarlier, value_bind, pure]
    refine ⟨k + 1, by omega, fun n => ?_⟩
    rw [Nat.add_comm k, ← Nat.add_assoc, reached]
    by_cases full : 16 ≤ nodes.length
    · rw [loop, turn, if_neg (by omega : ¬ max deepest _ ≤ 16)]
      split <;> rfl
    · rw [if_neg full] at turn
      rw [loop_next turn]
      exact if_congr (by omega) rfl rfl
  | @leave inner nodes off deepest found walk isFound isEnd ih =>
    obtain ⟨inside, isEarlier, shorter⟩ := earlier isFound before
    obtain ⟨k, steps, reached⟩ := ih (by omega)
    have turn : fdt.parentTurn turns node (inner :: nodes, off)
        = .value (.next (nodes, found.next)) := by
      simp [parentTurn, inside, isFound, isEnd, value_bind, pure]
    refine ⟨k + 1, by omega, fun n => ?_⟩
    rw [Nat.add_comm k, ← Nat.add_assoc, reached, loop_next turn]
  | @skip nodes off deepest found walk isFound isOther ih =>
    obtain ⟨inside, isEarlier, shorter⟩ := earlier isFound before
    obtain ⟨k, steps, reached⟩ := ih (by omega)
    have turn : fdt.parentTurn turns node (nodes, off) = .value (.next (nodes, found.next)) := by
      rcases isOther with isProp | isNop <;>
        simp [parentTurn, value_bind, pure, *]
    refine ⟨k + 1, by omega, fun n => ?_⟩
    rw [Nat.add_comm k, ← Nat.add_assoc, reached, loop_next turn]

theorem Walk.findParent
    {parent : Nat}
    (valid : fdt.Valid)
    (enough : Enough turns)
    (walk : Walk turns fdt (parent :: nodes) node deepest)
    (isFound : fdt.readToken turns node = .value found)
    (isBegin : found.token = .beginNode) :
    fdt.findParent turns node
      = if deepest ≤ 16 then .value parent else .error .erange := by
  have sound : Meets (fdt.readToken turns node) _ := readToken_meets valid enough
  rw [isFound] at sound
  have inside : node < fdt.sizeStruct := by
    have := Sound.inside sound
    omega
  have few := rest_lt_turns valid enough 0
  obtain ⟨k, steps, reached⟩ := walk.search node valid enough le_rfl
  obtain ⟨n, isTurns⟩ : ∃ n, turns = n + 1 + k := ⟨turns - 1 - k, by omega⟩
  have searched := reached (n + 1)
  rw [← isTurns] at searched
  rw [Fdt.findParent, searched]
  refine if_congr .rfl ?_ rfl
  simp [loop, parentTurn, inside, isFound, isBegin, value_bind, pure]

theorem IsCells.read
    {name : String}
    {default count : Nat}
    (isCells : fdt.IsCells turns node name default count) :
    ∃ answer, (attempt (fdt.propU32 turns node (bytes name)) : Outcome Err _)
      = .value answer ∧ answer.toOption.getD default = count := by
  rcases isCells with has | ⟨lacks, rfl⟩
  · exact ⟨.ok count, by rw [has]; rfl, rfl⟩
  · exact ⟨.error .enotfound, by rw [propU32, lacks]; rfl, rfl⟩

theorem getParentCells_eq
    {parent addr size : Nat}
    (isParent : fdt.findParent turns node = .value parent)
    (isAddr : fdt.IsCells turns parent "#address-cells" 2 addr)
    (isSize : fdt.IsCells turns parent "#size-cells" 1 size) :
    fdt.getParentCells turns node = .value (addr, size) := by
  obtain ⟨addrAnswer, readAddr, rfl⟩ := isAddr.read
  obtain ⟨sizeAnswer, readSize, rfl⟩ := isSize.read
  have found : attempt (fdt.findParent turns node)
      = (.value (.ok parent) : Outcome Err _) := by rw [isParent]; rfl
  simp only [getParentCells, found, readAddr, readSize, bind, Outcome.bind, pure]

theorem readBe32_eq (inside : off + 4 ≤ fdt.totalsize) :
    fdt.readBe32 off = .value (word fdt.blob off) := by
  have byte_eq {at_ : Nat} (before : at_ < fdt.totalsize) : fdt.byte at_ = .value (fdt.blob at_) :=
    if_pos before
  rw [readBe32, byte_eq (by omega), byte_eq (by omega), byte_eq (by omega), byte_eq (by omega)]
  rfl

/-- Two cells are read as the number they hold. -/
theorem readCells_eq
    {n : Nat}
    (few : n ≤ 2)
    (inside : off + 4 * n ≤ fdt.totalsize) :
    fdt.readCells off n 0 = .value (cells fdt.blob off n) := by
  have first := word_lt fdt.blob off
  have second := word_lt fdt.blob (off + 4)
  match n, few with
  | 0, _ => rfl
  | 1, _ =>
    have read := readBe32_eq (show off + 4 ≤ fdt.totalsize by omega)
    simp only [readCells, cells, read, value_bind, Nat.mul_zero, Nat.add_zero]
    exact congrArg Outcome.value (by omega)
  | 2, _ =>
    have read := readBe32_eq (show off + 4 ≤ fdt.totalsize by omega)
    have readNext := readBe32_eq (show off + 4 + 4 ≤ fdt.totalsize by omega)
    simp only [readCells, cells, read, readNext, value_bind, Nat.mul_zero, Nat.add_zero,
      Nat.mul_one]
    exact congrArg Outcome.value (by omega)

/-- `Fdt_PropReg` reads the entry with the numbers `fdt_get_parent_cells` gives it. -/
theorem propReg_eq_value_iff
    {addr size : Nat}
    {entry : Nat × Nat}
    (valid : fdt.Valid)
    (enough : Enough turns)
    (counts : fdt.getParentCells turns node = .value (addr, size)) :
    fdt.propReg turns node index = .value entry ↔
      fdt.RegEntry turns node index addr size entry := by
  have total := valid.total
  have structs := valid.structs
  have meets : Meets (fdt.propRaw turns node (bytes "reg")) _ := propRaw_meets valid enough
  rw [propReg, counts, RegEntry]
  simp only [value_bind]
  by_cases few : 1 ≤ addr ∧ addr ≤ 2 ∧ size ≤ 2
  · rw [if_neg (by omega)]
    cases read : fdt.propRaw turns node (bytes "reg") with
    | outside | unfinished | error => simp [bind, Outcome.bind]
    | value data =>
      obtain ⟨dataOff, len⟩ := data
      rw [read] at meets
      have inData : dataOff + len ≤ fdt.sizeStruct := meets
      simp only [value_bind]
      by_cases isEntry : len % ((addr + size) * 4) = 0 ∧ index < len / ((addr + size) * 4)
      · have last : (index + 1) * ((addr + size) * 4) ≤ len := Nat.mul_le_of_le_div _ _ _ isEntry.2
        rw [Nat.succ_mul] at last
        rw [if_neg (by omega), if_neg (by omega), u32_of_lt (by omega),
          readCells_eq few.2.1 (by omega), value_bind, readCells_eq few.2.2 (by omega), value_bind]
        constructor
        · intro same
          cases same
          exact ⟨few, dataOff, len, rfl, isEntry.1, isEntry.2, rfl⟩
        · rintro ⟨-, _, _, ⟨⟩, -, -, rfl⟩
          rfl
      · refine iff_of_false ?_ ?_
        · split
          · simp
          · rw [if_pos (by omega)]
            simp
        · rintro ⟨-, _, _, ⟨⟩, whole, inside, -⟩
          exact isEntry ⟨whole, inside⟩
  · rw [if_pos (by omega)]
    simp [few]

end Fdt

/--
`Fdt_PropReg` returns an error, or the base and the size that the entry has
under the cell numbers of the real parent, if and only if at most 16 nodes were
open before the node, or whatever the entry is under the default numbers, it is
under the parent's.
-/
theorem propReg_uses_parent_iff
    {fdt : Fdt}
    {turns node index deepest parent addr size : Nat}
    {nodes : List Nat}
    {found : Fdt.Found}
    (valid : fdt.Valid)
    (enough : Fdt.Enough turns)
    (walk : Fdt.Walk turns fdt (parent :: nodes) node deepest)
    (isFound : fdt.readToken turns node = .value found)
    (isBegin : found.token = .beginNode)
    (isAddr : fdt.IsCells turns parent "#address-cells" 2 addr)
    (isSize : fdt.IsCells turns parent "#size-cells" 1 size) :
    ((∃ code, fdt.propReg turns node index = .error code) ∨
        ∃ entry, fdt.propReg turns node index = .value entry ∧
          fdt.RegEntry turns node index addr size entry) ↔
      deepest ≤ 16 ∨
        ∀ entry, fdt.RegEntry turns node index 2 1 entry →
          fdt.RegEntry turns node index addr size entry := by
  have searched := walk.findParent valid enough isFound isBegin
  have ends : Meets (fdt.propReg turns node index) _ := Fdt.propReg_meets valid enough
  split_ifs at searched with shallow
  · have real := Fdt.getParentCells_eq searched isAddr isSize
    refine iff_of_true ?_ (.inl shallow)
    cases answer : fdt.propReg turns node index with
    | error code => exact .inl ⟨code, rfl⟩
    | value entry =>
      exact .inr ⟨entry, rfl, (Fdt.propReg_eq_value_iff valid enough real).mp answer⟩
    | outside | unfinished => simp [answer, Meets] at ends
  · have isDefault : fdt.getParentCells turns node = .value (2, 1) := by
      rw [Fdt.getParentCells, searched]
      rfl
    simp only [shallow, false_or, ← Fdt.propReg_eq_value_iff valid enough isDefault]
    cases answer : fdt.propReg turns node index with
    | error code => simp
    | value entry => simp
    | outside | unfinished => simp [answer, Meets] at ends

/-! ## Nested nodes -/

/--
The words of a blob of nodes, each in the one before.  The next to last one
says how many cells an address and a size have; the last one has a register of
three cells.
-/
def nestedWords (levels sizeCells : Nat) : List Nat :=
  [0xD00DFEED, 159 + 12 * levels, 56, 128 + 12 * levels, 40, 17, 16, 0, 31, 72 + 12 * levels,
      0, 0, 0, 0]
    ++ (List.replicate levels [1, 0]).flatten
    ++ [3, 4, 0, 1, 3, 4, 15, sizeCells, 1, 0, 3, 12, 27, 0, 0x1000, 0x100]
    ++ List.replicate (levels + 1) 2 ++ [9]

/-- The names of the properties. -/
def nestedStrings : List (BitVec 8) :=
  Fdt.bytes "#address-cells" ++ 0 :: Fdt.bytes "#size-cells" ++ 0 :: Fdt.bytes "reg" ++ [0]

/-- The blob when it is open. -/
def nestedTree (levels sizeCells : Nat) : Fdt :=
  ⟨fun off => if off < 128 + 12 * levels then
      BitVec.ofNat 8 ((nestedWords levels sizeCells).getD (off / 4) 0 / 256 ^ (3 - off % 4))
    else nestedStrings.getD (off - (128 + 12 * levels)) 0,
    159 + 12 * levels, 56, 72 + 12 * levels, 128 + 12 * levels, 31, 40, 17, 0⟩

deriving instance DecidableEq for Fdt.Found

theorem deepTree_walk
    (i : Nat)
    (inside : i ≤ 17) :
    Fdt.Walk 5000000000 (nestedTree 17 1) ((List.range i).reverse.map (8 * ·)) (8 * i)
      i := by
  induction i with
  | zero => exact .start
  | succ i ih =>
    have begins : ∀ i < 17, (nestedTree 17 1).readToken 5000000000 (8 * i)
        = .value ⟨.beginNode, 8 * i + 4, 8 * (i + 1)⟩ := by
      decide +kernel
    have entered := (ih (by omega)).enter (begins i inside) rfl
    simpa [List.range_succ] using entered

/-- A child of a root with one address cell and two size cells. -/
theorem propReg_uses_parent_child :
    (nestedTree 1 2).propReg 5000000000 40 0 = .value (0, 0x100000000100) ∧
      ((∃ code, (nestedTree 1 2).propReg 5000000000 40 0 = .error code) ∨
        ∃ entry, (nestedTree 1 2).propReg 5000000000 40 0 = .value entry ∧
          (nestedTree 1 2).RegEntry 5000000000 40 0 1 2 entry) := by
  have root : (nestedTree 1 2).readToken 5000000000 0 = .value ⟨.beginNode, 4, 8⟩ := by
    decide +kernel
  have first : (nestedTree 1 2).readToken 5000000000 8 = .value ⟨.prop, 12, 24⟩ := by
    decide +kernel
  have second : (nestedTree 1 2).readToken 5000000000 24 = .value ⟨.prop, 28, 40⟩ := by
    decide +kernel
  have child : (nestedTree 1 2).readToken 5000000000 40 = .value ⟨.beginNode, 44, 48⟩ := by
    decide +kernel
  have walk := ((Fdt.Walk.start.enter root rfl).skip first (.inl rfl)).skip second (.inl rfl)
  exact ⟨by decide +kernel, (propReg_uses_parent_iff (by constructor <;> decide +kernel)
    (by simp [Fdt.Enough]) walk child rfl (.inl (by decide +kernel))
    (.inl (by decide +kernel))).mpr (.inl (by decide))⟩

/--
The parent of the last of 18 nested nodes has one cell each, under which its
register has no entry; two address cells and one size cell are read.
-/
theorem propReg_misses_deep_parent :
    ∃ nodes, Fdt.Walk 5000000000 (nestedTree 17 1) (128 :: nodes) 168 17 ∧
      (nestedTree 17 1).IsCells 5000000000 128 "#address-cells" 2 1 ∧
      (nestedTree 17 1).IsCells 5000000000 128 "#size-cells" 1 1 ∧
      (nestedTree 17 1).propReg 5000000000 168 0 = .value (0x1000, 0x100) ∧
      ∀ entry, ¬ (nestedTree 17 1).RegEntry 5000000000 168 0 1 1 entry := by
  have first : (nestedTree 17 1).readToken 5000000000 136 = .value ⟨.prop, 140, 152⟩ := by
    decide +kernel
  have second : (nestedTree 17 1).readToken 5000000000 152 = .value ⟨.prop, 156, 168⟩ := by
    decide +kernel
  have walk := ((deepTree_walk 17 le_rfl).skip first (.inl rfl)).skip second (.inl rfl)
  have register : (nestedTree 17 1).propRaw 5000000000 168 (Fdt.bytes "reg")
      = .value (188, 12) := by
    decide +kernel
  refine ⟨_, walk, .inl (by decide +kernel), .inl (by decide +kernel), by decide +kernel, ?_⟩
  rintro entry ⟨-, dataOff, len, isRegister, whole, -⟩
  cases register.symm.trans isRegister
  exact absurd whole (by decide)

end CaraOS.DeviceTree
