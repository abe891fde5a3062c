import CaraOS.Lib.Action
import CaraOS.Lib.ByteMem
import CaraOS.Carafs.Format

namespace CaraOS.Gpt

/-!
# Partition tables

`gpt.c`: `Gpt_FormatN` lays out a protective boot record, two headers and two
arrays of entries, and `Gpt_FindCarafsNth` finds the partitions of CaraFS in
the first of them.  Headers and entries are the bytes of their fields, and the
checksums are taken over these bytes.

Identifiers and the signature are numbers of 16 and 8 bytes: comparing them is
comparing their bytes.
-/

open ByteMem List
open Carafs (Err)

/-! ## Checksums -/

/-- One bit of `Gpt_Crc32`. -/
def crcBit (crc : BitVec 32) : BitVec 32 :=
  (crc >>> 1) ^^^ (0xEDB88320 &&& (~~~(crc &&& 1) + 1))

def gptCrc32 (seed : BitVec 32) (data : List (BitVec 8)) : BitVec 32 :=
  ~~~(data.foldl (fun crc byte => crcBit^[8] (crc ^^^ byte.setWidth 32)) (~~~seed))

/-- `header_crc`: over the header with a checksum of zero. -/
def headerCrc (hdrblk : Mem) : BitVec 32 :=
  gptCrc32 0 (slice (write hdrblk 16 4 0) 0 92)

/-! ## The device -/

/--
`struct GptDev`: the contents of its blocks, the blocks that refuse to be
written, and what has been written so far.
-/
structure GptDev where
  lbaSize : Nat
  nLbas : Nat
  nLbas_lt : nLbas < 2 ^ 64
  blocks : Nat → Mem
  refuses : Nat → Option Err
  writes : List (Nat × Nat)

/-- `dev->read`. -/
def GptDev.read (dev : GptDev) (lba n : Nat) : Except Err Mem :=
  if dev.nLbas < lba + n then
    .error .erange
  else
    .ok fun at_ => dev.blocks (lba + at_ / dev.lbaSize) (at_ % dev.lbaSize)

def GptDev.written (lba n : Nat) (buf : Mem) (dev : GptDev) : GptDev :=
  { dev with
    blocks := fun b =>
      if lba ≤ b ∧ b < lba + n then
        fun at_ => buf ((b - lba) * dev.lbaSize + at_)
      else
        dev.blocks b
    writes := dev.writes ++ [(lba, n)] }

/-- `dev->write`. -/
def GptDev.write (lba n : Nat) (buf : Mem) : Action Err GptDev Unit :=
  fun dev =>
    match if dev.nLbas < lba + n then some .erange else dev.refuses lba with
    | some code => (.error code, dev)
    | none => (.ok (), dev.written lba n buf)

/-! ## Formatting -/

def gptSignature : Nat :=
  0x5452415020494645

def carafsGptTypeGuid : BitVec 128 :=
  0x00000021_53466172_43610000_CA1A0F50

/-- `struct GptPartSpec`. -/
structure GptPartSpec where
  typeGuid : BitVec 128
  uniqueGuid : BitVec 128
  firstLba : Nat
  lastLba : Nat

def gptArrayBytes : Nat :=
  16384

def arrayLbaCount (lbaSize : Nat) : Nat :=
  (gptArrayBytes + lbaSize - 1) / lbaSize

/-- The fields of an entry; the name is `CaraFS` in UTF-16. -/
def entryFields (s : GptPartSpec) : List (Nat × Nat × Nat) :=
  [(0, 16, s.typeGuid.toNat), (16, 16, s.uniqueGuid.toNat),
    (32, 8, s.firstLba), (40, 8, s.lastLba), (48, 8, 0),
    (56, 12, 0x0053_0046_0061_0072_0061_0043)]

/-- The loop of `Gpt_FormatN` that fills the array, from entry `i` on. -/
def fillEntries (firstUsable lastUsable : Nat) :
    Nat → List GptPartSpec → Mem → Except Err Mem
  | _, [], array => .ok array
  | i, s :: rest, array =>
    if s.firstLba < firstUsable ∨ lastUsable < s.lastLba ∨
        s.lastLba < s.firstLba then
      .error .erange
    else
      fillEntries firstUsable lastUsable (i + 1) rest
        (record array (i * 128) (entryFields s))

/-- The protective boot record. -/
def protectiveMbr (n : Nat) : Mem :=
  record (fun _ => 0) 0 [(450, 1, 0xEE), (454, 4, 1),
      (458, 4, if 0xFFFFFFFF < n - 1 then 0xFFFFFFFF else n - 1),
      (510, 1, 0x55), (511, 1, 0xAA)]

/-- What `build_header` fills in before the checksum. -/
def headerFields (myLba altLba entryLba firstUsable lastUsable : Nat)
    (diskGuid : BitVec 128) (entryCrc : BitVec 32) : List (Nat × Nat × Nat) :=
  [(0, 8, gptSignature), (8, 4, 0x00010000), (12, 4, 92), (24, 8, myLba),
    (32, 8, altLba), (40, 8, firstUsable), (48, 8, lastUsable),
    (56, 16, diskGuid.toNat), (72, 8, entryLba), (80, 4, 128), (84, 4, 128),
    (88, 4, entryCrc.toNat)]

/-- `build_header` on a block of zeroes. -/
def buildHeader (myLba altLba entryLba firstUsable lastUsable : Nat)
    (diskGuid : BitVec 128) (entryCrc : BitVec 32) : Mem :=
  let fields := headerFields myLba altLba entryLba firstUsable lastUsable diskGuid entryCrc
  let h := write (record (fun _ => 0) 0 fields) 16 4 0
  write h 16 4 (gptCrc32 0 (slice h 0 92)).toNat

/-- `Gpt_FormatN` with a scratch buffer that is large enough. -/
def gptFormatN (diskGuid : BitVec 128) (specs : List GptPartSpec) :
    Action Err GptDev Unit := do
  let dev ← Action.read
  let n := dev.nLbas
  let albas := arrayLbaCount dev.lbaSize
  let firstUsable := 2 + albas
  let lastUsable := n - 1 - albas - 1
  if specs = [] ∨ 128 < specs.length then
    Action.fail .einval
  else if dev.lbaSize < 512 ∨ gptArrayBytes % dev.lbaSize ≠ 0 then
    Action.fail .einval
  else if n < firstUsable + albas + 2 then
    Action.fail .erange
  else do
    let array ← Action.settle (fillEntries firstUsable lastUsable 0 specs fun _ => 0)
    let acrc := gptCrc32 0 (slice array 0 gptArrayBytes)
    GptDev.write 0 1 (protectiveMbr n)
    GptDev.write 1 1 (buildHeader 1 (n - 1) 2 firstUsable lastUsable diskGuid acrc)
    GptDev.write 2 albas array
    GptDev.write (n - 1 - albas) albas array
    GptDev.write (n - 1) 1 (buildHeader (n - 1) 1 (n - 1 - albas) firstUsable lastUsable diskGuid
        acrc)

/-! ## Finding -/

/-- A table that has been verified: how many entries, of which size. -/
structure Found where
  ecount : Nat
  esize : Nat
  array : Mem

/-- `Gpt_FindCarafsNth` up to its loop, for the header in a given block. -/
def readTable (dev : GptDev) (lba : Nat) : Except Err Found := do
  let h ← dev.read lba 1
  if ByteMem.read h 0 8 ≠ gptSignature ∨ ByteMem.read h 12 4 < 92 ∨
      dev.lbaSize < ByteMem.read h 12 4 then
    throw .enoent
  else if (headerCrc h).toNat ≠ ByteMem.read h 16 4 then
    throw .enoent
  else do
    let ecount := ByteMem.read h 80 4
    let esize := ByteMem.read h 84 4
    if ecount = 0 ∨ esize < 128 ∨ gptArrayBytes < ecount * esize then
      throw .enoent
    else do
      let abytes := ecount * esize
      let albas := (abytes + dev.lbaSize - 1) / dev.lbaSize
      let array ← dev.read (ByteMem.read h 72 8) albas
      if (gptCrc32 0 (slice array 0 abytes)).toNat ≠ ByteMem.read h 88 4 then
        throw .enoent
      else
        return ⟨ecount, esize, array⟩

/-- The loop of `Gpt_FindCarafsNth`: entries left, index, entries seen. -/
def findLoop (array : Mem) (esize nLbas nth : Nat) :
    Nat → Nat → Nat → Except Err (Nat × Nat)
  | 0, _, _ => .error .enoent
  | left + 1, i, seen =>
    let typeGuid := ByteMem.read array (i * esize) 16
    let startingLba := ByteMem.read array (i * esize + 32) 8
    let endingLba := ByteMem.read array (i * esize + 40) 8
    if typeGuid ≠ carafsGptTypeGuid.toNat then
      findLoop array esize nLbas nth left (i + 1) seen
    else if startingLba = 0 ∨ endingLba < startingLba ∨ nLbas ≤ endingLba then
      findLoop array esize nLbas nth left (i + 1) seen
    else if seen ≠ nth then
      findLoop array esize nLbas nth left (i + 1) (seen + 1)
    else
      .ok (startingLba, endingLba - startingLba + 1)

/-- `Gpt_FindCarafsNth` with a scratch buffer that is large enough. -/
def gptFindCarafsNth (dev : GptDev) (nth : Nat) : Except Err (Nat × Nat) := do
  let table ← readTable dev 1
  findLoop table.array table.esize dev.nLbas nth table.ecount 0 0

/-! ## Reading a table back -/

section Header

variable {myLba altLba entryLba firstUsable lastUsable : Nat}
  {diskGuid : BitVec 128} {entryCrc : BitVec 32}

theorem read_buildHeader {o size v : Nat}
    (listed : (o, size, v) ∈ headerFields myLba altLba entryLba firstUsable lastUsable
        diskGuid entryCrc) (small : v < 256 ^ size) :
    ByteMem.read (buildHeader myLba altLba entryLba firstUsable lastUsable
      diskGuid entryCrc) o size = v := by
  have apart : (headerFields myLba altLba entryLba firstUsable lastUsable
      diskGuid entryCrc).Pairwise fun x y => Apart x.1 x.2.1 y.1 y.2.1 := by
    simp [headerFields, Apart]
  have off : Apart 16 4 o size := by
    simp only [headerFields, mem_cons, Prod.mk.injEq, not_mem_nil, or_false] at listed
    unfold Apart
    omega
  unfold buildHeader
  rw [(same_write _ _ off).read_eq, (same_write _ _ off).read_eq]
  have field := read_record 0 (fun _ => 0) apart listed small
  rwa [Nat.zero_add] at field

theorem headerCrc_buildHeader :
    (headerCrc (buildHeader myLba altLba entryLba firstUsable lastUsable diskGuid entryCrc)).toNat =
      ByteMem.read (buildHeader myLba altLba entryLba firstUsable lastUsable
        diskGuid entryCrc) 16 4 := by
  unfold buildHeader headerCrc
  dsimp only
  rw [read_write (BitVec.isLt _)]
  congr 3
  funext b
  unfold ByteMem.write
  split <;> rfl

end Header

theorem readTable_of_blocks {myLba altLba firstUsable lastUsable : Nat} {diskGuid : BitVec 128}
    (dev : GptDev) (lba entryLba : Nat) (array : Mem) (size : 512 ≤ dev.lbaSize)
    (inside : lba < dev.nLbas) (arrayInside : entryLba + arrayLbaCount dev.lbaSize ≤ dev.nLbas)
    (isHeader : dev.blocks lba = buildHeader myLba altLba entryLba firstUsable lastUsable
        diskGuid (gptCrc32 0 (slice array 0 gptArrayBytes))) (isArray : ∀ at_, at_ < gptArrayBytes →
        dev.blocks (entryLba + at_ / dev.lbaSize) (at_ % dev.lbaSize) =
          array at_) :
    ∃ table, readTable dev lba = .ok ⟨128, 128, table⟩ ∧
      Same array table 0 gptArrayBytes := by
  set header := buildHeader myLba altLba entryLba firstUsable lastUsable
    diskGuid (gptCrc32 0 (slice array 0 gptArrayBytes)) with headerEq
  have small : entryLba < 256 ^ 8 := by
    have := dev.nLbas_lt
    omega
  have isRead {at_ n : Nat} (fits : at_ + n ≤ dev.nLbas) : dev.read at_ n = .ok fun k =>
        dev.blocks (at_ + k / dev.lbaSize) (k % dev.lbaSize) :=
    if_neg (Nat.not_lt.mpr fits)
  set h : Mem := fun k => dev.blocks (lba + k / dev.lbaSize) (k % dev.lbaSize)
    with hEq
  set table : Mem := fun k =>
    dev.blocks (entryLba + k / dev.lbaSize) (k % dev.lbaSize) with tableEq
  have same : Same header h 0 92 := by
    intro k _ high
    simp only [hEq, Nat.div_eq_of_lt (show k < dev.lbaSize by omega),
      Nat.mod_eq_of_lt (show k < dev.lbaSize by omega), Nat.add_zero, isHeader]
  have sameArray : Same array table 0 gptArrayBytes := fun k _ high =>
    isArray k (by omega)
  have field {o n v : Nat} (listed : (o, n, v) ∈ headerFields myLba altLba entryLba firstUsable
        lastUsable diskGuid (gptCrc32 0 (slice array 0 gptArrayBytes))) (isSmall : v < 256 ^ n)
      (high : o + n ≤ 92) : ByteMem.read h o n = v :=
    (same.sub (Nat.zero_le o) (by omega)).read_eq.trans (read_buildHeader listed isSmall)
  have signature : ByteMem.read h 0 8 = gptSignature :=
    field (by simp [headerFields]) (by decide) (by decide)
  have isSize : ByteMem.read h 12 4 = 92 := field (by simp [headerFields]) (by decide) (by decide)
  have ecount : ByteMem.read h 80 4 = 128 := field (by simp [headerFields]) (by decide) (by decide)
  have esize : ByteMem.read h 84 4 = 128 := field (by simp [headerFields]) (by decide) (by decide)
  have isEntry : ByteMem.read h 72 8 = entryLba := field (by simp [headerFields]) small (by decide)
  have isCrc : ByteMem.read h 88 4 = (gptCrc32 0 (slice array 0 gptArrayBytes)).toNat :=
    field (by simp [headerFields]) (BitVec.isLt _) (by decide)
  have checked : (headerCrc h).toNat = ByteMem.read h 16 4 := by
    have crcEq : headerCrc h = headerCrc header := by
      refine congrArg (gptCrc32 0) (Same.slice_eq fun k low high => ?_)
      unfold ByteMem.write
      rw [same k low high]
    rw [crcEq, (same.sub (Nat.zero_le 16) (by decide)).read_eq]
    exact headerCrc_buildHeader
  have arrayCrc : (gptCrc32 0 (slice table 0 (128 * 128))).toNat =
      (gptCrc32 0 (slice array 0 gptArrayBytes)).toNat := by
    rw [← sameArray.slice_eq, show 128 * 128 = gptArrayBytes from rfl]
  refine ⟨table, ?_, sameArray⟩
  have large : ¬ dev.lbaSize < 92 := by omega
  have whole : ¬ gptArrayBytes < 128 * 128 := by decide
  have readHeader : dev.read lba 1 = .ok h := isRead inside
  have readArray : dev.read entryLba ((128 * 128 + dev.lbaSize - 1) / dev.lbaSize) = .ok table :=
    isRead arrayInside
  simp only [readTable, readHeader, bind, Except.bind, signature, isSize,
    checked, ecount, esize, isEntry, isCrc, large, whole, readArray, arrayCrc,
    ne_eq, not_true_eq_false, lt_irrefl, or_self, if_false, OfNat.ofNat_ne_zero]
  rfl

/-! ## The entries -/

/-- A spec that `Gpt_FormatN` accepts. -/
structure GptPartSpec.Fits (s : GptPartSpec) (firstUsable lastUsable : Nat) :
    Prop where
  first : firstUsable ≤ s.firstLba
  last : s.lastLba ≤ lastUsable
  order : s.firstLba ≤ s.lastLba

variable {array : Mem}

theorem read_entry {s : GptPartSpec} {base o size v : Nat}
    (listed : (o, size, v) ∈ entryFields s) (small : v < 256 ^ size) :
    ByteMem.read (record array base (entryFields s)) (base + o) size = v :=
  read_record _ array (by simp [entryFields, Apart]) listed small

variable {specs : List GptPartSpec}

theorem fillEntries_spec {firstUsable lastUsable i : Nat} {before : Mem}
    (filled : fillEntries firstUsable lastUsable i specs before = .ok array) :
    (∀ s ∈ specs, s.Fits firstUsable lastUsable) ∧
    (∀ at_, at_ < i * 128 ∨ (i + specs.length) * 128 ≤ at_ → array at_ = before at_) ∧
    ∀ j s, specs[j]? = some s → ∀ field ∈ entryFields s,
      field.2.2 < 256 ^ field.2.1 →
        ByteMem.read array ((i + j) * 128 + field.1) field.2.1 =
          field.2.2 := by
  induction specs generalizing i before with
  | nil =>
    cases filled
    simp
  | cons s rest ih =>
    unfold fillEntries at filled
    split at filled
    · nomatch filled
    obtain ⟨others, outside, entries⟩ := ih filled
    have bound {field : Nat × Nat × Nat} (listed : field ∈ entryFields s) :
        field.1 + field.2.1 ≤ 128 := by
      simp only [entryFields, mem_cons, not_mem_nil, or_false] at listed
      rcases listed with rfl | rfl | rfl | rfl | rfl | rfl <;> dsimp only <;>
        decide
    have kept : Same (record before (i * 128) (entryFields s)) array
        (i * 128) 128 := fun at_ low high => outside at_ (by omega)
    refine ⟨forall_mem_cons.mpr ⟨⟨by omega, by omega, by omega⟩,
      others⟩, fun at_ off => ?_, fun j t isSpec field listed small => ?_⟩
    · rw [length_cons] at off
      rw [outside at_ (by omega)]
      refine same_record before (k := 1) (fun field listed => ?_) at_ le_rfl (Nat.lt_succ_self _)
      have := bound listed
      unfold Apart
      omega
    · cases j with
      | zero =>
        cases isSpec
        have := bound listed
        rw [(kept.sub (by omega) (by omega)).read_eq]
        exact read_entry listed small
      | succ j =>
        have later := entries j t isSpec field listed small
        rwa [show i + (j + 1) = i + 1 + j by omega]

/-! ## The search -/

/-- The range of an entry that the search counts. -/
def entryRange (array : Mem) (nLbas i : Nat) : Option (Nat × Nat) :=
  let startingLba := ByteMem.read array (i * 128 + 32) 8
  let endingLba := ByteMem.read array (i * 128 + 40) 8
  if ByteMem.read array (i * 128) 16 = carafsGptTypeGuid.toNat ∧
      startingLba ≠ 0 ∧ startingLba ≤ endingLba ∧ endingLba < nLbas then
    some (startingLba, endingLba - startingLba + 1)
  else
    none

theorem findLoop_eq {nLbas nth left i seen : Nat} (before : seen ≤ nth) :
    findLoop array 128 nLbas nth left i seen =
      match ((List.range' i left).filterMap (entryRange array nLbas))[
          nth - seen]? with
      | some range => .ok range
      | none => .error .enoent := by
  induction left generalizing i seen with
  | zero => rfl
  | succ left ih =>
    rw [range'_succ]
    unfold findLoop
    dsimp only
    by_cases counts : ByteMem.read array (i * 128) 16 = carafsGptTypeGuid.toNat ∧
      ByteMem.read array (i * 128 + 32) 8 ≠ 0 ∧
      ByteMem.read array (i * 128 + 32) 8 ≤ ByteMem.read array (i * 128 + 40) 8 ∧
      ByteMem.read array (i * 128 + 40) 8 < nLbas
    · have isRange : entryRange array nLbas i = some (ByteMem.read array (i * 128 + 32) 8,
            ByteMem.read array (i * 128 + 40) 8 - ByteMem.read array (i * 128 + 32) 8 + 1) := by
        simp only [entryRange]
        exact if_pos counts
      obtain ⟨isType, notZero, order, inside⟩ := counts
      rw [if_neg (not_not.mpr isType), if_neg (by omega), filterMap_cons_some isRange]
      by_cases isNth : seen = nth
      · rw [if_neg (not_not.mpr isNth), isNth, Nat.sub_self]
        rfl
      · rw [if_pos isNth, ih (by omega),
          show nth - seen = nth - (seen + 1) + 1 by omega]
        rfl
    · have isNone : entryRange array nLbas i = none := by
        simp only [entryRange]
        exact if_neg counts
      rw [filterMap_cons_none isNone]
      split
      · exact ih before
      rw [if_pos (by omega)]
      exact ih before

theorem filterMap_range' {γ δ : Type} {f : Nat → Option δ} {g : γ → Option δ} {l : List γ} {i : Nat}
    (k : Nat) (within : ∀ j s, l[j]? = some s → f (i + j) = g s)
    (behind : ∀ j, l.length ≤ j → j < l.length + k → f (i + j) = none) :
    (List.range' i (l.length + k)).filterMap f = l.filterMap g := by
  induction l generalizing i with
  | nil =>
    refine filterMap_eq_nil_iff.mpr fun j listed => ?_
    obtain ⟨low, high⟩ := mem_range'_1.mp listed
    rw [show j = i + (j - i) by omega]
    exact behind (j - i) (Nat.zero_le _) (by omega)
  | cons s rest ih =>
    have shift (j : Nat) : i + 1 + j = i + (j + 1) := by omega
    have later : (List.range' (i + 1) (rest.length + k)).filterMap f = rest.filterMap g := by
      refine ih (fun j t isSpec => ?_) fun j low high => ?_
      · rw [shift]
        exact within (j + 1) t isSpec
      · rw [shift]
        exact behind (j + 1) (by rw [length_cons]; omega) (by rw [length_cons]; omega)
    rw [length_cons, Nat.add_right_comm, range'_succ,
      filterMap_cons, filterMap_cons, later, ← within 0 s rfl, Nat.add_zero]

/-! ## The whole disk -/

/-- What `Gpt_FindCarafsNth` is to return for a spec. -/
def GptPartSpec.range (s : GptPartSpec) : Nat × Nat :=
  (s.firstLba, s.lastLba - s.firstLba + 1)

theorem entryRange_specs {table : Mem} {firstUsable lastUsable nLbas : Nat}
    (count : specs.length ≤ 128) (positive : 0 < firstUsable)
    (inside : lastUsable < nLbas) (small : nLbas < 2 ^ 64)
    (filled : fillEntries firstUsable lastUsable 0 specs (fun _ => 0) = .ok array)
    (same : Same array table 0 gptArrayBytes) :
    (List.range' 0 128).filterMap (entryRange table nLbas) =
      (specs.filter fun s => s.typeGuid = carafsGptTypeGuid).map
        GptPartSpec.range := by
  obtain ⟨fits, outside, entries⟩ := fillEntries_spec filled
  have size : gptArrayBytes = 128 * 128 := rfl
  have kept {a n : Nat} (high : a + n ≤ 128 * 128) :
      ByteMem.read table a n = ByteMem.read array a n :=
    (same.sub (Nat.zero_le a) (by omega)).read_eq
  have isRange : (List.range' 0 (specs.length + (128 - specs.length))).filterMap
      (entryRange table nLbas) = specs.filterMap fun s =>
        if s.typeGuid = carafsGptTypeGuid then some s.range else none := by
    refine filterMap_range' _ (fun j s isSpec => ?_) fun j far high => ?_
    · have below : j < specs.length := (List.getElem?_eq_some_iff.mp isSpec).1
      obtain ⟨first, last, order⟩ := fits s (mem_of_getElem? isSpec)
      have field := entries j s isSpec
      have isType := field (0, 16, s.typeGuid.toNat) (by simp [entryFields]) (BitVec.isLt _)
      have isStart := field (32, 8, s.firstLba) (by simp [entryFields]) (by dsimp only; omega)
      have isEnd := field (40, 8, s.lastLba) (by simp [entryFields]) (by dsimp only; omega)
      dsimp only at isType isStart isEnd
      unfold entryRange
      rw [kept (by omega), kept (by omega), kept (by omega), isStart, isEnd]
      rw [Nat.add_zero] at isType
      rw [isType]
      by_cases isCarafs : s.typeGuid = carafsGptTypeGuid
      · rw [if_pos isCarafs, if_pos ⟨by rw [isCarafs], by omega, order, by omega⟩]
        rfl
      · rw [if_neg isCarafs, if_neg]
        exact fun counts => isCarafs (BitVec.eq_of_toNat_eq counts.1)
    · have zero : ByteMem.read table (j * 128) 16 = 0 := by
        rw [kept (by omega), read_digits (v := 0)]
        · rfl
        · intro k below
          rw [outside _ (.inr (by omega)), Nat.zero_div]
          rfl
      unfold entryRange
      rw [Nat.zero_add, zero, if_neg]
      exact fun counts => absurd counts.1 (by decide)
  rw [Nat.add_sub_cancel' count] at isRange
  rw [isRange]
  clear * -
  induction specs with
  | nil => rfl
  | cons s rest ih =>
    by_cases isCarafs : s.typeGuid = carafsGptTypeGuid
    · simp [isCarafs, ih]
    · simp [isCarafs, ih]

section Format

variable {dev after : GptDev} {lba n : Nat} {buf : Mem}

theorem write_ok (done : GptDev.write lba n buf dev = (.ok (), after)) :
    after = dev.written lba n buf ∧ lba + n ≤ dev.nLbas := by
  unfold GptDev.write at done
  split at done
  · nomatch done
  rename_i none
  split at none
  · nomatch none
  · exact ⟨(Prod.mk.inj done).2.symm, by omega⟩

theorem written_block (dev : GptDev) (lba : Nat) (buf : Mem) :
    (dev.written lba 1 buf).blocks lba = buf := by
  funext at_
  simp [GptDev.written]

theorem written_other {b : Nat} (outside : b < lba ∨ lba + n ≤ b) :
    (dev.written lba n buf).blocks b = dev.blocks b :=
  if_neg (by omega)

theorem div_lt_arrayLbaCount {ls at_ : Nat} (size : 512 ≤ ls) (inside : at_ < gptArrayBytes) :
    at_ / ls < arrayLbaCount ls := by
  have next : at_ / ls + 1 = (at_ + ls) / ls := (Nat.add_div_right at_ (by omega)).symm
  have mono : (at_ + ls) / ls ≤ arrayLbaCount ls := Nat.div_le_div_right (by omega)
  omega

theorem written_array {at_ : Nat} (size : 512 ≤ dev.lbaSize) (inside : at_ < gptArrayBytes) :
    (dev.written lba (arrayLbaCount dev.lbaSize) buf).blocks
        (lba + at_ / dev.lbaSize) (at_ % dev.lbaSize) = buf at_ := by
  have below := div_lt_arrayLbaCount size inside
  simp only [GptDev.written]
  rw [if_pos ⟨Nat.le_add_right .., Nat.add_lt_add_left below lba⟩,
    Nat.add_sub_cancel_left, Nat.div_add_mod']

/-- The device after all five writes. -/
def GptDev.formatted (dev : GptDev) (diskGuid : BitVec 128) (array : Mem) : GptDev :=
  let n := dev.nLbas
  let albas := arrayLbaCount dev.lbaSize
  let header (myLba altLba entryLba : Nat) : Mem :=
    buildHeader myLba altLba entryLba (2 + albas) (n - 1 - albas - 1) diskGuid
      (gptCrc32 0 (slice array 0 gptArrayBytes))
  ((((dev.written 0 1 (protectiveMbr n)).written 1 1
    (header 1 (n - 1) 2)).written 2 albas array).written
      (n - 1 - albas) albas array).written (n - 1) 1 (header (n - 1) 1 (n - 1 - albas))

/-- What is written: the boot record, a header, two arrays, a header. -/
def writtenRanges (dev : GptDev) : List (Nat × Nat) :=
  let albas := arrayLbaCount dev.lbaSize
  [(0, 1), (1, 1), (2, albas), (dev.nLbas - 1 - albas, albas), (dev.nLbas - 1, 1)]

theorem formatted_writes (diskGuid : BitVec 128) (array : Mem) :
    (dev.formatted diskGuid array).writes =
      dev.writes ++ writtenRanges dev := by
  simp [GptDev.formatted, GptDev.written, writtenRanges]

theorem gptFormatN_ok {diskGuid : BitVec 128}
    (done : gptFormatN diskGuid specs dev = (.ok (), after)) :
    specs.length ≤ 128 ∧ 512 ≤ dev.lbaSize ∧
      2 + arrayLbaCount dev.lbaSize + arrayLbaCount dev.lbaSize + 2 ≤
        dev.nLbas ∧
      ∃ array, fillEntries (2 + arrayLbaCount dev.lbaSize)
          (dev.nLbas - 1 - arrayLbaCount dev.lbaSize - 1) 0 specs
          (fun _ => 0) = .ok array ∧
        after = dev.formatted diskGuid array := by
  have isRead : (Action.read : Action Err GptDev GptDev) dev = (.ok dev, dev) := rfl
  unfold gptFormatN at done
  rw [Action.bind_of_ok isRead] at done
  split at done
  · nomatch done
  split at done
  · nomatch done
  split at done
  · nomatch done
  obtain ⟨array, dev0, settled, done⟩ := Action.of_bind_ok done
  obtain ⟨filled, rfl⟩ := Prod.mk.inj settled
  obtain ⟨_, dev1, first, done⟩ := Action.of_bind_ok done
  obtain ⟨_, dev2, second, done⟩ := Action.of_bind_ok done
  obtain ⟨_, dev3, third, done⟩ := Action.of_bind_ok done
  obtain ⟨_, dev4, fourth, done⟩ := Action.of_bind_ok done
  refine ⟨by omega, by omega, by omega, array, filled, ?_⟩
  rw [(write_ok done).1, (write_ok fourth).1, (write_ok third).1,
    (write_ok second).1, (write_ok first).1]
  rfl

end Format

/--
After `Gpt_FormatN`, the searches find the specs of CaraFS in order and nothing
else, the backup header leads to the same entries, and the blocks written
overlap neither each other nor a partition.
-/
theorem formatN_round_trip {dev after : GptDev} {diskGuid : BitVec 128} {specs : List GptPartSpec}
    (done : gptFormatN diskGuid specs dev = (.ok (), after)) :
    (∀ nth, gptFindCarafsNth after nth =
      match (specs.filter fun s => s.typeGuid = carafsGptTypeGuid)[nth]? with
      | some s => .ok (s.firstLba, s.lastLba - s.firstLba + 1)
      | none => .error .enoent) ∧
    (∃ primary backup, readTable after 1 = .ok primary ∧
      readTable after (after.nLbas - 1) = .ok backup ∧
      backup.ecount = primary.ecount ∧ backup.esize = primary.esize ∧
      Same primary.array backup.array 0 gptArrayBytes) ∧
    ∃ ranges, after.writes = dev.writes ++ ranges ∧
      ranges.Pairwise (fun x y => Apart x.1 x.2 y.1 y.2) ∧
      ∀ x ∈ ranges, ∀ s ∈ specs, Apart x.1 x.2 s.range.1 s.range.2 := by
  obtain ⟨count, size, room, array, filled, rfl⟩ := gptFormatN_ok done
  have isSize : (dev.formatted diskGuid array).lbaSize = dev.lbaSize := rfl
  have isCount : (dev.formatted diskGuid array).nLbas = dev.nLbas := rfl
  obtain ⟨primary, isPrimary, samePrimary⟩ := readTable_of_blocks
    (dev.formatted diskGuid array) 1 2 array size (by rw [isCount]; omega)
    (by rw [isCount, isSize]; omega) (by
      unfold GptDev.formatted
      rw [written_other (by omega), written_other (by omega),
        written_other (by omega), written_block])
    (fun at_ inside => by
      have below := div_lt_arrayLbaCount size inside
      rw [isSize]
      unfold GptDev.formatted
      rw [written_other (by omega), written_other (by omega)]
      exact written_array size inside)
  obtain ⟨backup, isBackup, sameBackup⟩ := readTable_of_blocks
    (dev.formatted diskGuid array) (dev.nLbas - 1)
    (dev.nLbas - 1 - arrayLbaCount dev.lbaSize) array size
    (by rw [isCount]; omega) (by rw [isCount, isSize]; omega) (written_block ..)
    (fun at_ inside => by
      have below := div_lt_arrayLbaCount size inside
      rw [isSize]
      unfold GptDev.formatted
      rw [written_other (by omega)]
      exact written_array size inside)
  refine ⟨fun nth => ?_, ⟨_, _, isPrimary, isBackup, rfl, rfl, fun at_ low high => ?_⟩, ?_⟩
  · have isList := entryRange_specs count (by omega) (by omega) dev.nLbas_lt filled samePrimary
    simp only [gptFindCarafsNth, isPrimary, bind, Except.bind, isCount]
    rw [findLoop_eq (Nat.zero_le nth), isList, List.getElem?_map]
    cases (specs.filter fun s => s.typeGuid = carafsGptTypeGuid)[nth]? with
    | none => rfl
    | some s => rfl
  · exact (sameBackup at_ low high).trans (samePrimary at_ low high).symm
  · obtain ⟨fits, -, -⟩ := fillEntries_spec filled
    refine ⟨writtenRanges dev, formatted_writes diskGuid array, ?_, fun x written s listed => ?_⟩
    · simp only [writtenRanges, pairwise_cons, mem_cons, not_mem_nil, or_false, Apart]
      grind
    · obtain ⟨first, last, order⟩ := fits s listed
      simp only [writtenRanges, mem_cons, not_mem_nil, or_false] at written
      unfold Apart GptPartSpec.range
      rcases written with rfl | rfl | rfl | rfl | rfl <;> dsimp only <;> omega

/-- A blank disk of seventy blocks. -/
def blankDev : GptDev where
  lbaSize := 512
  nLbas := 70
  nLbas_lt := by decide
  blocks _ _ := 0
  refuses _ := none
  writes := []

theorem formatN_round_trip_once :
    gptFindCarafsNth
        (gptFormatN 1 [⟨5, 6, 34, 34⟩, ⟨carafsGptTypeGuid, 7, 35, 36⟩] blankDev).2 0 = .ok (35, 2) ∧
      gptFindCarafsNth
        (gptFormatN 1 [⟨5, 6, 34, 34⟩, ⟨carafsGptTypeGuid, 7, 35, 36⟩]
          blankDev).2 1 = .error .enoent := by
  have done : (gptFormatN 1 [⟨5, 6, 34, 34⟩, ⟨carafsGptTypeGuid, 7, 35, 36⟩] blankDev).1 = .ok () :=
    rfl
  have found := (formatN_round_trip (Prod.ext done rfl)).1
  exact ⟨(found 0).trans (by decide), (found 1).trans (by decide)⟩

end CaraOS.Gpt
