import CaraOS.IffParse.Writer

namespace CaraOS.IffParse

/-!
# Reading IFF chunks

The read walk of `iffparse_lib.c`.  A step leaves the chunk it is in, however
much of it was read, and enters the next one of the form.
-/

open List

/-- `Croi_Dos_Read_Impl`. -/
def Stream.read (size : Nat) (file : Stream) : List Byte × Stream :=
  let data := (file.bytes.drop file.pos).take size
  (data, { file with pos := file.pos + data.length })

/-- `iff_read_be32`. -/
def readBe32 (file : Stream) : Option (ULong × Stream) :=
  match file.read 4 with
  | ([a, b, c, d], later) => some (a ++ b ++ c ++ d, later)
  | _ => none

/-- The first part of `iff_step`: the way to the form level. -/
def formLevel (ci : CaraIff) : Except IffErr (Stream × ContextNode) :=
  match ci.nodes with
  | [] =>
    match readBe32 ci.stream with
    | none => .error .eof
    | some (fid, named) =>
      if fid ≠ idForm ∧ fid ≠ idList ∧ fid ≠ idCat then
        .error .notiff
      else
        match readBe32 named with
        | none => .error .mangled
        | some (fsize, sized) =>
          match readBe32 sized with
          | none => .error .mangled
          | some (ftype, typed) =>
            -- The group type counts against the size.
            .ok (typed, ⟨fid, ftype, fsize.toInt, 4, 0⟩)
  | [top] => .ok (ci.stream, top)
  | cur :: next :: outer =>
    let top := (next :: outer).getLast (by simp)
    let pad := cur.cnSize % 2
    let skip := long (cur.cnSize - cur.cnScan + pad)
    let left := { top with cnScan := long (top.cnScan + (8 + cur.cnSize + pad)) }
    if 0 < skip then
      match ci.stream.seek (ci.stream.pos + skip) with
      | none => .error .seek
      | some later => .ok (later, left)
    else
      .ok (ci.stream, left)

/-- The second part of `iff_step`: the header of the next chunk. -/
def nextChunk (file : Stream) (top : ContextNode) : Except IffErr (Stream × ContextNode) :=
  if top.cnSize ≤ top.cnScan then
    .error .eof
  else
    match readBe32 file with
    | none => .error .eof
    | some (cid, named) =>
      match readBe32 named with
      | none => .error .mangled
      | some (csize, sized) => .ok (sized, ⟨cid, top.cnType, csize.toInt, 0, 0⟩)

/-- `iff_step`; with nothing registered it is all of `ParseIFF` for a step. -/
def iffStep (ci : CaraIff) : Except IffErr CaraIff := do
  let (file, top) ← formLevel ci
  let (later, sub) ← nextChunk file top
  return { ci with stream := later, nodes := [sub, top] }

/-- `Croi_Iff_ReadChunkBytes_Impl`. -/
def readChunkBytes (size : Int) (ci : CaraIff) : Except IffErr (List Byte × CaraIff) :=
  match ci.nodes with
  | cur :: next :: outer =>
    let clamped := min size (long (cur.cnSize - cur.cnScan))
    if clamped ≤ 0 then
      .ok ([], ci)
    else
      let (data, later) := ci.stream.read clamped.toNat
      let scan := long (cur.cnScan + data.length)
      .ok (data, { ci with
        stream := later
        nodes := { cur with cnScan := scan } :: next :: outer })
  | _ => .error .noscope

/-! ## A client -/

/-- Reads of the same chunk. -/
def readMany : List Int → CaraIff → Except IffErr (List Byte × CaraIff)
  | [], ci => .ok ([], ci)
  | size :: sizes, ci => do
    let (data, later) ← readChunkBytes size ci
    let (more, last) ← readMany sizes later
    return (data ++ more, last)

/-- `Croi_Iff_CurrentChunk_Impl`. -/
def currentChunk (ci : CaraIff) : Option ContextNode :=
  ci.nodes.head?

/-- A step for each chunk, a look at it, and reads before the next one. -/
def observe :
    List (List Int) → CaraIff →
    Except IffErr (List (Option ContextNode × List Byte) × CaraIff)
  | [], ci => .ok ([], ci)
  | sizes :: later, ci => do
    let entered ← iffStep ci
    let (data, left) ← readMany sizes entered
    let (seen, last) ← observe later left
    return ((currentChunk entered, data) :: seen, last)

/-! ## Steps -/

theorem be32_join (v : ULong) :
    v.extractLsb' 24 8 ++ v.extractLsb' 16 8 ++ v.extractLsb' 8 8
      ++ v.extractLsb' 0 8 = v := by
  have join {start size more : Nat} : v.extractLsb' (start + size) more ++ v.extractLsb' start size
        = v.extractLsb' start (more + size) :=
    BitVec.extractLsb'_append_extractLsb'_eq_extractLsb' rfl
  rw [@join 16 8, @join 8 8, @join 0 8]
  exact BitVec.extractLsb'_eq_self

@[simp] theorem Stream.read_next (before data after : List Byte) :
    Stream.read data.length ⟨before ++ data ++ after, before.length⟩
      = (data, ⟨before ++ data ++ after, (before ++ data).length⟩) := by
  simp [Stream.read]

theorem readBe32_next (before after : List Byte) (v : ULong) :
    readBe32 ⟨before ++ be32 v ++ after, before.length⟩
      = some (v, ⟨before ++ be32 v ++ after, (before ++ be32 v).length⟩) := by
  have read := Stream.read_next before (be32 v) after
  rw [be32_length] at read
  unfold readBe32
  rw [read]
  exact congrArg (fun w => some (w, _)) (be32_join v)

theorem toInt_size {size : Nat} (short : size < 2147483648) :
    (BitVec.ofNat 32 size).toInt = size := by
  rw [BitVec.toInt_eq_toNat_of_lt (by simp; omega), BitVec.toNat_ofNat]
  omega

theorem formLevel_form {size : Nat}
    (formType : ULong) (rest : List Byte) (short : size < 2147483648) :
    formLevel ⟨⟨be32 idForm ++ be32 (.ofNat 32 size) ++ be32 formType ++ rest,
        0⟩, 0, []⟩
      = .ok (⟨be32 idForm ++ be32 (.ofNat 32 size) ++ be32 formType ++ rest,
        12⟩, ⟨idForm, formType, size, 4, 0⟩) := by
  have named := readBe32_next [] (be32 (.ofNat 32 size) ++ be32 formType ++ rest) idForm
  have sized := readBe32_next (be32 idForm) (be32 formType ++ rest) (.ofNat 32 size)
  have typed := readBe32_next (be32 idForm ++ be32 (.ofNat 32 size)) rest formType
  simp only [append_assoc, nil_append, length_append,
    be32_length, length_nil] at named sized typed ⊢
  unfold formLevel
  simp [named, sized, typed, toInt_size short]

theorem nextChunk_header {top : ContextNode} {id : ULong} {size : Nat}
    (before after : List Byte) (more : top.cnScan < top.cnSize) (short : size < 2147483648) :
    nextChunk ⟨before ++ (be32 id ++ be32 (.ofNat 32 size)) ++ after,
        before.length⟩ top
      = .ok (⟨before ++ (be32 id ++ be32 (.ofNat 32 size)) ++ after,
        before.length + 8⟩, ⟨id, top.cnType, size, 0, 0⟩) := by
  have named := readBe32_next before (be32 (.ofNat 32 size) ++ after) id
  have sized := readBe32_next (before ++ be32 id) after (.ofNat 32 size)
  simp only [append_assoc] at named sized ⊢
  unfold nextChunk
  simp only [if_neg (Int.not_le.mpr more), named, sized, toInt_size short]
  simp

/-- The reader in a chunk that starts at `start`, with `done` bytes read. -/
def inChunk (ci : CaraIff) (file : List Byte) (start done : Nat)
    (cur top : ContextNode) : CaraIff :=
  { ci with
    stream := ⟨file, start + done⟩
    nodes := [{ cur with cnScan := done }, top] }

section

variable {ci : CaraIff} {cur top : ContextNode} {before body after : List Byte} {done : Nat}

theorem readChunkBytes_inChunk (size : Int) (isSize : cur.cnSize = body.length)
    (short : body.length < 2147483648) (inside : done ≤ body.length) :
    readChunkBytes size
        (inChunk ci (before ++ body ++ after) before.length done cur top)
      = .ok ((body.drop done).take size.toNat,
        inChunk ci (before ++ body ++ after) before.length
          (done + ((body.drop done).take size.toNat).length) cur top) := by
  have avail : long (cur.cnSize - done) = ((body.length - done : Nat) : Int) := by
    rw [long_of_range (by omega) (by omega)]
    omega
  unfold readChunkBytes inChunk
  simp only [avail]
  split
  next nothing =>
    have isEmpty : (body.drop done).take size.toNat = [] := by
      simp
      omega
    simp [isEmpty]
  next some =>
    have isData : ((before ++ body ++ after).drop (before.length + done)).take
            (min size ((body.length - done : Nat) : Int)).toNat
          = (body.drop done).take size.toNat := by
      rw [append_assoc, drop_length_add_append, drop_append_of_le_length inside,
        take_append_of_le_length (by simp)]
      simp
      omega
    have scanned : long (done + ((body.drop done).take size.toNat).length) =
          ((done + ((body.drop done).take size.toNat).length : Nat) : Int) := by
      rw [long_of_range (by omega) (by simp; omega)]
      rfl
    simp only [Stream.read, isData, scanned, Nat.add_assoc]

theorem readMany_inChunk (isSize : cur.cnSize = body.length) (short : body.length < 2147483648)
    (sizes : List Int) :
    ∀ done ≤ body.length, ∃ last ≤ body.length,
      readMany sizes
          (inChunk ci (before ++ body ++ after) before.length done cur top)
        = .ok ((body.drop done).take (sizes.map Int.toNat).sum,
          inChunk ci (before ++ body ++ after) before.length last cur top) := by
  induction sizes with
  | nil =>
    intro done inside
    exact ⟨done, inside, by simp [readMany]⟩
  | cons size sizes ih =>
    intro done inside
    obtain ⟨last, isLast, later⟩ := ih
      (done + ((body.drop done).take size.toNat).length) (by simp; omega)
    refine ⟨last, isLast, ?_⟩
    have rejoin : (body.drop done).drop ((body.drop done).take size.toNat).length
          = (body.drop done).drop size.toNat := by
      rw [drop_eq_drop_iff]
      simp
    rw [← drop_drop, rejoin] at later
    rw [readMany, readChunkBytes_inChunk size isSize short inside, map_cons, sum_cons, take_add]
    change (readMany sizes _ >>= _) = _
    rw [later]
    rfl

theorem formLevel_inChunk {file : List Byte} {start size : Nat}
    (isSize : cur.cnSize = size) (short : size + size % 2 < 2147483648) (inside : done ≤ size) :
    formLevel (inChunk ci file start done cur top)
      = .ok (⟨file, start + (size + size % 2)⟩, { top with
        cnScan := long (top.cnScan + (8 + size + size % 2)) }) := by
  have skip : long (cur.cnSize - done + cur.cnSize % 2)
      = ((size + size % 2 - done : Nat) : Int) := by
    rw [long_of_range (by omega) (by omega)]
    omega
  have place : ((start + done : Nat) : Int) + (size + size % 2 - done : Nat)
      = (start + (size + size % 2) : Nat) := by
    omega
  unfold formLevel inChunk
  simp only [skip, getLast_singleton, place, Stream.seek_natCast]
  split
  next => rw [isSize]
  next nothing =>
    have isDone : start + done = start + (size + size % 2) := by omega
    rw [isDone, isSize]

end

theorem iffStep_of_level {ci : CaraIff} {file : Stream} {top : ContextNode}
    (level : formLevel ci = .ok (file, top)) :
    iffStep ci = (do
      let (later, sub) ← nextChunk file top
      return { ci with stream := later, nodes := [sub, top] }) := by
  rw [iffStep, level]
  rfl

theorem step_into {ci : CaraIff} {top : ContextNode} {id : ULong}
    (before body after : List Byte) (reads : List Int)
    (level : formLevel ci = .ok (⟨before ++ encodeChunk id body ++ after, before.length⟩, top))
    (more : top.cnScan < top.cnSize) (short : body.length + body.length % 2 < 2147483648) :
    ∃ entered left,
      iffStep ci = .ok entered ∧
      currentChunk entered = some ⟨id, top.cnType, body.length, 0, 0⟩ ∧
      readMany reads entered
        = .ok (body.take (reads.map Int.toNat).sum, left) ∧
      formLevel left = .ok (⟨before ++ encodeChunk id body ++ after,
        (before ++ encodeChunk id body).length⟩, { top with
          cnScan := long (top.cnScan + (encodeChunk id body).length) }) := by
  generalize isRest : (if body.length % 2 = 1 then [0] else []) ++ after = rest
  have isFile : before ++ encodeChunk id body ++ after
      = before ++ (be32 id ++ be32 (.ofNat 32 body.length)) ++ body ++ rest := by
    simp [encodeChunk, ← isRest]
  have header := @nextChunk_header top id body.length before (body ++ rest) more (by omega)
  rw [← append_assoc, ← isFile] at header
  obtain ⟨last, inside, read⟩ := @readMany_inChunk ci ⟨id, top.cnType, body.length, 0, 0⟩ top
    (before ++ (be32 id ++ be32 (.ofNat 32 body.length))) body rest rfl
    (by omega) reads 0 (Nat.zero_le _)
  rw [← isFile] at read
  refine ⟨_, _, ?_, rfl, read, ?_⟩
  · rw [iffStep_of_level level, header]
    simp [inChunk]
  · rw [formLevel_inChunk rfl short inside]
    simp [length_encodeChunk, Nat.add_assoc, Int.add_assoc]

/-! ## The round trip -/

/-- A chunk, how it is written, and how much of it is read. -/
structure Leaf where
  type : ULong
  id : ULong
  declared : Int
  pieces : List (List Byte)
  reads : List Int
  isLeaf : isGroup id = false

def Leaf.body (leaf : Leaf) : List Byte :=
  leaf.pieces.flatten

/-- The chunks in the order they are written. -/
def leavesDoc : List Leaf → Doc
  | [] => .done
  | leaf :: leaves =>
    .chunk leaf.type leaf.id leaf.declared (leaf.pieces.foldr .bytes .done)
      (leavesDoc leaves)

def formDoc (formType : ULong) (declared : Int) (leaves : List Leaf) : Doc :=
  .chunk formType idForm declared (leavesDoc leaves) .done

def Leaf.seen (formType : ULong) (leaf : Leaf) : Option ContextNode × List Byte :=
  (some ⟨leaf.id, formType, leaf.body.length, 0, 0⟩, leaf.body.take (leaf.reads.map Int.toNat).sum)

theorem encode_pieces (pieces : List (List Byte)) :
    (pieces.foldr Doc.bytes .done).encode = pieces.flatten := by
  induction pieces with
  | nil => rfl
  | cons buf pieces ih =>
    simp [Doc.encode, ih]

theorem depth_pieces (pieces : List (List Byte)) : (pieces.foldr Doc.bytes .done).depth = 0 := by
  induction pieces with
  | nil => rfl
  | cons buf pieces ih => exact ih

theorem depth_leavesDoc (leaves : List Leaf) : (leavesDoc leaves).depth ≤ 1 := by
  induction leaves with
  | nil => exact Nat.zero_le 1
  | cons leaf leaves ih =>
    simpa [leavesDoc, Doc.depth, depth_pieces] using ih

theorem encode_leavesDoc_cons (leaf : Leaf) (leaves : List Leaf) :
    (leavesDoc (leaf :: leaves)).encode
      = encodeChunk leaf.id leaf.body ++ (leavesDoc leaves).encode := by
  simp [leavesDoc, Doc.encode, groupType, leaf.isLeaf, encode_pieces, Leaf.body]

theorem observe_leaves (after : List Byte) (leaves : List Leaf) :
    ∀ (ci : CaraIff) (before : List Byte) (top : ContextNode),
      formLevel ci = .ok (⟨before ++ (leavesDoc leaves).encode ++ after,
        before.length⟩, top) →
      0 ≤ top.cnScan →
      top.cnSize = top.cnScan + (leavesDoc leaves).encode.length →
      top.cnSize < 2147483648 →
      ∃ last,
        observe (leaves.map Leaf.reads) ci
          = .ok (leaves.map (Leaf.seen top.cnType), last) ∧
        iffStep last = .error .eof := by
  induction leaves with
  | nil =>
    intro ci before top level low isSize short
    refine ⟨ci, rfl, ?_⟩
    have ended : top.cnSize ≤ top.cnScan := by
      simp [isSize, leavesDoc, Doc.encode]
    rw [iffStep_of_level level, nextChunk, if_pos ended]
    rfl
  | cons leaf leaves ih =>
    intro ci before top level low isSize short
    have length := length_encodeChunk leaf.id leaf.body
    rw [encode_leavesDoc_cons, length_append] at isSize
    rw [encode_leavesDoc_cons, ← append_assoc, append_assoc] at level
    obtain ⟨entered, left, step, current, read, goesOn⟩ :=
      step_into before leaf.body _ leaf.reads level (by omega) (by omega)
    rw [← append_assoc, long_of_range (by omega) (by omega)] at goesOn
    obtain ⟨last, seen, ends⟩ := ih left _ _ goesOn (by simp; omega) (by simp; omega) short
    refine ⟨last, ?_, ends⟩
    rw [map_cons, observe, step]
    change (readMany leaf.reads entered >>= _) = _
    rw [read]
    change (observe (leaves.map Leaf.reads) left >>= _) = _
    rw [seen, current]
    rfl

/-- What is written is read back, however much of each chunk is read. -/
theorem written_form_reads_back (formType : ULong) (declared : Int) (leaves : List Leaf)
    (short : (formDoc formType declared leaves).encode.length < 2147483648) :
    ∃ written last,
      (formDoc formType declared leaves).calls.foldlM Call.run
        ⟨⟨[], 0⟩, 0, []⟩ = .ok written ∧
      observe (leaves.map Leaf.reads) ⟨⟨written.stream.bytes, 0⟩, 0, []⟩
        = .ok (leaves.map (Leaf.seen formType), last) ∧
      iffStep last = .error .eof := by
  have depth : (formDoc formType declared leaves).depth ≤ 2 := by
    simpa [formDoc, Doc.depth] using depth_leavesDoc leaves
  have written := (formDoc formType declared leaves).calls_write [] []
    (fun _ => trivial) (by simp; omega) (by simp [Bounded]) (by simpa using short)
  obtain ⟨pad, isFile⟩ : ∃ pad, (formDoc formType declared leaves).encode
        = be32 idForm ++ be32 (.ofNat 32 (4 + (leavesDoc leaves).encode.length))
          ++ be32 formType ++ ((leavesDoc leaves).encode ++ pad) := by
    refine ⟨if (4 + (leavesDoc leaves).encode.length) % 2 = 1 then [0] else [], ?_⟩
    simp [formDoc, Doc.encode, encodeChunk, groupType, isGroup]
  rw [isFile] at short
  simp only [length_append, be32_length] at short
  have level := formLevel_form formType ((leavesDoc leaves).encode ++ pad)
    (show 4 + (leavesDoc leaves).encode.length < 2147483648 by omega)
  rw [← append_assoc] at level isFile
  obtain ⟨last, seen, ends⟩ := observe_leaves pad leaves _ _ _ level
    (by simp) (by simp) (by simp; omega)
  refine ⟨_, last, written, ?_, ends⟩
  rwa [← isFile] at seen

theorem written_form_reads_back_one :
    ∃ written last,
      [Call.push 7 idForm 0, .push 0 9 (-1), .write [1], .write [2, 3], .pop,
        .pop].foldlM Call.run ⟨⟨[], 0⟩, 0, []⟩ = .ok written ∧
      observe [[2]] ⟨⟨written.stream.bytes, 0⟩, 0, []⟩
        = .ok ([(some ⟨9, 7, 3, 0, 0⟩, [1, 2])], last) ∧
      iffStep last = .error .eof :=
  written_form_reads_back 7 0 [⟨0, 9, -1, [[1], [2, 3]], [2], rfl⟩] (by decide)

end CaraOS.IffParse
