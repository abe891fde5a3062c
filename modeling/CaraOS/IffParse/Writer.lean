import Mathlib.Algebra.Order.Ring.Nat

namespace CaraOS.IffParse

/-!
# Writing IFF chunks

The write side of `iffparse_lib.c`.  A chunk is opened with a size that may be
wrong; when it is closed its size field is written again.  The stream is a plain
file; a `LONG` that is counted with is an integer that wraps at 32 bits.
-/

open List

abbrev Byte :=
  BitVec 8

/-- A `ULONG`; an id is one too. -/
abbrev ULong :=
  BitVec 32

/-- The conversion to a `LONG`. -/
def long (x : Int) : Int :=
  (x + 2147483648) % 4294967296 - 2147483648

/-- The bytes of a `ULONG`, the highest one first. -/
def be32 (v : ULong) : List Byte :=
  [v.extractLsb' 24 8, v.extractLsb' 16 8, v.extractLsb' 8 8, v.extractLsb' 0 8]

/-! ## The stream -/

/-- An open file. -/
structure Stream where
  bytes : List Byte
  pos : Nat

/-- `Croi_Dos_Write_Impl`. -/
def Stream.write (buf : List Byte) (file : Stream) : Stream :=
  ⟨file.bytes.take file.pos ++ buf ++ file.bytes.drop (file.pos + buf.length),
    file.pos + buf.length⟩

/-- `Croi_Dos_Seek_Impl` from the beginning. -/
def Stream.seek (place : Int) (file : Stream) : Option Stream :=
  if place < 0 then none else some { file with pos := place.toNat }

/-! ## Chunks -/

/-- `struct ContextNode`, with the entry of `push_pos` of its depth. -/
structure ContextNode where
  cnID : ULong
  cnType : ULong
  cnSize : Int
  cnScan : Int
  pushPos : Int := 0

/-- `struct CaraIff`: the stream and the open chunks, the innermost first. -/
structure CaraIff where
  stream : Stream
  writeOff : Int := 0
  nodes : List ContextNode := []

/-- `IFFERR_*`. -/
inductive IffErr where
  | eof
  | noscope
  | seek
  | mangled
  | notiff
  deriving DecidableEq

def idForm : ULong :=
  0x464F524D

def idList : ULong :=
  0x4C495354

def idCat : ULong :=
  0x43415420

/-- The last one is `ID_PROP`. -/
def isGroup (id : ULong) : Bool :=
  id = idForm || id = idList || id = idCat || id = 0x50524F50

def iffWrite (buf : List Byte) (ci : CaraIff) : CaraIff :=
  { ci with
    stream := ci.stream.write buf
    writeOff := long (ci.writeOff + buf.length) }

/-- `Croi_Iff_PushChunk_Impl`. -/
def pushChunk (type id : ULong) (size : Int) (ci : CaraIff) : Except IffErr CaraIff :=
  if 16 ≤ ci.nodes.length then
    .error .noscope
  else
    let declared := if size = -1 then 0 else size
    let named := iffWrite (be32 id) ci
    let sized := iffWrite (be32 (.ofInt 32 declared)) named
    if isGroup id then
      .ok { iffWrite (be32 type) sized with
        nodes := ⟨id, type, declared, 4, named.writeOff⟩ :: ci.nodes }
    else
      .ok { sized with
        nodes := ⟨id, (ci.nodes.head?.map ContextNode.cnType).getD type,
          declared, 0, named.writeOff⟩ :: ci.nodes }

/-- `Croi_Iff_WriteChunkBytes_Impl`; without a positive size `buf` is empty. -/
def writeChunkBytes (buf : List Byte) (ci : CaraIff) : Except IffErr CaraIff :=
  match ci.nodes with
  | [] => .error .noscope
  | cur :: outer =>
    if buf = [] then
      .ok ci
    else
      .ok { iffWrite buf ci with
        nodes := { cur with cnScan := long (cur.cnScan + buf.length) } :: outer }

/-- What `PopChunk` adds to the enclosing chunk. -/
def account (more : Int) : List ContextNode → List ContextNode
  | [] => []
  | parent :: outer =>
    { parent with cnScan := long (parent.cnScan + more) } :: outer

/-- `Croi_Iff_PopChunk_Impl`. -/
def popChunk (ci : CaraIff) : Except IffErr CaraIff :=
  match ci.nodes with
  | [] => .error .noscope
  | cur :: outer =>
    let pad := cur.cnScan % 2
    let padded := if pad = 1 then iffWrite [0] ci else ci
    let size := be32 (.ofInt 32 cur.cnScan)
    match padded.stream.seek cur.pushPos with
    | none => .error .seek
    | some place =>
      match (place.write size).seek padded.writeOff with
      | none => .error .seek
      | some stream =>
        .ok { padded with
          stream := stream
          nodes := account (8 + cur.cnScan + pad) outer }

/-- A call of the write side. -/
inductive Call where
  | push (type id : ULong) (size : Int)
  | write (buf : List Byte)
  | pop

def Call.run (ci : CaraIff) : Call → Except IffErr CaraIff
  | .push type id size => pushChunk type id size ci
  | .write buf => writeChunkBytes buf ci
  | .pop => popChunk ci

/-! ## What the calls describe -/

/-- What is written one after the other. -/
inductive Doc where
  | done
  | bytes (buf : List Byte) (rest : Doc)
  | chunk (type id : ULong) (declared : Int) (content rest : Doc)

/-- The calls that write it. -/
def Doc.calls : Doc → List Call
  | .done => []
  | .bytes buf rest => .write buf :: rest.calls
  | .chunk type id declared content rest =>
    .push type id declared :: (content.calls ++ .pop :: rest.calls)

/-- A chunk: its id, its length, what is in it, and a zero if that is odd. -/
def encodeChunk (id : ULong) (payload : List Byte) : List Byte :=
  be32 id ++ be32 (.ofNat 32 payload.length) ++ payload
    ++ if payload.length % 2 = 1 then [0] else []

/-- The group type, which is part of the content. -/
def groupType (type id : ULong) : List Byte :=
  if isGroup id then be32 type else []

/-- The IFF encoding. -/
def Doc.encode : Doc → List Byte
  | .done => []
  | .bytes buf rest => buf ++ rest.encode
  | .chunk type id _ content rest =>
    encodeChunk id (groupType type id ++ content.encode) ++ rest.encode

/-- How deep the chunks are nested. -/
def Doc.depth : Doc → Nat
  | .done => 0
  | .bytes _ rest => rest.depth
  | .chunk _ _ _ content rest => max (content.depth + 1) rest.depth

/-- There are bytes in chunks only. -/
def Doc.InChunks : Doc → Prop
  | .done => True
  | .bytes _ _ => False
  | .chunk _ _ _ _ rest => rest.InChunks

/-! ## The writer -/

/-- The writer at the end of what it has written. -/
def atEnd (bytes : List Byte) (nodes : List ContextNode) : CaraIff :=
  ⟨⟨bytes, bytes.length⟩, bytes.length, nodes⟩

@[simp] theorem atEnd_nodes (bytes : List Byte) (nodes : List ContextNode) :
    (atEnd bytes nodes).nodes = nodes :=
  rfl

theorem long_of_range {x : Int} (low : 0 ≤ x) (high : x < 2147483648) : long x = x := by
  unfold long
  omega

@[simp] theorem be32_length (v : ULong) : (be32 v).length = 4 :=
  rfl

variable {bytes : List Byte} {nodes : List ContextNode} {buf : List Byte}

theorem iffWrite_atEnd (short : bytes.length + buf.length < 2147483648) :
    iffWrite buf (atEnd bytes nodes) = atEnd (bytes ++ buf) nodes := by
  have off : long ((bytes.length : Int) + buf.length) = ((bytes ++ buf).length : Int) := by
    rw [long_of_range (by omega) (by omega)]
    simp
  simp [iffWrite, atEnd, Stream.write, off]

@[simp] theorem Stream.seek_natCast (place : Nat) (file : Stream) :
    file.seek place = some { file with pos := place } := by
  simp [Stream.seek]

theorem write_again (before old new after : List Byte) (same : old.length = new.length) :
    Stream.write new ⟨before ++ old ++ after, before.length⟩
      = ⟨before ++ new ++ after, before.length + new.length⟩ := by
  simp [Stream.write, ← same]

theorem account_eq_nil {more : Int} : account more nodes = [] ↔ nodes = [] := by
  cases nodes <;> simp [account]

@[simp] theorem account_length (more : Int) (nodes : List ContextNode) :
    (account more nodes).length = nodes.length := by
  cases nodes <;> rfl

theorem account_account (more most : Int) (nodes : List ContextNode) :
    account most (account more nodes) = account (more + most) nodes := by
  cases nodes with
  | nil => rfl
  | cons parent outer =>
    simp only [account, List.cons.injEq, ContextNode.mk.injEq, and_true, true_and]
    unfold long
    omega

/-- The chunk that is open has no more bytes than the file. -/
def Bounded (bytes : List Byte) (nodes : List ContextNode) : Prop :=
  ∀ cur ∈ nodes.head?, 0 ≤ cur.cnScan ∧ cur.cnScan ≤ bytes.length

theorem Bounded.account (bounded : Bounded bytes nodes) (more : List Byte)
    (short : bytes.length + more.length < 2147483648) :
    Bounded (bytes ++ more) (account more.length nodes) := by
  cases nodes with
  | nil => simp [Bounded, IffParse.account]
  | cons cur outer =>
    obtain ⟨low, high⟩ := bounded cur rfl
    rintro _ ⟨⟩
    simp only [length_append, long]
    omega

theorem account_nothing (bounded : Bounded bytes nodes) (short : bytes.length < 2147483648) :
    account 0 nodes = nodes := by
  cases nodes with
  | nil => rfl
  | cons cur outer =>
    obtain ⟨low, high⟩ := bounded cur rfl
    simp [account, long_of_range low (by omega)]

theorem pushChunk_atEnd (bytes : List Byte) (nodes : List ContextNode) (type id : ULong)
    (size : Int) (room : nodes.length < 16)
    (short : bytes.length + 8 + (groupType type id).length < 2147483648) :
    ∃ (node : ContextNode) (old : List Byte),
      old.length = 4 ∧ node.pushPos = bytes.length + 4 ∧
      node.cnScan = (groupType type id).length ∧
      pushChunk type id size (atEnd bytes nodes) = .ok (atEnd
        (bytes ++ be32 id ++ old ++ groupType type id) (node :: nodes)) := by
  have named : iffWrite (be32 id) (atEnd bytes nodes) = _ := iffWrite_atEnd (by simp; omega)
  have sized (v : ULong) : iffWrite (be32 v) (atEnd (bytes ++ be32 id) nodes) = _ :=
    iffWrite_atEnd (by simp; omega)
  unfold pushChunk
  rw [atEnd_nodes, if_neg (by omega)]
  simp only [named, sized]
  unfold groupType at short ⊢
  by_cases group : isGroup id
  · rw [if_pos group, be32_length] at short
    have typed (v : ULong) : iffWrite (be32 type) (atEnd (bytes ++ be32 id ++ be32 v) nodes) = _ :=
      iffWrite_atEnd (by simp; omega)
    simp only [if_pos group, typed]
    exact ⟨⟨_, _, _, _, _⟩, be32 _, rfl, by simp [atEnd], rfl, rfl⟩
  · simp only [if_neg group, append_nil]
    exact ⟨⟨_, _, _, _, _⟩, be32 _, rfl, by simp [atEnd], rfl, rfl⟩

theorem writeChunkBytes_atEnd (isOpen : nodes ≠ []) (bounded : Bounded bytes nodes)
    (short : bytes.length + buf.length < 2147483648) :
    writeChunkBytes buf (atEnd bytes nodes)
      = .ok (atEnd (bytes ++ buf) (account buf.length nodes)) := by
  cases nodes with
  | nil => exact absurd rfl isOpen
  | cons cur outer =>
    unfold writeChunkBytes
    simp only [atEnd_nodes, iffWrite_atEnd short]
    split
    next nothing =>
      subst nothing
      rw [append_nil, length_nil, Int.natCast_zero, account_nothing bounded (by omega)]
    next => rfl

theorem popChunk_atEnd {old payload : List Byte} {id : ULong} {node : ContextNode}
    (isOld : old.length = 4) (isPos : node.pushPos = bytes.length + 4)
    (isScan : node.cnScan = payload.length)
    (short : bytes.length + (encodeChunk id payload).length < 2147483648) :
    popChunk (atEnd (bytes ++ be32 id ++ old ++ payload) (node :: nodes))
      = .ok (atEnd (bytes ++ encodeChunk id payload)
        (account (encodeChunk id payload).length nodes)) := by
  unfold encodeChunk at short ⊢
  simp only [length_append, be32_length] at short
  have isPad : node.cnScan % 2 = 1 ↔ payload.length % 2 = 1 := by omega
  have isSize : BitVec.ofInt 32 node.cnScan = BitVec.ofNat 32 payload.length := by
    rw [isScan, BitVec.ofInt_natCast]
  generalize isTail : payload ++ (if payload.length % 2 = 1 then [0] else []) = tail
  have padded : (if node.cnScan % 2 = 1 then
        iffWrite [0] (atEnd (bytes ++ be32 id ++ old ++ payload) (node :: nodes))
      else atEnd (bytes ++ be32 id ++ old ++ payload) (node :: nodes))
        = atEnd (bytes ++ be32 id ++ old ++ tail) (node :: nodes) := by
    subst isTail
    by_cases odd : payload.length % 2 = 1
    · rw [if_pos odd, length_singleton] at short
      rw [if_pos (isPad.mpr odd), if_pos odd, iffWrite_atEnd (by simp; omega), append_assoc]
    · rw [if_neg (fun h => odd (isPad.mp h)), if_neg odd, append_nil]
  have again := write_again (bytes ++ be32 id) old
    (be32 (.ofNat 32 payload.length)) tail (by simpa using isOld)
  have isStart : node.pushPos = ((bytes ++ be32 id).length : Int) := by
    simpa using isPos
  have isLength : (8 + node.cnScan + node.cnScan % 2 : Int) = 4 + (4 + (tail.length : Int)) := by
    subst isTail
    split <;> simp <;> omega
  unfold popChunk
  simp only [atEnd_nodes, padded, isSize, isStart]
  simp only [atEnd, Stream.seek_natCast, again, isLength]
  rw [append_assoc _ payload, isTail]
  simp [isOld]

/-! ## The written file -/

theorem length_encodeChunk (id : ULong) (payload : List Byte) :
    (encodeChunk id payload).length
      = 8 + payload.length + payload.length % 2 := by
  simp only [encodeChunk, length_append, be32_length]
  split <;> simp <;> omega

theorem run_cons {ci next : CaraIff} {later : List Call}
    (call : Call) (ran : Call.run ci call = .ok next) :
    (call :: later).foldlM Call.run ci = later.foldlM Call.run next := by
  rw [foldlM_cons, ran]
  rfl

theorem run_append {ci next : CaraIff} {first later : List Call}
    (ran : first.foldlM Call.run ci = .ok next) :
    (first ++ later).foldlM Call.run ci = later.foldlM Call.run next := by
  rw [foldlM_append, ran]
  rfl

theorem Doc.calls_write (doc : Doc) :
    ∀ (bytes : List Byte) (nodes : List ContextNode),
      (nodes = [] → doc.InChunks) → nodes.length + doc.depth ≤ 16 →
      Bounded bytes nodes →
      bytes.length + doc.encode.length < 2147483648 →
      doc.calls.foldlM Call.run (atEnd bytes nodes)
        = .ok (atEnd (bytes ++ doc.encode)
          (account doc.encode.length nodes)) := by
  induction doc with
  | done =>
    intro bytes nodes inChunks room bounded short
    simp only [Doc.encode, append_nil, length_nil, Int.natCast_zero, account_nothing bounded short]
    rfl
  | bytes buf rest ih =>
    intro bytes nodes inChunks room bounded short
    have isOpen : nodes ≠ [] := inChunks
    simp only [Doc.encode, length_append] at short ⊢
    have first : writeChunkBytes buf (atEnd bytes nodes) = _ :=
      writeChunkBytes_atEnd isOpen bounded (by omega)
    have later := ih (bytes ++ buf) _ (fun none => absurd (account_eq_nil.mp none) isOpen)
      (by simpa [Doc.depth] using room) (bounded.account buf (by omega)) (by simp; omega)
    rw [account_account, append_assoc] at later
    rw [Doc.calls, run_cons (.write buf) first, later, Int.natCast_add]
  | chunk type id declared content rest contentHypothesis restHypothesis =>
    intro bytes nodes inChunks room bounded short
    simp only [Doc.depth, Doc.encode, length_append] at room short ⊢
    have size := length_encodeChunk id (groupType type id ++ content.encode)
    rw [length_append] at size
    obtain ⟨node, old, isOld, isPos, isScan, pushed⟩ :=
      pushChunk_atEnd bytes nodes type id declared (by omega) (by omega)
    have inside := contentHypothesis (bytes ++ be32 id ++ old ++ groupType type id) (node :: nodes)
      (by simp) (by simp; omega) (by
        rintro _ ⟨⟩
        simp
        omega)
      (by simp [isOld]; omega)
    rw [append_assoc _ (groupType type id)] at inside
    have scanned : long (node.cnScan + content.encode.length)
        = ((groupType type id ++ content.encode).length : Int) := by
      rw [isScan, long_of_range (by omega) (by omega)]
      simp
    have popped : Call.run (atEnd (bytes ++ be32 id ++ old ++ (groupType type id ++ content.encode))
          (account content.encode.length (node :: nodes))) .pop = .ok _ :=
      popChunk_atEnd isOld isPos scanned (by omega)
    have later := restHypothesis (bytes ++ encodeChunk id (groupType type id ++ content.encode)) _
      (fun none => inChunks (account_eq_nil.mp none))
      (by simp; omega) (bounded.account _ (by omega)) (by simp; omega)
    rw [account_account, append_assoc] at later
    rw [Doc.calls, run_cons (.push type id declared) pushed,
      run_append inside, run_cons .pop popped, later, Int.natCast_add]

/-- The file is the encoding, whatever sizes were declared. -/
theorem calls_write_encoding (doc : Doc) (inChunks : doc.InChunks) (room : doc.depth ≤ 16)
    (short : doc.encode.length < 2147483648) :
    doc.calls.foldlM Call.run ⟨⟨[], 0⟩, 0, []⟩
      = .ok ⟨⟨doc.encode, doc.encode.length⟩, doc.encode.length, []⟩ :=
  doc.calls_write [] [] (fun _ => inChunks) (by simpa using room)
    (by simp [Bounded]) (by simpa using short)

theorem calls_write_encoding_form :
    [Call.push 7 idForm (-1), .push 0 9 5, .write [1], .write [2, 3], .pop,
        .pop].foldlM Call.run ⟨⟨[], 0⟩, 0, []⟩
      = .ok ⟨⟨[0x46, 0x4F, 0x52, 0x4D, 0, 0, 0, 16, 0, 0, 0, 7,
        0, 0, 0, 9, 0, 0, 0, 3, 1, 2, 3, 0], 24⟩, 24, []⟩ :=
  calls_write_encoding (.chunk 7 idForm (-1)
      (.chunk 0 9 5 (.bytes [1] (.bytes [2, 3] .done)) .done) .done)
    trivial (by decide) (by decide)

end CaraOS.IffParse
