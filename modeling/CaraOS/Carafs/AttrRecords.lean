import CaraOS.Carafs.Xattr

namespace CaraOS.Carafs

/-!
# Attribute records

What `xattr_find` reports on a packed list of attribute records, and on the
bytes left behind when the gap of a dropped record has been closed.
-/

open List

/-- One attribute of a cnode; the driver itself stores flags of zero. -/
structure Attr where
  name : List UInt8
  flags : UInt8 := 0
  value : List UInt8

namespace Attr

/-- The bytes of a record. -/
def size (attr : Attr) : Nat :=
  4 + attr.name.length + attr.value.length

/-- The packed record of an attribute. -/
def image (attr : Attr) : List UInt8 :=
  [UInt8.ofNat attr.name.length, attr.flags, UInt8.ofNat attr.value.length,
    UInt8.ofNat (attr.value.length / 256)] ++ attr.name ++ attr.value

/-- The lengths fit their fields. -/
structure Ok (attr : Attr) : Prop where
  nonempty : 1 ≤ attr.name.length
  name : attr.name.length ≤ xattrNameMax
  value : attr.value.length ≤ xattrValueMax

@[simp] theorem image_length (attr : Attr) : attr.image.length = attr.size := by
  simp [image, size]
  omega

end Attr

/-- The packed records of a list of attributes. -/
def attrBytes (attrs : List Attr) : List UInt8 :=
  (attrs.map Attr.image).flatten

/-- The value a payload holds for a name. -/
def attrValue (bytes name : List UInt8) : Option (List UInt8) :=
  (xattrFind bytes name).map fun off =>
    (bytes.drop (off + 4 + byteAt bytes off)).take (xattrValLen bytes off)

section Find

variable {bytes rest before name : List UInt8} {off : Nat}

@[simp] theorem byteAt_append (i : Nat) :
    byteAt (before ++ rest) (before.length + i) = byteAt rest i := by
  simp [byteAt, List.getElem?_append_right]

theorem xattrRecSize_append :
    xattrRecSize (before ++ rest) (before.length + off) =
      xattrRecSize rest off := by
  unfold xattrRecSize xattrValLen
  simp only [Nat.add_assoc, byteAt_append]

theorem xattrFindFrom_append (fuel : Nat) :
    xattrFindFrom (before ++ rest) name fuel (before.length + off) =
      (xattrFindFrom rest name fuel off).map (before.length + ·) := by
  induction fuel generalizing off with
  | zero =>
    rfl
  | succ fuel ih =>
    have dropped : (before ++ rest).drop (before.length + off + 4) = rest.drop (off + 4) := by
      rw [Nat.add_assoc]
      simp
    unfold xattrFindFrom
    rw [xattrRecSize_append, byteAt_append, dropped, List.length_append,
      Nat.add_assoc, Nat.add_assoc, ih]
    simp only [Nat.add_lt_add_iff_left]
    split
    · rfl
    · split
      · rfl
      · split <;> rfl

/-- Fuel past the end changes nothing. -/
theorem xattrFindFrom_fuel {fuel more : Nat} (enough : bytes.length < off + fuel)
    (enoughMore : bytes.length < off + more) :
    xattrFindFrom bytes name fuel off =
      xattrFindFrom bytes name more off := by
  induction fuel generalizing off more with
  | zero =>
    have past : bytes.length < off + 4 := by omega
    cases more with
    | zero => rfl
    | succ more => simp [xattrFindFrom, past]
  | succ fuel ih =>
    cases more with
    | zero =>
      have past : bytes.length < off + 4 := by omega
      simp [xattrFindFrom, past]
    | succ more =>
      have grows : 4 ≤ xattrRecSize bytes off := by
        unfold xattrRecSize
        omega
      have later : xattrFindFrom bytes name fuel (off + xattrRecSize bytes off) =
            xattrFindFrom bytes name more (off + xattrRecSize bytes off) :=
        ih (by omega) (by omega)
      unfold xattrFindFrom
      rw [later]

theorem xattrFindFrom_found {fuel at' : Nat}
    (found : xattrFindFrom bytes name fuel off = some at') :
    at' + xattrRecSize bytes at' ≤ bytes.length ∧
      byteAt bytes at' = name.length ∧
      (bytes.drop (at' + 4)).take name.length = name := by
  induction fuel generalizing off with
  | zero =>
    simp [xattrFindFrom] at found
  | succ fuel ih =>
    unfold xattrFindFrom at found
    split at found
    · simp at found
    split at found
    · simp at found
    split at found
    · rename_i matched
      cases found
      exact ⟨by omega, matched⟩
    · exact ih found

end Find

/-! ## Packed records -/

section Packed

variable {attr : Attr} {rest query : List UInt8}

theorem Attr.byteAt_image : byteAt (attr.image ++ rest) 0 = attr.name.length % 256 := by
  simp [byteAt, Attr.image]

theorem Attr.valLen_image (ok : attr.Ok) :
    xattrValLen (attr.image ++ rest) 0 = attr.value.length := by
  have short := ok.value
  unfold xattrValueMax at short
  simp [xattrValLen, byteAt, Attr.image]
  omega

theorem Attr.nameLen_image (ok : attr.Ok) : byteAt (attr.image ++ rest) 0 = attr.name.length := by
  have short := ok.name
  unfold xattrNameMax at short
  rw [Attr.byteAt_image]
  omega

theorem Attr.recSize_image (ok : attr.Ok) : xattrRecSize (attr.image ++ rest) 0 = attr.size := by
  unfold xattrRecSize
  rw [Attr.nameLen_image ok, Attr.valLen_image ok]
  rfl

theorem Attr.drop_image : (attr.image ++ rest).drop 4 = attr.name ++ attr.value ++ rest := by
  simp [Attr.image]

theorem xattrFind_image_self (ok : attr.Ok) :
    xattrFind (attr.image ++ rest) attr.name = some 0 := by
  have size : attr.size = 4 + attr.name.length + attr.value.length := rfl
  unfold xattrFind xattrFindFrom
  rw [if_neg (by simp; omega), Attr.recSize_image ok, Attr.nameLen_image ok, Attr.drop_image]
  simp

theorem xattrFind_image_other (ok : attr.Ok) (other : attr.name ≠ query) :
    xattrFind (attr.image ++ rest) query =
      (xattrFind rest query).map (attr.image.length + ·) := by
  have size : attr.size = 4 + attr.name.length + attr.value.length := rfl
  have differs : ¬ (attr.name.length = query.length ∧
      (attr.name ++ attr.value ++ rest).take query.length = query) := by
    rintro ⟨sameLength, same⟩
    rw [← sameLength] at same
    exact other (by simpa using same)
  have shifted : xattrFindFrom (attr.image ++ rest) query (attr.image ++ rest).length
          (attr.image.length + 0) =
        (xattrFindFrom rest query (attr.image ++ rest).length 0).map (attr.image.length + ·) :=
    xattrFindFrom_append _
  unfold xattrFind
  rw [xattrFindFrom, if_neg (by simp; omega), Nat.zero_add,
    Attr.recSize_image ok, if_neg (by simp), Attr.nameLen_image ok,
    Attr.drop_image, if_neg differs, ← Attr.image_length, ← Nat.add_zero attr.image.length, shifted]
  congr 1
  apply xattrFindFrom_fuel <;> simp
  omega

theorem attrValue_image_self (ok : attr.Ok) :
    attrValue (attr.image ++ rest) attr.name = some attr.value := by
  unfold attrValue
  rw [xattrFind_image_self ok, Option.map_some, Attr.nameLen_image ok, Attr.valLen_image ok]
  congr 1
  rw [← drop_drop, ← drop_drop, drop_zero, Attr.drop_image]
  simp

theorem attrValue_image_other (ok : attr.Ok) (other : attr.name ≠ query) :
    attrValue (attr.image ++ rest) query = attrValue rest query := by
  unfold attrValue
  rw [xattrFind_image_other ok other, Option.map_map]
  congr 1
  funext off
  simp only [Function.comp_apply, Nat.add_assoc, byteAt_append, xattrValLen]
  rw [List.drop_append, drop_eq_nil_of_le (by omega)]
  simp

end Packed

/-! ## Lists of records -/

section Lists

variable {attrs : List Attr} {rest query : List UInt8}

@[simp] theorem attrBytes_nil : attrBytes [] = [] :=
  rfl

@[simp] theorem attrBytes_cons (attr : Attr) (attrs : List Attr) :
    attrBytes (attr :: attrs) = attr.image ++ attrBytes attrs :=
  rfl

@[simp] theorem attrBytes_append (first second : List Attr) :
    attrBytes (first ++ second) = attrBytes first ++ attrBytes second := by
  simp [attrBytes]

section

variable (ok : ∀ attr ∈ attrs, attr.Ok)
include ok

theorem xattrFind_attrBytes (other : ∀ attr ∈ attrs, attr.name ≠ query) :
    xattrFind (attrBytes attrs ++ rest) query =
      (xattrFind rest query).map ((attrBytes attrs).length + ·) := by
  induction attrs with
  | nil =>
    simp
  | cons attr attrs ih =>
    rw [attrBytes_cons, append_assoc,
      xattrFind_image_other (ok attr (by simp)) (other attr (by simp)),
      ih (fun later listed => ok later (by simp [listed]))
        (fun later listed => other later (by simp [listed])), Option.map_map]
    congr 1
    funext off
    simp only [Function.comp_apply, List.length_append]
    omega

theorem attrValue_attrBytes (other : ∀ attr ∈ attrs, attr.name ≠ query) :
    attrValue (attrBytes attrs ++ rest) query = attrValue rest query := by
  induction attrs with
  | nil =>
    rfl
  | cons attr attrs ih =>
    rw [attrBytes_cons, append_assoc,
      attrValue_image_other (ok attr (by simp)) (other attr (by simp)),
      ih (fun later listed => ok later (by simp [listed]))
        (fun later listed => other later (by simp [listed]))]

theorem attrValue_skip {attr : Attr} (attrOk : attr.Ok) (other : attr.name ≠ query) :
    attrValue (attrBytes attrs ++ (attr.image ++ rest)) query =
      attrValue (attrBytes attrs ++ rest) query := by
  induction attrs with
  | nil =>
    exact attrValue_image_other attrOk other
  | cons first attrs ih =>
    rw [attrBytes_cons, append_assoc, append_assoc]
    by_cases same : first.name = query
    · subst same
      rw [attrValue_image_self (ok first (by simp)), attrValue_image_self (ok first (by simp))]
    · rw [attrValue_image_other (ok first (by simp)) same,
        attrValue_image_other (ok first (by simp)) same,
        ih (fun later listed => ok later (by simp [listed]))]

end

end Lists

/-! ## Closing a gap -/

/-- What a cnode holds: attributes under different names. -/
structure AttrList (attrs : List Attr) : Prop where
  ok : ∀ attr ∈ attrs, attr.Ok
  nodup : (attrs.map Attr.name).Nodup

section Gap

variable {before after : List Attr} {attr : Attr}

theorem eq_image_of_attrValue {bytes name value : List UInt8}
    (length : bytes.length = 4 + name.length + value.length)
    (held : attrValue bytes name = some value) :
    ∃ flags, bytes = (Attr.mk name flags value).image := by
  unfold attrValue at held
  rw [Option.map_eq_some_iff] at held
  obtain ⟨off, found, isValue⟩ := held
  obtain ⟨fits, nameLen, isName⟩ := xattrFindFrom_found found
  unfold xattrRecSize at fits
  rw [nameLen] at fits isValue
  have valueLen : value.length = xattrValLen bytes off := by
    rw [← isValue, length_take, length_drop]
    omega
  obtain rfl : off = 0 := by omega
  match bytes, length with
  | b0 :: b1 :: b2 :: b3 :: tail, length =>
    simp only [length_cons] at length
    have isTail : tail.drop name.length = value := by
      rw [← isValue, ← drop_drop, take_of_length_le]
      · simp
      · rw [length_drop, length_drop]
        simp only [length_cons]
        omega
    have split : tail = name ++ value := by
      rw [← isName, ← isTail, isName]
      nth_rewrite 1 [← isName]
      exact (take_append_drop ..).symm
    have firstByte : b0 = UInt8.ofNat name.length := by
      rw [← nameLen]
      simp [byteAt]
    have bytesOfLength : value.length = b2.toNat + b3.toNat * 256 := valueLen
    have secondByte : b2 = UInt8.ofNat value.length := by
      rw [bytesOfLength]
      apply UInt8.toNat.inj
      simp
    have thirdByte : b3 = UInt8.ofNat (value.length / 256) := by
      have small := b2.toNat_lt
      have quotient : value.length / 256 = b3.toNat := by omega
      rw [quotient]
      simp
    exact ⟨b1, by rw [firstByte, secondByte, thirdByte, split]; rfl⟩

/-- A name is found where its record starts. -/
theorem AttrList.find (list : AttrList (before ++ attr :: after)) :
    xattrFind (attrBytes (before ++ attr :: after)) attr.name =
        some (attrBytes before).length ∧
      xattrRecSize (attrBytes (before ++ attr :: after))
          (attrBytes before).length = attr.size := by
  have attrOk : attr.Ok := list.ok attr (by simp)
  have earlier : ∀ other ∈ before, other.name ≠ attr.name := by
    intro other listed
    have nodup := list.nodup
    rw [map_append, nodup_append] at nodup
    exact nodup.2.2 _ (mem_map_of_mem listed) _ (by simp)
  rw [attrBytes_append, attrBytes_cons]
  constructor
  · rw [xattrFind_attrBytes (fun other listed => list.ok other
      (by simp [listed])) earlier, xattrFind_image_self attrOk]
    rfl
  · have same : xattrRecSize (attrBytes before ++ (attr.image ++ attrBytes after))
            ((attrBytes before).length + 0) = xattrRecSize (attr.image ++ attrBytes after) 0 :=
      xattrRecSize_append
    rw [Nat.add_zero] at same
    rw [same, Attr.recSize_image attrOk]

/--
The last bytes of the payload, as many as a record has, already are a record
for its name and value.
-/
def Reappears (attrs : List Attr) (attr : Attr) : Prop :=
  ∃ flags, (attrBytes attrs).drop ((attrBytes attrs).length - attr.size) =
    (Attr.mk attr.name flags attr.value).image

/-- Closing the gap moves the later records up. -/
theorem closeGap_attrBytes :
    closeGap (attrBytes (before ++ attr :: after)) (attrBytes before).length
        attr.size =
      attrBytes (before ++ after) ++
        (attrBytes (before ++ attr :: after)).drop
          ((attrBytes (before ++ attr :: after)).length - attr.size) := by
  have kept : (attrBytes (before ++ attr :: after)).take (attrBytes before).length ++
          (attrBytes (before ++ attr :: after)).drop ((attrBytes before).length + attr.size) =
        attrBytes (before ++ after) := by
    rw [attrBytes_append, attrBytes_cons, take_left, ← drop_drop, drop_left, ← Attr.image_length,
      drop_left, attrBytes_append]
  have length : (attrBytes (before ++ after)).length =
      (attrBytes (before ++ attr :: after)).length - attr.size := by
    simp only [attrBytes_append, attrBytes_cons, List.length_append, Attr.image_length]
    omega
  unfold closeGap
  dsimp only
  rw [kept, length]

section Kept

variable (list : AttrList (before ++ attr :: after))

include list

theorem AttrList.others :
    (∀ other ∈ before ++ after, other.Ok) ∧
      ∀ other ∈ before ++ after, other.name ≠ attr.name := by
  constructor
  · intro other listed
    apply list.ok other
    rw [mem_append] at listed ⊢
    exact listed.imp_right (mem_cons_of_mem _)
  · have names := list.nodup
    rw [map_append, map_cons, perm_middle.nodup_iff, nodup_cons, ← map_append] at names
    intro other listed same
    exact names.1 (same ▸ mem_map_of_mem listed)

theorem AttrList.held :
    attrValue (attrBytes (before ++ attr :: after)) attr.name =
      some attr.value := by
  obtain ⟨othersOk, different⟩ := list.others
  rw [attrBytes_append, attrBytes_cons, attrValue_attrBytes
    (fun other listed => othersOk other (by simp [listed]))
    (fun other listed => different other (by simp [listed])),
    attrValue_image_self (list.ok attr (by simp))]

theorem AttrList.reappears (kept : attrValue (closeGap (attrBytes (before ++ attr :: after))
            (attrBytes before).length attr.size) attr.name =
        attrValue (attrBytes (before ++ attr :: after)) attr.name) :
    Reappears (before ++ attr :: after) attr := by
  obtain ⟨othersOk, different⟩ := list.others
  rw [closeGap_attrBytes, attrValue_attrBytes othersOk different, list.held] at kept
  refine eq_image_of_attrValue ?_ kept
  have size : attr.size = 4 + attr.name.length + attr.value.length := rfl
  have bound : attr.size ≤ (attrBytes (before ++ attr :: after)).length := by
    simp
    omega
  rw [length_drop]
  omega

theorem AttrList.kept (reappears : Reappears (before ++ attr :: after) attr) (query : List UInt8) :
    attrValue
        (closeGap (attrBytes (before ++ attr :: after)) (attrBytes before).length attr.size) query =
      attrValue (attrBytes (before ++ attr :: after)) query := by
  obtain ⟨othersOk, different⟩ := list.others
  obtain ⟨flags, isRecord⟩ := reappears
  have attrOk : attr.Ok := list.ok attr (by simp)
  have copyOk : (Attr.mk attr.name flags attr.value).Ok :=
    ⟨attrOk.nonempty, attrOk.name, attrOk.value⟩
  rw [closeGap_attrBytes, isRecord]
  by_cases same : attr.name = query
  · subst same
    rw [list.held, attrValue_attrBytes othersOk different,
      ← append_nil (Attr.image _), attrValue_image_self copyOk]
  · rw [← append_nil (Attr.image _), attrValue_skip othersOk copyOk same,
      attrBytes_append, attrBytes_append, attrBytes_cons,
      attrValue_skip (fun other listed => othersOk other (by simp [listed]))
        attrOk same, append_nil]

end Kept

end Gap

end CaraOS.Carafs
