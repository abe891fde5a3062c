import Mathlib.Data.Multiset.AddSub
import Mathlib.Data.Set.Insert
import CaraOS.Carafs.Program

namespace CaraOS.Carafs

/-!
# The shadow of a mounted volume

File system code only sees the image a block has, wherever it is kept.  A
shadow state has this image for every block, and as much of the cache as the
code relies on: which blocks are pinned, which belong to the transaction, and
which are certainly not cached.

A block is loose when its image was stored without being marked dirty since:
once it is released, the cache may drop that image.  A touched block may be
written home outside the transaction.  The home image of a homed block is the
one it shows, unless the block is loose.
-/

/-- What file system code can rely on about a mount. -/
structure Shadow where
  bs : Nat
  nBlocks : Nat
  nEnts : Nat
  inTxn : Bool
  view : Nat → Block
  loose : Set Nat
  absent : Set Nat
  touched : Set Nat
  homed : Set Nat
  pins : Multiset Nat
  txn : List Nat
  sb : Superblock

namespace Shadow

/-- What calls keep of a shadow, the transaction apart. -/
def shape (s : Shadow) : (Nat × Nat × Nat) × Bool × Superblock :=
  ((s.bs, s.nBlocks, s.nEnts), s.inTxn, s.sb)

/-- The image of the block is certain to be kept. -/
def Firm (s : Shadow) (block : Nat) : Prop :=
  block ∉ s.loose ∨ block ∈ s.pins

/-- There may be no slot left for another block. -/
def Crowded (s : Shadow) : Prop :=
  s.nEnts ≤ s.pins.card + s.txn.length

def see (s : Shadow) (block : Nat) (image : Block) : Shadow :=
  { s with view := Function.update s.view block image }

/-- One more pin. -/
def pin (s : Shadow) (block : Nat) : Shadow :=
  { s with
    pins := block ::ₘ s.pins
    absent := s.absent \ {block} }

/-- One pin less. -/
def unpin (s : Shadow) (block : Nat) : Shadow :=
  { s with pins := s.pins.erase block }

/-- A store through a data pointer. -/
def stored (s : Shadow) (block : Nat) (image : Block) : Shadow :=
  { s.see block image with loose := insert block s.loose }

/-- The block may be written home at any time. -/
def touch (s : Shadow) (block : Nat) : Shadow :=
  { s with touched := insert block s.touched }

/-- The image of the block is kept. -/
def fix (s : Shadow) (block : Nat) : Shadow :=
  { s with
    loose := s.loose \ {block}
    homed := s.homed \ {block} }

/-- The block belongs to the transaction, and its image is kept. -/
def joined (s : Shadow) (block : Nat) : Shadow :=
  { s.fix block with
    txn := if block ∈ s.txn then s.txn else s.txn ++ [block] }

def dropped (s : Shadow) (block : Nat) (image : Block) : Shadow :=
  { ((s.see block image).fix block).touch block with
    absent := insert block s.absent }

section Fields

variable (s : Shadow) (block : Nat) (image : Block)

@[simp] theorem see_view : (s.see block image).view = Function.update s.view block image :=
  rfl

@[simp] theorem pin_view : (s.pin block).view = s.view :=
  rfl

@[simp] theorem pin_pins : (s.pin block).pins = block ::ₘ s.pins :=
  rfl

@[simp] theorem unpin_pins : (s.unpin block).pins = s.pins.erase block :=
  rfl

@[simp] theorem stored_view : (s.stored block image).view = Function.update s.view block image :=
  rfl

@[simp] theorem stored_pins : (s.stored block image).pins = s.pins :=
  rfl

@[simp] theorem joined_pins : (s.joined block).pins = s.pins :=
  rfl

@[simp] theorem pin_shape : (s.pin block).shape = s.shape :=
  rfl

@[simp] theorem unpin_shape : (s.unpin block).shape = s.shape :=
  rfl

@[simp] theorem stored_shape : (s.stored block image).shape = s.shape :=
  rfl

@[simp] theorem joined_shape : (s.joined block).shape = s.shape :=
  rfl

theorem shape_of_sb (sb : Superblock) :
    ({ s with sb := sb } : Shadow).shape = (s.shape.1, s.shape.2.1, sb) :=
  rfl

end Fields

/-- `carafs_cache_get` that finds the block or reads it. -/
def GetRead (s : Shadow) (block : Nat) (after : Shadow) : Prop :=
  ∃ image, (s.Firm block → image = s.view block) ∧ after = (s.see block image).pin block

/-- `carafs_cache_get` that starts from zeroes. -/
def getZero (s : Shadow) (block : Nat) : Shadow :=
  (((s.see block (zeroBlock s.bs)).fix block).touch block).pin block

/-- `carafs_cache_get`, without a failing device. -/
inductive Get (s : Shadow) (block : Nat) :
    GetMode → Except Err Bool → Shadow → Prop where
  | read {mode : GetMode} {fresh : Bool} {after : Shadow}
      (inRange : block < s.nBlocks)
      (kept : mode = .zero → block ∉ s.absent)
      (got : s.GetRead block after) :
      Get s block mode (.ok fresh) after
  | zero {fresh : Bool}
      (inRange : block < s.nBlocks)
      (unpinned : block ∉ s.pins) :
      Get s block .zero (.ok fresh) (s.getZero block)
  | fail {mode : GetMode} {code : Err}
      (cause : s.nBlocks ≤ block ∨ s.Crowded)
      (defined : code = .erange ∨ code = .enomem) :
      Get s block mode (.error code) s

/-- `carafs_txn_dirty`; code that holds no pin learns nothing. -/
inductive Join (s : Shadow) (block : Nat) :
    Except Err Unit → Shadow → Prop where
  | joined
      (pinned : block ∈ s.pins)
      (inside : s.inTxn = true)
      (room : block ∈ s.txn ∨ s.txn.length < txnMaxBlocks) :
      Join s block (.ok ()) (s.joined block)
  | full
      (pinned : block ∈ s.pins)
      (notYet : block ∉ s.txn)
      (full : txnMaxBlocks ≤ s.txn.length) :
      Join s block (.error .eoverflow) ((s.fix block).touch block)
  | outside
      (pinned : block ∈ s.pins)
      (outside : s.inTxn = false) :
      Join s block (.ok ()) ((s.fix block).touch block)
  | unpinned {outcome : Except Err Unit} {after : Shadow}
      (unpinned : block ∉ s.pins)
      (either : after = s ∨ after = s.touch block ∨
        after = { s.joined block with loose := s.loose }) :
      Join s block outcome after

/-- The calls of file system code on a shadow. -/
inductive Step (s : Shadow) : (c : Prim) → c.Answer → Shadow → Prop where
  | get {block : Nat} {mode : GetMode} {outcome : Except Err Bool}
      {after : Shadow}
      (got : s.Get block mode outcome after) :
      Step s (.get block mode) outcome after
  | put {block : Nat} :
      Step s (.put block) () (s.unpin block)
  | load {block : Nat} {image : Block}
      (seen : block ∈ s.pins → image = s.view block) :
      Step s (.load block) image s
  | store {block : Nat} {image : Block} {after : Shadow}
      (stored : block ∈ s.pins → after = s.stored block image)
      (elsewhere : block ∉ s.pins → ∃ other, after = s.stored block other) :
      Step s (.store block image) () after
  | dirty {block : Nat} {after : Shadow}
      (marked : block ∈ s.pins → after = (s.fix block).touch block)
      (elsewhere : block ∉ s.pins → after = s.touch block) :
      Step s (.dirty block) () after
  | drop {block : Nat} {image : Block}
      (unused : block ∉ s.pins ∧ block ∉ s.txn)
      (home : block ∈ s.homed → block ∉ s.loose → image = s.view block) :
      Step s (.invalidate block) () (s.dropped block image)
  | keep {block : Nat}
      (used : block ∈ s.pins ∨ block ∈ s.txn) :
      Step s (.invalidate block) () s
  | txnDirty {block : Nat} {outcome : Except Err Unit} {after : Shadow}
      (join : s.Join block outcome after) :
      Step s (.txnDirty block) outcome after
  | sb : Step s .sb s.sb s
  | setSb {sb : Superblock} : Step s (.setSb sb) () { s with sb := sb }
  | now {time : Nat} : Step s .now time s

/-- The steps, as the calls of an abstract machine. -/
def step (c : Prim) (s : Shadow) (answer : c.Answer) (after : Shadow) : Prop :=
  s.Step c answer after

/-- What holds when code succeeds on a shadow, and when it fails. -/
def wp {α : Type} (body : Fs α) (post : α → Shadow → Prop)
    (failed : Err → Shadow → Prop) (s : Shadow) : Prop :=
  Program.Fallible.wp step body post failed s

/-! ## Rules -/

section Rules

variable {α β : Type} {s : Shadow} {block : Nat} {failed : Err → Shadow → Prop}

variable {post : α → Shadow → Prop}

@[simp] theorem wp_pure (value : α) : s.wp (pure value) post failed ↔ post value s :=
  Iff.rfl

@[simp] theorem wp_throw (code : Err) : s.wp (throw code) post failed ↔ failed code s :=
  Iff.rfl

@[simp] theorem wp_bind {post : β → Shadow → Prop} (first : Fs α) (next : α → Fs β) :
    s.wp (first >>= next) post failed ↔
      s.wp first (fun value after => after.wp (next value) post failed)
        failed :=
  Program.Fallible.wp_bind ..

@[simp] theorem wp_attempt {post : Except Err α → Shadow → Prop} (body : Fs α) :
    s.wp (Fs.attempt body) post failed ↔
      s.wp body (fun value after => post (.ok value) after)
        (fun code after => post (.error code) after) :=
  Program.Fallible.wp_attempt ..

@[simp] theorem wp_settle_ok (value : α) :
    s.wp (Fs.settle (.ok value)) post failed ↔ post value s :=
  Iff.rfl

@[simp] theorem wp_settle_error (code : Err) :
    s.wp (Fs.settle (.error code)) post failed ↔ failed code s :=
  Iff.rfl

theorem wp_mono {body : Fs α} {weaker : α → Shadow → Prop} {weakerFailed : Err → Shadow → Prop}
    (holds : s.wp body post failed) (implies : ∀ value after, post value after → weaker value after)
    (failedImplies : ∀ code after, failed code after → weakerFailed code after) :
    s.wp body weaker weakerFailed :=
  Program.Fallible.wp_mono step holds implies failedImplies

theorem wp_imp {body : Fs α} {weaker : α → Shadow → Prop} (holds : s.wp body post failed)
    (implies : ∀ value after, post value after → weaker value after) : s.wp body weaker failed :=
  wp_mono holds implies fun _ _ => id

/-- A get pins what the view shows. -/
theorem wp_get {post : Bool → Shadow → Prop} (firm : s.Firm block)
    (onSuccess : ∀ fresh, block < s.nBlocks → post fresh (s.pin block))
    (onFailure : ∀ code, s.nBlocks ≤ block ∨ s.Crowded →
        code = .erange ∨ code = .enomem → failed code s) :
    s.wp (Fs.get block .read) post failed := by
  rintro answer after stepped
  cases stepped with
  | get got =>
    cases got with
    | read inRange _ read =>
      obtain ⟨image, isView, rfl⟩ := read
      have same : s.see block image = s := by
        unfold see
        rw [isView firm, Function.update_eq_self]
      rw [same]
      exact onSuccess _ inRange
    | fail cause defined =>
      exact onFailure _ cause defined

/-- A fresh block needs no read. -/
theorem wp_getZero {post : Bool → Shadow → Prop} (gone : block ∈ s.absent)
    (onSuccess : ∀ fresh, block < s.nBlocks → post fresh (s.getZero block))
    (onFailure : ∀ code, s.nBlocks ≤ block ∨ s.Crowded →
        code = .erange ∨ code = .enomem → failed code s) :
    s.wp (Fs.get block .zero) post failed := by
  rintro answer after stepped
  cases stepped with
  | get got =>
    cases got with
    | read _ kept _ =>
      exact absurd gone (kept rfl)
    | zero inRange _ =>
      exact onSuccess _ inRange
    | fail cause defined =>
      exact onFailure _ cause defined

@[simp] theorem wp_put {post : Unit → Shadow → Prop} :
    s.wp (Fs.put block) post failed ↔ post () (s.unpin block) := by
  constructor
  · intro holds
    exact holds () _ .put
  · rintro holds _ after stepped
    cases stepped
    exact holds

theorem wp_load {post : Block → Shadow → Prop} (pinned : block ∈ s.pins) :
    s.wp (Fs.load block) post failed ↔ post (s.view block) s := by
  constructor
  · intro holds
    exact holds _ s (.load fun _ => rfl)
  · rintro holds image after stepped
    cases stepped with
    | load seen =>
      cases seen pinned
      exact holds

theorem wp_store {post : Unit → Shadow → Prop} {image : Block} (pinned : block ∈ s.pins) :
    s.wp (Fs.store block image) post failed ↔
      post () (s.stored block image) := by
  constructor
  · intro holds
    exact holds () _ (.store (fun _ => rfl) (absurd pinned))
  · rintro holds _ after stepped
    cases stepped with
    | store stored _ =>
      cases stored pinned
      exact holds

theorem wp_txnDirty {post : Unit → Shadow → Prop}
    (pinned : block ∈ s.pins) (inside : s.inTxn = true)
    (onSuccess : block ∈ s.txn ∨ s.txn.length < txnMaxBlocks → post () (s.joined block))
    (onFailure : block ∉ s.txn → txnMaxBlocks ≤ s.txn.length →
      failed .eoverflow ((s.fix block).touch block)) : s.wp (Fs.txnDirty block) post failed := by
  rintro answer after stepped
  cases stepped with
  | txnDirty join =>
    cases join with
    | joined _ _ room => exact onSuccess room
    | full _ notYet full => exact onFailure notYet full
    | outside _ outside => simp [inside] at outside
    | unpinned unpinned _ => exact absurd pinned unpinned

theorem wp_invalidate {post : Unit → Shadow → Prop} (unused : block ∉ s.pins ∧ block ∉ s.txn)
    (onSuccess : ∀ image, (block ∈ s.homed → block ∉ s.loose → image = s.view block) →
          post () (s.dropped block image)) : s.wp (Fs.invalidate block) post failed := by
  rintro answer after stepped
  cases stepped with
  | drop _ home => exact onSuccess _ home
  | keep used =>
    exact absurd used (by simp [unused])

@[simp] theorem wp_sb {post : Superblock → Shadow → Prop} :
    s.wp Fs.sb post failed ↔ post s.sb s := by
  constructor
  · intro holds
    exact holds _ _ .sb
  · rintro holds _ after stepped
    cases stepped
    exact holds

@[simp] theorem wp_setSb {post : Unit → Shadow → Prop} {sb : Superblock} :
    s.wp (Fs.setSb sb) post failed ↔ post () { s with sb := sb } := by
  constructor
  · intro holds
    exact holds _ _ .setSb
  · rintro holds _ after stepped
    cases stepped
    exact holds

@[simp] theorem wp_release {code : Err} :
    s.wp (Fs.release block code) post failed ↔ failed code (s.unpin block) := by
  unfold Fs.release
  simp

@[simp] theorem wp_orPut {body : Fs α} :
    s.wp (Fs.orPut block body) post failed ↔ s.wp body post
        (fun code after => failed code (after.unpin block)) := by
  unfold Fs.orPut Program.Fallible.orCleanup
  rw [wp_bind]
  change s.wp (Fs.attempt body) _ _ ↔ _
  rw [wp_attempt]
  constructor <;>
  · intro holds
    refine wp_mono holds (fun _ _ => id) ?_
    intro code after reached
    simpa using reached

theorem wp_joinPut {post : Unit → Shadow → Prop} (pinned : block ∈ s.pins) (inside : s.inTxn = true)
    (onSuccess : block ∈ s.txn ∨ s.txn.length < txnMaxBlocks →
        post () ((s.joined block).unpin block))
    (onFailure : block ∉ s.txn → txnMaxBlocks ≤ s.txn.length →
      failed .eoverflow (((s.fix block).touch block).unpin block)) :
    s.wp (Fs.joinPut block) post failed := by
  unfold Fs.joinPut
  rw [wp_bind, wp_attempt]
  refine wp_txnDirty pinned inside ?_ ?_
  · intro room
    simpa using onSuccess room
  · intro notYet full
    simpa using onFailure notYet full

end Rules

end Shadow

end CaraOS.Carafs
