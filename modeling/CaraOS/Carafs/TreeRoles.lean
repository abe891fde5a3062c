import CaraOS.Carafs.AllocSpec
import CaraOS.Carafs.LeafSplit

namespace CaraOS.Carafs

/-!
# The nodes of a directory tree

Code that changes a directory holds the cnode and some nodes of the tree.  Each
block it knows has a role; the roles say what the block shows, and the blocks
in use are among the known ones.
-/

open Function (update update_of_ne update_self)

/-- What a block is to the code that changes a directory. -/
inductive Role where
  | free
  | held
  | leaf
  | inner
  deriving DecidableEq

/-- The block is a node of the tree. -/
def Role.IsNode (role : Role) : Prop :=
  role = .leaf ∨ role = .inner

variable {role : Role}

theorem Role.IsNode.known (isNode : role.IsNode) : role ≠ .free := by
  rcases isNode with rfl | rfl <;> decide

/-- The body a node of either kind has. -/
def BodyFits (bs : Nat) (roles : Nat → Role) : Role → BtBody → Prop
  | .leaf, .dirents recs => LeafFits bs recs
  | .inner, .interior _ recs =>
    recs ≠ [] ∧ ∀ record ∈ recs, (roles record.child).IsNode
  | _, _ => False

/-- The block shows a node of its kind. -/
def NodeFits (bs : Nat) (roles : Nat → Role) (role : Role) (image : Block) : Prop :=
  ∃ node, image = .btnode node ∧ BodyFits bs roles role node.body

/--
Code that holds the cnode of a directory and some nodes of its tree, inside a
transaction of at most `n` blocks.
-/
structure Tidy (g : Geometry) (dir : Nat) (roles : Nat → Role)
    (taken : Set Nat) (n : Nat) (s : Shadow) : Prop where
  ledger : Ledger g s taken { block | roles block ≠ .free }
  bs : s.bs = g.blockSize
  isDir : roles dir = .held
  pinned : dir ∈ s.pins
  tight : ∀ {block}, block ∈ s.loose → roles block ≠ .free → block ∈ s.pins
  nodes : ∀ {block}, (roles block).IsNode → NodeFits g.blockSize roles (roles block) (s.view block)
  few : s.txn.length ≤ n

/-- The pins and the cnode are as before. -/
structure Stays (dir : Nat) (s after : Shadow) : Prop where
  pins : after.pins = s.pins
  cnode : after.view dir = s.view dir

/-- Known blocks keep their roles. -/
def Grows (roles roles' : Nat → Role) : Prop :=
  ∀ ⦃block⦄, roles block ≠ .free → roles' block = roles block

/-- The insertion does not overflow anything. -/
def harmless (code : Err) (_ : Shadow) : Prop :=
  code ≠ .eoverflow ∧ code ≠ .overrun

section Tidy

variable {g : Geometry} {dir block n : Nat} {roles roles' : Nat → Role}
  {taken : Set Nat} {s after : Shadow}

theorem Stays.trans {mid : Shadow} (first : Stays dir s mid) (second : Stays dir mid after) :
    Stays dir s after :=
  ⟨second.pins.trans first.pins, second.cnode.trans first.cnode⟩

theorem Stays.isPinned (stays : Stays dir (s.pin block) after) : block ∈ after.pins :=
  stays.pins ▸ Multiset.mem_cons_self ..

theorem Shadow.Agrees.stays (same : s.Agrees after) : Stays dir s after :=
  ⟨same.pins, (congrArg (fun after => after.view dir) same :)⟩

theorem Grows.trans {roles'' : Nat → Role}
    (first : Grows roles roles') (second : Grows roles' roles'') :
    Grows roles roles'' := fun _ known =>
  (second (first known ▸ known)).trans (first known)

theorem Grows.update (isFree : roles block = .free) (role : Role) :
    Grows roles (update roles block role) := fun other known =>
  update_of_ne (show other ≠ block from fun same =>
    known (same ▸ isFree)) ..

theorem Grows.isNode (grows : Grows roles roles') (isNode : (roles block).IsNode) :
    (roles' block).IsNode := by
  rwa [grows isNode.known]

theorem Grows.isInner (grows : Grows roles roles') (isInner : roles block = .inner) :
    roles' block = .inner :=
  (grows (by rw [isInner]; decide)).trans isInner

theorem BodyFits.mono {bs : Nat} {body : BtBody} (fits : BodyFits bs roles role body)
    (grows : ∀ {other}, (roles other).IsNode → (roles' other).IsNode) :
    BodyFits bs roles' role body := by
  cases role with
  | leaf =>
    cases body with
    | dirents recs => exact fits
    | interior level recs => exact fits
    | extents recs => exact fits
  | inner =>
    cases body with
    | interior level recs =>
      exact ⟨fits.1, fun record listed => grows (fits.2 record listed)⟩
    | dirents recs => exact fits
    | extents recs => exact fits
  | free => exact fits.elim
  | held => exact fits.elim

variable (tidy : Tidy g dir roles taken n s)
include tidy

theorem Tidy.data (known : roles block ≠ .free) : g.Data block :=
  (tidy.ledger.region known).1

theorem Tidy.of_agrees (same : s.Agrees after) : Tidy g dir roles taken n after := by
  have ledger := tidy.ledger.of_agrees same
  rw [same] at ledger ⊢
  exact { tidy with ledger := ledger }

theorem Tidy.pin (known : roles block ≠ .free) : Tidy g dir roles taken n (s.pin block) where
  ledger := { tidy.ledger with
    used := by
      rintro other (pinned | joined)
      · rcases Multiset.mem_cons.mp pinned with rfl | earlier
        · exact .inl known
        · exact tidy.ledger.used (.inl earlier)
      · exact tidy.ledger.used (.inr joined) }
  bs := tidy.bs
  isDir := tidy.isDir
  pinned := Multiset.mem_cons_of_mem tidy.pinned
  tight := fun isLoose isKnown =>
    Multiset.mem_cons_of_mem (tidy.tight isLoose isKnown)
  nodes := tidy.nodes
  few := tidy.few

theorem Tidy.unpin (firm : block ∉ s.loose) (notDir : block ≠ dir) :
    Tidy g dir roles taken n (s.unpin block) where
  ledger := { tidy.ledger with
    used := by
      rintro other (pinned | joined)
      · exact tidy.ledger.used (.inl (Multiset.mem_of_mem_erase pinned))
      · exact tidy.ledger.used (.inr joined) }
  bs := tidy.bs
  isDir := tidy.isDir
  pinned := (Multiset.mem_erase_of_ne notDir.symm).mpr tidy.pinned
  tight := by
    intro other isLoose isKnown
    have apart : other ≠ block := fun same => firm (same ▸ isLoose)
    exact (Multiset.mem_erase_of_ne apart).mpr (tidy.tight isLoose isKnown)
  nodes := tidy.nodes
  few := tidy.few

theorem Tidy.stored {image : Block} (known : roles block ≠ .free) (pinned : block ∈ s.pins)
    (fits : (roles block).IsNode → NodeFits g.blockSize roles (roles block) image) :
    Tidy g dir roles taken n (s.stored block image) where
  ledger := { tidy.ledger with
    books := tidy.ledger.books.of_same fun ag bound =>
      update_of_ne (fun same =>
        (tidy.data known).notAg ⟨ag, bound, same.symm⟩) ..
    loose := by
      rintro other (rfl | earlier)
      · exact .inr known
      · exact tidy.ledger.loose earlier }
  bs := tidy.bs
  isDir := tidy.isDir
  pinned := tidy.pinned
  tight := by
    rintro other (rfl | earlier) isKnown
    · exact pinned
    · exact tidy.tight earlier isKnown
  nodes := by
    intro other isNode
    by_cases here : other = block
    · subst here
      rw [Shadow.stored_view, update_self]
      exact fits isNode
    · rw [Shadow.stored_view, update_of_ne here]
      exact tidy.nodes isNode
  few := tidy.few

theorem Tidy.storedCnode (image : Block) : Tidy g dir roles taken n (s.stored dir image) := by
  refine tidy.stored ?_ tidy.pinned fun isNode => ?_
  · rw [tidy.isDir]
    decide
  · rw [tidy.isDir] at isNode
    rcases isNode with impossible | impossible <;> cases impossible

theorem Tidy.place (isHeld : roles block = .held) (notDir : block ≠ dir)
    (shown : NodeFits g.blockSize (update roles block role) role (s.view block)) :
    Tidy g dir (update roles block role) taken n s := by
  have isNode : role.IsNode := by
    obtain ⟨node, -, fits⟩ := shown
    cases role with
    | leaf => exact .inl rfl
    | inner => exact .inr rfl
    | free => exact fits.elim
    | held => exact fits.elim
  have known (other : Nat) : update roles block role other ≠ .free ↔ roles other ≠ .free := by
    by_cases here : other = block
    · subst here
      rw [update_self, isHeld]
      exact iff_of_true isNode.known (by decide)
    · rw [update_of_ne here]
  have sameHeld : { other | update roles block role other ≠ .free } =
        { other | roles other ≠ .free } := Set.ext known
  exact {
    ledger := sameHeld ▸ tidy.ledger
    bs := tidy.bs
    isDir := by rw [update_of_ne notDir.symm, tidy.isDir]
    pinned := tidy.pinned
    tight := fun isLoose isKnown =>
      tidy.tight isLoose ((known _).mp isKnown)
    nodes := by
      intro other otherNode
      by_cases here : other = block
      · subst here
        rwa [update_self]
      · rw [update_of_ne here] at otherNode ⊢
        obtain ⟨node, isImage, fits⟩ := tidy.nodes otherNode
        refine ⟨node, isImage, fits.mono fun {child} childNode => ?_⟩
        by_cases isHere : child = block
        · rwa [isHere, update_self]
        · rwa [update_of_ne isHere]
    few := tidy.few }

theorem Tidy.weaken {more : Nat} (atMost : n ≤ more) : Tidy g dir roles taken more s :=
  { tidy with few := tidy.few.trans atMost }

theorem Tidy.joined (known : roles block ≠ .free) :
    Tidy g dir roles taken (n + 1) (s.joined block) where
  ledger := { tidy.ledger with
    used := by
      rintro other (pinned | joined)
      · exact tidy.ledger.used (.inl pinned)
      · unfold Shadow.joined at joined
        split at joined
        · exact tidy.ledger.used (.inr joined)
        · rcases List.mem_append.mp joined with earlier | isHere
          · exact tidy.ledger.used (.inr earlier)
          · exact .inl (List.mem_singleton.mp isHere ▸ known)
    loose := fun isLoose => tidy.ledger.loose isLoose.1 }
  bs := tidy.bs
  isDir := tidy.isDir
  pinned := tidy.pinned
  tight := fun isLoose isKnown => tidy.tight isLoose.1 isKnown
  nodes := tidy.nodes
  few := by
    have few := tidy.few
    unfold Shadow.joined
    dsimp only
    split
    · omega
    · rw [List.length_append, List.length_singleton]
      omega

end Tidy

end CaraOS.Carafs
