import Mathlib.Data.List.Induction
import Mathlib.Data.List.Nodup
import Mathlib.Logic.Function.Basic
import Mathlib.Tactic.Tauto

namespace CaraOS.Intrusive

/-!
# Intrusive doubly linked lists

Lists threaded through nodes that live elsewhere.  A list header doubles as
the two sentinels of its list: a node before the first whose successor is the
first, and a node after the last whose predecessor is the last.  The sentinels
share a word that is always null, which ends walks in both directions.

All lists and nodes are in one store of links, since an operation on a node
changes its neighbours without naming their list.
-/

open List
open Function (update update_apply update_of_ne update_self)

/-- What a link can point at. -/
inductive Ref (ν ι : Type) where
  | null
  | node (n : ν)
  | head (list : ι)
  | tail (list : ι)
  deriving DecidableEq

variable {ν ι : Type}

/-- The successor and predecessor words of all nodes and sentinels. -/
@[ext]
structure Links (ν ι : Type) where
  succ : Ref ν ι → Ref ν ι
  pred : Ref ν ι → Ref ν ι

/-- Every list is there and empty. -/
def Links.empty : Links ν ι where
  succ := fun
    | .head l => .tail l
    | _ => .null
  pred := fun
    | .tail l => .head l
    | _ => .null

/-- Before any list is set up, every word is null. -/
def Links.none : Links ν ι where
  succ := fun _ => .null
  pred := fun _ => .null

namespace Links

variable [DecidableEq ν] [DecidableEq ι]

def setSucc (L : Links ν ι) (at_ value : Ref ν ι) : Links ν ι :=
  { L with succ := update L.succ at_ value }

def setPred (L : Links ν ι) (at_ value : Ref ν ι) : Links ν ι :=
  { L with pred := update L.pred at_ value }

/-- Make a list empty. -/
def init (L : Links ν ι) (l : ι) : Links ν ι :=
  ((L.setSucc (.head l) (.tail l)).setSucc (.tail l) .null).setPred (.tail l) (.head l)

/-- The last link of an empty list is the sentinel before its first. -/
def isEmpty (L : Links ν ι) (l : ι) : Bool :=
  decide (L.pred (.tail l) = .head l)

/-- Link a node between a neighbour and the node before it. -/
def insertBefore (L : Links ν ι) (next : Ref ν ι) (n : ν) : Links ν ι :=
  let L := L.setPred (.node n) (L.pred next)
  let L := L.setSucc (.node n) next
  let L := L.setSucc (L.pred next) (.node n)
  L.setPred next (.node n)

/-- Link a node at the end of a list. -/
def addTail (L : Links ν ι) (l : ι) (n : ν) : Links ν ι :=
  let L := L.setSucc (.node n) (.tail l)
  let L := L.setPred (.node n) (L.pred (.tail l))
  let L := L.setSucc (L.pred (.tail l)) (.node n)
  L.setPred (.tail l) (.node n)

/-- Unlink a node from whatever list it is on. -/
def remove (L : Links ν ι) (n : ν) : Links ν ι :=
  let L := L.setSucc (L.pred (.node n)) (L.succ (.node n))
  let L := L.setPred (L.succ (.node n)) (L.pred (.node n))
  let L := L.setSucc (.node n) .null
  L.setPred (.node n) .null

/-- The first node of a list, if any. -/
def first (L : Links ν ι) (l : ι) : Option ν :=
  if L.isEmpty l then
    Option.none
  else
    match L.succ (.head l) with
    | .node n => some n
    | _ => Option.none

/-- Unlink the first node of a list. -/
def remHead (L : Links ν ι) (l : ι) : Option (ν × Links ν ι) :=
  (L.first l).map fun n => (n, L.remove n)

/-- The nodes a walk visits, for a number of steps, until a null successor. -/
def walk (L : Links ν ι) : Nat → Ref ν ι → List ν
  | 0, _ => []
  | fuel + 1, at_ =>
    if L.succ at_ = .null then
      []
    else
      match at_ with
      | .node n => n :: L.walk fuel (L.succ at_)
      | _ => []

/-- The nodes of a list, seen by a walk of at most so many steps. -/
def nodes (L : Links ν ι) (l : ι) (fuel : Nat) : List ν :=
  L.walk fuel (L.succ (.head l))

/-- The nodes a walk against the links visits, until a null predecessor. -/
def walkBack (L : Links ν ι) : Nat → Ref ν ι → List ν
  | 0, _ => []
  | fuel + 1, at_ =>
    if L.pred at_ = .null then
      []
    else
      match at_ with
      | .node n => n :: L.walkBack fuel (L.pred at_)
      | _ => []

end Links

/-! ## What a list holds -/

/-- The links lead from one end over the nodes to the other, and back. -/
def Linked (L : Links ν ι) (first : Ref ν ι) : List ν → Ref ν ι → Prop
  | [], last => L.succ first = last ∧ L.pred last = first
  | n :: rest, last =>
    L.succ first = .node n ∧ L.pred (.node n) = first ∧
      Linked L (.node n) rest last

structure Holds (L : Links ν ι) (l : ι) (nodes : List ν) : Prop where
  linked : Linked L (.head l) nodes (.tail l)
  ending : L.succ (.tail l) = .null
  nodup : nodes.Nodup

theorem holds_empty (l : ι) : Holds (Links.empty : Links ν ι) l [] where
  linked := ⟨rfl, rfl⟩
  ending := rfl
  nodup := .nil

variable {query : Ref ν ι}

section Linked

variable {L M : Links ν ι} {a z : Ref ν ι} {xs ys : List ν} {n : ν}

theorem Linked.congr (linked : Linked L a xs z) (first : M.succ a = L.succ a)
    (last : M.pred z = L.pred z)
    (inner : ∀ n ∈ xs, M.succ (.node n) = L.succ (.node n) ∧ M.pred (.node n) = L.pred (.node n)) :
    Linked M a xs z := by
  induction xs generalizing a with
  | nil => exact ⟨first.trans linked.1, last.trans linked.2⟩
  | cons x xs ih =>
    obtain ⟨forward, backward, rest⟩ := linked
    obtain ⟨sameSucc, samePred⟩ := inner x (mem_cons_self ..)
    exact ⟨first.trans forward, samePred.trans backward, ih rest sameSucc fun n listed =>
        inner n (mem_cons_of_mem _ listed)⟩

/-- The node before the end of a chain. -/
def lastOf (a : Ref ν ι) : List ν → Ref ν ι
  | [] => a
  | n :: rest => lastOf (.node n) rest

theorem Linked.pred_last (linked : Linked L a xs z) : L.pred z = lastOf a xs := by
  induction xs generalizing a with
  | nil => exact linked.2
  | cons x xs ih => exact ih linked.2.2

theorem lastOf_cases (a : Ref ν ι) (xs : List ν) :
    (xs = [] ∧ lastOf a xs = a) ∨
      ∃ n ∈ xs, lastOf a xs = .node n := by
  induction xs generalizing a with
  | nil => exact .inl ⟨rfl, rfl⟩
  | cons x xs ih =>
    right
    rcases ih (.node x) with ⟨-, last⟩ | ⟨n, listed, last⟩
    · exact ⟨x, mem_cons_self .., last⟩
    · exact ⟨n, mem_cons_of_mem _ listed, last⟩

/-- The links lead over the nodes, whatever comes behind. -/
def Path (L : Links ν ι) (first : Ref ν ι) : List ν → Prop
  | [] => True
  | n :: rest => L.succ first = .node n ∧ L.pred (.node n) = first ∧ Path L (.node n) rest

theorem linked_append : Linked L a (xs ++ ys) z ↔ Path L a xs ∧ Linked L (lastOf a xs) ys z := by
  induction xs generalizing a with
  | nil => exact (and_iff_right trivial).symm
  | cons x xs ih =>
    show (_ ∧ _ ∧ Linked L (.node x) (xs ++ ys) z) ↔ (_ ∧ _ ∧ _) ∧ _
    rw [ih, and_assoc, and_assoc]
    rfl

theorem Linked.trans (toN : Linked L a xs (.node n)) (fromN : Linked L (.node n) ys z) :
    Linked L a (xs ++ n :: ys) z := by
  induction xs generalizing a with
  | nil => exact ⟨toN.1, toN.2, fromN⟩
  | cons x xs ih => exact ⟨toN.1, toN.2.1, ih toN.2.2⟩

theorem Path.congr (path : Path L a xs) (nodup : xs.Nodup) (startsElsewhere : ∀ m ∈ xs, a ≠ .node m)
    (succ : ∀ query, query = a ∨ (∃ m ∈ xs, query = .node m) →
        query ≠ lastOf a xs → M.succ query = L.succ query)
    (pred : ∀ m ∈ xs, M.pred (.node m) = L.pred (.node m)) : Path M a xs := by
  induction xs generalizing a with
  | nil => trivial
  | cons x xs ih =>
    obtain ⟨ahead, back, rest⟩ := path
    obtain ⟨fresh, restNodup⟩ := nodup_cons.mp nodup
    have inner : a ≠ lastOf (.node x) xs := by
      rcases lastOf_cases (.node x) xs with ⟨-, last⟩ | ⟨m, listed, last⟩
      · rw [last]
        exact startsElsewhere x (mem_cons_self ..)
      · rw [last]
        exact startsElsewhere m (mem_cons_of_mem _ listed)
    refine ⟨(succ a (.inl rfl) inner).trans ahead, (pred x (mem_cons_self ..)).trans back, ?_⟩
    refine ih rest restNodup ?_ ?_ ?_
    · rintro m listed same
      cases same
      exact fresh listed
    · rintro query (rfl | ⟨m, listed, rfl⟩) notLast
      · exact succ _ (.inr ⟨x, mem_cons_self .., rfl⟩) notLast
      · exact succ _ (.inr ⟨m, mem_cons_of_mem _ listed, rfl⟩) notLast
    · intro m listed
      exact pred m (mem_cons_of_mem _ listed)

/-- The node after the start of a chain. -/
def firstOf (xs : List ν) (z : Ref ν ι) : Ref ν ι :=
  match xs with
  | [] => z
  | n :: _ => .node n

theorem Linked.succ_first (linked : Linked L a xs z) : L.succ a = firstOf xs z := by
  cases xs with
  | nil => exact linked.1
  | cons x xs => exact linked.1

theorem Linked.pred_first (linked : Linked L a xs z) : L.pred (firstOf xs z) = a := by
  cases xs with
  | nil => exact linked.2
  | cons x xs => exact linked.2.1

theorem lastOf_concat (a : Ref ν ι) (xs : List ν) (n : ν) : lastOf a (xs ++ [n]) = .node n := by
  induction xs generalizing a with
  | nil => rfl
  | cons x xs ih => exact ih _

theorem lastOf_real (l : ι) (xs : List ν) :
    lastOf (.head l) xs = .head l ∨ ∃ n, lastOf (.head l) xs = .node n :=
  (lastOf_cases (.head l) xs).imp And.right fun ⟨n, _, last⟩ => ⟨n, last⟩

theorem firstOf_real (xs : List ν) (l : ι) :
    firstOf xs (.tail l) = .tail l ∨ ∃ n, firstOf xs (.tail l) = .node n := by
  cases xs with
  | nil => exact .inl rfl
  | cons x xs => exact .inr ⟨x, rfl⟩

theorem firstOf_ne {l : ι} (other : n ∉ xs) : firstOf xs (.tail l : Ref ν ι) ≠ .node n := by
  rintro same
  cases xs with
  | nil => cases same
  | cons x xs =>
    cases same
    exact other (mem_cons_self ..)

theorem lastOf_ne {l : ι} (apart : ∀ m ∈ xs, m ∉ ys)
    (later : query = .tail l ∨ ∃ m ∈ ys, query = .node m) : query ≠ lastOf (.head l) xs := by
  rcases lastOf_cases (.head l) xs with ⟨-, last⟩ | ⟨k, listed, last⟩
  · rw [last]
    rcases later with rfl | ⟨m, -, rfl⟩ <;> nofun
  · rw [last]
    rcases later with rfl | ⟨m, isLater, rfl⟩
    · nofun
    · rintro same
      cases same
      exact apart k listed isLater

theorem lastOf_ne_node {l : ι} (other : n ∉ xs) : .node n ≠ lastOf (.head l : Ref ν ι) xs := by
  refine lastOf_ne (fun m listed same => ?_) (.inr ⟨n, mem_singleton_self n, rfl⟩)
  exact other (mem_singleton.mp same ▸ listed)

/-- The sentinels and the nodes of a list. -/
def Mine (l : ι) (xs : List ν) (query : Ref ν ι) : Prop :=
  query = .head l ∨ query = .tail l ∨ ∃ m ∈ xs, query = .node m

theorem Mine.apart {l other : ι} (different : other ≠ l) (disjoint : ∀ m ∈ ys, m ∉ xs)
    (theirs : Mine other ys query) : ¬ Mine l xs query := by
  rintro (isHead | isTail | ⟨m, listed, isNode⟩)
  · rcases theirs with rfl | rfl | ⟨k, -, rfl⟩ <;> cases isHead
    exact different rfl
  · rcases theirs with rfl | rfl | ⟨k, -, rfl⟩ <;> cases isTail
    exact different rfl
  · rcases theirs with rfl | rfl | ⟨k, isOther, rfl⟩ <;> cases isNode
    exact disjoint m isOther listed

/-- Only links of the given places have changed. -/
def Within (places : Ref ν ι → Prop) (L M : Links ν ι) : Prop :=
  ∀ query, ¬ places query → M.succ query = L.succ query ∧ M.pred query = L.pred query

theorem Holds.frame {l : ι} {places : Ref ν ι → Prop}
    (holds : Holds L l xs) (within : Within places L M)
    (elsewhere : ∀ query, Mine l xs query → ¬ places query) : Holds M l xs where
  linked := by
    refine holds.linked.congr (within _ (elsewhere _ (.inl rfl))).1
      (within _ (elsewhere _ (.inr (.inl rfl)))).2 ?_
    intro n listed
    exact within _ (elsewhere _ (.inr (.inr ⟨n, listed, rfl⟩)))
  ending := (within _ (elsewhere _ (.inr (.inl rfl)))).1.trans holds.ending
  nodup := holds.nodup

theorem Holds.pred_split {l : ι} (holds : Holds L l (xs ++ ys)) :
    L.pred (firstOf ys (.tail l)) = lastOf (.head l) xs :=
  (linked_append.mp holds.linked).2.pred_first

/-- Only the links of a node and those between its neighbours differ. -/
structure Around (L M : Links ν ι) (n : ν) (before behind : Ref ν ι) : Prop where
  succ : ∀ query, query ≠ .node n → query ≠ before → M.succ query = L.succ query
  pred : ∀ query, query ≠ .node n → query ≠ behind → M.pred query = L.pred query

section Around

variable {l : ι} (around : Around L M n (lastOf (.head l) xs) (firstOf ys (.tail l)))
include around

/-- Other nodes can take the place of those between the neighbours. -/
theorem Around.holds {mid new : List ν} (holds : Holds L l (xs ++ (mid ++ ys)))
    (gone : n ∉ xs ++ ys) (nodup : (xs ++ (new ++ ys)).Nodup)
    (joined : Linked M (lastOf (.head l) xs) new (firstOf ys (.tail l))) :
    Holds M l (xs ++ (new ++ ys)) := by
  obtain ⟨path, rest⟩ := linked_append.mp holds.linked
  obtain ⟨xsNodup, restNodup, apart⟩ := nodup_append.mp nodup
  have notYs : ∀ m ∈ xs, m ∉ ys := fun m isBefore isLater =>
    apart m isBefore m (mem_append_right _ isLater) rfl
  have other {m : ν} (listed : m ∈ xs ++ ys) : (.node m : Ref ν ι) ≠ .node n := by
    rintro same
    cases same
    exact gone listed
  have earlier {m : ν} (listed : m ∈ xs) := other (mem_append_left ys listed)
  have later {m : ν} (listed : m ∈ ys) := other (mem_append_right xs listed)
  refine ⟨linked_append.mpr ⟨path.congr xsNodup nofun ?_ ?_, ?_⟩, ?_, nodup⟩
  · rintro query (rfl | ⟨m, listed, rfl⟩)
    · exact around.succ _ nofun
    · exact around.succ _ (earlier listed)
  · intro m listed
    exact around.pred _ (earlier listed) (firstOf_ne (notYs m listed)).symm
  · cases ys with
    | nil => rwa [append_nil]
    | cons y ys =>
      obtain ⟨-, -, behind⟩ := (linked_append.mp rest).2
      refine joined.trans (behind.congr ?_ ?_ ?_)
      · exact around.succ _ (later (mem_cons_self ..))
          (lastOf_ne notYs (.inr ⟨y, mem_cons_self .., rfl⟩))
      · exact around.pred _ nofun nofun
      · intro m listed
        have isLater := mem_cons_of_mem y listed
        refine ⟨around.succ _ (later isLater) (lastOf_ne notYs (.inr ⟨m, isLater, rfl⟩)),
          around.pred _ (later isLater) ?_⟩
        rintro same
        cases same
        exact (nodup_cons.mp (nodup_append.mp restNodup).2.1).1 listed
  · rw [around.succ (.tail l) nofun (lastOf_ne notYs (.inl rfl))]
    exact holds.ending

theorem Around.within {zs : List ν} (mine : ∀ m ∈ xs ++ ys, m ∈ zs) :
    Within (fun query => Mine l zs query ∨ query = .node n) L M := by
  intro query elsewhere
  rw [not_or] at elsewhere
  refine ⟨around.succ _ elsewhere.2 ?_, around.pred _ elsewhere.2 ?_⟩
  · rintro rfl
    refine elsewhere.1 ((lastOf_cases (.head l) xs).imp And.right ?_)
    exact fun ⟨m, listed, last⟩ => .inr ⟨m, mine m (mem_append_left _ listed), last⟩
  · rintro rfl
    cases ys with
    | nil => exact elsewhere.1 (.inr (.inl rfl))
    | cons y ys => exact elsewhere.1 (.inr (.inr ⟨y, mine y (by simp), rfl⟩))

end Around

end Linked

/-! ## The operations -/

variable {after : Links ν ι} {fuel : Nat} {next : Ref ν ι}

section Operations

variable [DecidableEq ν] [DecidableEq ι] {L : Links ν ι} {l other : ι} {xs ys : List ν} {n p : ν}

namespace Links

theorem succ_setSucc (L : Links ν ι) (at_ value query : Ref ν ι) :
    (L.setSucc at_ value).succ query =
      if query = at_ then value else L.succ query := by
  simp [setSucc, update_apply]

theorem pred_setPred (L : Links ν ι) (at_ value query : Ref ν ι) :
    (L.setPred at_ value).pred query =
      if query = at_ then value else L.pred query := by
  simp [setPred, update_apply]

@[simp] theorem pred_setSucc (L : Links ν ι) (at_ value query : Ref ν ι) :
    (L.setSucc at_ value).pred query = L.pred query :=
  rfl

@[simp] theorem succ_setPred (L : Links ν ι) (at_ value query : Ref ν ι) :
    (L.setPred at_ value).succ query = L.succ query :=
  rfl

end Links

theorem holds_init (L : Links ν ι) (l : ι) : Holds (L.init l) l [] where
  linked := by
    simp [Linked, Links.init, Links.succ_setSucc, Links.pred_setPred]
  ending := by simp [Links.init, Links.succ_setSucc]
  nodup := nodup_nil

theorem init_within (L : Links ν ι) (l : ι) : Within (Mine l []) L (L.init l) := by
  intro query elsewhere
  have notHead : query ≠ .head l := fun same => elsewhere (.inl same)
  have notTail : query ≠ .tail l := fun same => elsewhere (.inr (.inl same))
  simp [Links.init, Links.succ_setSucc, Links.pred_setPred, notHead, notTail]

theorem Holds.isEmpty_iff (holds : Holds L l xs) : L.isEmpty l = true ↔ xs = [] := by
  unfold Links.isEmpty
  rw [decide_eq_true_iff, holds.linked.pred_last]
  rcases lastOf_cases (.head l) xs with ⟨empty, last⟩ | ⟨n, listed, last⟩
  · rw [last]
    exact ⟨fun _ => empty, fun _ => rfl⟩
  · rw [last]
    exact ⟨nofun, fun empty => by
      rw [empty] at listed
      cases listed⟩

theorem Holds.first_eq (holds : Holds L l xs) : L.first l = xs.head? := by
  unfold Links.first
  cases xs with
  | nil => rw [if_pos (holds.isEmpty_iff.mpr rfl)]; rfl
  | cons x xs =>
    have notEmpty : ¬ L.isEmpty l = true := by
      rw [holds.isEmpty_iff]
      exact cons_ne_nil x xs
    rw [if_neg notEmpty, holds.linked.1]
    rfl

/-- The links of a node put before another one, or before the end. -/
structure Inserted (L : Links ν ι) (next : Ref ν ι) (n : ν)
    (after : Links ν ι) : Prop where
  succ : ∀ query, after.succ query =
      if query = L.pred next then .node n
      else if query = .node n then next
      else L.succ query
  pred : ∀ query, after.pred query =
      if query = next then .node n
      else if query = .node n then L.pred next
      else L.pred query

theorem inserted_insertBefore (new : next ≠ .node n) :
    Inserted L next n (L.insertBefore next n) := by
  unfold Links.insertBefore
  constructor
  · intro query
    simp only [Links.succ_setPred, Links.succ_setSucc, Links.pred_setSucc,
      Links.pred_setPred, new, if_false]
  · intro query
    simp only [Links.pred_setPred, Links.pred_setSucc]

theorem inserted_addTail : Inserted L (.tail l) n (L.addTail l n) := by
  unfold Links.addTail
  constructor
  · intro query
    simp [Links.succ_setPred, Links.succ_setSucc, Links.pred_setSucc, Links.pred_setPred]
  · intro query
    simp [Links.pred_setPred, Links.pred_setSucc]

/-- The links of a node that has been unlinked. -/
structure Removed (L : Links ν ι) (n : ν) (after : Links ν ι) : Prop where
  succ : ∀ query, after.succ query =
      if query = .node n then .null
      else if query = L.pred (.node n) then L.succ (.node n)
      else L.succ query
  pred : ∀ query, after.pred query =
      if query = .node n then .null
      else if query = L.succ (.node n) then L.pred (.node n)
      else L.pred query

theorem removed_remove (apart : L.pred (.node n) ≠ .node n) : Removed L n (L.remove n) := by
  unfold Links.remove
  constructor
  · intro query
    simp only [Links.succ_setPred, Links.succ_setSucc]
  · intro query
    simp only [Links.succ_setSucc, Links.pred_setSucc, Links.pred_setPred, apart.symm, if_false]

theorem Linked.walk_eq {a : Ref ν ι}
    (linked : Linked L a xs (.tail l)) (ending : L.succ (.tail l) = .null)
    (enough : xs.length ≤ fuel) : L.walk fuel (L.succ a) = xs := by
  induction xs generalizing a fuel with
  | nil =>
    rw [linked.1]
    cases fuel with
    | zero => rfl
    | succ fuel =>
      unfold Links.walk
      rw [if_pos ending]
  | cons x xs ih =>
    obtain ⟨forward, -, rest⟩ := linked
    cases fuel with
    | zero => cases enough
    | succ fuel =>
      have goesOn : L.succ (.node x) ≠ .null := by
        rw [rest.succ_first]
        cases xs <;> nofun
      rw [forward, Links.walk, if_neg goesOn]
      exact congrArg (x :: ·) (ih rest (Nat.le_of_succ_le_succ enough))

theorem Linked.walkBack_eq {z : Ref ν ι} (linked : Linked L (.head l) xs z)
    (ending : L.pred (.head l) = .null) (enough : xs.length ≤ fuel) :
    L.walkBack fuel (L.pred z) = xs.reverse := by
  induction xs using List.reverseRecOn generalizing z fuel with
  | nil =>
    rw [linked.2]
    cases fuel with
    | zero => rfl
    | succ fuel =>
      unfold Links.walkBack
      rw [if_pos ending]
      rfl
  | append_singleton xs x ih =>
    rw [length_append] at enough
    obtain ⟨path, isNext, isLast, -, toX⟩ := linked_append.mp linked
    have before : Linked L (.head l) xs (.node x) :=
      append_nil xs ▸ linked_append.mpr ⟨path, isNext, isLast⟩
    cases fuel with
    | zero => cases enough
    | succ fuel =>
      have goesOn : L.pred (.node x) ≠ .null := by
        rcases lastOf_real l xs with last | ⟨n, last⟩ <;> rw [isLast, last] <;> nofun
      rw [toX, Links.walkBack, if_neg goesOn, reverse_append]
      exact congrArg (x :: ·) (ih before (Nat.le_of_succ_le_succ enough))

theorem Holds.nodes_eq (holds : Holds L l xs) (enough : xs.length ≤ fuel) : L.nodes l fuel = xs :=
  holds.linked.walk_eq holds.ending enough

end Operations

/-! ## All lists of a store -/

/-- What every list of a store holds; no node is on two lists. -/
structure Family (L : Links ν ι) (q : ι → List ν) : Prop where
  holds : ∀ l, Holds L l (q l)
  apart : ∀ {l other n}, n ∈ q l → n ∈ q other → l = other

section Family

variable {L M : Links ν ι} {l other : ι} {q : ι → List ν} {xs ys : List ν} {n p : ν}

theorem Family.others (family : Family L q) (free : ∀ other, other ≠ l → n ∉ q other)
    (within : Within (fun query => Mine l (q l) query ∨ query = .node n) L M)
    (different : other ≠ l) : Holds M other (q other) := by
  refine (family.holds other).frame within ?_
  rintro query mine (theirs | rfl)
  · refine mine.apart different ?_ theirs
    intro m listed isListed
    exact different (family.apart listed isListed)
  · rcases mine with same | same | ⟨m, listed, same⟩
    · cases same
    · cases same
    · cases same
      exact free other different listed

variable [DecidableEq ι]

theorem Family.update (family : Family L q) (here : Holds M l xs)
    (elsewhere : ∀ other, other ≠ l → Holds M other (q other))
    (members : ∀ m ∈ xs, ∀ other, other ≠ l → m ∉ q other) : Family M (Function.update q l xs) where
  holds := by
    intro other
    by_cases same : other = l
    · subst same
      rwa [update_self]
    · rw [update_of_ne same]
      exact elsewhere other same
  apart := by
    intro first second m isFirst isSecond
    by_cases one : first = l
    · subst one
      rw [update_self] at isFirst
      by_contra different
      rw [update_of_ne (Ne.symm different)] at isSecond
      exact members m isFirst second (Ne.symm different) isSecond
    · rw [update_of_ne one] at isFirst
      by_cases two : second = l
      · subst two
        rw [update_self] at isSecond
        exact absurd isFirst (members m isSecond first one)
      · rw [update_of_ne two] at isSecond
        exact family.apart isFirst isSecond

section

variable (family : Family L q)
include family

theorem Family.around (mid new : List ν) (split : q l = xs ++ (mid ++ ys))
    (around : Around L M n (lastOf (.head l) xs) (firstOf ys (.tail l)))
    (free : ∀ other, other ≠ l → n ∉ q other) (gone : n ∉ xs ++ ys) (only : ∀ m ∈ new, m = n)
    (nodup : (xs ++ (new ++ ys)).Nodup)
    (joined : Linked M (lastOf (.head l) xs) new (firstOf ys (.tail l))) :
    Family M (Function.update q l (xs ++ (new ++ ys))) := by
  have mine : ∀ m ∈ xs ++ ys, m ∈ q l := by
    intro m
    rw [split]
    simp only [mem_append]
    tauto
  refine family.update (around.holds (split ▸ family.holds l) gone nodup joined) ?_ ?_
  · intro other different
    exact family.others free (around.within mine) different
  · intro m isMine other different isOther
    have cases : m ∈ new ∨ m ∈ xs ++ ys := by
      simp only [mem_append] at isMine ⊢
      tauto
    rcases cases with isNew | before
    · exact free other different (only m isNew ▸ isOther)
    · exact different (family.apart isOther (mine m before))

/-- The neighbours of the node come to lead to each other. -/
theorem Family.unlinked (split : q l = xs ++ n :: ys)
    (links : L.pred (.node n) ≠ .node n → L.succ (.node n) ≠ .node n →
      Around L M n (L.pred (.node n)) (L.succ (.node n)) ∧
        M.succ (L.pred (.node n)) = L.succ (.node n) ∧
        M.pred (L.succ (.node n)) = L.pred (.node n)) :
    Family M (Function.update q l (xs ++ ys)) := by
  have holds := family.holds l
  rw [split] at holds
  obtain ⟨gone, nodup⟩ := nodup_cons.mp (nodup_middle.mp holds.nodup)
  have isPred := holds.pred_split
  have isSucc := (linked_append.mp holds.linked).2.2.2.succ_first
  simp only [firstOf] at isPred
  rw [isPred, isSucc] at links
  have free (other : ι) (different : other ≠ l) : n ∉ q other := fun listed =>
    different (family.apart listed (by simp [split]))
  obtain ⟨notXs, notYs⟩ := not_or.mp fun listed => gone (mem_append.mpr listed)
  obtain ⟨around, joined⟩ := links (lastOf_ne_node notXs).symm (firstOf_ne notYs)
  exact family.around [n] [] split around free gone nofun nodup joined

variable [DecidableEq ν]

theorem Family.inserted (split : q l = xs ++ ys)
    (free : ∀ other, n ∉ q other) (inserted : Inserted L (firstOf ys (.tail l)) n M) :
    Family M (Function.update q l (xs ++ n :: ys)) := by
  have holds := family.holds l
  have new := free l
  rw [split] at holds new
  have before := holds.pred_split
  obtain ⟨notXs, notYs⟩ := not_or.mp fun listed => new (mem_append.mpr listed)
  refine family.around [] [n] split ⟨fun query notN notLast => ?_, fun query notN notNext => ?_⟩
    (fun other _ => free other) new (fun m => mem_singleton.mp)
    (nodup_middle.mpr (nodup_cons.mpr ⟨new, holds.nodup⟩)) ⟨?_, ?_, ?_, ?_⟩
  · rw [inserted.succ, before, if_neg notLast, if_neg notN]
  · rw [inserted.pred, if_neg notNext, if_neg notN]
  · rw [inserted.succ, if_pos before.symm]
  · rw [inserted.pred, if_neg (firstOf_ne notYs).symm, if_pos rfl, before]
  · rw [inserted.succ, before, if_neg (lastOf_ne_node notXs), if_pos rfl]
  · rw [inserted.pred, if_pos rfl]

theorem Family.addTail (free : ∀ other, n ∉ q other) :
    Family (L.addTail l n) (Function.update q l (q l ++ [n])) :=
  family.inserted (append_nil _).symm free inserted_addTail

theorem Family.insertBefore (split : q l = xs ++ p :: ys) (free : ∀ other, n ∉ q other) :
    Family (L.insertBefore (.node p) n)
      (Function.update q l (xs ++ n :: p :: ys)) := by
  refine family.inserted split free (inserted_insertBefore ?_)
  rintro same
  cases same
  exact free l (by simp [split])

/-- Link a node between two neighbours, its own links first. -/
theorem Family.between (split : q l = xs ++ ys) (free : ∀ other, n ∉ q other) :
    Family ((((L.setSucc (.node n) (firstOf ys (.tail l))).setPred (.node n)
      (lastOf (.head l) xs)).setPred (firstOf ys (.tail l)) (.node n)).setSucc
      (lastOf (.head l) xs) (.node n)) (Function.update q l (xs ++ n :: ys)) := by
  have holds := family.holds l
  rw [split] at holds
  refine family.inserted split free ⟨fun query => ?_, fun query => ?_⟩ <;>
  · rw [holds.pred_split]
    simp only [Links.succ_setSucc, Links.succ_setPred, Links.pred_setPred, Links.pred_setSucc]

theorem Family.remove (split : q l = xs ++ n :: ys) :
    Family (L.remove n) (Function.update q l (xs ++ ys)) := by
  refine family.unlinked split fun notPred notSucc => ?_
  have removed := removed_remove notPred
  refine ⟨⟨fun query notN notLast => ?_, fun query notN notFirst => ?_⟩, ?_, ?_⟩
  · rw [removed.succ, if_neg notN, if_neg notLast]
  · rw [removed.pred, if_neg notN, if_neg notFirst]
  · rw [removed.succ, if_neg notPred, if_pos rfl]
  · rw [removed.pred, if_neg notSucc, if_pos rfl]

/-- Unlinking need not clear the links of the node itself. -/
theorem Family.unlink (split : q l = xs ++ n :: ys) :
    Family ((L.setSucc (L.pred (.node n)) (L.succ (.node n))).setPred (L.succ (.node n))
      (L.pred (.node n))) (Function.update q l (xs ++ ys)) := by
  refine family.unlinked split fun _ _ =>
    ⟨⟨fun query notN notLast => ?_, fun query notN notFirst => ?_⟩, ?_, ?_⟩
  · simp [Links.succ_setSucc, notLast]
  · simp [Links.pred_setPred, notFirst]
  · simp [Links.succ_setSucc]
  · simp [Links.pred_setPred]

theorem Family.remHead_eq (l : ι) : L.remHead l = (q l).head?.map fun n => (n, L.remove n) := by
  rw [Links.remHead, (family.holds l).first_eq]

end

end Family

end CaraOS.Intrusive
