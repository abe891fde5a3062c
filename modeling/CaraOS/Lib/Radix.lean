import Mathlib.Logic.Function.Basic
import Mathlib.Tactic.Common

namespace CaraOS.Radix

/-!
# Tables that lead to tables

A table has an entry for each index, and an entry may lead to a further table.
A path is a list of indexes.  Following a path from a root reads one entry in
each table on the way, and what the path shows is decided by the entries read.

Where every table is reached by one path only, a change of one entry concerns
only the paths that begin with the path of that entry.
-/

open List

variable {α ι ε β : Type}

/-- The table at the end of a path. -/
def walk (child : ε → Option α) (tables : α → ι → ε) :
    α → List ι → Option α
  | table, [] => some table
  | table, i :: path =>
    match child (tables table i) with
    | some below => walk child tables below path
    | none => none

/--
What a path shows: the last entry, or the first that leads to no table.  The
answer may depend on the indexes that were not used.
-/
def resolve (child : ε → Option α) (answer : List ι → ε → Option β) (tables : α → ι → ε) :
    α → List ι → Option β
  | _, [] => none
  | table, [i] => answer [] (tables table i)
  | table, i :: j :: path =>
    match child (tables table i) with
    | some below => resolve child answer tables below (j :: path)
    | none => answer (j :: path) (tables table i)

/-- Every table within a depth is reached by one path only. -/
def IsTree (child : ε → Option α) (tables : α → ι → ε) (root : α) (depth : Nat) : Prop :=
  ∀ p q table, p.length ≤ depth → q.length ≤ depth → walk child tables root p = some table →
      walk child tables root q = some table → p = q

/-- At most the entry at the end of a path differs. -/
def SameBut (child : ε → Option α) (tables changed : α → ι → ε) (root : α) (depth : Nat)
    (slot : List ι) : Prop :=
  ∀ p i table, p.length ≤ depth → walk child tables root p = some table →
    p ++ [i] ≠ slot → changed table i = tables table i

section Paths

variable {child : ε → Option α} {answer : List ι → ε → Option β} {tables changed : α → ι → ε}

theorem walk_append (table : α) (p q : List ι) :
    walk child tables table (p ++ q) =
      (walk child tables table p).bind fun below =>
        walk child tables below q := by
  induction p generalizing table with
  | nil => rfl
  | cons i p ih =>
    simp only [List.cons_append, walk]
    cases child (tables table i) with
    | none => rfl
    | some below => exact ih below

theorem resolve_append {table below : α} {p : List ι}
    (i : ι) (q : List ι) (reached : walk child tables table p = some below) :
    resolve child answer tables table (p ++ i :: q) =
      resolve child answer tables below (i :: q) := by
  induction p generalizing table with
  | nil =>
    cases reached
    rfl
  | cons j p ih =>
    simp only [walk] at reached
    cases isChild : child (tables table j) with
    | none =>
      rw [isChild] at reached
      nomatch reached
    | some next =>
      rw [isChild] at reached
      have rest := ih reached
      cases p with
      | nil =>
        simp only [List.nil_append, List.cons_append, resolve, isChild]
          at rest ⊢
        exact rest
      | cons k p =>
        simp only [List.cons_append, resolve, isChild] at rest ⊢
        exact rest

theorem resolve_map {γ : Type} {other : List ι → ε → Option γ} {table : α} {q : List ι}
    (f : β → γ)
    (same : ∀ left entry, other left entry = (answer left entry).map f) :
    resolve child other tables table q = (resolve child answer tables table q).map f := by
  fun_induction resolve child answer tables table q with
  | case1 => rfl
  | case2 table i => exact same [] _
  | case3 table i j path below isChild ih => simpa only [resolve, isChild] using ih
  | case4 table i j path isChild => simpa only [resolve, isChild] using same _ _

theorem walk_congr {table : α} {q : List ι}
    (same : ∀ p i t, p ++ [i] <+: q → walk child tables table p = some t →
        changed t i = tables t i) : walk child changed table q = walk child tables table q := by
  induction q generalizing table with
  | nil => rfl
  | cons j q ih =>
    have first : changed table j = tables table j := same [] j table ⟨q, rfl⟩ rfl
    simp only [walk, first]
    cases isChild : child (tables table j) with
    | none => rfl
    | some below =>
      refine ih fun p i t within reached => ?_
      refine same (j :: p) i t ?_ ?_
      · exact List.cons_prefix_cons.mpr ⟨rfl, within⟩
      · simp only [walk, isChild]
        exact reached

theorem resolve_congr {table : α} {q : List ι}
    (same : ∀ p i t, p ++ [i] <+: q → walk child tables table p = some t →
        changed t i = tables t i) :
    resolve child answer changed table q =
      resolve child answer tables table q := by
  induction q generalizing table with
  | nil => rfl
  | cons j q ih =>
    have first : changed table j = tables table j := same [] j table ⟨q, rfl⟩ rfl
    cases q with
    | nil => simp only [resolve, first]
    | cons k q =>
      simp only [resolve, first]
      cases isChild : child (tables table j) with
      | none => rfl
      | some below =>
        refine ih fun p i t within reached => ?_
        refine same (j :: p) i t ?_ ?_
        · exact List.cons_prefix_cons.mpr ⟨rfl, within⟩
        · simp only [walk, isChild]
          exact reached

/-- What leads to no table and shows nothing hides the rest of a path. -/
theorem resolve_eq_none {table below : α} {p q : List ι} {i : ι}
    (reached : walk child tables table p = some below)
    (within : p ++ [i] <+: q)
    (noChild : child (tables below i) = none)
    (nothing : ∀ rest, answer rest (tables below i) = none) :
    resolve child answer tables table q = none := by
  obtain ⟨rest, rfl⟩ := within
  rw [append_assoc, singleton_append, resolve_append i rest reached]
  cases rest with
  | nil => exact nothing []
  | cons j rest => simp only [resolve, noChild, nothing]

/--
A new table shows nothing: the paths through it ended at an entry that showed
nothing before.
-/
theorem resolve_link {root : α} {q : List ι}
    (table page : α)
    (i : ι)
    (others : ∀ p j t, p ++ [j] <+: q → walk child tables root p = some t →
      ¬ (t = table ∧ j = i) → changed t j = tables t j)
    (noChild : child (tables table i) = none)
    (nothing : ∀ rest, answer rest (tables table i) = none)
    (linked : child (changed table i) = some page)
    (blank : ∀ j, child (changed page j) = none)
    (blankShows : ∀ j rest, answer rest (changed page j) = none)
    (notLast : ∀ p, q = p ++ [i] → walk child tables root p = some table →
      answer [] (changed table i) = none) :
    resolve child answer changed root q = resolve child answer tables root q := by
  induction q generalizing root with
  | nil => rfl
  | cons j q ih =>
    by_cases here : root = table ∧ j = i
    · obtain ⟨rfl, rfl⟩ := here
      cases q with
      | nil =>
        simp only [resolve, nothing]
        exact notLast [] rfl rfl
      | cons k q =>
        simp only [resolve, linked, noChild, nothing]
        cases q with
        | nil => simp only [resolve, blankShows]
        | cons l q => simp only [resolve, blank, blankShows]
    · have first := others [] j root ⟨q, rfl⟩ rfl here
      cases q with
      | nil => simp only [resolve, first]
      | cons k q =>
        simp only [resolve, first]
        cases isChild : child (tables root j) with
        | none => rfl
        | some below =>
          have further {p : List ι} {t : α} (reached : walk child tables below p = some t) :
              walk child tables root (j :: p) = some t := by
            simp only [walk, isChild, reached]
          refine ih (fun p l t within reached => ?_) fun p isPath reached => ?_
          · exact others (j :: p) l t (cons_prefix_cons.mpr ⟨rfl, within⟩) (further reached)
          · exact notLast (j :: p) (by rw [isPath]; rfl) (further reached)

end Paths

/-! ## Changing one entry -/

section Change

variable {child : ε → Option α} {answer : List ι → ε → Option β}
  {tables changed : α → ι → ε} {root : α} {depth : Nat} {slot q : List ι}

section

variable (but : SameBut child tables changed root depth slot)
include but

section

variable (short : q.length ≤ depth + 1)
include short

theorem SameBut.along (apart : ¬ slot <+: q) (p : List ι) (i : ι)
    (table : α) (within : p ++ [i] <+: q)
    (reached : walk child tables root p = some table) : changed table i = tables table i := by
  have bound := within.length_le
  rw [length_append, length_singleton] at bound
  refine but p i table (by omega) reached ?_
  rintro rfl
  exact apart within

theorem SameBut.walk_eq (apart : ¬ slot <+: q) :
    walk child changed root q = walk child tables root q :=
  walk_congr (but.along short apart)

theorem SameBut.resolve_eq (apart : ¬ slot <+: q) :
    resolve child answer changed root q =
      resolve child answer tables root q :=
  resolve_congr (but.along short apart)

end

end

theorem IsTree.sameBut [DecidableEq α] [DecidableEq ι] {p : List ι} {table : α} {i : ι} {entry : ε}
    (tree : IsTree child tables root depth) (short : p.length ≤ depth)
    (reached : walk child tables root p = some table) :
    SameBut child tables
      (Function.update tables table (Function.update (tables table) i entry))
      root depth (p ++ [i]) := by
  intro q j other shortQ reachedQ different
  by_cases isTable : other = table
  · subst isTable
    obtain rfl := tree q p other shortQ short reachedQ reached
    rw [Function.update_self, Function.update_of_ne]
    rintro rfl
    exact different rfl
  · rw [Function.update_of_ne isTable]

theorem SameBut.isTree (but : SameBut child tables changed root depth slot)
    (deep : depth < slot.length) (tree : IsTree child tables root depth) :
    IsTree child changed root depth := by
  have apart {q : List ι} (short : q.length ≤ depth) : ¬ slot <+: q :=
    fun within => by
      have := within.length_le
      omega
  intro p q table shortP shortQ reachedP reachedQ
  rw [but.walk_eq (by omega) (apart shortP)] at reachedP
  rw [but.walk_eq (by omega) (apart shortQ)] at reachedQ
  exact tree p q table shortP shortQ reachedP reachedQ

section Link

variable {p : List ι} {i : ι} {table page : α}

variable (but : SameBut child tables changed root depth (p ++ [i]))
include but

theorem SameBut.walk_link {target : α} (short : q.length ≤ depth + 1)
    (reached : walk child changed root p = some table)
    (linked : child (changed table i) = some page) (blank : ∀ j, child (changed page j) = none)
    (reachedQ : walk child changed root q = some target) :
    (q = p ++ [i] ∧ target = page) ∨
      walk child tables root q = some target := by
  by_cases within : p ++ [i] <+: q
  · obtain ⟨rest, rfl⟩ := within
    have atPage : walk child changed root (p ++ [i]) = some page := by
      rw [walk_append, reached]
      simp only [Option.bind_some, walk, linked]
    rw [walk_append, atPage, Option.bind_some] at reachedQ
    cases rest with
    | nil =>
      cases reachedQ
      exact .inl ⟨append_nil _, rfl⟩
    | cons j rest =>
      simp only [walk, blank] at reachedQ
      nomatch reachedQ
  · rw [but.walk_eq short within] at reachedQ
    exact .inr reachedQ

theorem SameBut.isTree_link (tree : IsTree child tables root depth)
    (reached : walk child changed root p = some table)
    (linked : child (changed table i) = some page) (blank : ∀ j, child (changed page j) = none)
    (fresh : ∀ q, q.length ≤ depth → walk child tables root q ≠ some page) :
    IsTree child changed root depth := by
  intro q r target shortQ shortR reachedQ reachedR
  rcases but.walk_link (by omega) reached linked blank reachedQ with
    ⟨rfl, rfl⟩ | before <;>
  rcases but.walk_link (by omega) reached linked blank reachedR with
    ⟨rfl, isPage⟩ | beforeR
  · rfl
  · exact absurd beforeR (fresh r shortR)
  · subst isPage
    exact absurd before (fresh q shortQ)
  · exact tree q r target shortQ shortR before beforeR

end Link

end Change

end CaraOS.Radix
