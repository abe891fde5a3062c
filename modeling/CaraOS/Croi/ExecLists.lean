import CaraOS.Lib.Intrusive
import Mathlib.Algebra.Order.Ring.Int
import Mathlib.Data.List.TakeWhile

namespace CaraOS.Exec

/-!
# The list calls of exec.library

`exec_lib/list_ops.c` on the words that hold the links of all lists.  The
three pointers of a `struct List` overlay two nodes: `lh_Tail` is `ln_Pred` of
the one before the first and `ln_Succ` of the one after the last.  An access
through a null pointer is `none`.
-/

open Intrusive List
open Function (update update_apply update_comm update_eq_self update_of_ne update_self)

/-- The pointers of nodes and headers. -/
inductive Word (ν ι : Type) where
  | lnSucc (node : ν)
  | lnPred (node : ν)
  | lhHead (list : ι)
  | lhTail (list : ι)
  | lhTailPred (list : ι)
  deriving DecidableEq

variable {ν ι : Type}

def lnSucc : Ref ν ι → Option (Word ν ι)
  | .null => none
  | .node n => some (.lnSucc n)
  | .head l => some (.lhHead l)
  | .tail l => some (.lhTail l)

def lnPred : Ref ν ι → Option (Word ν ι)
  | .null => none
  | .node n => some (.lnPred n)
  | .head l => some (.lhTail l)
  | .tail l => some (.lhTailPred l)

abbrev Store (ν ι : Type) := Word ν ι → Ref ν ι

namespace Store

def load (m : Store ν ι) (word : Option (Word ν ι)) : Option (Ref ν ι) :=
  word.map m

/-- The words as links of nodes and sentinels. -/
def links (m : Store ν ι) : Links ν ι where
  succ at_ := (m.load (lnSucc at_)).getD .null
  pred at_ := (m.load (lnPred at_)).getD .null

theorem load_succ {m : Store ν ι} {at_ : Ref ν ι} (real : at_ ≠ .null) :
    m.load (lnSucc at_) = some (m.links.succ at_) := by
  cases at_ with
  | null => exact absurd rfl real
  | _ => rfl

theorem firstOf_ne_null (ys : List ν) (l : ι) : firstOf ys (.tail l : Ref ν ι) ≠ .null := by
  rcases firstOf_real ys l with last | ⟨k, last⟩ <;> simp [last]

theorem linked_of {m : Store ν ι} {q : ι → List ν} {l : ι} {xs : List ν}
    (family : Family m.links q) (split : q l = xs) : Linked m.links (.head l) xs (.tail l) :=
  split ▸ (family.holds l).linked

variable [DecidableEq ν] [DecidableEq ι]

def write (m : Store ν ι) (word : Option (Word ν ι)) (value : Ref ν ι) : Option (Store ν ι) :=
  word.map fun word => update m word value

/-- `Croi_Exec_AddHead`. -/
def addHead (m : Store ν ι) (list : ι) (node : ν) : Option (Store ν ι) := do
  let head := m (.lhHead list)
  let m ← m.write (lnSucc (.node node)) head
  let m ← m.write (lnPred (.node node)) (.head list)
  let m ← m.write (lnPred head) (.node node)
  m.write (some (.lhHead list)) (.node node)

/-- `Croi_Exec_AddTail`. -/
def addTail (m : Store ν ι) (list : ι) (node : ν) : Option (Store ν ι) := do
  let tailpred := m (.lhTailPred list)
  let m ← m.write (lnSucc (.node node)) (.tail list)
  let m ← m.write (lnPred (.node node)) tailpred
  let m ← m.write (lnSucc tailpred) (.node node)
  m.write (some (.lhTailPred list)) (.node node)

/-- `Croi_Exec_Remove`. -/
def remove (m : Store ν ι) (node : ν) : Option (Store ν ι) := do
  let m ← m.write (lnSucc (m (.lnPred node))) (m (.lnSucc node))
  m.write (lnPred (m (.lnSucc node))) (m (.lnPred node))

/-- `Croi_Exec_RemHead`: the pointer returned, and the words after. -/
def remHead (m : Store ν ι) (list : ι) : Option (Ref ν ι × Store ν ι) := do
  let node := m (.lhHead list)
  let succ ← m.load (lnSucc node)
  if succ = .null then
    return (.null, m)
  let m ← m.write (some (.lhHead list)) succ
  return (node, ← m.write (lnPred succ) (.head list))

/-- `Croi_Exec_RemTail`. -/
def remTail (m : Store ν ι) (list : ι) : Option (Ref ν ι × Store ν ι) := do
  let node := m (.lhTailPred list)
  let pred ← m.load (lnPred node)
  if pred = .null then
    return (.null, m)
  let m ← m.write (some (.lhTailPred list)) pred
  return (node, ← m.write (lnSucc pred) (.tail list))

/-- The four stores that end `Croi_Exec_Insert` and `Croi_Exec_Enqueue`. -/
def between (m : Store ν ι) (node : ν) (pred succ : Ref ν ι) : Option (Store ν ι) := do
  let m ← m.write (lnPred (.node node)) pred
  let m ← m.write (lnSucc (.node node)) succ
  let m ← m.write (lnPred succ) (.node node)
  m.write (lnSucc pred) (.node node)

/-- `Croi_Exec_Insert`. -/
def insert (m : Store ν ι) (list : ι) (node : ν) (pred : Ref ν ι) : Option (Store ν ι) := do
  if pred ≠ .null then
    let succ ← m.load (lnSucc pred)
    if succ ≠ .null then
      return ← m.between node pred succ
  m.addHead list node

/--
The loop of `Croi_Exec_Enqueue`: the nodes to go between.  A sentinel has no
`ln_Pri`.
-/
def place (m : Store ν ι) (pri : ν → Int) (node : ν) : Nat → Ref ν ι → Option (Ref ν ι × Ref ν ι)
  | 0, _ => none
  | fuel + 1, cur => do
    let next ← m.load (lnSucc cur)
    if (← m.load (lnSucc next)) = .null then
      return (cur, next)
    match next with
    | .node n => if pri n < pri node then return (cur, next) else m.place pri node fuel next
    | _ => none

/-- `Croi_Exec_Enqueue`, for so many turns of its loop. -/
def enqueue (m : Store ν ι) (pri : ν → Int) (fuel : Nat) (list : ι) (node : ν) :
    Option (Store ν ι) := do
  let (cur, next) ← m.place pri node fuel (.head list)
  m.between node cur next

/-- The header of an empty list. -/
structure Initialised (m : Store ν ι) (list : ι) : Prop where
  head : m (.lhHead list) = .tail list
  tail : m (.lhTail list) = .null
  tailPred : m (.lhTailPred list) = .head list

/-- `for (n = lh_Head; n->ln_Succ; n = n->ln_Succ)`. -/
def forward (m : Store ν ι) (fuel : Nat) (list : ι) : List ν :=
  m.links.walk fuel (m (.lhHead list))

/-- `for (n = lh_TailPred; n->ln_Pred; n = n->ln_Pred)`. -/
def backward (m : Store ν ι) (fuel : Nat) (list : ι) : List ν :=
  m.links.walkBack fuel (m (.lhTailPred list))

/-! ## What a call does to the links -/

/-- The call returns, and the lists then are these. -/
def Gives (step : Option (Store ν ι)) (q : ι → List ν) : Prop :=
  ∃ after, step = some after ∧ Family after.links q

variable {m : Store ν ι} {l : ι} {n p : ν} {q : ι → List ν} {xs ys : List ν} {fuel : Nat}

/-- No neighbour is the sentinel that would share the null word. -/
theorem write_succ (m : Store ν ι) (value : Ref ν ι) {at_ : Ref ν ι}
    (real : at_ = .head l ∨ ∃ n, at_ = .node n) :
    ∃ after, m.write (lnSucc at_) value = some after ∧
      after.links = m.links.setSucc at_ value := by
  rcases real with rfl | ⟨n, rfl⟩ <;>
  · refine ⟨_, rfl, ?_⟩
    ext query <;> cases query <;> simp [links, load, lnSucc, lnPred, Links.setSucc, update_apply]

theorem write_pred (m : Store ν ι) (value : Ref ν ι) {at_ : Ref ν ι}
    (real : at_ = .tail l ∨ ∃ n, at_ = .node n) :
    ∃ after, m.write (lnPred at_) value = some after ∧
      after.links = m.links.setPred at_ value := by
  rcases real with rfl | ⟨n, rfl⟩ <;>
  · refine ⟨_, rfl, ?_⟩
    ext query <;> cases query <;> simp [links, load, lnSucc, lnPred, Links.setPred, update_apply]

/-- The loop stops behind the nodes of equal or higher priority it begins with. -/
theorem place_eq (pri : ν → Int) {cur : Ref ν ι} (linked : Linked m.links cur ys (.tail l))
    (ending : m.links.succ (.tail l) = .null) (real : cur ≠ .null) (enough : ys.length < fuel) :
    m.place pri n fuel cur = some (lastOf cur (ys.takeWhile (pri n ≤ pri ·)),
      firstOf (ys.dropWhile (pri n ≤ pri ·)) (.tail l)) := by
  induction ys generalizing cur fuel with
  | nil =>
    obtain ⟨fuel, rfl⟩ := Nat.exists_eq_add_one_of_ne_zero (Nat.ne_zero_of_lt enough)
    simp [place, load_succ, real, linked.1, ending, lastOf, firstOf]
  | cons y ys ih =>
    obtain ⟨fuel, rfl⟩ := Nat.exists_eq_add_one_of_ne_zero (Nat.ne_zero_of_lt enough)
    have rest := ih linked.2.2 (by simp) (Nat.lt_of_succ_lt_succ enough)
    by_cases lower : pri y < pri n
    · simp [place, load_succ, real, linked.1, linked.2.2.succ_first, lower, lastOf, firstOf]
    · simp [place, load_succ, real, linked.1, linked.2.2.succ_first, firstOf_ne_null, lower,
        Int.not_lt.mp lower, rest, lastOf]

section

variable (family : Family m.links q)
include family

theorem between_gives (split : q l = xs ++ ys) (free : ∀ other, n ∉ q other) :
    Gives (m.between n (lastOf (.head l) xs) (firstOf ys (.tail l)))
      (update q l (xs ++ n :: ys)) := by
  obtain ⟨m₁, wrote₁, links₁⟩ := m.write_pred (l := l) (lastOf (.head l) xs) (.inr ⟨n, rfl⟩)
  obtain ⟨m₂, wrote₂, links₂⟩ := m₁.write_succ (l := l) (firstOf ys (.tail l)) (.inr ⟨n, rfl⟩)
  obtain ⟨m₃, wrote₃, links₃⟩ := m₂.write_pred (.node n) (firstOf_real ys l)
  obtain ⟨m₄, wrote₄, links₄⟩ := m₃.write_succ (.node n) (lastOf_real l xs)
  refine ⟨m₄, by simp [between, wrote₁, wrote₂, wrote₃, wrote₄], ?_⟩
  rw [links₄, links₃, links₂, links₁]
  exact family.between split free

theorem addHead_gives (free : ∀ other, n ∉ q other) :
    Gives (m.addHead l n) (update q l (n :: q l)) := by
  have isFirst : m (.lhHead l) = firstOf (q l) (.tail l) := (family.holds l).linked.succ_first
  -- stores to different words may change places
  have same : m.addHead l n = m.between n (.head l) (m (.lhHead l)) := by
    simp [addHead, between, write, lnSucc, lnPred, update_comm]
  rw [same, isFirst]
  exact between_gives family (nil_append _).symm free

theorem addTail_gives (free : ∀ other, n ∉ q other) :
    Gives (m.addTail l n) (update q l (q l ++ [n])) := by
  have isLast : m (.lhTailPred l) = lastOf (.head l) (q l) := (family.holds l).linked.pred_last
  have same : m.addTail l n = m.between n (m (.lhTailPred l)) (.tail l) := by
    cases last : m (.lhTailPred l) <;>
      simp [addTail, between, write, lnSucc, lnPred, last, update_comm]
  rw [same, isLast]
  exact between_gives family (append_nil _).symm free

theorem insert_gives (split : q l = xs ++ p :: ys) (free : ∀ other, n ∉ q other) :
    Gives (m.insert l n (.node p)) (update q l (xs ++ p :: n :: ys)) := by
  have next := (linked_append.mp (linked_of family split)).2.2.2.succ_first
  obtain ⟨after, done, rest⟩ := between_gives family (split.trans (append_cons ..)) free
  rw [lastOf_concat] at done
  rw [← append_cons] at rest
  exact ⟨after, by simp [insert, load_succ, next, firstOf_ne_null, done], rest⟩

theorem remove_gives (split : q l = xs ++ n :: ys) :
    Gives (m.remove n) (update q l (xs ++ ys)) := by
  obtain ⟨-, -, pred, rest⟩ := linked_append.mp (linked_of family split)
  have isPred : m (.lnPred n) = lastOf (.head l) xs := pred
  have isSucc : m (.lnSucc n) = firstOf ys (.tail l) := rest.succ_first
  obtain ⟨m₁, wrote₁, links₁⟩ := m.write_succ (firstOf ys (.tail l)) (lastOf_real l xs)
  obtain ⟨m₂, wrote₂, links₂⟩ := m₁.write_pred (lastOf (.head l) xs) (firstOf_real ys l)
  have samePred : m₁ (.lnPred n) = lastOf (.head l) xs :=
    (congrArg (fun L => L.pred (.node n)) links₁).trans isPred
  have sameSucc : m₁ (.lnSucc n) = firstOf ys (.tail l) := by
    refine (congrArg (fun L => L.succ (.node n)) links₁).trans ?_
    rw [Links.succ_setSucc]
    exact ite_eq_left_iff.mpr fun _ => isSucc
  refine ⟨m₂, by simp [remove, isPred, isSucc, wrote₁, samePred, sameSucc, wrote₂], ?_⟩
  rw [links₂, links₁, ← isPred, ← isSucc]
  exact family.unlink split

theorem remHead_gives (l : ι) :
    ∃ after, m.remHead l = some ((q l).head?.elim .null .node, after) ∧
      Family after.links (update q l (q l).tail) := by
  cases split : q l with
  | nil =>
    have isFirst : m (.lhHead l) = .tail l := (linked_of family split).1
    have isNull : m (.lhTail l) = .null := (family.holds l).ending
    refine ⟨m, by simp [remHead, load, isFirst, lnSucc, isNull], ?_⟩
    rwa [tail_nil, ← split, update_eq_self]
  | cons x ys =>
    obtain ⟨head, pred, rest⟩ := linked_of family split
    have isNode : m (.lhHead l) = .node x := head
    have isPred : m (.lnPred x) = .head l := pred
    have isSucc : m (.lnSucc x) = firstOf ys (.tail l) := rest.succ_first
    obtain ⟨after, removed, rest⟩ := remove_gives family (split.trans (nil_append _).symm)
    refine ⟨after, ?_, rest⟩
    rw [head?_cons, Option.elim, ← Option.map_some (f := (Ref.node x, ·)), ← removed]
    rcases firstOf_real ys l with next | ⟨y, next⟩ <;>
      simp [remHead, remove, load, write, isNode, lnSucc, lnPred, isPred, isSucc, next]

theorem remTail_gives (l : ι) :
    ∃ after, m.remTail l = some ((q l).getLast?.elim .null .node, after) ∧
      Family after.links (update q l (q l).dropLast) := by
  rcases eq_nil_or_concat' (q l) with split | ⟨xs, x, split⟩
  · have isLast : m (.lhTailPred l) = .head l := (linked_of family split).2
    have isNull : m (.lhTail l) = .null := (family.holds l).ending
    refine ⟨m, by simp [split, remTail, load, isLast, lnPred, isNull], ?_⟩
    rwa [split, dropLast_nil, ← split, update_eq_self]
  · obtain ⟨-, -, pred, succ, tail⟩ := linked_append.mp (linked_of family split)
    have isNode : m (.lhTailPred l) = .node x := tail
    have isPred : m (.lnPred x) = lastOf (.head l) xs := pred
    have isSucc : m (.lnSucc x) = .tail l := succ
    obtain ⟨after, removed, rest⟩ := remove_gives family split
    refine ⟨after, ?_, by simpa [split] using rest⟩
    rw [split, getLast?_concat, Option.elim, ← Option.map_some (f := (Ref.node x, ·)), ← removed]
    have kept (word : Word ν ι) : update m word (.tail l) (.lnSucc x) = .tail l := by
      rw [update_apply, isSucc, ite_self]
    rcases lastOf_real l xs with last | ⟨y, last⟩ <;>
      simp [remTail, remove, load, write, isNode, lnPred, lnSucc, isPred, isSucc, last, kept,
        update_comm]

end

end Store

/-! ## What the calls do to the lists -/

section Calls

variable [DecidableEq ν] [DecidableEq ι]

/-- The calls, with the node to insert after or null. -/
inductive Call (ν ι : Type) where
  | addHead (list : ι) (node : ν)
  | addTail (list : ι) (node : ν)
  | insert (list : ι) (node : ν) (pred : Option ν)
  | remove (node : ν)
  | remHead (list : ι)
  | remTail (list : ι)
  | enqueue (list : ι) (node : ν)

def Call.exec (pri : ν → Int) (fuel : Nat) (m : Store ν ι) : Call ν ι → Option (Store ν ι)
  | addHead l n => m.addHead l n
  | addTail l n => m.addTail l n
  | insert l n pred => m.insert l n (pred.elim .null .node)
  | remove n => m.remove n
  | remHead l => (m.remHead l).map Prod.snd
  | remTail l => (m.remTail l).map Prod.snd
  | enqueue l n => m.enqueue pri fuel l n

def insertAfter (p n : ν) : List ν → List ν
  | [] => []
  | k :: rest => if k = p then k :: n :: rest else k :: insertAfter p n rest

def enqueued (pri : ν → Int) (n : ν) (xs : List ν) : List ν :=
  xs.takeWhile (pri n ≤ pri ·) ++ n :: xs.dropWhile (pri n ≤ pri ·)

/-- The operations on sequences. -/
def Call.onLists (pri : ν → Int) (q : ι → List ν) : Call ν ι → ι → List ν
  | addHead l n | insert l n none => update q l (n :: q l)
  | addTail l n => update q l (q l ++ [n])
  | insert l n (some p) => update q l (insertAfter p n (q l))
  | remove n => fun l => (q l).erase n
  | remHead l => update q l (q l).tail
  | remTail l => update q l (q l).dropLast
  | enqueue l n => update q l (enqueued pri n (q l))

/-- What is added is on no list; what is removed or inserted after is on the list. -/
def Call.Allowed (q : ι → List ν) : Call ν ι → Prop
  | addHead _ n | addTail _ n | enqueue _ n => ∀ l, n ∉ q l
  | insert l n pred => (∀ l, n ∉ q l) ∧ ∀ p ∈ pred, p ∈ q l
  | remove n => ∃ l, n ∈ q l
  | remHead _ | remTail _ => True

theorem insertAfter_split {p : ν} {xs : List ν} (n : ν) (listed : p ∈ xs) :
    ∃ before behind, xs = before ++ p :: behind ∧
      insertAfter p n xs = before ++ p :: n :: behind := by
  induction xs with
  | nil => cases listed
  | cons k rest ih =>
    by_cases same : k = p
    · subst same
      exact ⟨[], rest, rfl, if_pos rfl⟩
    · obtain ⟨before, behind, isRest, inserted⟩ :=
        ih ((mem_cons.mp listed).resolve_left (Ne.symm same))
      exact ⟨k :: before, behind, congrArg (k :: ·) isRest,
        (if_neg same).trans (congrArg (k :: ·) inserted)⟩

variable {m : Store ν ι} {q : ι → List ν} (pri : ν → Int)

/-- With enough turns for its loops the call returns, and the lists then are these. -/
def Yields (step : Nat → Option (Store ν ι)) (q : ι → List ν) : Prop :=
  ∃ after, (∃ enough, ∀ fuel, enough ≤ fuel → step fuel = some after) ∧ Family after.links q

theorem Call.exec_yields {call : Call ν ι} (family : Family m.links q) (allowed : call.Allowed q) :
    Yields (fun fuel => call.exec pri fuel m) (call.onLists pri q) := by
  have always {step : Option (Store ν ι)} {q : ι → List ν} (gives : Store.Gives step q) :
      Yields (fun _ => step) q :=
    gives.imp fun _ => And.imp_left fun done => ⟨0, fun _ _ => done⟩
  cases call with
  | addHead l n => exact always (Store.addHead_gives family allowed)
  | addTail l n => exact always (Store.addTail_gives family allowed)
  | insert l n pred =>
    obtain ⟨free, listed⟩ := allowed
    cases pred with
    | none => exact always (Store.addHead_gives family free)
    | some p =>
      obtain ⟨xs, ys, split, inserted⟩ := insertAfter_split n (listed p rfl)
      rw [onLists, inserted]
      exact always (Store.insert_gives family split free)
  | remove n =>
    obtain ⟨l, listed⟩ := allowed
    obtain ⟨xs, ys, -, split, erased⟩ := exists_erase_eq listed
    have lists : update q l (xs ++ ys) = fun l => (q l).erase n := by
      funext other
      by_cases same : other = l
      · rw [same, update_self, erased]
      · rw [update_of_ne same, erase_of_not_mem]
        exact fun isOther => same (family.apart isOther listed)
    rw [onLists, ← lists]
    exact always (Store.remove_gives family split)
  | remHead l =>
    obtain ⟨after, done, rest⟩ := Store.remHead_gives family l
    exact always ⟨after, congrArg (Option.map Prod.snd) done, rest⟩
  | remTail l =>
    obtain ⟨after, done, rest⟩ := Store.remTail_gives family l
    exact always ⟨after, congrArg (Option.map Prod.snd) done, rest⟩
  | enqueue l n =>
    have split := (takeWhile_append_dropWhile (p := (pri n ≤ pri ·)) (l := q l)).symm
    obtain ⟨after, done, rest⟩ := Store.between_gives family split allowed
    refine ⟨after, ⟨(q l).length + 1, fun fuel enough => ?_⟩, rest⟩
    have mine := family.holds l
    have placed := Store.place_eq (n := n) pri mine.linked mine.ending (by simp) enough
    simp only [exec, Store.enqueue, placed]
    exact done

def run (fuel : Nat) : List (Call ν ι) → Store ν ι → Option (Store ν ι)
  | [], m => some m
  | call :: calls, m => (call.exec pri fuel m).bind (run fuel calls)

def AllAllowed : List (Call ν ι) → (ι → List ν) → Prop
  | [], _ => True
  | call :: calls, q => call.Allowed q ∧ AllAllowed calls (call.onLists pri q)

theorem run_yields {calls : List (Call ν ι)} (family : Family m.links q)
    (allowed : AllAllowed pri calls q) :
    Yields (fun fuel => run pri fuel calls m) (calls.foldl (Call.onLists pri) q) := by
  induction calls generalizing m q with
  | nil => exact ⟨m, ⟨0, fun _ _ => rfl⟩, family⟩
  | cons call calls ih =>
    obtain ⟨mid, ⟨first, stepped⟩, midFamily⟩ := Call.exec_yields pri family allowed.1
    obtain ⟨after, ⟨enough, ran⟩, rest⟩ := ih midFamily allowed.2
    refine ⟨after, ⟨max first enough, fun fuel most => ?_⟩, rest⟩
    obtain ⟨forFirst, forRest⟩ := Nat.max_le.mp most
    exact (congrArg (Option.bind · _) (stepped fuel forFirst)).trans (ran fuel forRest)

/-- A higher priority comes first. -/
def Descending (xs : List ν) : Prop :=
  xs.Pairwise fun a b => pri b ≤ pri a

omit [DecidableEq ν]

variable {pri} {xs : List ν} (sorted : Descending pri xs) (n : ν)
include sorted

theorem lower_dropWhile : ∀ k ∈ xs.dropWhile (pri n ≤ pri ·), pri k < pri n := by
  induction xs with
  | nil => nofun
  | cons x xs ih =>
    obtain ⟨first, rest⟩ := pairwise_cons.mp sorted
    by_cases higher : pri n ≤ pri x
    · rw [dropWhile_cons_of_pos (by simpa using higher)]
      exact ih rest
    · rw [dropWhile_cons_of_neg (by simpa using higher)]
      intro k listed
      rcases mem_cons.mp listed with rfl | later
      · exact Int.not_le.mp higher
      · exact Int.lt_of_le_of_lt (first k later) (Int.not_le.mp higher)

/-- The node goes behind those of equal or higher priority. -/
theorem enqueued_spec : Descending pri (enqueued pri n xs) ∧
    ∃ before behind, xs = before ++ behind ∧ enqueued pri n xs = before ++ n :: behind ∧
      (∀ k ∈ before, pri n ≤ pri k) ∧ ∀ k ∈ behind, pri k < pri n := by
  have lower := lower_dropWhile sorted n
  have higher (k : ν) (listed : k ∈ xs.takeWhile (pri n ≤ pri ·)) : pri n ≤ pri k := by
    simpa using mem_takeWhile_imp listed
  have behind : Descending pri (n :: xs.dropWhile (pri n ≤ pri ·)) :=
    pairwise_cons.mpr ⟨fun k listed => (lower k listed).le, sorted.sublist (dropWhile_sublist _)⟩
  refine ⟨pairwise_append.mpr ⟨sorted.sublist (takeWhile_sublist _), behind, ?_⟩,
    _, _, takeWhile_append_dropWhile.symm, rfl, higher, lower⟩
  intro a isBefore b isBehind
  rcases mem_cons.mp isBehind with rfl | later
  · exact higher a isBefore
  · exact (lower b later).le.trans (higher a isBefore)

end Calls

/--
After any calls, a list reads as its sequence from both ends, its ends are what
the removing calls return, and a node that is enqueued goes behind the nodes
of its priority.
-/
theorem exec_lists_refine [DecidableEq ν] [DecidableEq ι] {m : Store ν ι} (pri : ν → Int)
    (ready : ∀ l, m.Initialised l) (calls : List (Call ν ι))
    (allowed : AllAllowed pri calls fun _ => []) :
    ∃ after, (∃ enough, ∀ fuel, enough ≤ fuel → run pri fuel calls m = some after) ∧
      ∀ l xs, xs = calls.foldl (Call.onLists pri) (fun _ => []) l →
        (∀ fuel, xs.length ≤ fuel →
          after.forward fuel l = xs ∧ after.backward fuel l = xs.reverse) ∧
        (∃ rest, after.remHead l = some (xs.head?.elim .null .node, rest)) ∧
        (∃ rest, after.remTail l = some (xs.getLast?.elim .null .node, rest)) ∧
        ∀ n, Descending pri xs → Descending pri (enqueued pri n xs) ∧
          ∃ before behind, xs = before ++ behind ∧ enqueued pri n xs = before ++ n :: behind ∧
            (∀ k ∈ before, pri n ≤ pri k) ∧ ∀ k ∈ behind, pri k < pri n := by
  have family : Family m.links (fun _ => []) :=
    ⟨fun l => ⟨⟨(ready l).head, (ready l).tailPred⟩, (ready l).tail, .nil⟩, nofun⟩
  obtain ⟨after, ran, rest⟩ := run_yields pri family allowed
  refine ⟨after, ran, ?_⟩
  rintro l xs rfl
  have mine := rest.holds l
  exact ⟨fun fuel enough => ⟨mine.nodes_eq enough, mine.linked.walkBack_eq mine.ending enough⟩,
    (Store.remHead_gives rest l).imp fun _ => And.left,
    (Store.remTail_gives rest l).imp fun _ => And.left, fun n sorted => enqueued_spec sorted n⟩

/-- Of three nodes of one list the first moves to another. -/
theorem exec_lists_refine_moves :
    ∃ after : Store Nat Bool, after.forward 2 true = [0, 2] ∧ after.backward 2 true = [2, 0] ∧
      after.forward 1 false = [1] := by
  obtain ⟨after, -, lists⟩ := exec_lists_refine (m := fun
      | .lhHead l => .tail l
      | .lhTailPred l => .head l
      | _ => .null) (fun _ => 0) (fun _ => ⟨rfl, rfl, rfl⟩)
    [.enqueue true 1, .enqueue true 2, .insert true 0 (some 1), .remove 1, .addHead false 1]
    (by simp [AllAllowed, Call.Allowed, Call.onLists, enqueued, insertAfter, update_apply])
  obtain ⟨one, two⟩ := (lists true [0, 2] rfl).1 2 (Nat.le_refl 2)
  exact ⟨after, one, two, ((lists false [1] rfl).1 1 (Nat.le_refl 1)).1⟩

end CaraOS.Exec
