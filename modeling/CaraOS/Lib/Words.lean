import Mathlib.Data.List.Basic
import Mathlib.Data.List.TakeWhile

namespace CaraOS.Words

/-!
# Words

The words of a list are its longest stretches without separators.  Cutting a
list at a place leaves its words as they are exactly if only separators are
cut off.
-/

open List

variable {α : Type} {p : α → Bool} {xs ys w : List α} {c : α}

/-- The stretches of a list between elements with `p`. -/
def words (p : α → Bool) (xs : List α) : List (List α) :=
  (xs.splitOnP p).filter fun w => !w.isEmpty

theorem words_nil : words p [] = [] :=
  rfl

theorem words_append_sep (isSep : p c = true) :
    words p (xs ++ c :: ys) = words p xs ++ words p ys := by
  unfold words
  rw [splitOnP_append_cons xs ys isSep, filter_append]

theorem words_cons_sep (isSep : p c = true) : words p (c :: ys) = words p ys := by
  rw [← nil_append (c :: ys), words_append_sep isSep, words_nil, nil_append]

theorem words_of_word (some : w ≠ []) (isWord : ∀ x ∈ w, p x = false) : words p w = [w] := by
  unfold words
  rw [splitOnP_eq_singleton isWord]
  refine filter_cons_of_pos ?_
  rw [isEmpty_eq_false_iff.mpr some]
  rfl

theorem words_of_seps (seps : ∀ x ∈ ys, p x = true) : words p ys = [] := by
  induction ys with
  | nil => rfl
  | cons c ys ih =>
    rw [words_cons_sep (seps c (mem_cons_self ..))]
    exact ih fun x listed =>
      seps x (mem_cons_of_mem _ listed)

theorem words_append_seps (seps : ∀ x ∈ ys, p x = true) : words p (xs ++ ys) = words p xs := by
  cases ys with
  | nil => rw [append_nil]
  | cons c ys =>
    have rest := words_of_seps fun x listed =>
      seps x (mem_cons_of_mem c listed)
    rw [words_append_sep (seps c (mem_cons_self ..)), rest, append_nil]

theorem words_seps_append (seps : ∀ x ∈ xs, p x = true) : words p (xs ++ ys) = words p ys := by
  induction xs with
  | nil => rfl
  | cons c xs ih =>
    rw [cons_append, words_cons_sep (seps c (mem_cons_self ..))]
    exact ih fun x listed =>
      seps x (mem_cons_of_mem _ listed)

theorem words_dropWhile (xs : List α) : words p (xs.dropWhile p) = words p xs := by
  induction xs with
  | nil => rfl
  | cons c xs ih =>
    by_cases isSep : p c = true
    · rwa [dropWhile_cons_of_pos isSep, words_cons_sep isSep]
    · rw [dropWhile_cons_of_neg isSep]

theorem words_of_append (some : w ≠ []) (isWord : ∀ x ∈ w, p x = false)
    (ended : ∀ c ∈ ys.head?, p c = true) : words p (w ++ ys) = w :: words p ys := by
  cases ys with
  | nil =>
    rw [append_nil, words_of_word some isWord]
    rfl
  | cons c ys =>
    have isSep := ended c rfl
    rw [words_append_sep isSep, words_of_word some isWord, words_cons_sep isSep]
    rfl

theorem exists_first_word (p : α → Bool) (xs : List α) :
    (∀ x ∈ xs, p x = true) ∨
      ∃ seps w rest, xs = seps ++ (w ++ rest) ∧ (∀ x ∈ seps, p x = true) ∧
        w ≠ [] ∧ (∀ x ∈ w, p x = false) ∧ ∀ c ∈ rest.head?, p c = true := by
  have parts := takeWhile_append_dropWhile (p := p) (l := xs)
  have seps (x : α) (listed : x ∈ xs.takeWhile p) : p x = true := mem_takeWhile_imp listed
  cases isRest : xs.dropWhile p with
  | nil =>
    rw [isRest, append_nil] at parts
    rw [parts] at seps
    exact .inl seps
  | cons c others =>
    have isWord : p c = false := by
      have stopped := List.head?_dropWhile_not p xs
      rwa [isRest] at stopped
    refine .inr ⟨xs.takeWhile p, (c :: others).takeWhile fun x => !p x,
      (c :: others).dropWhile fun x => !p x, ?_, seps, ?_, ?_, ?_⟩
    · rw [takeWhile_append_dropWhile, ← isRest, parts]
    · rw [takeWhile_cons_of_pos (by simp [isWord])]
      exact cons_ne_nil _ _
    · intro x listed
      simpa using mem_takeWhile_imp listed
    · intro x isHead
      have stopped := List.head?_dropWhile_not (fun x => !p x) (c :: others)
      rw [Option.mem_def.mp isHead] at stopped
      simpa using stopped

section While

variable {q : α → Bool}

theorem dropWhile_takeWhile (imp : ∀ x, p x = true → q x = true) (xs : List α) :
    (xs.takeWhile q).dropWhile p = (xs.dropWhile p).takeWhile q := by
  induction xs with
  | nil => rfl
  | cons c xs ih =>
    by_cases isP : p c = true
    · rw [takeWhile_cons_of_pos (imp c isP), dropWhile_cons_of_pos isP, dropWhile_cons_of_pos isP]
      exact ih
    · rw [dropWhile_cons_of_neg isP]
      by_cases isQ : q c = true
      · rw [takeWhile_cons_of_pos isQ, dropWhile_cons_of_neg isP]
      · rw [takeWhile_cons_of_neg isQ]
        rfl

theorem takeWhile_of_takeWhile (imp : ∀ x, p x = true → q x = true) (xs : List α) :
    (xs.takeWhile q).takeWhile p = xs.takeWhile p := by
  induction xs with
  | nil => rfl
  | cons c xs ih =>
    by_cases isP : p c = true
    · rw [takeWhile_cons_of_pos (imp c isP), takeWhile_cons_of_pos isP, takeWhile_cons_of_pos isP,
        ih]
    · rw [takeWhile_cons_of_neg isP]
      by_cases isQ : q c = true
      · rw [takeWhile_cons_of_pos isQ, takeWhile_cons_of_neg isP]
      · rw [takeWhile_cons_of_neg isQ]
        rfl

end While

theorem flatten_words (xs : List α) : (words p xs).flatten = xs.filter fun x => !p x := by
  unfold words
  rw [flatten_filter_not_isEmpty]
  induction xs with
  | nil => rfl
  | cons c xs ih =>
    rw [splitOnP_cons_eq_if_modifyHead]
    by_cases isSep : p c = true
    · rw [if_pos isSep, flatten_cons, nil_append, ih, filter_cons_of_neg (by simp [isSep])]
    · rw [if_neg isSep, filter_cons_of_pos (by simp [isSep]), ← ih]
      cases split : xs.splitOnP p with
      | nil => exact absurd split (splitOnP_ne_nil p xs)
      | cons first rest => rfl

theorem length_le_of_mem_words (listed : w ∈ words p xs) : w.length ≤ xs.length := by
  have inside := (sublist_flatten_of_mem listed).length_le
  rw [flatten_words] at inside
  exact inside.trans (length_filter_le ..)

theorem seps_of_words_take {k n : Nat} (same : (words p (xs.take k)).take n = words p xs) :
    ∀ x ∈ xs.drop k, p x = true := by
  have most : (words p xs).flatten.length ≤ (words p (xs.take k)).flatten.length := by
    rw [← same]
    conv_rhs => rw [← take_append_drop n (words p (xs.take k))]
    rw [flatten_append, length_append]
    exact Nat.le_add_right ..
  have whole := congrArg List.length (congrArg (List.filter fun x => !p x) (take_append_drop k xs))
  rw [filter_append, length_append] at whole
  rw [flatten_words, flatten_words] at most
  have none := length_eq_zero_iff.mp (show ((xs.drop k).filter fun x => !p x).length = 0 by omega)
  intro x listed
  simpa using filter_eq_nil_iff.mp none x listed

theorem words_take_of_seps {k : Nat} (seps : ∀ x ∈ xs.drop k, p x = true) :
    words p (xs.take k) = words p xs := by
  rw [← words_append_seps seps, take_append_drop]

end CaraOS.Words
