import CaraOS.Lib.ByteMem
import CaraOS.Lib.Words

namespace CaraOS.Shell

/-!
# From a typed line to argv

A line typed at the Shell passes through four programs: the Shell splits it
into a command word and a tail, `RunCommand` puts the name the command was
loaded by and the tail into a buffer of its own, `Croi_SpawnUserProc` copies
that to the stack of the child, and `_start` cuts it into words in place.

Whether a name can be loaded is left to the environment.  Of a segment only
the name is read here; the image and its loading are another matter.
-/

open ByteMem Words List

/-- A `char`. -/
abbrev Byte : Type :=
  BitVec 8

/-! ## The Shell -/

/-- A space or a tab. -/
def isBlank (c : Byte) : Bool :=
  c == 0x20 || c == 0x09

/-- Where the Shell ends a line: NUL, newline or carriage return. -/
def isEol (c : Byte) : Bool :=
  c == 0 || c == 0x0A || c == 0x0D

def isWordByte (c : Byte) : Bool :=
  !isEol c && !isBlank c

/-- The command word and the tail that `main` of `shell.c` finds. -/
structure CommandLine where
  word : List Byte
  tail : List Byte
  deriving DecidableEq

/-- The four loops over `line`. -/
def splitLine (line : List Byte) : CommandLine :=
  let atWord := line.dropWhile isBlank
  let afterWord := atWord.dropWhile isWordByte
  { word := atWord.takeWhile isWordByte
    tail := (afterWord.dropWhile isBlank).takeWhile fun c => !isEol c }

/-- Copy to the end of `dst`, up to a stop or until there are `cap` bytes. -/
def copyUntil (stop : Byte → Bool) (cap : Nat) :
    List Byte → List Byte → List Byte
  | dst, [] => dst
  | dst, c :: src =>
    if dst.length < cap ∧ stop c = false then
      copyUntil stop cap (dst ++ [c]) src
    else
      dst

/-- `str_copy` of `loadseg.c`. -/
def strCopy (cap : Nat) (src : List Byte) : List Byte :=
  copyUntil (· == 0) (cap - 1) [] src

/-- `LoadSeg`: the `cs_Name` of the segment. -/
def loadSeg (loads : List Byte → Bool) (name : List Byte) : Option (List Byte) :=
  if loads name then some (strCopy 32 name) else none

def bytes (text : String) : List Byte :=
  text.toList.map fun c => BitVec.ofNat 8 c.toNat

/-- The words that end the Shell. -/
def leaveWords : List (List Byte) :=
  [bytes "quit", bytes "endcli", bytes "endshell"]

/-- What the Shell does with a line. -/
inductive Turn where
  | blank
  | leave
  | unknown (cmd : List Byte)
  | run (csName tail : List Byte)
  deriving DecidableEq

/-- One turn of the loop of `main`, `cmd` and `path` being arrays. -/
def shellTurn (loads : List Byte → Bool) (line : List Byte) : Turn :=
  let split := splitLine line
  if split.word = [] then
    .blank
  else
    let cmd := split.word.take 63
    if cmd ∈ leaveWords then
      .leave
    else
      match loadSeg loads cmd with
      | some csName => .run csName split.tail
      | none =>
        match loadSeg loads ((bytes "C/" ++ cmd).take 79) with
        | some csName => .run csName split.tail
        | none => .unknown cmd

/-! ## RunCommand and the new process -/

/-- The `cmd` that `Croi_Dos_RunCommand_Impl` builds. -/
def runCommand (csName tail : List Byte) : List Byte :=
  let cmd := copyUntil (· == 0) 159 [] csName
  if 0 < tail.length then
    let cmd := if cmd.length < 159 then cmd ++ [0x20] else cmd
    copyUntil (fun c => c == 0 || c == 0x0A) 159 cmd tail
  else
    cmd

def cmdlineMax : Nat :=
  256

/-- `cmd_uva`: below the top of the user stack. -/
def cmdUva : Nat :=
  (0x1100000000 + 0x4000) / 16 * 16 - cmdlineMax

/-- Put bytes into memory, one after the other. -/
def place (m : Mem) (a : Nat) : List Byte → Mem
  | [] => m
  | c :: rest => place (Function.update m a c) (a + 1) rest

/-- What `Croi_SpawnUserProc` leaves: memory, `user_a0` and `user_a1`. -/
def spawnUserProc (m : Mem) (cmdline : List Byte) : Mem × Nat × Nat :=
  if 0 < cmdline.length then
    let n :=
      if cmdline.length < cmdlineMax - 1 then cmdline.length
      else cmdlineMax - 1
    (Function.update (place m cmdUva (cmdline.take n)) (cmdUva + n) 0, cmdUva, n)
  else
    (m, 0, 0)

/-! ## The start of the child -/

/-- `while (s < end && ..) s++`, with `n` bytes left. -/
def skipWhile (q : Byte → Bool) (m : Mem) : Nat → Nat → Nat
  | 0, s => s
  | n + 1, s => if q (m s) then skipWhile q m n (s + 1) else s

/-- The loop of `_start`, with room for that many more words in `argv`. -/
def tokenise (e : Nat) : Nat → Mem → Nat → List Nat → Mem × List Nat
  | 0, m, _, argv => (m, argv)
  | room + 1, m, s, argv =>
    if s < e ∧ m s ≠ 0 then
      let s := skipWhile isBlank m (e - s) s
      if e ≤ s ∨ m s = 0 then
        (m, argv)
      else
        let argv := argv ++ [s]
        let s := skipWhile (fun c => c != 0 && !isBlank c) m (e - s) s
        if s < e ∧ m s ≠ 0 then
          tokenise e room (Function.update m s 0) (s + 1) argv
        else
          tokenise e room m s argv
    else
      (m, argv)

def maxArgv : Nat :=
  32

/-- `_start` up to the call of `main`. -/
def startArgv (m : Mem) (cmdline cmdlen : Nat) : Mem × List Nat :=
  if cmdline ≠ 0 ∧ 0 < cmdlen then
    tokenise (cmdline + cmdlen) (maxArgv - 1) m cmdline []
  else
    (m, [])

/-- The C string at an address, if it is shorter than the bound. -/
def cString (m : Mem) : Nat → Nat → List Byte
  | 0, _ => []
  | n + 1, s => if m s = 0 then [] else m s :: cString m n (s + 1)

/-- The arguments that `main` of the child gets for a command line. -/
def mainArgs (m : Mem) (cmdline : List Byte) : List (List Byte) :=
  let (m, a0, a1) := spawnUserProc m cmdline
  let (m, argv) := startArgv m a0 a1
  argv.map (cString m cmdlineMax)

def lineWords (line : List Byte) : List (List Byte) :=
  words isBlank (line.takeWhile fun c => !isEol c)

/-! ## Copying -/

section Copy

variable {stop : Byte → Bool} {cap : Nat} {dst src : List Byte}

theorem copyUntil_eq (stop : Byte → Bool) (cap : Nat) (dst src : List Byte) :
    copyUntil stop cap dst src =
      dst ++ (src.takeWhile fun c => !stop c).take (cap - dst.length) := by
  induction src generalizing dst with
  | nil =>
    rw [copyUntil, takeWhile_nil, take_nil, append_nil]
  | cons c src ih =>
    unfold copyUntil
    by_cases room : dst.length < cap
    · cases isStop : stop c with
      | true =>
        rw [if_neg (by simp), takeWhile_cons_of_neg (by simp [isStop]), take_nil, append_nil]
      | false =>
        rw [if_pos ⟨room, rfl⟩, ih, takeWhile_cons_of_pos (by simp [isStop]), append_assoc,
          length_append, length_singleton,
          show cap - dst.length = cap - (dst.length + 1) + 1 by omega,
          take_succ_cons, singleton_append]
    · rw [if_neg fun both => room both.1, Nat.sub_eq_zero_of_le (Nat.le_of_not_lt room), take_zero,
        append_nil]

theorem copyUntil_clean (clean : ∀ c ∈ src, stop c = false) :
    copyUntil stop cap dst src = dst ++ src.take (cap - dst.length) := by
  have all : (src.takeWhile fun c => !stop c) = src := by
    rw [takeWhile_eq_self_iff]
    intro c listed
    rw [clean c listed]
    rfl
  rw [copyUntil_eq, all]

end Copy

/-- What the Shell hands on: a short name of one word, and one line. -/
structure Handed (csName tail : List Byte) : Prop where
  name_ne : csName ≠ []
  name_le : csName.length ≤ 31
  name_word : ∀ c ∈ csName, isWordByte c = true
  tail_line : ∀ c ∈ tail, isEol c = false

section Bytes

variable {c : Byte}

theorem isWordByte_iff : isWordByte c = true ↔ isEol c = false ∧ isBlank c = false := by
  unfold isWordByte
  rw [Bool.and_eq_true, Bool.not_eq_true', Bool.not_eq_true']

theorem ne_zero_of_not_eol (isText : isEol c = false) : c ≠ 0 := by
  rintro rfl
  exact absurd isText (by decide)

theorem not_eol_of_blank (blank : isBlank c = true) : isEol c = false := by
  unfold isBlank at blank
  rw [Bool.or_eq_true, beq_iff_eq, beq_iff_eq] at blank
  rcases blank with rfl | rfl <;> decide

end Bytes

section Run

variable {csName tail : List Byte}

section

variable (handed : Handed csName tail)
include handed

theorem runCommand_eq :
    runCommand csName tail =
      if tail = [] then csName
      else csName ++ 0x20 :: tail.take (158 - csName.length) := by
  have short := handed.name_le
  have name : copyUntil (· == 0) 159 [] csName = csName := by
    rw [copyUntil_clean, nil_append, take_of_length_le]
    · exact le_trans short (by decide)
    · intro c listed
      have isText := (isWordByte_iff.mp (handed.name_word c listed)).1
      exact beq_false_of_ne (ne_zero_of_not_eol isText)
  unfold runCommand
  rw [name]
  by_cases none : tail = []
  · rw [none]
    exact if_neg (Nat.lt_irrefl 0)
  · rw [if_neg none, if_pos (length_pos_iff.mpr none), if_pos (by omega),
      copyUntil_clean, length_append, length_singleton, append_assoc, singleton_append]
    · rw [show 159 - (csName.length + 1) = 158 - csName.length by omega]
    · intro c listed
      have isText := handed.tail_line c listed
      unfold isEol at isText
      rw [Bool.or_eq_false_iff, Bool.or_eq_false_iff] at isText
      rw [isText.1.1, isText.1.2]
      rfl

theorem words_runCommand :
    words isBlank (runCommand csName tail) =
      csName :: words isBlank (tail.take (158 - csName.length)) := by
  have name : words isBlank csName = [csName] :=
    words_of_word handed.name_ne fun c listed =>
      (isWordByte_iff.mp (handed.name_word c listed)).2
  rw [runCommand_eq handed]
  by_cases none : tail = []
  · rw [if_pos none, name, none, take_nil, words_nil]
  · rw [if_neg none, words_append_sep (by decide), name]
    rfl

theorem runCommand_clean :
    (runCommand csName tail).length ≤ 159 ∧
      runCommand csName tail ≠ [] ∧
      ∀ c ∈ runCommand csName tail, c ≠ 0 := by
  have short := handed.name_le
  have nameClean (c : Byte) (listed : c ∈ csName) : c ≠ 0 :=
    ne_zero_of_not_eol (isWordByte_iff.mp (handed.name_word c listed)).1
  rw [runCommand_eq handed]
  by_cases none : tail = []
  · rw [if_pos none]
    exact ⟨by omega, handed.name_ne, nameClean⟩
  · rw [if_neg none]
    refine ⟨?_, by simp, fun c listed => ?_⟩
    · rw [length_append, length_cons, length_take]
      omega
    · rcases mem_append.mp listed with inName | inRest
      · exact nameClean c inName
      · rcases mem_cons.mp inRest with rfl | inTail
        · decide
        · exact ne_zero_of_not_eol (handed.tail_line c (mem_of_mem_take inTail))

end

end Run

/-! ## Text in memory -/

/-- The memory has these bytes at `s`. -/
def Holds (m : Mem) : Nat → List Byte → Prop
  | _, [] => True
  | s, c :: rest => m s = c ∧ Holds m (s + 1) rest

/-- The memory has this C string at `s`. -/
structure IsString (m : Mem) (s : Nat) (w : List Byte) : Prop where
  holds : Holds m s w
  clean : ∀ c ∈ w, c ≠ 0
  ended : m (s + w.length) = 0

section Text

variable {m m' : Mem} {s : Nat} {xs ys text w : List Byte} {q : Byte → Bool}

theorem holds_append : Holds m s (xs ++ ys) ↔ Holds m s xs ∧ Holds m (s + xs.length) ys := by
  induction xs generalizing s with
  | nil => exact ⟨fun holds => ⟨trivial, holds⟩, And.right⟩
  | cons c xs ih =>
    have shift : s + 1 + xs.length = s + (c :: xs).length := by
      rw [length_cons]
      omega
    rw [cons_append, Holds, ih, Holds, and_assoc, shift]

theorem Holds.frame (holds : Holds m s xs) (same : ∀ a, s ≤ a → a < s + xs.length → m' a = m a) :
    Holds m' s xs := by
  induction xs generalizing s with
  | nil => trivial
  | cons c xs ih =>
    rw [length_cons] at same
    refine ⟨(same s (le_refl s) (by omega)).trans holds.1, ?_⟩
    exact ih holds.2 fun a low high =>
      same a (by omega) (by omega)

theorem IsString.frame (string : IsString m s w)
    (same : ∀ a, s ≤ a → a ≤ s + w.length → m' a = m a) : IsString m' s w :=
  ⟨string.holds.frame fun a low high => same a low high.le, string.clean,
    (same _ (Nat.le_add_right ..) le_rfl).trans string.ended⟩

theorem IsString.cString_eq {n : Nat} (string : IsString m s w) (short : w.length < n) :
    cString m n s = w := by
  induction w generalizing s n with
  | nil =>
    obtain ⟨n, rfl⟩ := Nat.exists_eq_succ_of_ne_zero (by omega : n ≠ 0)
    exact if_pos string.ended
  | cons c w ih =>
    obtain ⟨n, rfl⟩ := Nat.exists_eq_succ_of_ne_zero (by omega : n ≠ 0)
    obtain ⟨⟨isFirst, rest⟩, clean, ended⟩ := string
    rw [length_cons] at short ended
    have tail : IsString m (s + 1) w :=
      ⟨rest, fun c listed => clean c (mem_cons_of_mem _ listed), by
        rw [Nat.add_right_comm]
        exact ended⟩
    rw [cString, isFirst, if_neg (clean c (mem_cons_self ..)), ih tail (by omega)]

theorem place_other {a b : Nat} (outside : b < a ∨ a + xs.length ≤ b) : place m a xs b = m b := by
  induction xs generalizing m a with
  | nil => rfl
  | cons c xs ih =>
    rw [length_cons] at outside
    rw [place, ih (by omega), Function.update_of_ne (by omega)]

theorem holds_place (m : Mem) (a : Nat) (xs : List Byte) : Holds (place m a xs) a xs := by
  induction xs generalizing m a with
  | nil => trivial
  | cons c xs ih =>
    refine ⟨?_, ih _ _⟩
    rw [place, place_other (.inl (Nat.lt_succ_self a)), Function.update_self]

theorem skipWhile_eq (holds : Holds m s (xs ++ ys)) (matched : ∀ c ∈ xs, q c = true)
    (stop : ∀ c ∈ ys.head?, q c = false) : skipWhile q m (xs ++ ys).length s = s + xs.length := by
  induction xs generalizing s with
  | nil =>
    cases ys with
    | nil => rfl
    | cons c ys =>
      rw [nil_append, length_cons, skipWhile, holds.1]
      exact if_neg (by rw [stop c rfl]; decide)
  | cons c xs ih =>
    rw [cons_append, length_cons, skipWhile, holds.1, if_pos (matched c (mem_cons_self ..)),
      ih holds.2 fun x listed =>
        matched x (mem_cons_of_mem _ listed), length_cons]
    omega

end Text

/-! ## Cutting into words -/

section Tokenise

variable {m : Mem} {s room : Nat} {blanks w left text : List Byte} {argv : List Nat}

theorem tokenise_blank (holds : Holds m s text) (isText : ∀ c ∈ text, isBlank c = true) :
    tokenise (s + text.length) room m s argv = (m, argv) := by
  cases room with
  | zero => rfl
  | succ room =>
    rw [← append_nil text] at holds ⊢
    have skipped := skipWhile_eq holds isText nofun
    rw [tokenise]
    split
    · rw [Nat.add_sub_cancel_left, skipped, append_nil]
      exact if_pos (.inl le_rfl)
    · rfl

theorem tokenise_word (holds : Holds m s (blanks ++ (w ++ left)))
    (clean : ∀ c ∈ blanks ++ (w ++ left), c ≠ 0)
    (isBlanks : ∀ c ∈ blanks, isBlank c = true) (some : w ≠ [])
    (isWord : ∀ c ∈ w, isBlank c = false) (stop : ∀ c ∈ left.head?, isBlank c = true) :
    tokenise (s + (blanks ++ (w ++ left)).length) (room + 1) m s argv =
      let p := s + blanks.length
      let q := p + w.length
      if left = [] then tokenise q room m q (argv ++ [p])
      else tokenise (q + left.length) room (Function.update m q 0) (q + 1) (argv ++ [p]) := by
  obtain ⟨-, holdsRest⟩ := holds_append.mp holds
  obtain ⟨first, others, rfl⟩ := exists_cons_of_ne_nil some
  have cleanWord (c : Byte) (listed : c ∈ first :: others) : c ≠ 0 :=
    clean c (mem_append_right _ (mem_append_left _ listed))
  have isEnd : s + (blanks ++ (first :: others ++ left)).length =
      s + blanks.length + (first :: others ++ left).length := by
    rw [length_append]
    omega
  have started : s < s + (blanks ++ (first :: others ++ left)).length ∧ m s ≠ 0 := by
    refine ⟨by simp, ?_⟩
    cases blanks with
    | nil =>
      rw [holds.1]
      exact clean _ (mem_cons_self ..)
    | cons b blanks =>
      rw [holds.1]
      exact clean _ (mem_cons_self ..)
  have skipped := skipWhile_eq holds isBlanks fun c isHead => by
    rw [cons_append, List.head?_cons, Option.mem_some_iff] at isHead
    rw [← isHead]
    exact isWord first (mem_cons_self ..)
  rw [tokenise, if_pos started, Nat.add_sub_cancel_left, skipped]
  have inText : ¬ (s + (blanks ++ (first :: others ++ left)).length ≤
      s + blanks.length ∨ m (s + blanks.length) = 0) := by
    rintro (past | isZero)
    · rw [isEnd, cons_append, length_cons] at past
      omega
    · exact cleanWord first (mem_cons_self ..) (holdsRest.1.symm.trans isZero)
  rw [if_neg inText, isEnd, Nat.add_sub_cancel_left]
  have word := skipWhile_eq (q := fun c => c != 0 && !isBlank c) holdsRest (fun c listed => by
      rw [isWord c listed, bne_iff_ne.mpr (cleanWord c listed)]
      rfl)
    (fun c isHead => by
      rw [stop c isHead, Bool.not_true, Bool.and_false])
  rw [word]
  obtain ⟨-, holdsLeft⟩ := holds_append.mp holdsRest
  cases left with
  | nil =>
    rw [if_pos rfl, append_nil, if_neg fun both =>
      Nat.lt_irrefl _ both.1]
  | cons b left =>
    have notZero : m (s + blanks.length + (first :: others).length) ≠ 0 := by
      rw [holdsLeft.1]
      exact clean b (by simp)
    rw [if_pos ⟨by simp, notZero⟩, length_append]
    congr 1
    omega

/--
The loop of `_start` on a text without NUL that ends with one: it finds the
words, as many as there is room for, and ends each with a NUL.
-/
theorem tokenise_spec (room : Nat) (argv : List Nat) (holds : Holds m s text)
    (clean : ∀ c ∈ text, c ≠ 0) (ended : m (s + text.length) = 0) :
    ∃ found m', tokenise (s + text.length) room m s argv =
        (m', argv ++ found) ∧
      List.Forall₂ (IsString m') found ((words isBlank text).take room) ∧
      ∀ a, a < s ∨ s + text.length ≤ a → m' a = m a := by
  induction room generalizing m s text argv with
  | zero =>
    refine ⟨[], m, ?_, .nil, fun _ _ => rfl⟩
    rw [tokenise, append_nil]
  | succ room ih =>
    rcases exists_first_word isBlank text with isText |
      ⟨blanks, w, left, rfl, isBlanks, some, isWord, stop⟩
    · refine ⟨[], m, ?_, ?_, fun _ _ => rfl⟩
      · rw [tokenise_blank holds isText, append_nil]
      · rw [words_of_seps isText]
        exact .nil
    have isWords : words isBlank (blanks ++ (w ++ left)) = w :: words isBlank left := by
      rw [words_seps_append isBlanks, words_of_append some isWord stop]
    rw [tokenise_word holds clean isBlanks some isWord stop, isWords]
    obtain ⟨holdsWord, holdsLeft⟩ := holds_append.mp (holds_append.mp holds).2
    have isEnd : s + (blanks ++ (w ++ left)).length =
        s + blanks.length + w.length + left.length := by
      rw [length_append, length_append]
      omega
    rw [isEnd] at ended ⊢
    set p := s + blanks.length
    have cleanWord (c : Byte) (listed : c ∈ w) : c ≠ 0 :=
      clean c (mem_append_right _ (mem_append_left _ listed))
    cases left with
    | nil =>
      rw [if_pos rfl]
      obtain ⟨found, m', isRun, strings, same⟩ := ih
        (argv ++ [p]) holdsLeft (forall_mem_nil _) ended
      rw [length_nil, Nat.add_zero] at isRun
      refine ⟨p :: found, m', ?_, .cons ?_ strings, fun a outside =>
        same a (by rw [length_nil] at *; omega)⟩
      · rw [isRun, append_assoc, singleton_append]
      · refine IsString.frame ⟨holdsWord, cleanWord, ended⟩ ?_
        exact fun a _ _ => same a (by rw [length_nil]; omega)
    | cons b left =>
      rw [if_neg (cons_ne_nil b left), words_cons_sep (stop b rfl)]
      set cut := Function.update m (p + w.length) 0 with isCut
      have others (a : Nat) (different : a ≠ p + w.length) : cut a = m a := by
        rw [isCut, Function.update_of_ne different]
      have holdsCut : Holds cut (p + w.length + 1) left :=
        holdsLeft.2.frame fun a low _ => others a (by omega)
      have shift : p + w.length + (b :: left).length = p + w.length + 1 + left.length := by
        rw [length_cons]
        omega
      rw [shift] at ended ⊢
      obtain ⟨found, m', isRun, strings, same⟩ := ih
        (argv ++ [p]) holdsCut (fun c listed => clean c (by simp [listed]))
        ((others _ (by omega)).trans ended)
      refine ⟨p :: found, m', ?_, .cons ?_ strings, fun a outside => ?_⟩
      · rw [isRun, append_assoc, singleton_append]
      · refine ⟨holdsWord.frame fun a _ high => ?_, cleanWord, ?_⟩
        · rw [same a (.inl (by omega)), others a (by omega)]
        · rw [same _ (.inl (by omega)), isCut, Function.update_self]
      · rw [same a (by omega), others a (by omega)]

end Tokenise

theorem map_cString {m : Mem} {n : Nat} {found : List Nat} {ws : List (List Byte)}
    (strings : List.Forall₂ (IsString m) found ws)
    (short : ∀ w ∈ ws, w.length < n) : found.map (cString m n) = ws := by
  induction strings with
  | nil => rfl
  | cons string _ ih =>
    obtain ⟨first, rest⟩ := forall_mem_cons.mp short
    rw [map_cons, string.cString_eq first, ih rest]

theorem mainArgs_eq {cmd : List Byte} (m : Mem) (some : cmd ≠ []) (short : cmd.length ≤ 159)
    (clean : ∀ c ∈ cmd, c ≠ 0) : mainArgs m cmd = (words isBlank cmd).take 31 := by
  have placed : cmd.length < cmdlineMax - 1 := lt_of_le_of_lt short (by decide)
  have positive : 0 < cmd.length := length_pos_iff.mpr some
  set start := Function.update (place m cmdUva cmd) (cmdUva + cmd.length) 0
    with isStart
  have spawned : spawnUserProc m cmd = (start, cmdUva, cmd.length) := by
    unfold spawnUserProc
    rw [if_pos positive, if_pos placed]
    dsimp only
    rw [take_length]
  have holds : Holds start cmdUva cmd :=
    (holds_place m cmdUva cmd).frame fun a _ high =>
      Function.update_of_ne high.ne ..
  have ended : start (cmdUva + cmd.length) = 0 := Function.update_self ..
  obtain ⟨found, after, isRun, strings, -⟩ := tokenise_spec (maxArgv - 1) [] holds clean ended
  unfold mainArgs
  rw [spawned]
  dsimp only
  unfold startArgv
  rw [if_pos ⟨by decide, positive⟩, isRun]
  refine map_cString strings fun w listed => ?_
  have inCmd := length_le_of_mem_words (mem_of_mem_take listed)
  exact lt_of_le_of_lt (inCmd.trans short) (by decide)

/-! ## The Shell's own split -/

section Split

variable {line : List Byte}

theorem splitLine_spec (some : (splitLine line).word ≠ []) :
    lineWords line =
        (splitLine line).word :: words isBlank (splitLine line).tail ∧
      (∀ c ∈ (splitLine line).word, isWordByte c = true) ∧
      ∀ c ∈ (splitLine line).tail, isEol c = false := by
  have inText (c : Byte) (blank : isBlank c = true) : (!isEol c) = true := by
    rw [not_eol_of_blank blank]
    rfl
  have wordInText (c : Byte) (isWord : isWordByte c = true) : (!isEol c) = true := by
    rw [(isWordByte_iff.mp isWord).1]
    rfl
  have isWord (c : Byte) (listed : c ∈ (splitLine line).word) :
      isWordByte c = true := mem_takeWhile_imp listed
  refine ⟨?_, isWord, fun c listed => ?_⟩
  · set text := line.takeWhile fun c => !isEol c with isText
    have word : (text.dropWhile isBlank).takeWhile isWordByte = (splitLine line).word := by
      rw [dropWhile_takeWhile inText, takeWhile_of_takeWhile wordInText]
      rfl
    have tail : ((text.dropWhile isBlank).dropWhile isWordByte).dropWhile
        isBlank = (splitLine line).tail := by
      rw [dropWhile_takeWhile inText, dropWhile_takeWhile wordInText, dropWhile_takeWhile inText]
      rfl
    have parts := takeWhile_append_dropWhile (p := isWordByte) (l := text.dropWhile isBlank)
    rw [word] at parts
    unfold lineWords
    rw [← words_dropWhile text, ← parts, ← tail, words_dropWhile]
    refine words_of_append some (fun c listed => (isWordByte_iff.mp (isWord c listed)).2) ?_
    intro c isHead
    have stopped := List.head?_dropWhile_not isWordByte (text.dropWhile isBlank)
    rw [Option.mem_def.mp isHead] at stopped
    have listed : c ∈ text := (dropWhile_suffix _).subset
      ((dropWhile_suffix _).subset (mem_of_mem_head? isHead))
    have notEol := mem_takeWhile_imp listed
    replace stopped : isWordByte c = false := stopped
    unfold isWordByte at stopped
    rw [notEol] at stopped
    simpa using stopped
  · simpa using mem_takeWhile_imp listed

theorem strCopy_handed {name tail : List Byte}
    (some : name ≠ []) (isWord : ∀ c ∈ name, isWordByte c = true)
    (isLine : ∀ c ∈ tail, isEol c = false) : Handed (strCopy 32 name) tail := by
  have isName : strCopy 32 name = name.take 31 := by
    unfold strCopy
    rw [copyUntil_clean]
    · rfl
    · intro c listed
      have isText := (isWordByte_iff.mp (isWord c listed)).1
      exact beq_false_of_ne (ne_zero_of_not_eol isText)
  rw [isName]
  refine ⟨fun none => ?_, ?_, fun c listed =>
    isWord c (mem_of_mem_take listed), isLine⟩
  · rw [take_eq_nil_iff] at none
    exact some (none.resolve_left (by decide))
  · rw [length_take]
    exact Nat.min_le_left ..

theorem shellTurn_run {loads : List Byte → Bool} {csName tail : List Byte}
    (launched : shellTurn loads line = .run csName tail) :
    Handed csName tail ∧
      ∃ word, lineWords line = word :: words isBlank tail := by
  unfold shellTurn at launched
  dsimp only at launched
  by_cases none : (splitLine line).word = []
  · rw [if_pos none] at launched
    nomatch launched
  rw [if_neg none] at launched
  obtain ⟨isWords, isWord, isLine⟩ := splitLine_spec none
  set cmd := (splitLine line).word.take 63
  have cmdWord (c : Byte) (listed : c ∈ cmd) : isWordByte c = true :=
    isWord c (mem_of_mem_take listed)
  have cmdSome : cmd ≠ [] := by
    intro empty
    rw [take_eq_nil_iff] at empty
    exact none (empty.resolve_left (by decide))
  have loaded {name : List Byte} (some : name ≠ []) (isWord : ∀ c ∈ name, isWordByte c = true)
      (isSeg : loadSeg loads name = .some csName) (isTail : (splitLine line).tail = tail) :
      Handed csName tail ∧ ∃ word, lineWords line = word :: words isBlank tail := by
    unfold loadSeg at isSeg
    split at isSeg
    · cases isSeg
      subst isTail
      exact ⟨strCopy_handed some isWord isLine, _, isWords⟩
    · nomatch isSeg
  split at launched
  · nomatch launched
  split at launched
  · rename_i isSeg
    obtain ⟨rfl, isTail⟩ := Turn.run.inj launched
    exact loaded cmdSome cmdWord isSeg isTail
  · split at launched
    · rename_i isSeg
      obtain ⟨rfl, isTail⟩ := Turn.run.inj launched
      refine loaded ?_ (fun c listed => ?_) isSeg isTail
      · intro empty
        rw [take_eq_nil_iff] at empty
        exact absurd (empty.resolve_left (by decide)) (by simp [bytes])
      · rcases mem_append.mp (mem_of_mem_take listed) with
          inDir | inCmd
        · exact (by decide : ∀ c ∈ bytes "C/", isWordByte c = true) c inDir
        · exact cmdWord c inCmd
    · nomatch launched

end Split

/--
The child of a command with at most 30 arguments gets the words of the line
after the command word exactly if `RunCommand` cuts off nothing but blanks:
its buffer has room for 158 bytes besides the space between name and tail.
-/
theorem arguments_intact_iff {loads : List Byte → Bool} {line csName tail : List Byte}
    (m : Mem) (launched : shellTurn loads line = .run csName tail)
    (few : (lineWords line).tail.length ≤ 30) :
    ((mainArgs m (runCommand csName tail)).length = 1 + (lineWords line).tail.length ∧
        (mainArgs m (runCommand csName tail)).tail = (lineWords line).tail) ↔
      ∀ c ∈ tail.drop (158 - csName.length), isBlank c = true := by
  obtain ⟨handed, word, isWords⟩ := shellTurn_run launched
  obtain ⟨short, some, clean⟩ := runCommand_clean handed
  rw [isWords, tail_cons] at few ⊢
  rw [mainArgs_eq m some short clean, words_runCommand handed, take_succ_cons]
  constructor
  · rintro ⟨-, same⟩
    exact seps_of_words_take same
  · intro blanks
    rw [words_take_of_seps blanks, take_of_length_le few]
    exact ⟨Nat.add_comm .., rfl⟩

/-- `x a b` starts `C/x` with the arguments `a` and `b`. -/
theorem arguments_intact_two :
    shellTurn (· == bytes "C/x") (bytes "x a b\n") =
        .run (bytes "C/x") (bytes "a b") ∧
      (mainArgs (fun _ => 0) (runCommand (bytes "C/x") (bytes "a b"))).tail =
        [bytes "a", bytes "b"] := by
  have launched : shellTurn (· == bytes "C/x") (bytes "x a b\n") =
      .run (bytes "C/x") (bytes "a b") := by
    decide
  refine ⟨launched, ?_⟩
  have intact := (arguments_intact_iff (fun _ => 0) launched (by decide)).mpr (by decide)
  exact intact.2

/-- One argument of 200 bytes arrives as 157 bytes. -/
theorem long_argument_cut :
    let line := bytes "x " ++ List.replicate 200 0x61
    line.length ≤ 255 ∧ shellTurn (· == bytes "x") line =
        .run (bytes "x") (List.replicate 200 0x61) ∧
      lineWords line = [bytes "x", List.replicate 200 0x61] ∧
      mainArgs (fun _ => 0) (runCommand (bytes "x") (List.replicate 200 0x61)) =
        [bytes "x", List.replicate 157 0x61] := by
  decide +kernel

end CaraOS.Shell
