import Mathlib.Algebra.Order.Ring.Int
import Mathlib.Data.List.Basic
import Mathlib.Data.List.TakeWhile
import Mathlib.Tactic.Common

namespace CaraOS.Libc

/-!
# strtol

A string is the list of its bytes before the NUL, and `p` is what is left of it.
`long` arithmetic that leaves its range is undefined, which is `none` here.
-/

/-- One character. -/
abbrev Byte : Type :=
  BitVec 8

/-! ## The code -/

def isspace (c : Byte) : Bool :=
  c == 0x20 || c == 0x09 || c == 0x0A || c == 0x0D || c == 0x0C || c == 0x0B

/-- The value `d` of a digit or letter. -/
def digitValue (c : Byte) : Option Nat :=
  if 0x30 ≤ c ∧ c ≤ 0x39 then some (c.toNat - 0x30)
  else if 0x61 ≤ c ∧ c ≤ 0x7A then some (c.toNat - 0x61 + 10)
  else if 0x41 ≤ c ∧ c ≤ 0x5A then some (c.toNat - 0x41 + 10)
  else none

def strtolSign : List Byte → Bool × List Byte
  | 0x2B :: p => (false, p)
  | 0x2D :: p => (true, p)
  | p => (false, p)

/-- `0x` or `0X`. -/
def hexPrefix (p : List Byte) : Prop :=
  p.head? = some 0x30 ∧ (p[1]? = some 0x78 ∨ p[1]? = some 0x58)
  deriving Decidable

/-- The base that is used, and the prefix. -/
def strtolBase (base : Nat) (p : List Byte) : Nat × List Byte :=
  if (base = 0 ∨ base = 16) ∧ hexPrefix p then (16, p.drop 2)
  else if base = 0 ∧ p.head? = some 0x30 then (8, p)
  else if base = 0 then (10, p)
  else (base, p)

/-- The loop over the digits. -/
def strtolLoop (base val : Nat) : List Byte → Option (Nat × List Byte)
  | [] => some (val, [])
  | c :: p =>
    match digitValue c with
    | none => some (val, c :: p)
    | some d =>
      if base ≤ d then some (val, c :: p)
      else if val * base + d < 2 ^ 63 then strtolLoop base (val * base + d) p
      else none

/-- `strtol`: the value, and how far `*endptr` is from the start. -/
def strtol (s : List Byte) (base : Nat) : Option (Int × Nat) :=
  let (neg, p) := strtolSign (s.dropWhile isspace)
  let (base, p) := strtolBase base p
  match strtolLoop base 0 p with
  | none => none
  | some (val, p) => some (if neg then -val else val, s.length - p.length)

/-! ## Subject sequences -/

def isDigit (radix : Nat) (c : Byte) : Bool :=
  (digitValue c).any (· < radix)

/-- The number that digits denote, after `val`. -/
def number (radix val : Nat) (digits : List Byte) : Nat :=
  digits.foldl (fun val c => val * radix + (digitValue c).getD 0) val

/-- An optional sign; `neg` says which. -/
def IsSign (sign : List Byte) (neg : Bool) : Prop :=
  sign = [] ∧ neg = false ∨ sign = [0x2B] ∧ neg = false ∨ sign = [0x2D] ∧ neg = true

/-- The expected form: an optional sign, an optional prefix, and digits. -/
structure Form (base : Nat) (neg : Bool) (sign pre digits : List Byte) (radix : Nat) : Prop where
  isSign : IsSign sign neg
  isRadix : (base = 0 ∨ base = 16) ∧ (pre = [0x30, 0x78] ∨ pre = [0x30, 0x58]) ∧ radix = 16 ∨
    pre = [] ∧ radix = if base ≠ 0 then base else if digits.head? = some 0x30 then 8 else 10
  nonempty : digits ≠ []
  allDigits : ∀ c ∈ digits, isDigit radix c = true

/-- An initial part of `t` that has the expected form, with what it denotes. -/
def Subject (base : Nat) (t sub : List Byte) (neg : Bool) (v : Nat) : Prop :=
  sub <+: t ∧ ∃ sign pre digits radix, Form base neg sign pre digits radix ∧
    sub = sign ++ (pre ++ digits) ∧ v = number radix 0 digits

def Longest (base : Nat) (t sub : List Byte) (neg : Bool) (v : Nat) : Prop :=
  Subject base t sub neg v ∧
    ∀ other neg' v', Subject base t other neg' v' → other.length ≤ sub.length

/-- The nearest `long`. -/
def saturate (neg : Bool) (v : Nat) : Int :=
  max (-2 ^ 63) (min (2 ^ 63 - 1) (if neg then -v else v))

/-- What the C standard asks of `strtol`. -/
def StrtolConforms (s : List Byte) (base : Nat) : Prop :=
  (∀ sub neg v, Longest base (s.dropWhile isspace) sub neg v → strtol s base =
    some (saturate neg v, (s.takeWhile isspace).length + sub.length)) ∧
  ((∀ sub neg v, ¬ Subject base (s.dropWhile isspace) sub neg v) → strtol s base = some (0, 0))

section Scan

variable {base r val : Nat} {p t u digits sub : List Byte} {neg : Bool} {v : Nat}

theorem isDigit_iff {c : Byte} : isDigit r c = true ↔ ∃ d, digitValue c = some d ∧ d < r := by
  unfold isDigit
  cases digitValue c with
  | none => simp
  | some d => simp

theorem le_number (positive : 0 < r) : val ≤ number r val digits := by
  induction digits generalizing val with
  | nil => exact le_rfl
  | cons c digits ih =>
    have step : val ≤ val * r + (digitValue c).getD 0 :=
      (Nat.le_mul_of_pos_right val positive).trans (Nat.le_add_right ..)
    exact step.trans ih

theorem strtolLoop_eq (positive : 0 < r) (small : val < 2 ^ 63) :
    strtolLoop r val p =
      if number r val (p.takeWhile (isDigit r)) < 2 ^ 63 then
        some (number r val (p.takeWhile (isDigit r)), p.dropWhile (isDigit r))
      else
        none := by
  induction p generalizing val with
  | nil => exact (if_pos small).symm
  | cons c p ih =>
    unfold strtolLoop
    by_cases digit : isDigit r c = true
    · obtain ⟨d, isValue, below⟩ := isDigit_iff.mp digit
      have step : number r val (c :: p.takeWhile (isDigit r)) =
          number r (val * r + d) (p.takeWhile (isDigit r)) := by simp [number, isValue]
      have grows := @le_number r (val * r + d) (p.takeWhile (isDigit r)) positive
      rw [List.takeWhile_cons_of_pos digit, List.dropWhile_cons_of_pos digit, step, isValue]
      dsimp only
      rw [if_neg (by omega)]
      by_cases fits : val * r + d < 2 ^ 63
      · rw [if_pos fits, ih fits]
      · rw [if_neg fits, if_neg (by omega)]
    · have isNumber : number r val [] = val := rfl
      rw [List.takeWhile_cons_of_neg digit, List.dropWhile_cons_of_neg digit, isNumber,
        if_pos small]
      cases isValue : digitValue c with
      | none => rfl
      | some d =>
        refine if_pos (Nat.le_of_not_lt fun below => ?_)
        exact digit (isDigit_iff.mpr ⟨d, isValue, below⟩)

theorem strtolSign_cases (t : List Byte) :
    ∃ sign, t = sign ++ (strtolSign t).2 ∧ IsSign sign (strtolSign t).1 := by
  unfold strtolSign
  split
  · exact ⟨_, rfl, .inr (.inl ⟨rfl, rfl⟩)⟩
  · exact ⟨_, rfl, .inr (.inr ⟨rfl, rfl⟩)⟩
  · exact ⟨[], rfl, .inl ⟨rfl, rfl⟩⟩

theorem strtolSign_append {sign body : List Byte} (isSign : IsSign sign neg)
    (head : body.head? ≠ some 0x2B ∧ body.head? ≠ some 0x2D) :
    strtolSign (sign ++ body) = (neg, body) := by
  rcases isSign with ⟨rfl, rfl⟩ | ⟨rfl, rfl⟩ | ⟨rfl, rfl⟩
  · rw [List.nil_append]
    unfold strtolSign
    split
    · exact absurd rfl head.1
    · exact absurd rfl head.2
    · rfl
  · rfl
  · rfl

theorem strtolBase_cases (base : Nat) (u : List Byte) :
    ((base = 0 ∨ base = 16) ∧ ∃ x, (x = 0x78 ∨ x = 0x58) ∧
        u = 0x30 :: x :: (strtolBase base u).2 ∧ (strtolBase base u).1 = 16) ∨
      (¬ ((base = 0 ∨ base = 16) ∧ hexPrefix u) ∧ (strtolBase base u).2 = u ∧
        (strtolBase base u).1 =
          if base ≠ 0 then base else if u.head? = some 0x30 then 8 else 10) := by
  unfold strtolBase
  by_cases hex : (base = 0 ∨ base = 16) ∧ hexPrefix u
  · refine .inl ⟨hex.1, ?_⟩
    rw [if_pos hex]
    obtain ⟨-, zero, x⟩ := hex
    match u, zero, x with
    | _ :: x :: rest, rfl, isX => exact ⟨x, by simpa using isX, rfl, rfl⟩
  · refine .inr ⟨hex, ?_⟩
    rw [if_neg hex]
    by_cases any : base = 0
    · subst any
      by_cases zero : u.head? = some 0x30
      · rw [if_pos ⟨rfl, zero⟩, if_pos zero]
        exact ⟨rfl, rfl⟩
      · rw [if_neg fun both => zero both.2, if_neg zero]
        exact ⟨rfl, rfl⟩
    · simp [any]

theorem Form.head {sign pre : List Byte} (form : Form base neg sign pre digits r) :
    (pre ++ digits).head? ≠ some 0x2B ∧ (pre ++ digits).head? ≠ some 0x2D := by
  rcases form.isRadix with ⟨-, rfl | rfl, -⟩ | ⟨rfl, -⟩
  · simp
  · simp
  · obtain ⟨c, rest, rfl⟩ := List.exists_cons_of_ne_nil form.nonempty
    obtain ⟨d, isValue, -⟩ := isDigit_iff.mp (form.allDigits c List.mem_cons_self)
    constructor
    · rintro ⟨rfl⟩
      cases isValue
    · rintro ⟨rfl⟩
      cases isValue

theorem Subject.split (subject : Subject base t sub neg v) :
    ∃ sign pre digits radix, Form base neg sign pre digits radix ∧ (strtolSign t).1 = neg ∧
      t = sign ++ (strtolSign t).2 ∧ sub = sign ++ (pre ++ digits) ∧
      pre ++ digits <+: (strtolSign t).2 ∧ v = number radix 0 digits := by
  obtain ⟨⟨later, rfl⟩, sign, pre, digits, radix, form, rfl, isV⟩ := subject
  have body : (pre ++ digits ++ later).head? = (pre ++ digits).head? :=
    List.head?_append_of_ne_nil _ (by simp [form.nonempty])
  have isRead : strtolSign (sign ++ (pre ++ digits) ++ later) = (neg, pre ++ digits ++ later) := by
    rw [List.append_assoc]
    exact strtolSign_append form.isSign (body ▸ form.head)
  rw [isRead]
  exact ⟨sign, pre, digits, radix, form, rfl, by simp, rfl, ⟨later, rfl⟩, isV⟩

theorem Form.body {sign pre : List Byte} {radix : Nat}
    (form : Form base neg sign pre digits radix) (ahead : pre ++ digits <+: u) :
    (u = pre ++ (strtolBase base u).2 ∧ radix = (strtolBase base u).1 ∧
        digits <+: (strtolBase base u).2.takeWhile (isDigit radix)) ∨
      (pre = [] ∧ digits = [0x30] ∧ (base = 0 ∨ base = 16) ∧ hexPrefix u) := by
  obtain ⟨later, rfl⟩ := ahead
  have taken : (digits ++ later).takeWhile (isDigit radix) =
      digits ++ later.takeWhile (isDigit radix) := List.takeWhile_append_of_pos form.allDigits
  obtain ⟨c, rest, rfl⟩ := List.exists_cons_of_ne_nil form.nonempty
  rcases form.isRadix with ⟨anyOrHex, isPre, rfl⟩ | ⟨rfl, isRadix⟩
  · have hex : hexPrefix (pre ++ (c :: rest) ++ later) := by
      rcases isPre with rfl | rfl
      · exact ⟨rfl, .inl rfl⟩
      · exact ⟨rfl, .inr rfl⟩
    have isBase : strtolBase base (pre ++ (c :: rest) ++ later) = (16, c :: rest ++ later) := by
      unfold strtolBase
      rw [if_pos ⟨anyOrHex, hex⟩]
      rcases isPre with rfl | rfl <;> rfl
    rw [isBase]
    refine .inl ⟨by simp, rfl, ?_⟩
    rw [taken]
    exact List.prefix_append ..
  · rcases strtolBase_cases base ([] ++ (c :: rest) ++ later) with
      ⟨anyOrHex, x, isX, isU, -⟩ | ⟨-, same, isBase⟩
    · -- The letter of the prefix is no digit, so the digits end before it.
      have isC : c = 0x30 := (List.cons.inj isU).1
      refine .inr ⟨rfl, ?_, anyOrHex, ?_⟩
      · cases rest with
        | nil => rw [isC]
        | cons d rest =>
          have isD : d = x := (List.cons.inj (List.cons.inj isU).2).1
          have isDigit := form.allDigits d (by simp)
          rw [isD, isRadix, isC] at isDigit
          rcases anyOrHex with rfl | rfl <;> rcases isX with rfl | rfl <;> cases isDigit
      · rw [isU]
        exact ⟨rfl, by rcases isX with rfl | rfl <;> simp⟩
    · refine .inl ⟨same.symm, isRadix.trans isBase.symm, ?_⟩
      rw [same, List.nil_append, taken]
      exact List.prefix_append ..

end Scan

/-! ## When strtol conforms -/

/-- What `strtol` finds: the rest after the blanks, the sign and the prefix, and the digits. -/
structure Scanned (s : List Byte) (base : Nat) (t : List Byte) (neg : Bool) (u : List Byte)
    (radix : Nat) (body digits : List Byte) : Prop where
  blanks : s.dropWhile isspace = t
  sign : strtolSign t = (neg, u)
  base : strtolBase base u = (radix, body)
  digits : body.takeWhile (isDigit radix) = digits

/--
The digits denote a number below `2 ^ 63`; where there are none, nothing stands
in front of the place where they would be.
-/
def StrtolPlain (s : List Byte) (base : Nat) : Prop :=
  let body := strtolBase base (strtolSign (s.dropWhile isspace)).2
  number body.1 0 (body.2.takeWhile (isDigit body.1)) < 2 ^ 63 ∧
    (body.2.takeWhile (isDigit body.1) = [] → body.2 = s)
  deriving Decidable

theorem exists_scanned (s : List Byte) (base : Nat) :
    ∃ t neg u radix body digits, Scanned s base t neg u radix body digits :=
  ⟨_, _, _, _, _, _, rfl, rfl, rfl, rfl⟩

namespace Scanned

variable {s t u body digits sub : List Byte} {base radix v : Nat} {neg flag : Bool}
  (scan : Scanned s base t neg u radix body digits)

include scan

theorem plain_iff :
    StrtolPlain s base ↔ number radix 0 digits < 2 ^ 63 ∧ (digits = [] → body = s) := by
  obtain ⟨rfl, isSign, isBase, rfl⟩ := scan
  unfold StrtolPlain
  simp only [isSign, isBase]

theorem body_suffix : body <:+ t := by
  obtain ⟨sign, isSign, -⟩ := strtolSign_cases t
  rw [scan.sign] at isSign
  refine List.IsSuffix.trans ?_ ⟨sign, isSign.symm⟩
  rcases strtolBase_cases base u with ⟨-, x, -, isU, -⟩ | ⟨-, same, -⟩
  · rw [scan.base] at isU
    exact ⟨[0x30, x], isU.symm⟩
  · rw [scan.base] at same
    exact ⟨[], same⟩

theorem strtol_eq (range : base = 0 ∨ 2 ≤ base ∧ base ≤ 36) :
    strtol s base =
      if number radix 0 digits < 2 ^ 63 then
        some (if neg then -(number radix 0 digits : Int) else number radix 0 digits,
          s.length - (body.length - digits.length))
      else none := by
  have positive : 0 < radix := by
    rcases strtolBase_cases base u with ⟨-, x, -, -, isBase⟩ | ⟨-, -, isBase⟩ <;>
      rw [scan.base] at isBase <;> dsimp only at isBase
    · omega
    · split at isBase
      · omega
      · split at isBase <;> omega
  have lengths := congrArg List.length
    (List.takeWhile_append_dropWhile (p := isDigit radix) (l := body))
  rw [List.length_append, scan.digits] at lengths
  have rest : (body.dropWhile (isDigit radix)).length = body.length - digits.length := by omega
  unfold strtol
  simp only [scan.blanks, scan.sign, scan.base]
  rw [strtolLoop_eq positive (by decide), scan.digits]
  by_cases fits : number radix 0 digits < 2 ^ 63
  · rw [if_pos fits, if_pos fits, ← rest]
  · rw [if_neg fits, if_neg fits]

theorem own_subject (some : digits ≠ []) :
    ∃ own, own.length + body.length = t.length + digits.length ∧
      Subject base t own neg (number radix 0 digits) := by
  obtain ⟨sign, isT, isSign⟩ := strtolSign_cases t
  rw [scan.sign] at isT isSign
  have ahead : digits <+: body := scan.digits ▸ List.takeWhile_prefix _
  have allDigits (c : Byte) (listed : c ∈ digits) : isDigit radix c = true := by
    rw [← scan.digits] at listed
    exact List.mem_takeWhile_imp listed
  suffices shape : ∃ pre, u = pre ++ body ∧ Form base neg sign pre digits radix by
    obtain ⟨pre, rfl, form⟩ := shape
    refine ⟨sign ++ (pre ++ digits), ?_, ?_, sign, pre, _, _, form, rfl, rfl⟩
    · have lengths := congrArg List.length isT
      simp only [List.length_append] at lengths ⊢
      omega
    · rw [isT]
      simpa using ahead
  rcases strtolBase_cases base u with ⟨anyOrHex, x, isX, isU, isBase⟩ | ⟨-, same, isBase⟩
  · rw [scan.base] at isU isBase
    exact ⟨[0x30, x], isU, isSign, .inl ⟨anyOrHex, by simpa using isX, isBase⟩, some, allDigits⟩
  · rw [scan.base] at same isBase
    subst same
    -- The first digit is the first character after the sign.
    obtain ⟨later, rfl⟩ := ahead
    rw [List.head?_append_of_ne_nil _ some] at isBase
    exact ⟨[], rfl, isSign, .inr ⟨rfl, isBase⟩, some, allDigits⟩

theorem subject_cases (subject : Subject base t sub flag v) :
    flag = neg ∧
      ((∃ some, some ≠ [] ∧ some <+: digits ∧ sub.length + body.length = t.length + some.length ∧
          v = number radix 0 some) ∨ sub.length + 1 + body.length = t.length) := by
  obtain ⟨sign, pre, own, radix', form, isNeg, isT, rfl, ahead, isV⟩ := subject.split
  rw [scan.sign] at isNeg isT ahead
  refine ⟨isNeg.symm, ?_⟩
  have lengths := congrArg List.length isT
  have bodies := form.body ahead
  rw [scan.base] at bodies
  rcases bodies with ⟨isU, rfl, isPrefix⟩ | ⟨rfl, rfl, anyOrHex, hex⟩
  · refine .inl ⟨own, form.nonempty, scan.digits ▸ isPrefix, ?_, isV⟩
    have uLengths := congrArg List.length isU
    simp only [List.length_append] at lengths uLengths ⊢
    omega
  · have isBody := scan.base
    rw [strtolBase, if_pos ⟨anyOrHex, hex⟩] at isBody
    obtain ⟨-, rfl⟩ := Prod.mk.inj isBody
    have long : 1 < u.length := by
      rcases hex.2 with isX | isX <;> exact (List.getElem?_eq_some_iff.mp isX).1
    simp only [List.length_append, List.length_nil, List.length_singleton, List.length_drop]
      at lengths ⊢
    omega

theorem conforms_of_plain (range : base = 0 ∨ 2 ≤ base ∧ base ≤ 36) (plain : StrtolPlain s base) :
    StrtolConforms s base := by
  obtain ⟨fits, bare⟩ := scan.plain_iff.mp plain
  have result := scan.strtol_eq range
  have skipped := congrArg List.length (List.takeWhile_append_dropWhile (p := isspace) (l := s))
  have inside := scan.body_suffix.length_le
  have short : digits.length ≤ body.length := scan.digits ▸ (List.takeWhile_prefix _).length_le
  rw [List.length_append, scan.blanks] at skipped
  rw [if_pos fits] at result
  unfold StrtolConforms
  rw [scan.blanks, result]
  refine ⟨fun sub flag v isLongest => ?_, fun absent => ?_⟩
  · obtain ⟨rfl, ends⟩ := scan.subject_cases isLongest.1
    by_cases none : digits = []
    · subst none
      rw [bare rfl] at ends inside
      rcases ends with ⟨some, isSome, isPrefix, -⟩ | isLength
      · exact absurd (List.prefix_nil.mp isPrefix) isSome
      · omega
    · obtain ⟨own, length, subject⟩ := scan.own_subject none
      have longer := isLongest.2 own _ _ subject
      rcases ends with ⟨some, -, isPrefix, isLength, rfl⟩ | isLength
      · have := isPrefix.length_le
        have whole : some = digits := isPrefix.eq_of_length (by omega)
        subst whole
        have inRange : saturate flag (number radix 0 some) =
            if flag then -(number radix 0 some : Int) else number radix 0 some := by
          unfold saturate
          split <;> omega
        rw [inRange]
        congr 2
        omega
      · omega
  · by_cases none : digits = []
    · subst none
      rw [bare rfl]
      simp [number]
    · obtain ⟨own, -, subject⟩ := scan.own_subject none
      exact absurd subject (absent own _ _)

theorem plain_of_conforms (range : base = 0 ∨ 2 ≤ base ∧ base ≤ 36)
    (conforms : StrtolConforms s base) : StrtolPlain s base := by
  obtain ⟨longest, absent⟩ := conforms
  have result := scan.strtol_eq range
  have skipped := congrArg List.length (List.takeWhile_append_dropWhile (p := isspace) (l := s))
  have inside := scan.body_suffix.length_le
  rw [List.length_append, scan.blanks] at skipped
  rw [scan.blanks] at longest absent
  refine scan.plain_iff.mpr ⟨?_, ?_⟩
  · by_contra tooLarge
    have some : digits ≠ [] := by
      rintro rfl
      exact tooLarge (by simp [number])
    obtain ⟨own, length, subject⟩ := scan.own_subject some
    have isLongest := longest own _ _ ⟨subject, fun other flag v isSubject => ?_⟩
    · rw [result, if_neg tooLarge] at isLongest
      cases isLongest
    · rcases (scan.subject_cases isSubject).2 with ⟨some, -, isPrefix, isLength, -⟩ | isLength
      · have := isPrefix.length_le
        omega
      · omega
  · rintro rfl
    have ends {sub flag v} (subject : Subject base t sub flag v) :
        sub.length + 1 + body.length = t.length := by
      rcases (scan.subject_cases subject).2 with ⟨some, isSome, isPrefix, -⟩ | isLength
      · exact absurd (List.prefix_nil.mp isPrefix) isSome
      · exact isLength
    by_cases any : ∃ sub flag v, Subject base t sub flag v
    · obtain ⟨sub, flag, v, subject⟩ := any
      have length := ends subject
      have ended := longest sub flag v ⟨subject, fun other flag v isSubject => by
        have := ends isSubject
        omega⟩
      rw [result] at ended
      have position := congrArg Prod.snd (Option.some.inj ended)
      omega
    · have ended := absent fun sub flag v subject => any ⟨sub, flag, v, subject⟩
      rw [result] at ended
      have position := congrArg Prod.snd (Option.some.inj ended)
      have suffix := scan.body_suffix
      rw [← scan.blanks] at suffix
      exact (suffix.trans (List.dropWhile_suffix _)).eq_of_length (by omega)

end Scanned

/--
For every string and every base, `strtol` does what the C standard asks exactly
if the digits denote a number below `2 ^ 63` or, where there are no digits,
there are no blanks, no sign and no prefix either.
-/
theorem strtol_conforms_iff (s : List Byte) {base : Nat} (range : base = 0 ∨ 2 ≤ base ∧ base ≤ 36) :
    StrtolConforms s base ↔ StrtolPlain s base := by
  obtain ⟨t, neg, u, radix, body, digits, scan⟩ := exists_scanned s base
  exact ⟨scan.plain_of_conforms range, scan.conforms_of_plain range⟩

theorem strtol_conforms_iff_number :
    StrtolPlain [0x20, 0x2D, 0x34, 0x32, 0x61] 10 ∧
      StrtolConforms [0x20, 0x2D, 0x34, 0x32, 0x61] 10 :=
  ⟨by decide, (strtol_conforms_iff _ (by decide)).mpr (by decide)⟩

theorem strtol_endptr_moves : ¬ StrtolConforms [0x20, 0x2B] 10 := by
  obtain ⟨t, neg, u, radix, body, digits, scan⟩ := exists_scanned [0x20, 0x2B] 10
  exact fun conforms => absurd (scan.plain_of_conforms (by decide) conforms) (by decide)

end CaraOS.Libc
