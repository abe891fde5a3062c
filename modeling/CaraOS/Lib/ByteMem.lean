import Mathlib.Data.Nat.Basic
import Mathlib.Data.List.Nodup
import Mathlib.Tactic.Ring

namespace CaraOS.ByteMem

/-!
# Byte memory

A memory is a function from addresses to bytes.  Numbers are read and written
little-endian; `fill` sets a range to zero and `copy` copies one byte after
the other.  A chain is a list of places, each
of which holds the address of the next one in its first eight bytes, the last
one null.
-/

/-- The bytes at all addresses. -/
abbrev Mem : Type :=
  Nat → BitVec 8

/-- The number in `n` bytes from `a`. -/
def read (m : Mem) (a : Nat) : Nat → Nat
  | 0 => 0
  | n + 1 => (m a).toNat + 256 * read m (a + 1) n

/-- Put a number into `n` bytes from `a`. -/
def write (m : Mem) (a n v : Nat) : Mem :=
  fun b => if a ≤ b ∧ b < a + n then BitVec.ofNat 8 (v / 256 ^ (b - a)) else m b

/-- Set `n` bytes from `a` to zero. -/
def fill (m : Mem) (a n : Nat) : Mem :=
  fun b => if a ≤ b ∧ b < a + n then 0 else m b

/-- Copy `n` bytes from `s` to `d`, the first one first. -/
def copy (m : Mem) (d s : Nat) : Nat → Mem
  | 0 => m
  | n + 1 => Function.update (copy m d s n) (d + n) (copy m d s n (s + n))

/-- Put numbers into fields, each with its offset, its size and its value. -/
def record (m : Mem) (base : Nat) : List (Nat × Nat × Nat) → Mem
  | [] => m
  | (offset, size, value) :: rest =>
    record (write m (base + offset) size value) base rest

/-- The bytes of a range. -/
def slice (m : Mem) (a n : Nat) : List (BitVec 8) :=
  (List.range n).map fun i => m (a + i)

/-- The memories agree in `n` bytes from `a`. -/
def Same (m m' : Mem) (a n : Nat) : Prop :=
  ∀ b, a ≤ b → b < a + n → m' b = m b

/-- Two ranges have no address in common. -/
def Apart (a n b k : Nat) : Prop :=
  a + n ≤ b ∨ b + k ≤ a

section Frame

variable {m m' m'' : Mem} {a n b k v : Nat}

theorem Same.refl (m : Mem) (a n : Nat) : Same m m a n :=
  fun _ _ _ => rfl

theorem Same.trans (first : Same m m' a n) (second : Same m' m'' a n) : Same m m'' a n :=
  fun at_ low high => (second at_ low high).trans (first at_ low high)

theorem Same.sub (same : Same m m' a n) (low : a ≤ b) (high : b + k ≤ a + n) : Same m m' b k :=
  fun at_ isLow isHigh => same at_ (low.trans isLow) (isHigh.trans_le high)

theorem Same.read_eq (same : Same m m' a n) : read m' a n = read m a n := by
  induction n generalizing a with
  | zero => rfl
  | succ n ih =>
    unfold read
    rw [same a (le_refl a) (by omega), ih (same.sub (by omega) (by omega))]

theorem same_write (m : Mem) (v : Nat) (apart : Apart a n b k) : Same m (write m a n v) b k := by
  intro at_ low high
  unfold Apart at apart
  exact if_neg (by omega)

theorem same_fill (m : Mem) (apart : Apart a n b k) : Same m (fill m a n) b k := by
  intro at_ low high
  unfold Apart at apart
  exact if_neg (by omega)

theorem Apart.symm (apart : Apart a n b k) : Apart b k a n :=
  Or.symm apart

theorem Apart.sub {c j : Nat} (apart : Apart a n b k) (low : b ≤ c) (high : c + j ≤ b + k) :
    Apart a n c j := by
  unfold Apart at *
  omega

theorem fill_self (low : a ≤ b) (high : b < a + n) : fill m a n b = 0 :=
  if_pos ⟨low, high⟩

theorem read_lt (m : Mem) (a n : Nat) : read m a n < 256 ^ n := by
  induction n generalizing a with
  | zero => exact Nat.one_pos
  | succ n ih =>
    have rest := ih (a + 1)
    rw [read]
    omega

theorem read_digits (digits : ∀ i, i < n → m (a + i) = BitVec.ofNat 8 (v / 256 ^ i)) :
    read m a n = v % 256 ^ n := by
  induction n generalizing a v with
  | zero => exact (Nat.mod_one v).symm
  | succ n ih =>
    have first := digits 0 (Nat.succ_pos n)
    rw [Nat.add_zero, Nat.pow_zero, Nat.div_one] at first
    have rest : read m (a + 1) n = v / 256 % 256 ^ n := by
      refine ih fun i small => ?_
      have next := digits (i + 1) (by omega)
      rw [Nat.div_div_eq_div_mul, ← Nat.pow_succ', ← next]
      congr 1
      omega
    have split : v % 256 ^ (n + 1) = v % 256 + 256 * (v / 256 % 256 ^ n) := by
      rw [Nat.pow_succ', Nat.mod_mul]
    rw [read, first, rest, BitVec.toNat_ofNat, split]

theorem read_write (small : v < 256 ^ n) : read (write m a n v) a n = v := by
  rw [read_digits, Nat.mod_eq_of_lt small]
  intro i below
  have shift : a + i - a = i := Nat.add_sub_cancel_left ..
  rw [write, if_pos ⟨by omega, by omega⟩, shift]

theorem Same.slice_eq (same : Same m m' a n) : slice m' a n = slice m a n := by
  refine List.map_congr_left fun i listed => ?_
  exact same (a + i) (by omega) (by have := List.mem_range.mp listed; omega)

section Record

variable {base : Nat} {fields : List (Nat × Nat × Nat)}

theorem same_record (m : Mem) (apart : ∀ field ∈ fields, Apart (base + field.1) field.2.1 b k) :
    Same m (record m base fields) b k := by
  induction fields generalizing m with
  | nil => exact Same.refl _ _ _
  | cons field rest ih =>
    obtain ⟨first, others⟩ := List.forall_mem_cons.mp apart
    exact (same_write m _ first).trans (ih _ others)

theorem read_record {o : Nat} (base : Nat) (m : Mem)
    (apart : fields.Pairwise fun x y => Apart x.1 x.2.1 y.1 y.2.1)
    (listed : (o, n, v) ∈ fields) (small : v < 256 ^ n) :
    read (record m base fields) (base + o) n = v := by
  induction fields generalizing m with
  | nil => exact absurd listed List.not_mem_nil
  | cons field rest ih =>
    obtain ⟨first, others⟩ := List.pairwise_cons.mp apart
    rcases List.mem_cons.mp listed with rfl | later
    · have kept : Same (write m (base + o) n v)
          (record (write m (base + o) n v) base rest) (base + o) n := by
        refine same_record _ fun field inRest => ?_
        have off := first field inRest
        dsimp only at off
        unfold Apart at *
        omega
      exact kept.read_eq.trans (read_write small)
    · exact ih _ others later

end Record

theorem same_copy {d s : Nat} (m : Mem) (apart : Apart d n b k) : Same m (copy m d s n) b k := by
  induction n with
  | zero => exact Same.refl _ _ _
  | succ n ih =>
    intro at_ low high
    unfold Apart at apart ih
    rw [copy, Function.update_of_ne (by omega)]
    exact ih (by omega) at_ low high

theorem copy_get {d s i : Nat} (apart : Apart d n s n) (below : i < n) :
    copy m d s n (d + i) = m (s + i) := by
  induction n with
  | zero => exact absurd below (Nat.not_lt_zero i)
  | succ n ih =>
    have shorter : Apart d n s n := by
      unfold Apart at *
      omega
    rw [copy]
    by_cases isLast : i = n
    · subst isLast
      rw [Function.update_self]
      refine same_copy m (k := 1) ?_ _ le_rfl (Nat.lt_succ_self _)
      unfold Apart at *
      omega
    · rw [Function.update_of_ne (by omega)]
      exact ih shorter (by omega)

end Frame

/-! ## Chains -/

/-- The places linked from `head`. -/
def Chain (m : Mem) : Nat → List Nat → Prop
  | head, [] => head = 0
  | head, x :: rest => head = x ∧ x ≠ 0 ∧ Chain m (read m x 8) rest

section Chain

variable {m m' : Mem} {head : Nat} {xs : List Nat}

theorem Chain.eq_nil_iff (chain : Chain m head xs) : head = 0 ↔ xs = [] := by
  cases xs with
  | nil => exact ⟨fun _ => rfl, fun _ => chain⟩
  | cons x rest =>
    obtain ⟨rfl, some, -⟩ := chain
    exact ⟨fun none => absurd none some, nofun⟩

theorem Chain.frame (chain : Chain m head xs) (same : ∀ x ∈ xs, Same m m' x 8) :
    Chain m' head xs := by
  induction xs generalizing head with
  | nil => exact chain
  | cons x rest ih =>
    obtain ⟨isHead, some, chain⟩ := chain
    refine ⟨isHead, some, ?_⟩
    rw [(same x (List.mem_cons_self ..)).read_eq]
    exact ih chain fun y listed =>
      same y (List.mem_cons_of_mem _ listed)

theorem Chain.push {x : Nat} (chain : Chain m head xs) (some : x ≠ 0) (small : head < 256 ^ 8)
    (apart : ∀ y ∈ xs, Apart x 8 y 8) : Chain (write m x 8 head) x (x :: xs) := by
  refine ⟨rfl, some, ?_⟩
  rw [read_write small]
  exact chain.frame fun y listed => same_write m head (apart y listed)

end Chain

end CaraOS.ByteMem
