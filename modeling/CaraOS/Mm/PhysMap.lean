import Mathlib.Order.Interval.Finset.Nat
import CaraOS.Carafs.Format

namespace CaraOS.Mm

/-!
# The map of physical memory

`physmap.c`: the reservations are taken out of the memory banks one after the
other, and what is left of every bank is cut down to whole pages.  Addresses
and sizes are 64 bits wide and wrap.

The banks and the reservations are lists here: what the iterators over the
device tree return, up to their first error.
-/

open List
open Carafs (Err)

/-- `struct PhysRun`. -/
structure PhysRun where
  base : Nat
  size : Nat
  deriving DecidableEq

/-- What the device tree says about memory, in the order it is read. -/
structure MemoryNodes where
  memory : List PhysRun
  memreserve : List PhysRun
  reservedMemory : List PhysRun

/-- `struct PhysMap`. -/
structure PhysMap where
  bank : List PhysRun
  totalBytes : Nat
  usable : List PhysRun
  usableBytes : Nat

/-! ## Building the map -/

/-- Put a run at the end of an array with that many places. -/
def push (places : Nat) (runs : List PhysRun) (run : PhysRun) : Except Err (List PhysRun) :=
  if places ≤ runs.length then .error .erange else .ok (runs ++ [run])

/-- `reserved_add`, with `MAX_RESERVED` places. -/
def reservedAdd (rl : List PhysRun) (run : PhysRun) : Except Err (List PhysRun) :=
  if run.size = 0 then .ok rl else push 32 rl run

/-- The end of a run, in 64 bits. -/
def PhysRun.top (run : PhysRun) : Nat :=
  (run.base + run.size) % 2 ^ 64

def subtractOne (bank rsv : PhysRun) : List PhysRun :=
  if rsv.top ≤ bank.base ∨ bank.top ≤ rsv.base then [bank]
  else
    (if bank.base < rsv.base then [⟨bank.base, rsv.base - bank.base⟩] else [])
      ++ if rsv.top < bank.top then [⟨rsv.top, bank.top - rsv.top⟩] else []

/-- `align_up` to a page. -/
def alignUp (v : Nat) : Nat :=
  (v + 4095) % 2 ^ 64 / 4096 * 4096

/-- `align_down` to a page. -/
def alignDown (v : Nat) : Nat :=
  v / 4096 * 4096

def wholePages (piece : PhysRun) : Option PhysRun :=
  if alignDown piece.top ≤ alignUp piece.base then none
  else
    some ⟨alignUp piece.base, alignDown piece.top - alignUp piece.base⟩

/-- What the loop over the pieces makes of one reservation. -/
def subtractFrom (work : List PhysRun) (rsv : PhysRun) : Except Err (List PhysRun) :=
  (work.flatMap (subtractOne · rsv)).foldlM (push 64) []

/-- The run between two addresses, if the second one is larger. -/
def between (start stop : Nat) : List PhysRun :=
  if start < stop then [⟨start, stop - start⟩] else []

/-- The sizes added up in 64 bits. -/
def bytes (runs : List PhysRun) : Nat :=
  (runs.map PhysRun.size).sum % 2 ^ 64

/-- The reservations in the order in which they are added. -/
def reservations (tree : MemoryNodes)
    (kernelStart kernelEnd dtbStart dtbEnd : Nat) : List PhysRun :=
  tree.memreserve ++ tree.reservedMemory ++ between kernelStart kernelEnd ++ between dtbStart dtbEnd

def mmPhysMapFromFdt (tree : MemoryNodes)
    (kernelStart kernelEnd dtbStart dtbEnd : Nat) : Except Err PhysMap := do
  let bank ← tree.memory.foldlM (push 8) []
  if bank = [] then throw .enotfound
  let reserved ← (reservations tree kernelStart kernelEnd dtbStart dtbEnd).foldlM reservedAdd []
  let work ← bank.foldlM (push 64) []
  let work ← reserved.foldlM subtractFrom work
  let usable ← (work.filterMap wholePages).foldlM (push 32) []
  return ⟨bank, bytes bank, usable, bytes usable⟩

/-! ## What the map should be -/

/-- The end of a run does not overflow. -/
def PhysRun.Fits (run : PhysRun) : Prop :=
  run.base + run.size < 2 ^ 64

def PhysRun.Has (run : PhysRun) (address : Nat) : Prop :=
  run.base ≤ address ∧ address < run.base + run.size

/-- The runs have no address in common. -/
def Apart (run other : PhysRun) : Prop :=
  ∀ address, run.Has address → ¬ other.Has address

/-- The page lies wholly inside the run. -/
def PhysRun.Holds (run : PhysRun) (page : Nat) : Prop :=
  run.base ≤ page ∧ page + 4096 ≤ run.base + run.size
  deriving Decidable

/-- The page and the run have an address in common. -/
def PhysRun.Meets (run : PhysRun) (page : Nat) : Prop :=
  run.size ≠ 0 ∧ page < run.base + run.size ∧ run.base < page + 4096
  deriving Decidable

/-- The page lies inside one bank and touches no reservation. -/
def Free (banks reserved : List PhysRun) (page : Nat) : Prop :=
  (∃ bank ∈ banks, bank.Holds page) ∧ ∀ rsv ∈ reserved, ¬ rsv.Meets page
  deriving Decidable

/-- How many of the runs the page lies in. -/
def holders (runs : List PhysRun) (page : Nat) : Nat :=
  runs.countP fun run => run.Holds page

structure Exact (banks reserved : List PhysRun) (map : PhysMap) : Prop where
  pages : ∀ page, 4096 ∣ page → page < 2 ^ 64 →
    holders map.usable page = if Free banks reserved page then 1 else 0
  aligned : ∀ run ∈ map.usable, 4096 ∣ run.base ∧ 4096 ∣ run.size
  disjoint : map.usable.Pairwise Apart
  bytes : map.usableBytes = (map.usable.map PhysRun.size).sum

/-- What is left of the banks when the reservations are taken out. -/
def pieces (banks reserved : List PhysRun) : List PhysRun :=
  (reserved.filter (·.size ≠ 0)).foldl (fun work rsv => work.flatMap (subtractOne · rsv)) banks

/-- The piece begins behind the first address of the last page. -/
def PhysRun.Late (piece : PhysRun) : Prop :=
  2 ^ 64 - 4096 < piece.base
  deriving Decidable

/-! ## Arrays that do not overflow -/

theorem bind_ok {first : Except Err α} {next : α → Except Err β} {result : β}
    (done : first >>= next = .ok result) :
    ∃ value, first = .ok value ∧ next value = .ok result := by
  cases first with
  | error err => cases done
  | ok value => exact ⟨value, rfl, done⟩

variable {runs done work : List PhysRun} {rsv piece : PhysRun} {start : List PhysRun}

theorem push_all {places : Nat}
    (pushed : runs.foldlM (push places) start = .ok done) : done = start ++ runs := by
  induction runs generalizing start with
  | nil => simpa using (Except.ok.inj pushed).symm
  | cons run rest ih =>
    rw [foldlM_cons] at pushed
    unfold push at pushed
    split at pushed
    · cases pushed
    · simpa using ih pushed

theorem reservedAdd_all (added : runs.foldlM reservedAdd start = .ok done) :
    done = start ++ runs.filter (·.size ≠ 0) := by
  induction runs generalizing start with
  | nil => simpa using (Except.ok.inj added).symm
  | cons run rest ih =>
    rw [foldlM_cons] at added
    unfold reservedAdd push at added
    split at added
    · simpa [*] using ih added
    · split at added
      · cases added
      · simpa [*] using ih added

theorem subtractFrom_all {reserved : List PhysRun}
    (subtracted : reserved.foldlM subtractFrom work = .ok done) :
    done = reserved.foldl
      (fun work rsv => work.flatMap (subtractOne · rsv)) work := by
  induction reserved generalizing work with
  | nil => exact (Except.ok.inj subtracted).symm
  | cons rsv rest ih =>
    rw [foldlM_cons] at subtracted
    cases next : subtractFrom work rsv with
    | error err => simp [next, bind, Except.bind] at subtracted
    | ok after =>
      have isNext := push_all next
      rw [next] at subtracted
      rw [ih subtracted, isNext, nil_append, foldl_cons]

theorem mmPhysMapFromFdt_ok {tree : MemoryNodes} {kernelStart kernelEnd dtbStart dtbEnd : Nat}
    {map : PhysMap} (made : mmPhysMapFromFdt tree kernelStart kernelEnd dtbStart dtbEnd = .ok map) :
    map.usable = (pieces tree.memory (reservations tree kernelStart kernelEnd
        dtbStart dtbEnd)).filterMap wholePages ∧
      map.usableBytes = bytes map.usable := by
  obtain ⟨bank, banks, made⟩ := bind_ok made
  split at made
  · cases made
  obtain ⟨reserved, added, made⟩ := bind_ok made
  obtain ⟨work, copied, made⟩ := bind_ok made
  obtain ⟨left, subtracted, made⟩ := bind_ok made
  obtain ⟨usable, kept, made⟩ := bind_ok made
  cases made
  refine ⟨?_, rfl⟩
  rw [push_all kept, subtractFrom_all subtracted, push_all copied,
    reservedAdd_all added, push_all banks]
  rfl

/-! ## Taking out reservations -/

variable {bank : PhysRun}

theorem subtractOne_fits
    (bankFits : bank.Fits) (isPiece : piece ∈ subtractOne bank rsv) : piece.Fits := by
  have below : bank.top < 2 ^ 64 := Nat.mod_lt _ (by decide)
  unfold subtractOne at isPiece
  split_ifs at isPiece <;> simp at isPiece <;> simp [PhysRun.Fits] at * <;>
    grind

@[simp] theorem holders_nil (page : Nat) : holders [] page = 0 :=
  rfl

@[simp] theorem holders_append (runs more : List PhysRun) (page : Nat) :
    holders (runs ++ more) page = holders runs page + holders more page :=
  countP_append

theorem holders_cons (run : PhysRun) (runs : List PhysRun) (page : Nat) :
    holders (run :: runs) page
      = holders runs page + if run.Holds page then 1 else 0 := by
  simp [holders, countP_cons]

theorem subtractOne_holders (page : Nat) (bankFits : bank.Fits) (rsvFits : rsv.Fits)
    (real : rsv.size ≠ 0) :
    holders (subtractOne bank rsv) page
      = if rsv.Meets page then 0 else holders [bank] page := by
  simp only [subtractOne, PhysRun.top, Nat.mod_eq_of_lt bankFits, Nat.mod_eq_of_lt rsvFits]
  split_ifs <;> simp only [holders_append, holders_cons, holders_nil,
    PhysRun.Holds, PhysRun.Meets] at * <;> grind

theorem subtract_holders (page : Nat) (workFits : ∀ run ∈ work, run.Fits) (rsvFits : rsv.Fits)
    (real : rsv.size ≠ 0) :
    holders (work.flatMap (subtractOne · rsv)) page
      = if rsv.Meets page then 0 else holders work page := by
  induction work with
  | nil => simp [holders]
  | cons run rest ih =>
    simp only [forall_mem_cons] at workFits
    have first := subtractOne_holders page workFits.1 rsvFits real
    have others := ih workFits.2
    simp only [flatMap_cons, holders_append, holders_cons, holders_nil] at *
    rw [first, others]
    split_ifs <;> simp; omega

theorem pieces_holders {banks reserved : List PhysRun}
    (page : Nat) (banksFit : ∀ bank ∈ banks, bank.Fits) (reservedFit : ∀ rsv ∈ reserved, rsv.Fits) :
    (∀ piece ∈ pieces banks reserved, piece.Fits) ∧
      holders (pieces banks reserved) page
        = if ∀ rsv ∈ reserved, ¬ rsv.Meets page then holders banks page
          else 0 := by
  unfold pieces
  induction reserved generalizing banks with
  | nil => simp_all
  | cons rsv rest ih =>
    simp only [forall_mem_cons] at reservedFit
    by_cases real : rsv.size = 0
    · have others := ih banksFit reservedFit.2
      simpa [real, PhysRun.Meets] using others
    · have nextFits : ∀ piece ∈ banks.flatMap (subtractOne · rsv), piece.Fits := by
        intro piece isPiece
        obtain ⟨bank, isBank, isPiece⟩ := mem_flatMap.mp isPiece
        exact subtractOne_fits (banksFit bank isBank) isPiece
      have next := subtract_holders page banksFit reservedFit.1 real
      obtain ⟨fits, counted⟩ := ih nextFits reservedFit.2
      rw [filter_cons_of_pos (by simpa using real), foldl_cons]
      refine ⟨fits, ?_⟩
      rw [counted, next]
      simp only [forall_mem_cons]
      split_ifs <;> tauto

/-! ## Whole pages -/

/-- The whole pages of a piece hold a page exactly if the piece does, unless
the piece begins in the last page. -/
theorem wholePages_holders {page : Nat}
    (fits : piece.Fits) (aligned : 4096 ∣ page) (inRange : page < 2 ^ 64) :
    holders (wholePages piece).toList page
      = holders [piece] page
        + if piece.Late ∧ page < 2 ^ 64 - 4096 then 1 else 0 := by
  obtain ⟨k, rfl⟩ := aligned
  simp only [PhysRun.Fits] at fits
  simp only [wholePages, PhysRun.top, Nat.mod_eq_of_lt fits, alignUp, alignDown, PhysRun.Late]
  rcases Nat.lt_or_ge (2 ^ 64 - 4096) piece.base with late | early
  · have wraps : (piece.base + 4095) % 2 ^ 64 / 4096 = 0 := by omega
    have last : (piece.base + piece.size) / 4096 = 2 ^ 52 - 1 := by omega
    rw [wraps, last]
    simp [holders_cons, PhysRun.Holds]
    grind
  · split_ifs <;> simp [holders_cons, PhysRun.Holds] <;> grind

theorem usable_holders {page : Nat} (fits : ∀ piece ∈ work, piece.Fits) (aligned : 4096 ∣ page)
    (inRange : page < 2 ^ 64) :
    holders (work.filterMap wholePages) page
      = holders work page
        + if page < 2 ^ 64 - 4096 then work.countP (·.Late) else 0 := by
  induction work with
  | nil => simp [holders]
  | cons piece rest ih =>
    simp only [forall_mem_cons] at fits
    have first := wholePages_holders fits.1 aligned inRange
    simp only [filterMap_eq_flatMap_toList, flatMap_cons,
      holders_append, holders_cons, holders_nil, countP_cons] at *
    split_ifs <;> grind

theorem wholePages_aligned {run : PhysRun} (isRun : wholePages piece = some run) :
    4096 ∣ run.base ∧ 4096 ∣ run.size ∧ run.size ≠ 0 ∧ run.Fits := by
  have below : piece.top < 2 ^ 64 := Nat.mod_lt _ (by decide)
  unfold wholePages at isRun
  split at isRun
  · cases isRun
  · cases isRun
    simp only [alignUp, alignDown, PhysRun.Fits] at *
    omega

/-! ## Runs that are apart -/

theorem holders_of_apart (page : Nat) (disjoint : runs.Pairwise Apart) :
    holders runs page = if ∃ run ∈ runs, run.Holds page then 1 else 0 := by
  induction runs with
  | nil => simp [holders]
  | cons run rest ih =>
    obtain ⟨first, others⟩ := pairwise_cons.mp disjoint
    have counted := ih others
    rw [holders_cons, counted]
    by_cases held : run.Holds page
    · have alone : ¬ ∃ other ∈ rest, other.Holds page := by
        rintro ⟨other, isOther, both⟩
        exact first other isOther page ⟨held.1, by have := held.2; omega⟩
          ⟨both.1, by have := both.2; omega⟩
      simp [held, alone]
    · simp [held]

theorem apart_of_holders
    (aligned : ∀ run ∈ runs, 4096 ∣ run.base ∧ 4096 ∣ run.size ∧ run.size ≠ 0 ∧ run.Fits)
    (once : ∀ page, 4096 ∣ page → page < 2 ^ 64 → holders runs page ≤ 1) : runs.Pairwise Apart := by
  induction runs with
  | nil => exact .nil
  | cons run rest ih =>
    simp only [forall_mem_cons] at aligned
    simp only [holders_cons] at once
    refine .cons ?_ (ih aligned.2 fun page whole inRange =>
      Nat.le_of_add_right_le (once page whole inRange))
    intro other isOther address inRun inOther
    obtain ⟨⟨k, base⟩, ⟨n, size⟩, -, fits⟩ := aligned.1
    obtain ⟨⟨j, base'⟩, ⟨m, size'⟩, -, fits'⟩ := aligned.2 other isOther
    simp only [PhysRun.Fits, PhysRun.Has] at fits fits' inRun inOther
    -- the page of the common address lies in both
    have both : run.Holds (address / 4096 * 4096) ∧ other.Holds (address / 4096 * 4096) := by
      simp only [PhysRun.Holds]
      omega
    have more : 0 < holders rest (address / 4096 * 4096) :=
      countP_pos_iff.mpr ⟨other, isOther, by simpa using both.2⟩
    have := once (address / 4096 * 4096) ⟨_, Nat.mul_comm _ _⟩ (by omega)
    simp only [both.1, if_true] at this
    omega

theorem sum_le_of_apart (others : Finset Nat) (fits : ∀ run ∈ runs, run.Fits)
    (disjoint : runs.Pairwise Apart) (below : others ⊆ Finset.range (2 ^ 64 - 1))
    (spared : ∀ run ∈ runs, ∀ address ∈ others, ¬ run.Has address) :
    others.card + (runs.map PhysRun.size).sum ≤ 2 ^ 64 - 1 := by
  induction runs generalizing others with
  | nil => simpa using Finset.card_le_card below
  | cons run rest ih =>
    obtain ⟨first, apart⟩ := pairwise_cons.mp disjoint
    simp only [forall_mem_cons] at fits spared
    have fresh : Disjoint others (Finset.Ico run.base (run.base + run.size)) :=
      Finset.disjoint_left.mpr fun address isOther inRun =>
        spared.1 address isOther (Finset.mem_Ico.mp inRun)
    have rest := ih (others ∪ Finset.Ico run.base (run.base + run.size)) fits.2 apart
      (Finset.union_subset below fun address inRun => by
        have := Finset.mem_Ico.mp inRun
        have := fits.1
        simp only [PhysRun.Fits] at this
        exact Finset.mem_range.mpr (by omega))
      (fun other isOther address among => by
        rcases Finset.mem_union.mp among with isOld | inRun
        · exact spared.2 other isOther address isOld
        · exact first other isOther address (Finset.mem_Ico.mp inRun))
    rw [Finset.card_union_of_disjoint fresh, Nat.card_Ico] at rest
    simp only [map_cons, sum_cons]
    omega

/-! ## The map -/

/--
The map is exact if and only if no piece of a bank that is left between the
reservations begins behind the first address of the last page of all.
-/
theorem mmPhysMapFromFdt_exact_iff
    (tree : MemoryNodes) (kernelStart kernelEnd dtbStart dtbEnd : Nat)
    (map : PhysMap) (banksFit : ∀ bank ∈ tree.memory, bank.Fits)
    (banksApart : tree.memory.Pairwise Apart)
    (reservedFit : ∀ rsv ∈ reservations tree kernelStart kernelEnd dtbStart dtbEnd, rsv.Fits)
    (made : mmPhysMapFromFdt tree kernelStart kernelEnd dtbStart dtbEnd = .ok map) :
    Exact tree.memory
        (reservations tree kernelStart kernelEnd dtbStart dtbEnd) map ↔
      ∀ piece ∈ pieces tree.memory
        (reservations tree kernelStart kernelEnd dtbStart dtbEnd),
        ¬ piece.Late := by
  obtain ⟨isUsable, isBytes⟩ := mmPhysMapFromFdt_ok made
  generalize reservations tree kernelStart kernelEnd dtbStart dtbEnd = reserved at *
  have left := fun page =>
    pieces_holders page banksFit reservedFit
  have counted : ∀ page, 4096 ∣ page → page < 2 ^ 64 → holders map.usable page
        = (if Free tree.memory reserved page then 1 else 0) + if page < 2 ^ 64 - 4096 then
              (pieces tree.memory reserved).countP (·.Late)
            else 0 := by
    intro page whole inRange
    rw [isUsable, usable_holders (left page).1 whole inRange, (left page).2,
      holders_of_apart page banksApart]
    congr 1
    rw [← ite_and]
    exact if_congr and_comm rfl rfl
  constructor
  · intro exact' piece isPiece late
    have zero := counted 0 ⟨0, rfl⟩ (by decide)
    have := exact'.pages 0 ⟨0, rfl⟩ (by decide)
    have : 0 < (pieces tree.memory reserved).countP (·.Late) :=
      countP_pos_iff.mpr ⟨piece, isPiece, by simpa using late⟩
    simp only [show 0 < 2 ^ 64 - 4096 by decide, if_true] at zero
    omega
  · intro early
    have none : (pieces tree.memory reserved).countP (·.Late) = 0 :=
      countP_eq_zero.mpr (by simpa using early)
    have aligned : ∀ run ∈ map.usable, 4096 ∣ run.base ∧ 4096 ∣ run.size ∧
        run.size ≠ 0 ∧ run.Fits := by
      intro run isRun
      rw [isUsable] at isRun
      obtain ⟨piece, -, isRun⟩ := mem_filterMap.mp isRun
      exact wholePages_aligned isRun
    simp only [none, ite_self, Nat.add_zero] at counted
    have disjoint := apart_of_holders aligned fun page whole inRange => by
      rw [counted page whole inRange]
      split_ifs <;> simp
    refine ⟨counted, fun run isRun => ⟨(aligned run isRun).1,
      (aligned run isRun).2.1⟩, disjoint, ?_⟩
    have total := sum_le_of_apart ∅
      (fun run isRun => (aligned run isRun).2.2.2) disjoint (by simp) (by simp)
    rw [isBytes]
    exact Nat.mod_eq_of_lt (by omega)

/-- One bank of one page between reservations of half of it. -/
theorem mmPhysMapFromFdt_exact_between :
    ∃ map, mmPhysMapFromFdt ⟨[⟨0, 12288⟩], [⟨0, 100⟩], [⟨8192, 1⟩]⟩ 0 0 0 0
        = .ok map ∧
      Exact [⟨0, 12288⟩] [⟨0, 100⟩, ⟨8192, 1⟩] map :=
  ⟨⟨[⟨0, 12288⟩], 12288, [⟨4096, 4096⟩], 4096⟩, rfl,
    (mmPhysMapFromFdt_exact_iff ⟨[⟨0, 12288⟩], [⟨0, 100⟩], [⟨8192, 1⟩]⟩
      0 0 0 0 ⟨[⟨0, 12288⟩], 12288, [⟨4096, 4096⟩], 4096⟩
      (by simp [PhysRun.Fits]) (by simp)
      (by simp [reservations, between, PhysRun.Fits]) rfl).mpr (by decide)⟩

/-- The rest of the last page of all becomes a run from the first page on. -/
theorem mmPhysMapFromFdt_last_page :
    ∃ map, mmPhysMapFromFdt ⟨[⟨2 ^ 64 - 4095, 1⟩], [], []⟩ 0 0 0 0 = .ok map ∧
      map.usable = [⟨0, 2 ^ 64 - 4096⟩] ∧
      ¬ Exact [⟨2 ^ 64 - 4095, 1⟩] [] map := by
  refine ⟨⟨[⟨2 ^ 64 - 4095, 1⟩], 1, [⟨0, 2 ^ 64 - 4096⟩], 2 ^ 64 - 4096⟩, rfl,
    rfl, fun exact' => ?_⟩
  have := exact'.pages 0 ⟨0, rfl⟩ (by decide)
  revert this
  decide

end CaraOS.Mm
