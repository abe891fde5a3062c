import CaraOS.Croi.HeapInv

namespace CaraOS.Croi

/-!
# Runs of the heap

What one call does to the invariant, hence what holds after any sequence of
calls and stores.  The counters are `u32` and `u64`, so they show the numbers
of live blocks and bytes modulo their width.
-/

open ByteMem List

/-- The invariant, for some grants and free lists. -/
def HeapRun.Inv (r : HeapRun) : Prop :=
  ∃ grants free, HeapInv r.sys r.live grants free

section Step

variable {sys : HeapSys} {live : List Block} {grants : List Grant}
  {free : HeapId → Nat → List Nat} {id : HeapId} {size : Nat}
  {grant : Option Nat}

/-- A new block of zeros beside the live ones. -/
structure Served
    (sys : HeapSys)
    (live : List Block)
    (id : HeapId)
    (size : Nat)
    (answer : Nat × HeapSys) : Prop where
  notNull : answer.1 ≠ 0
  inv : HeapRun.Inv ⟨answer.2, ⟨id, answer.1, size⟩ :: live⟩
  zero : ∀ a, answer.1 ≤ a → a < answer.1 + capacity size → answer.2.mem a = 0
  kept : Kept sys.mem answer.2.mem live

theorem not_noRoom_some {page : Nat} (positive : size ≠ 0) : ¬ NoRoom id size (some page) sys :=
  not_or.mpr ⟨positive, fun both => nomatch both.2⟩

section

variable (inv : HeapInv sys live grants free)
include inv

theorem HeapInv.takeObject_served {cid x : Nat} {rest : List Nat} (isFree : free id cid = x :: rest)
    (isClass : sizeToClass size = some cid) (small : size < 2 ^ 32) :
    Served sys live id size (CaraOS.Croi.takeObject id cid sys) := by
  obtain ⟨isPtr, notNull, after, zero, kept⟩ := inv.takeObject isFree isClass small
  rw [← isPtr] at notNull after zero
  exact ⟨notNull, ⟨_, _, after⟩, zero, kept⟩

/-- An allocation fails only for want of room, and then it changes nothing. -/
theorem HeapInv.allocFrom (small : size < 2 ^ 32) (good : GoodGrant sys id size grant) :
    (NoRoom id size grant sys ∧ allocFrom id size grant sys = (0, sys)) ∨
      (¬ NoRoom id size grant sys ∧ Served sys live id size (allocFrom id size grant sys)) := by
  unfold CaraOS.Croi.allocFrom
  by_cases isZero : size = 0
  · rw [if_pos isZero]
    exact .inl ⟨.inl isZero, rfl⟩
  rw [if_neg isZero]
  cases isClass : sizeToClass size with
  | some cid =>
    dsimp only
    obtain ⟨known, -⟩ := sizeToClass_spec isClass
    have isEmpty := (inv.chain id cid).eq_nil_iff
    by_cases none : ((sys.heaps id).classes cid).freeHead = 0
    · rw [if_pos none]
      have one : pagesNeeded id size sys = 1 := by
        unfold pagesNeeded
        rw [isClass]
        exact if_pos none
      have needed : pagesNeeded id size sys ≠ 0 := by
        rw [one]
        exact Nat.one_ne_zero
      cases grant with
      | none => exact .inl ⟨.inr ⟨needed, rfl⟩, rfl⟩
      | some page =>
        have fresh := good needed
        rw [one] at fresh
        obtain ⟨grown, isGrown, invGrown, keptGrown⟩ := inv.slabGrow known (isEmpty.mp none) fresh
        rw [isGrown]
        -- A slab has at least one object, so the class has one now.
        obtain ⟨n, count⟩ := Nat.exists_eq_succ_of_ne_zero (classShape known).some.ne'
        rw [count] at invGrown
        have served := invGrown.takeObject_served setFree_self isClass small
        exact .inr ⟨not_noRoom_some isZero, { served with
          kept := fun b isLive => (keptGrown b isLive).trans (served.kept b isLive) }⟩
    · rw [if_neg none]
      cases isFree : free id cid with
      | nil => exact absurd (isEmpty.mpr isFree) none
      | cons x rest =>
        have enough : pagesNeeded id size sys = 0 := by
          unfold pagesNeeded
          rw [isClass]
          exact if_neg none
        exact .inr ⟨not_or.mpr ⟨isZero, fun both => both.1 enough⟩,
          inv.takeObject_served isFree isClass small⟩
  | none =>
    have pages : pagesNeeded id size sys = pagesFor size := by
      unfold pagesNeeded
      rw [isClass]
    have needed : pagesNeeded id size sys ≠ 0 := by
      rw [pages]
      exact (pagesFor_spec small).2.1.ne'
    cases grant with
    | none => exact .inl ⟨.inr ⟨needed, rfl⟩, rfl⟩
    | some page =>
      have fresh := good needed
      rw [pages] at fresh
      obtain ⟨isPtr, after, zero, kept⟩ := inv.allocLarge isClass small fresh
      exact .inr ⟨not_noRoom_some isZero,
        Nat.ne_of_gt (Nat.add_pos_right _ (by decide)), ⟨_, _, after⟩, zero, kept⟩

theorem HeapInv.croiFree {b : Block} (isLive : b ∈ live) :
    HeapRun.Inv ⟨croiFree b.ptr sys, live.erase b⟩ ∧
      Kept sys.mem (CaraOS.Croi.croiFree b.ptr sys).mem (live.erase b) := by
  cases isClass : sizeToClass b.size with
  | some cid =>
    obtain ⟨after, kept⟩ := inv.freeSmall isLive isClass
    exact ⟨⟨_, _, after⟩, kept⟩
  | none =>
    obtain ⟨⟨left, after⟩, kept⟩ := inv.freeLarge isLive isClass
    exact ⟨⟨left, free, after⟩, kept⟩

end

end Step

section Run

variable {r last : HeapRun} {op : HeapOp} {ops : List HeapOp}

theorem HeapOp.Step.keeps (step : op.Step r last) (inv : r.Inv) : last.Inv := by
  obtain ⟨grants, free, inv⟩ := inv
  cases step with
  | alloc small good =>
    rcases inv.allocFrom small good with ⟨-, same⟩ | ⟨-, served⟩
    · rw [same, if_pos rfl]
      exact ⟨grants, free, inv⟩
    · rw [if_neg served.notNull]
      exact served.inv
  | free isLive => exact (inv.croiFree isLive).1
  | store isLive low high => exact ⟨grants, free, inv.store isLive low high _⟩

theorem HeapRun.Reaches.keeps (reached : r.Reaches ops last) (inv : r.Inv) : last.Inv := by
  induction reached with
  | nil => exact inv
  | snoc before step ih =>
    exact step.keeps ih

theorem HeapRun.init_inv (mem : Mem) (lists : HeapId → Nat → Nat) (lo hi : Nat) :
    (HeapRun.init mem lists lo hi).Inv :=
  ⟨[], _, .init mem lists lo hi⟩

end Run

/-! ## What a user of the heap sees -/

/-- The header at the start of the pages, by its magic number. -/
def headerSizeAt (mem : Mem) (page : Nat) : Nat :=
  if read mem page 4 = slabMagic then slabHeaderSize else largeHeaderSize

/-- The correctness of the heaps, in terms of the live blocks alone. -/
structure HeapRun.Sound (r : HeapRun) : Prop where
  large : ∀ b ∈ r.live, b.size ≤ capacity b.size
  inside : ∀ b ∈ r.live, ∃ range ∈ r.sys.ranges, range.1 ≤ b.ptr ∧
        b.ptr + capacity b.size ≤ range.1 + range.2 * pageSize
  apart : r.live.Pairwise fun b c =>
      Apart b.ptr (capacity b.size) c.ptr (capacity c.size)
  magic : ∀ range ∈ r.sys.ranges, read r.sys.mem range.1 4 = slabMagic ∨
      read r.sys.mem range.1 4 = largeMagic
  headers : ∀ b ∈ r.live, ∀ range ∈ r.sys.ranges,
      Apart range.1 (headerSizeAt r.sys.mem range.1) b.ptr (capacity b.size)
  inFlight : ∀ id cid, ((r.sys.heaps id).classes cid).inFlight.toNat =
      smallCount r.live id cid % 2 ^ 32
  largeInFlight : ∀ id, (r.sys.heaps id).largeInFlight.toNat = largeCount r.live id % 2 ^ 32
  bytesInFlight : ∀ id, (r.sys.heaps id).bytesInFlight.toNat = liveBytes r.live id % 2 ^ 64

section Sound

variable {sys : HeapSys} {live : List Block} {grants : List Grant}
  {free : HeapId → Nat → List Nat} {g : Grant}

theorem HeapInv.header_at (inv : HeapInv sys live grants free) (isG : g ∈ grants) :
    (read sys.mem g.page 4 = slabMagic ∨ read sys.mem g.page 4 = largeMagic) ∧
      headerSizeAt sys.mem g.page = g.headerSize := by
  have header := inv.header isG
  unfold Grant.Header at header
  unfold headerSizeAt Grant.headerSize
  cases isClass : g.cls with
  | some cid =>
    rw [isClass] at header
    rw [header.1]
    exact ⟨.inl rfl, if_pos rfl⟩
  | none =>
    rw [isClass] at header
    rw [header.1]
    exact ⟨.inr rfl, if_neg (by decide)⟩

theorem HeapRun.Inv.sound {r : HeapRun} (inv : r.Inv) : r.Sound := by
  obtain ⟨grants, free, inv⟩ := inv
  have carved := inv.carved
  refine ⟨?_, ?_, ?_, ?_, ?_, ?_, ?_, ?_⟩
  · exact fun b isLive => le_capacity (carved.small isLive)
  · intro b isLive
    obtain ⟨g, isG, inG⟩ := carved.grant_of_live isLive
    obtain ⟨low, high, -⟩ := Grant.slot_inside (carved.valid isG) inG
    refine ⟨(g.page, g.nPages), ?_, le_trans (Nat.le_add_right ..) low, high⟩
    rw [inv.ranges]
    exact mem_map_of_mem isG
  · refine (pairwise_map.mp carved.nodupLive).imp_of_mem ?_
    intro b c isB isC different
    exact carved.slots_apart (carved.grant_of_live isB) (carved.grant_of_live isC) different
  · intro range listed
    rw [inv.ranges] at listed
    obtain ⟨g, isG, rfl⟩ := mem_map.mp listed
    exact (inv.header_at isG).1
  · intro b isLive range listed
    rw [inv.ranges] at listed
    obtain ⟨g, isG, rfl⟩ := mem_map.mp listed
    rw [(inv.header_at isG).2]
    exact carved.header_apart isG (carved.grant_of_live isLive)
  · intro id cid
    rw [inv.counts.small, BitVec.toNat_ofNat]
  · intro id
    rw [inv.counts.large, BitVec.toNat_ofNat]
  · intro id
    rw [inv.counts.bytes, BitVec.toNat_ofNat]

end Sound

/--
After any sequence of allocations, frees of live pointers and stores into live
blocks, the heaps are sound, with the counters modulo their width, and the
next block that is handed out is all zeros and keeps them so.
-/
theorem heap_run_sound {mem : Mem} {lists : HeapId → Nat → Nat} {lo hi : Nat} {ops : List HeapOp}
    {r : HeapRun}
    (reached : (HeapRun.init mem lists lo hi).Reaches ops r) :
    r.Sound ∧
      ∀ id size grant, size < 2 ^ 32 → GoodGrant r.sys id size grant →
        (allocFrom id size grant r.sys).1 ≠ 0 →
        HeapRun.Sound
            { sys := (allocFrom id size grant r.sys).2
              live := ⟨id, (allocFrom id size grant r.sys).1, size⟩ :: r.live }
          ∧ ∀ a, (allocFrom id size grant r.sys).1 ≤ a →
            a < (allocFrom id size grant r.sys).1 + capacity size →
            (allocFrom id size grant r.sys).2.mem a = 0 := by
  have inv := reached.keeps (HeapRun.init_inv mem lists lo hi)
  refine ⟨inv.sound, ?_⟩
  intro id size grant small good isPtr
  obtain ⟨grants, free, inv⟩ := inv
  rcases inv.allocFrom small good with ⟨-, same⟩ | ⟨-, served⟩
  · exact absurd (congrArg Prod.fst same) isPtr
  · exact ⟨served.inv.sound, served.zero⟩

/-- The heaps before anything is allocated, without a shared window. -/
def HeapRun.blank : HeapRun :=
  .init (fun _ => 0) (fun _ _ => 0) 0 0

/-- Two blocks of 100 bytes, the first one freed, and a third in its place. -/
theorem heap_run_sound_reused :
    ∃ r, HeapRun.blank.Reaches
        [.alloc .kernel 100 (some pageSize), .alloc .kernel 100 none, .free 8064] r ∧
      r.live = [⟨.kernel, 7936, 100⟩] ∧ r.Sound ∧ (allocFrom .kernel 100 none r.sys).1 = 8064 ∧
      HeapRun.Sound ⟨(allocFrom .kernel 100 none r.sys).2,
        [⟨.kernel, 8064, 100⟩, ⟨.kernel, 7936, 100⟩]⟩ := by
  have unasked (sys : HeapSys) : GoodGrant sys .kernel 100 none := trivial
  have good : GoodGrant HeapRun.blank.sys .kernel 100 (some pageSize) :=
    fun _ => ⟨by decide, by decide, by decide, nofun, .inr (by decide)⟩
  have one := HeapRun.Reaches.snoc .nil (.alloc (by decide) good)
  have two := one.snoc (.alloc (by decide) (unasked _))
  have reached := two.snoc (.free (b := ⟨.kernel, 8064, 100⟩) (by decide +kernel))
  have sound := heap_run_sound reached
  refine ⟨_, reached, by decide +kernel, sound.1, by decide +kernel, ?_⟩
  exact (sound.2 .kernel 100 none (by decide) trivial (by decide +kernel)).1

/-! ## More blocks than a counter can count -/

/-- The k-th page, the null page left out. -/
def nthPage (k : Nat) : Nat :=
  (k + 1) * pageSize

/-- A run with that many large blocks of one page each. -/
structure Hoard (n : Nat) (r : HeapRun) : Prop where
  reached : ∃ ops, HeapRun.blank.Reaches ops r
  count : largeCount r.live .kernel = n
  window : r.sys.sharedHi = 0
  ranges : ∀ range ∈ r.sys.ranges, ∃ k < n, range = (nthPage k, 1)

theorem Hoard.more {n : Nat} {r : HeapRun} (hoard : Hoard n r) (room : n < 2 ^ 51) :
    ∃ after, Hoard (n + 1) after := by
  obtain ⟨⟨ops, reached⟩, count, window, ranges⟩ := hoard
  have isLarge : sizeToClass 2049 = none := by decide
  have one : pagesFor 2049 = 1 := by decide
  have fresh : FreshRange r.sys .kernel (nthPage n) (pagesFor 2049) := by
    rw [one]
    have isSize : pageSize = 4096 := rfl
    have isPage (k : Nat) : nthPage k = (k + 1) * 4096 := rfl
    have here := isPage n
    refine ⟨by omega, Nat.mul_mod_left .., by omega, ?_, .inr (by omega)⟩
    intro range listed
    obtain ⟨k, less, rfl⟩ := ranges range listed
    have there := isPage k
    right
    omega
  have good : GoodGrant r.sys .kernel 2049 (some (nthPage n)) := by
    intro _
    unfold pagesNeeded
    rwa [isLarge]
  have step := HeapOp.Step.alloc (show 2049 < 2 ^ 32 by decide) good
  have taken : allocFrom .kernel 2049 (some (nthPage n)) r.sys =
      allocLarge .kernel 2049 (some (nthPage n)) r.sys := by
    unfold allocFrom
    rw [if_neg (by decide), isLarge]
  have isPtr : ¬ (allocLarge .kernel 2049 (some (nthPage n)) r.sys).1 = 0 :=
    Nat.ne_of_gt (Nat.add_pos_right _ (by decide))
  rw [taken, if_neg isPtr] at step
  refine ⟨_, ⟨_, reached.snoc step⟩, ?_, window, ?_⟩
  · rw [largeCount_cons, count]
    exact congrArg (n + ·) (if_pos ⟨rfl, isLarge⟩)
  · intro range listed
    rcases mem_cons.mp listed with rfl | older
    · exact ⟨n, Nat.lt_succ_self n, by rw [one]⟩
    · obtain ⟨k, less, isPage⟩ := ranges range older
      exact ⟨k, Nat.lt_succ_of_lt less, isPage⟩

theorem hoard_exists (n : Nat) (room : n ≤ 2 ^ 51) : ∃ r, Hoard n r := by
  induction n with
  | zero =>
    exact ⟨.blank, ⟨[], .nil⟩, rfl, rfl, nofun⟩
  | succ n ih =>
    obtain ⟨r, hoard⟩ := ih (by omega)
    exact hoard.more room

/-- With 2^32 large blocks in use, `large_in_flight` is 0. -/
theorem largeInFlight_wraps :
    ∃ ops r, HeapRun.blank.Reaches ops r ∧
      largeCount r.live .kernel = 2 ^ 32 ∧
      (r.sys.heaps .kernel).largeInFlight = 0 := by
  obtain ⟨r, ⟨ops, reached⟩, count, -, -⟩ :=
    hoard_exists (2 ^ 32) (Nat.pow_le_pow_right (by decide) (by decide))
  have sound := (reached.keeps (HeapRun.init_inv ..)).sound
  refine ⟨ops, r, reached, count, ?_⟩
  apply BitVec.eq_of_toNat_eq
  rw [sound.largeInFlight, count]
  rfl

end CaraOS.Croi
