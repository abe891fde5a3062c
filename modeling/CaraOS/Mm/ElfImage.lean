import CaraOS.Mm.LoadElf

namespace CaraOS.Mm

/-!
# What a program finds in its memory

The loader goes through its pages one by one.  Each page it maps is a fresh
one with the bytes of its segment, no later page takes it away again, and the
addresses of all other pages are translated as before.
-/

open Action (of_bind_ok wp_ok)
open List
open Carafs (Err)

/-- The byte at a physical address. -/
def MmSys.byteAt (sys : MmSys) (pa : Nat) : BitVec 8 :=
  sys.frames (pa / pageSize * pageSize) (pa % pageSize)

theorem MmSys.byteAt_page {sys : MmSys} {phys at_ : Nat}
    (aligned : phys % pageSize = 0) (inside : at_ < pageSize) :
    sys.byteAt (phys + at_) = sys.frames phys at_ := by
  have isPage : (phys + at_) / pageSize * pageSize = phys := by
    unfold pageSize at *
    omega
  have isOffset : (phys + at_) % pageSize = at_ := by
    unfold pageSize at *
    omega
  rw [MmSys.byteAt, isPage, isOffset]

/-- In the user half without wrapping, outside the slot of the shared heap. -/
def Phdr.InUserHalf (p : Phdr) : Prop :=
  p.vaddr + p.memsz ≤ 2 ^ 38 ∧ (p.vaddr + p.memsz ≤ sharedL2Index * 2 ^ 30 ∨
      (sharedL2Index + 1) * 2 ^ 30 ≤ p.vaddr)
  deriving Decidable

/-- The byte of a segment at an address. -/
def Phdr.byte (blob : Blob) (p : Phdr) (a : Nat) : BitVec 8 :=
  if p.vaddr ≤ a ∧ a < p.vaddr + p.filesz then
    blob.bytes (p.offset + (a - p.vaddr))
  else
    0

/-- A header that `load_segment` accepts, with a range for user code. -/
structure Phdr.Sits (p : Phdr) : Prop where
  user : p.InUserHalf
  memsz : p.filesz ≤ p.memsz
  offset : p.offset + p.filesz < 2 ^ 64

/-! ## One page -/

section Page

variable {p : Phdr} {j : Nat}

theorem Phdr.Sits.page (sits : p.Sits) (below : j < p.nPages) :
    p.vaLo ≤ p.pageVa j ∧ p.pageVa j + pageSize ≤ p.vaHi ∧
      p.pageVa j % pageSize = 0 ∧ p.pageVa j < 2 ^ 38 ∧
      l2Index (p.pageVa j) ≠ sharedL2Index := by
  obtain ⟨⟨small, slot⟩, -, -⟩ := sits
  have isHi : p.vaHi = (p.vaddr + p.memsz + 4095) / 4096 * 4096 := by
    unfold Phdr.vaHi pageSize
    omega
  have isCount : p.nPages = p.vaHi / 4096 - p.vaddr / 4096 := by
    unfold Phdr.nPages Phdr.vaLo pageSize
    omega
  have isVa : p.pageVa j = (p.vaddr / 4096 + j) * 4096 := by
    unfold Phdr.pageVa Phdr.vaLo pageSize
    omega
  unfold Phdr.vaLo l2Index pageSize at *
  omega

theorem copyPage_byte {at_ : Nat}
    (blob : Blob) (sys : MmSys) (phys : Nat) (rest : List Nat) (sits : p.Sits)
    (below : j < p.nPages) (inside : at_ < pageSize) :
    (copyPage blob p (p.pageVa j) phys (sys.take phys rest)).frames phys at_ =
      p.byte blob (p.pageVa j + at_) := by
  obtain ⟨-, -, -, low, -⟩ := sits.page below
  obtain ⟨⟨small, -⟩, memsz, offset⟩ := sits
  have isLo : p.copyLo (p.pageVa j) = max (p.pageVa j) p.vaddr := by
    unfold Phdr.copyLo
    split <;> omega
  have isHi : p.copyHi (p.pageVa j) = min (p.pageVa j + pageSize) (p.vaddr + p.filesz) := by
    unfold Phdr.copyHi pageSize
    dsimp only
    split <;> omega
  have zero : (sys.take phys rest).frames phys at_ = 0 := by
    simp [MmSys.take]
  unfold copyPage
  rw [isLo, isHi]
  generalize p.pageVa j = va at *
  unfold Phdr.byte
  by_cases within : p.vaddr ≤ va + at_ ∧ va + at_ < p.vaddr + p.filesz
  · have copied : max va p.vaddr < min (va + pageSize) (p.vaddr + p.filesz) := by
      omega
    rw [if_pos copied, if_pos within]
    dsimp only
    rw [Function.update_self, if_pos (by omega)]
    congr 1
    omega
  · split
    · dsimp only
      rw [Function.update_self, if_neg (by omega), zero]
    · exact zero

end Page

/-- A page appears at one address, and nowhere else anything changes. -/
structure Appears (sys after : MmSys) (root va phys : Nat) (prot : Prot) :
    Prop where
  aligned : phys % pageSize = 0
  here : after.translate root va = some (phys, prot)
  elsewhere : ∀ a, a / pageSize ≠ va / pageSize → after.translate root a = sys.translate root a
  frames : ∀ page, page ∉ sys.pool → after.frames page = sys.frames page

section Appears

variable {sys after : MmSys} {root va phys : Nat} {prot : Prot} {label : Nat → Option Place}

theorem Mapped.appears {label' : Nat → Option Place}
    (mapped : Mapped sys after root va phys prot label label')
    (aligned : phys % pageSize = 0)
    (low : va < 2 ^ 38)
    (notShared : l2Index va ≠ sharedL2Index) :
    Appears sys after root va phys prot := by
  have here := mapped.here
  rw [canon_of_lt low] at here
  refine ⟨aligned, here, fun a different => ?_, mapped.frames⟩
  by_cases canonical : Canonical a
  · refine mapped.own notShared a fun same => different ?_
    simp only [indexes, List.cons.injEq, and_true, l2Index, l1Index, l0Index] at same
    unfold Canonical at canonical
    unfold pageSize
    omega
  · rw [translate_not_canonical canonical, translate_not_canonical canonical]

end Appears

/-! ## All pages -/

/-- What a finished run over some pages leaves behind. -/
structure Laid (blob : Blob) (sys after : MmSys) (root : Nat)
    (jobs : List Job) : Prop where
  pages : ∀ p j, Job.page p j ∈ jobs → ∃ phys, phys % pageSize = 0 ∧
      after.translate root (p.pageVa j) = some (phys, protFromFlags p.flags) ∧
      ∀ at_, at_ < pageSize → after.frames phys at_ = p.byte blob (p.pageVa j + at_)
  others : ∀ a, (∀ p j, Job.page p j ∈ jobs → a / pageSize ≠ p.pageVa j / pageSize) →
      after.translate root a = sys.translate root a
  frames : ∀ page, page ∉ sys.pool → after.frames page = sys.frames page

section Run

variable {blob : Blob} {sys after : MmSys} {root : Nat} {label : Nat → Option Place}

theorem runJobs_laid {jobs : List Job} (labelled : Labelled sys root label)
    (sit : ∀ p j, Job.page p j ∈ jobs → p.Sits ∧ j < p.nPages)
    (finished : runJobs blob root jobs sys = (.ok (), after)) : Laid blob sys after root jobs := by
  induction jobs generalizing sys label with
  | nil =>
    obtain rfl := (Prod.mk.inj finished).2
    exact ⟨fun _ _ listed => absurd listed not_mem_nil, fun _ _ => rfl, fun _ _ => rfl⟩
  | cons job rest ih =>
    obtain ⟨_, mid, isRun, ran⟩ := of_bind_ok finished
    cases job with
    | refuse code => nomatch isRun
    | page p j =>
      obtain ⟨sits, below⟩ := sit p j (mem_cons_self ..)
      obtain ⟨-, -, -, low, notShared⟩ := sits.page below
      obtain ⟨phys, free, label', mapped, aligned, notFree, copied⟩ :=
        wp_ok (loadPage_spec blob p j labelled) isRun
      have appears := mapped.appears aligned low notShared
      have later := ih mapped.labelled (fun q k listed => sit q k (mem_cons_of_mem _ listed)) ran
      have grows := (runJobs_loaded blob rest mapped.labelled).grows root mapped.labelled.root_used
      rw [ran] at grows
      refine ⟨fun q k listed => ?_, fun a off => ?_, fun page used => ?_⟩
      · rcases mem_cons.mp listed with isHead | isRest
        · obtain ⟨rfl, rfl⟩ := Job.page.inj isHead
          refine ⟨phys, aligned, grows _ _ appears.here, fun at_ inside => ?_⟩
          rw [later.frames phys notFree, copied]
          exact copyPage_byte blob sys phys free sits below inside
        · exact later.pages q k isRest
      · rw [later.others a fun q k listed =>
          off q k (mem_cons_of_mem _ listed)]
        exact appears.elsewhere a (off p j (mem_cons_self ..))
      · rw [later.frames page fun listed =>
          used (mapped.pool page listed)]
        exact appears.frames page used

theorem page_of_job {p : Phdr} {j : Nat} (isJob : Job.page p j ∈ jobs blob) :
    p ∈ phdrs blob ∧ p.IsLoad ∧ j < p.nPages ∧ p.filesz ≤ p.memsz ∧
      p.offset + p.filesz < 2 ^ 64 := by
  unfold jobs at isJob
  cases isValid : validateHeader blob with
  | error code =>
    rw [isValid] at isJob
    nomatch mem_singleton.mp isJob
  | ok _ =>
    rw [isValid] at isJob
    obtain ⟨q, listed, inJobs⟩ := mem_flatMap.mp isJob
    have small : q.offset < 2 ^ 64 ∧ q.filesz < 2 ^ 64 := by
      obtain ⟨i, -, rfl⟩ := mem_map.mp listed
      exact ⟨ByteMem.read_lt .., ByteMem.read_lt ..⟩
    unfold Phdr.jobs at inJobs
    dsimp only at inJobs
    split at inJobs
    · nomatch inJobs
    rename_i isLoad
    split at inJobs
    · nomatch mem_singleton.mp inJobs
    split at inJobs
    · nomatch mem_singleton.mp inJobs
    obtain ⟨k, isBelow, isPage⟩ := mem_map.mp inJobs
    obtain ⟨rfl, rfl⟩ := Job.page.inj isPage
    exact ⟨listed, not_not.mp isLoad, mem_range.mp isBelow, by omega, by omega⟩

end Run

/--
After a file has been loaded into a table without user pages, every address of
every loadable segment has its byte and its rights, and no page outside the
rounded ranges has appeared.
-/
theorem loadElf_image {blob : Blob} {sys after : MmSys} {root e : Nat} {label : Nat → Option Place}
    (labelled : Labelled sys root label)
    (noUser : ∀ a, a < 2 ^ 38 → l2Index a ≠ sharedL2Index → sys.translate root a = none)
    (user : ∀ p ∈ phdrs blob, p.IsLoad → p.InUserHalf)
    (loaded : loadElf blob root sys = (.ok e, after)) :
    (∀ p ∈ phdrs blob, p.IsLoad → ∀ k, k < p.memsz → ∃ pa, after.translate root (p.vaddr + k) =
          some (pa, protFromFlags p.flags) ∧
        after.byteAt pa =
          if k < p.filesz then blob.bytes (p.offset + k) else 0) ∧
    ∀ a, (∀ p ∈ phdrs blob, p.IsLoad → ¬ (p.vaLo ≤ a ∧ a < p.vaHi)) →
      after.translate root a = sys.translate root a ∧
        (a < 2 ^ 38 → l2Index a ≠ sharedL2Index → after.translate root a = none) := by
  obtain ⟨ran, -⟩ := loaded_iff.mp (congrArg Prod.fst loaded)
  obtain ⟨whole, -⟩ := runJobs_ok_iff.mp ran
  rw [loadElf_eq] at loaded
  have finished : runJobs blob root (jobs blob) sys = (.ok (), after) :=
    Prod.ext ran (Prod.mk.inj loaded).2
  have sit (p : Phdr) (j : Nat) (isJob : Job.page p j ∈ jobs blob) : p.Sits ∧ j < p.nPages := by
    obtain ⟨listed, isLoad, below, memsz, offset⟩ := page_of_job isJob
    exact ⟨⟨user p listed isLoad, memsz, offset⟩, below⟩
  have laid := runJobs_laid labelled sit finished
  refine ⟨fun p listed isLoad k inside => ?_, fun a off => ?_⟩
  · obtain ⟨small, -⟩ := user p listed isLoad
    obtain ⟨below, isPage⟩ := pageVa_of_mem (a := p.vaddr + k) (by omega) (by omega) small
    obtain ⟨phys, aligned, found, bytes⟩ := laid.pages p _ (job_of_whole whole listed isLoad below)
    rw [isPage] at found bytes
    refine ⟨_, translate_page (by omega) found, ?_⟩
    have offset := Nat.mod_lt (p.vaddr + k) (show 0 < pageSize by decide)
    rw [MmSys.byteAt_page aligned offset, bytes _ offset, Nat.div_add_mod']
    unfold Phdr.byte
    rw [Nat.add_sub_cancel_left]
    by_cases inFile : k < p.filesz
    · rw [if_pos inFile, if_pos (by omega)]
    · rw [if_neg inFile, if_neg (by omega)]
  · have same := laid.others a fun p j isJob isPage => ?_
    · exact ⟨same, fun low notShared => same.trans (noUser a low notShared)⟩
    · obtain ⟨listed, isLoad, -⟩ := page_of_job isJob
      obtain ⟨sits, below⟩ := sit p j isJob
      obtain ⟨isLow, high, isPageVa, -⟩ := sits.page below
      unfold pageSize at *
      exact off p listed isLoad (by omega)

/-- An empty table, made from the first of the sixteen pages. -/
def emptyTask : MmSys :=
  bootSys.take 0x3000 ((List.range 15).map fun i => 0x4000 + i * pageSize)

/-- Two bytes of the file and six behind them. -/
def mixedElf : Blob :=
  segmentElf 0x10000 [0xCA, 0xFE] 8

theorem loadElf_image_mixed :
    (∃ pa, (loadElf mixedElf 0x3000 emptyTask).2.translate 0x3000 (0x10000 + 1) =
        some (pa, .userRw) ∧
      (loadElf mixedElf 0x3000 emptyTask).2.byteAt pa = 0xFE) ∧
    ∃ pa, (loadElf mixedElf 0x3000 emptyTask).2.translate 0x3000 (0x10000 + 7) =
        some (pa, .userRw) ∧
      (loadElf mixedElf 0x3000 emptyTask).2.byteAt pa = 0 := by
  have isPool : bootSys.pool = 0x3000 :: (List.range 15).map fun i => 0x4000 + i * pageSize := by
    decide
  have noUser (a : Nat) (low : a < 2 ^ 38) (_ : l2Index a ≠ sharedL2Index) :
      emptyTask.translate 0x3000 a = none := by
    rw [MmSys.translate, if_pos (.inl low), emptyTask, take_self]
  have isHeader : readPhdr mixedElf 64 ∈ phdrs mixedElf := by
    have first : phoff mixedElf + 0 * phentsize mixedElf = 64 := by
      decide +kernel
    exact mem_map.mpr ⟨0, by decide +kernel, by rw [first]⟩
  have image := (loadElf_image (bootSys_tidy.newRoot isPool) noUser
    (by decide +kernel) (Prod.ext (by decide +kernel) rfl :
      loadElf mixedElf 0x3000 emptyTask = (.ok 0, _))).1 _ isHeader (by decide +kernel)
  have isVaddr : (readPhdr mixedElf 64).vaddr = 0x10000 := by decide +kernel
  have isProt : protFromFlags (readPhdr mixedElf 64).flags = .userRw := by decide +kernel
  rw [isVaddr, isProt] at image
  obtain ⟨pa, found, isByte⟩ := image 1 (by decide +kernel)
  obtain ⟨pa', found', zero⟩ := image 7 (by decide +kernel)
  exact ⟨⟨pa, found, isByte.trans (by decide +kernel)⟩, pa', found', zero.trans (by decide +kernel)⟩

end CaraOS.Mm
