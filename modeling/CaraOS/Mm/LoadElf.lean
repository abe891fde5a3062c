import CaraOS.Lib.ByteMem
import CaraOS.Mm.LoadRoom

namespace CaraOS.Mm

/-!
# Loading a program

`elf.c`: the loadable segments of a file are laid out page by page in the page
table of a new task.  Everything is done in 64-bit arithmetic, and the number
of pages of a segment in 32 bits.

What the loader asks of the page table is a list of pages that depends on the
file alone, up to the first header it refuses; it goes through that list until
a page cannot be mapped.
-/

open Action (bind_of_error bind_of_ok wp wp_mono)
open ByteMem List
open Carafs (Err)

/-! ## The file -/

/-- A file: its bytes and its length. -/
structure Blob where
  bytes : Mem
  size : Nat

/-- `struct Elf64Phdr`, but for the fields that are never read. -/
structure Phdr where
  type : Nat
  flags : Nat
  offset : Nat
  vaddr : Nat
  filesz : Nat
  memsz : Nat

/-- The program header at that place. -/
def readPhdr (blob : Blob) (at_ : Nat) : Phdr where
  type := read blob.bytes at_ 4
  flags := read blob.bytes (at_ + 4) 4
  offset := read blob.bytes (at_ + 8) 8
  vaddr := read blob.bytes (at_ + 16) 8
  filesz := read blob.bytes (at_ + 32) 8
  memsz := read blob.bytes (at_ + 40) 8

def entry (blob : Blob) : Nat :=
  read blob.bytes 24 8

def phoff (blob : Blob) : Nat :=
  read blob.bytes 32 8

def phentsize (blob : Blob) : Nat :=
  read blob.bytes 54 2

def phnum (blob : Blob) : Nat :=
  read blob.bytes 56 2

def validateHeader (blob : Blob) : Except Err Unit :=
  if blob.size < 64 then
    .error .einval
  else if blob.bytes 0 ≠ 0x7F ∨ blob.bytes 1 ≠ 0x45 ∨ blob.bytes 2 ≠ 0x4C ∨ blob.bytes 3 ≠ 0x46 then
    .error .ebadmagic
  else if blob.bytes 4 ≠ 2 then
    .error .ebadversion
  else if blob.bytes 5 ≠ 1 then
    .error .ebadversion
  else if read blob.bytes 16 2 ≠ 2 then
    .error .einval
  else if read blob.bytes 18 2 ≠ 243 then
    .error .einval
  else if phentsize blob < 56 then
    .error .einval
  else
    let phdrEnd := (phoff blob + phnum blob * phentsize blob) % 2 ^ 64
    if phdrEnd < phoff blob ∨ blob.size < phdrEnd then
      .error .erange
    else
      .ok ()

/-- The program headers, in order. -/
def phdrs (blob : Blob) : List Phdr :=
  (List.range (phnum blob)).map fun i =>
    readPhdr blob (phoff blob + i * phentsize blob)

def protFromFlags (flags : Nat) : Prot :=
  match flags.testBit 1, flags.testBit 0 with
  | true, true => .userRwx
  | true, false => .userRw
  | false, true => .userRx
  | false, false => .userRo

namespace Phdr

/-- `p_type` is `PT_LOAD`. -/
def IsLoad (p : Phdr) : Prop :=
  p.type = 1
  deriving Decidable

def vaLo (p : Phdr) : Nat :=
  p.vaddr / pageSize * pageSize

def vaHi (p : Phdr) : Nat :=
  ((p.vaddr + p.memsz) % 2 ^ 64 + pageSize - 1) % 2 ^ 64 / pageSize * pageSize

/-- `n_pages`, a `u32`. -/
def nPages (p : Phdr) : Nat :=
  (p.vaHi + (2 ^ 64 - p.vaLo)) % 2 ^ 64 / pageSize % 2 ^ 32

def pageVa (p : Phdr) (j : Nat) : Nat :=
  (p.vaLo + j * pageSize) % 2 ^ 64

def copyLo (p : Phdr) (va : Nat) : Nat :=
  if p.vaddr < va then va else p.vaddr

def copyHi (p : Phdr) (va : Nat) : Nat :=
  let pageEnd := (va + pageSize) % 2 ^ 64
  let fileLast := (p.vaddr + p.filesz) % 2 ^ 64
  if pageEnd < fileLast then pageEnd else fileLast

end Phdr

/-! ## The loader -/

/-- The copy loop of `load_segment` for one page. -/
def copyPage (blob : Blob) (p : Phdr) (va phys : Nat) (sys : MmSys) : MmSys :=
  if p.copyLo va < p.copyHi va then
    let fileOff := (p.offset + (p.copyLo va - p.vaddr)) % 2 ^ 64
    let dstOff := p.copyLo va - va
    let len := p.copyHi va - p.copyLo va
    { sys with
      frames := Function.update sys.frames phys fun at_ =>
        if dstOff ≤ at_ ∧ at_ < dstOff + len then
          blob.bytes (fileOff + (at_ - dstOff))
        else
          sys.frames phys at_ }
  else
    sys

/-- One turn of the loop of `load_segment`. -/
def loadPage (blob : Blob) (p : Phdr) (root j : Nat) : MmAction Unit :=
  fun sys =>
    match pageAlloc sys with
    | (.error code, sys) => (.error code, sys)
    | (.ok phys, sys) =>
      match pageMap root (p.pageVa j) phys (protFromFlags p.flags)
          (copyPage blob p (p.pageVa j) phys sys) with
      | (.ok (), sys) => (.ok (), sys)
      | (.error code, sys) => (.error code, (pageFree phys sys).2)

/-- The loop of `load_segment`, `n` turns from `j` on. -/
def loadPages (blob : Blob) (p : Phdr) (root : Nat) :
    Nat → Nat → MmAction Unit
  | 0, _ => pure ()
  | n + 1, j => do
      loadPage blob p root j
      loadPages blob p root n (j + 1)

def loadSegment (blob : Blob) (p : Phdr) (root : Nat) : MmAction Unit :=
  let fileEnd := (p.offset + p.filesz) % 2 ^ 64
  if blob.size < fileEnd ∨ fileEnd < p.offset then
    Action.fail .erange
  else if p.memsz < p.filesz then
    Action.fail .einval
  else
    loadPages blob p root p.nPages 0

/-- The loop of `Croi_LoadElf` over the program headers. -/
def loadSegments (blob : Blob) (root : Nat) : List Phdr → MmAction Unit
  | [] => pure ()
  | p :: rest =>
    if p.IsLoad then do
      loadSegment blob p root
      loadSegments blob root rest
    else
      loadSegments blob root rest

/-- `Croi_LoadElf`; the value is the entry address. -/
def loadElf (blob : Blob) (root : Nat) : MmAction Nat :=
  match validateHeader blob with
  | .error code => Action.fail code
  | .ok () => do
      loadSegments blob root (phdrs blob)
      return entry blob

/-! ## The pages it asks for -/

/-- One thing the loader does. -/
inductive Job where
  | page (p : Phdr) (j : Nat)
  | refuse (code : Err)

/-- What it does about a program header. -/
def Phdr.jobs (blob : Blob) (p : Phdr) : List Job :=
  let fileEnd := (p.offset + p.filesz) % 2 ^ 64
  if ¬ p.IsLoad then []
  else if blob.size < fileEnd ∨ fileEnd < p.offset then [.refuse .erange]
  else if p.memsz < p.filesz then [.refuse .einval]
  else (List.range p.nPages).map (.page p)

/-- What it does about a file. -/
def jobs (blob : Blob) : List Job :=
  match validateHeader blob with
  | .error code => [.refuse code]
  | .ok () => (phdrs blob).flatMap (Phdr.jobs blob)

/-- Do one thing. -/
def runJob (blob : Blob) (root : Nat) : Job → MmAction Unit
  | .page p j => loadPage blob p root j
  | .refuse code => Action.fail code

/-- Do one thing after the other. -/
def runJobs (blob : Blob) (root : Nat) : List Job → MmAction Unit
  | [] => pure ()
  | job :: rest => do
      runJob blob root job
      runJobs blob root rest

/-- The pages that get mapped before the loader stops. -/
def accepted (blob : Blob) (root : Nat) : List Job → MmSys → List Nat
  | .page p j :: rest, sys =>
    match loadPage blob p root j sys with
    | (.ok (), after) => p.pageVa j :: accepted blob root rest after
    | (.error _, _) => []
  | _, _ => []

/-- It is no refusal. -/
def Job.IsPage : Job → Prop
  | .page .. => True
  | .refuse _ => False

/-- The pages that are asked for, up to the first refusal. -/
def asked : List Job → List Nat
  | .page p j :: rest => p.pageVa j :: asked rest
  | _ => []

section Jobs

variable {blob : Blob} {root : Nat}

theorem runJobs_append (first second : List Job) :
    runJobs blob root (first ++ second) =
      runJobs blob root first >>= fun _ => runJobs blob root second := by
  induction first with
  | nil => rfl
  | cons job rest ih =>
    rw [cons_append, runJobs, runJobs, ih, Action.bind_assoc]

theorem loadPages_eq (p : Phdr) (n j : Nat) :
    loadPages blob p root n j =
      runJobs blob root ((List.range' j n).map (.page p)) := by
  induction n generalizing j with
  | zero => rfl
  | succ n ih =>
    rw [loadPages, ih, range'_succ]
    rfl

theorem loadSegment_eq {p : Phdr} (isLoad : p.IsLoad) :
    loadSegment blob p root = runJobs blob root (p.jobs blob) := by
  have single (code : Err) : (Action.fail code : MmAction Unit) =
        runJobs blob root [.refuse code] := by
    funext sys
    exact (bind_of_error rfl).symm
  unfold loadSegment Phdr.jobs
  dsimp only
  split
  · exact single _
  split
  · exact single _
  · rw [loadPages_eq, range_eq_range']

theorem loadSegments_eq (ps : List Phdr) :
    loadSegments blob root ps =
      runJobs blob root (ps.flatMap (Phdr.jobs blob)) := by
  induction ps with
  | nil => rfl
  | cons p rest ih =>
    rw [loadSegments, flatMap_cons, ih]
    split
    · rename_i isLoad
      rw [runJobs_append, loadSegment_eq isLoad]
    · rename_i notLoad
      have none : p.jobs blob = [] := if_pos notLoad
      rw [none, nil_append]

theorem loadElf_eq (blob : Blob) (root : Nat) (sys : MmSys) :
    loadElf blob root sys =
      ((runJobs blob root (jobs blob) sys).1.map fun _ => entry blob,
        (runJobs blob root (jobs blob) sys).2) := by
  unfold loadElf jobs
  cases validateHeader blob with
  | error code => rfl
  | ok _ =>
    rw [loadSegments_eq]
    show Action.bind _ _ sys = _
    unfold Action.bind
    dsimp only
    cases runJobs blob root ((phdrs blob).flatMap (Phdr.jobs blob)) sys with
    | mk result after => cases result <;> rfl

end Jobs

/-! ## One page -/

/-- A page in the user half, outside the slot of the shared heap. -/
def UserPage (va : Nat) : Prop :=
  l2Index va < 256 ∧ l2Index va ≠ sharedL2Index
  deriving Decidable

section Page

variable {sys : MmSys} {root : Nat} {label : Nat → Option Place}

theorem copyPage_eq (blob : Blob) (p : Phdr) (va phys : Nat) (sys : MmSys) :
    ∃ frames, copyPage blob p va phys sys = { sys with frames := frames } ∧
      ∀ page, page ≠ phys → frames page = sys.frames page := by
  unfold copyPage
  split
  · exact ⟨_, rfl, fun page other => Function.update_of_ne other ..⟩
  · exact ⟨sys.frames, rfl, fun _ _ => rfl⟩

/-- The page has its bytes before it is mapped, and nothing else has changed. -/
theorem Labelled.copied {phys : Nat} {rest : List Nat} (blob : Blob) (p : Phdr) (va : Nat)
    (labelled : Labelled sys root label) (isPool : sys.pool = phys :: rest) :
    let copied := copyPage blob p va phys (sys.take phys rest)
    Labelled copied root label ∧ Unseen sys copied ∧ copied.pool = rest ∧ phys ∉ rest ∧
      copied.vacant root = sys.vacant root := by
  obtain ⟨taken, unseen⟩ := labelled.take isPool
  obtain ⟨frames, isCopy, others⟩ := copyPage_eq blob p va phys (sys.take phys rest)
  have nodup := labelled.tidy.nodup
  rw [isPool, nodup_cons] at nodup
  have notFree {page : Nat} (used : page ∉ sys.pool) : page ≠ phys := by
    rintro rfl
    exact used (by simp [isPool])
  dsimp only
  rw [isCopy]
  refine ⟨⟨⟨taken.tidy.nodup, taken.tidy.closed⟩, taken.free, taken.isRoot, taken.child⟩,
    ⟨unseen.pool, unseen.same, unseen.kept, fun page used => ?_⟩, rfl, nodup.1,
    funext fun path => ?_⟩
  · rw [← unseen.frames page used]
    exact others page (notFree used)
  · unfold MmSys.vacant
    rw [Radix.resolve_congr fun q i t _ reached => ?_]
    rw [take_other (notFree (labelled.tidy.walk_used labelled.root_used reached))]

theorem wp_loadPage {post : Unit → MmSys → Prop} {failed : Err → MmSys → Prop} (blob : Blob)
    (p : Phdr) (j : Nat) :
    wp (loadPage blob p root j) post failed sys ↔
      match sys.pool with
      | [] => failed .enomem sys
      | phys :: rest =>
        wp (pageMap root (p.pageVa j) phys (protFromFlags p.flags)) post
          (fun code after => failed code (pageFree phys after).2)
          (copyPage blob p (p.pageVa j) phys (sys.take phys rest)) := by
  unfold wp loadPage pageAlloc
  cases sys.pool with
  | nil => rfl
  | cons phys rest =>
    dsimp only
    cases pageMap root (p.pageVa j) phys (protFromFlags p.flags)
      (copyPage blob p (p.pageVa j) phys (sys.take phys rest)) with
    | mk result after => cases result <;> rfl

theorem Unseen.mapped {mid after : MmSys} {va pa : Nat} {prot : Prot} {label' : Nat → Option Place}
    (unseen : Unseen sys mid)
    (used : root ∉ sys.pool)
    (sameVacant : mid.vacant root = sys.vacant root)
    (mapped : Mapped mid after root va pa prot label label') :
    Mapped sys after root va pa prot label label' where
  labelled := mapped.labelled
  pool := fun page listed => unseen.pool page (mapped.pool page listed)
  labels := fun page inUse => mapped.labels page (unseen.used inUse)
  frames := fun page inUse => by
    rw [mapped.frames page (unseen.used inUse), unseen.frames page inUse]
  fresh := by
    rw [← unseen.same root used, mapped.fresh]
  here := mapped.here
  grows := fun r inUse a answer found =>
    mapped.grows r (unseen.used inUse) a answer (by rwa [unseen.same r inUse])
  foreign := fun notShared r inUse isForeign a => by
    rw [mapped.foreign notShared r (unseen.used inUse) isForeign, unseen.same r inUse]
  own := fun notShared a different => by
    rw [mapped.own notShared a different, unseen.same root used]
  vacant := fun notShared q some short => by
    rw [mapped.vacant notShared q some short, sameVacant]

/-- One turn of the loop maps its page, or does nothing that can be seen. -/
theorem loadPage_spec (blob : Blob) (p : Phdr) (j : Nat) (labelled : Labelled sys root label) :
    wp (loadPage blob p root j)
      (fun _ after => ∃ phys rest label',
        Mapped sys after root (p.pageVa j) phys (protFromFlags p.flags) label label' ∧
        phys % pageSize = 0 ∧ phys ∉ after.pool ∧
        after.frames phys = (copyPage blob p (p.pageVa j) phys (sys.take phys rest)).frames phys)
      (fun _ after => ∀ r, r ∉ sys.pool → ∀ a, after.translate r a = sys.translate r a) sys := by
  rw [wp_loadPage]
  cases isPool : sys.pool with
  | nil => exact fun _ _ _ => rfl
  | cons phys rest =>
    obtain ⟨isLabelled, unseen, isRest, notRest, sameVacant⟩ :=
      labelled.copied blob p (p.pageVa j) isPool
    rw [← isRest] at notRest
    refine wp_mono (pageMap_spec phys (protFromFlags p.flags) (p.pageVa j) isLabelled)
      (fun _ after ⟨_, aligned, label', mapped⟩ => ?_) fun _ after later r used a => ?_
    · refine ⟨phys, rest, label', unseen.mapped labelled.root_used sameVacant mapped, aligned,
        fun listed => notRest (mapped.pool phys listed), mapped.frames phys notRest⟩
    · -- Page_Free leaves the tables alone
      rw [← isPool] at used
      exact (unseen.trans later).same r used a

/-- The vacant entries of a table are those that were left by some pages. -/
def Tracks (before sys : MmSys) (root : Nat) (pages : List Nat) : Prop :=
  ∀ path, path ≠ [] → path.length ≤ 3 → sys.vacant root path = before.left root pages path

theorem Tracks.needs_eq {before : MmSys} {pages : List Nat} (tracks : Tracks before sys root pages)
    (va : Nat) : needs (sys.vacant root) va = needs (before.left root pages) va := by
  unfold Tracks at tracks
  simp [needs, indexes, countP_cons, tracks]

theorem pageVa_aligned (p : Phdr) (j : Nat) : p.pageVa j % pageSize = 0 := by
  unfold Phdr.pageVa Phdr.vaLo pageSize
  omega

/-- One turn of the loop succeeds exactly if there is room for its page. -/
theorem loadPage_room {before : MmSys} {pages : List Nat} (blob : Blob) (p : Phdr) (j : Nat)
    (labelled : Labelled sys root label) (aligned : ∀ page ∈ sys.pool, page % pageSize = 0)
    (tracks : Tracks before sys root pages) :
    wp (loadPage blob p root j)
      (fun _ after => before.left root pages (indexes (p.pageVa j)) ∧
        after.pool.length + needs (before.left root pages) (p.pageVa j) = sys.pool.length ∧
        (UserPage (p.pageVa j) → Tracks before after root (p.pageVa j :: pages)))
      (fun _ _ => before.left root pages (indexes (p.pageVa j)) →
        sys.pool.length < needs (before.left root pages) (p.pageVa j)) sys := by
  have here := tracks (indexes (p.pageVa j)) (by simp [indexes]) (by simp [indexes])
  have needed := tracks.needs_eq (p.pageVa j)
  rw [wp_loadPage]
  cases isPool : sys.pool with
  | nil => exact needs_pos
  | cons phys rest =>
    obtain ⟨isLabelled, -, isRest, -, sameVacant⟩ := labelled.copied blob p (p.pageVa j) isPool
    have outcome := isLabelled.tidy.pageMap_room (protFromFlags p.flags) isLabelled.root_used
      (pageVa_aligned p j) (aligned phys (by simp [isPool]))
    rw [sameVacant, here, needed, isRest] at outcome
    refine wp_mono (Action.wp_and outcome
      (pageMap_spec phys (protFromFlags p.flags) (p.pageVa j) isLabelled))
      (fun _ after both => ?_) fun _ _ both => both.1
    obtain ⟨⟨left, length⟩, -, -, label', mapped⟩ := both
    refine ⟨left, length, fun user path some within => ?_⟩
    rw [mapped.vacant user.2 path some within, sameVacant, tracks path some within]
    unfold MmSys.left
    rw [all_cons, Bool.and_assoc, Bool.and_comm (all ..)]

end Page

/-! ## All pages -/

/-- What holds after the loader has gone through some pages. -/
structure Loaded (sys after : MmSys) (root : Nat)
    (label : Nat → Option Place) (pages : List Nat) : Prop where
  grows : ∀ r, r ∉ sys.pool → ∀ a answer, sys.translate r a = some answer →
      after.translate r a = some answer
  there : ∀ va ∈ pages, sys.translate root (canon va) = none ∧
      (after.translate root (canon va)).isSome
  confined : (∀ va ∈ pages, UserPage va) → (∀ r, r ∉ sys.pool → label r = none → ∀ a,
        after.translate r a = sys.translate r a) ∧
      ∀ a, after.translate root a ≠ sys.translate root a →
        l2Index a < 256 ∧ l2Index a ≠ sharedL2Index

section Run

variable {sys mid after : MmSys} {root va : Nat} {label : Nat → Option Place}
  {pages : List Nat} {blob : Blob}

theorem Loaded.nothing (rootUsed : root ∉ sys.pool)
    (same : ∀ r, r ∉ sys.pool → ∀ a, after.translate r a = sys.translate r a) :
    Loaded sys after root label [] := by
  refine ⟨fun r used a answer found => ?_, forall_mem_nil _, fun _ =>
    ⟨fun r used _ a => same r used a, fun a different => ?_⟩⟩
  · rwa [same r used]
  · exact absurd (same root rootUsed a) different

theorem Loaded.cons {phys : Nat} {prot : Prot} {label' : Nat → Option Place}
    (rootUsed : root ∉ sys.pool) (mapped : Mapped sys mid root va phys prot label label')
    (rest : Loaded mid after root label' pages) : Loaded sys after root label (va :: pages) := by
  have used {page : Nat} (inUse : page ∉ sys.pool) : page ∉ mid.pool :=
    fun listed => inUse (mapped.pool page listed)
  refine ⟨fun r inUse a answer found => ?_, fun page listed => ?_, fun all => ?_⟩
  · exact rest.grows r (used inUse) a answer (mapped.grows r inUse a _ found)
  · rcases mem_cons.mp listed with rfl | later
    · refine ⟨mapped.fresh, ?_⟩
      rw [rest.grows root (used rootUsed) _ _ mapped.here]
      rfl
    · obtain ⟨fresh, there⟩ := rest.there page later
      refine ⟨?_, there⟩
      cases isFound : sys.translate root (canon page) with
      | none => rfl
      | some answer =>
        rw [mapped.grows root rootUsed _ answer isFound] at fresh
        nomatch fresh
  · obtain ⟨user, others⟩ := forall_mem_cons.mp all
    obtain ⟨foreign, own⟩ := rest.confined others
    refine ⟨fun r inUse noPlace a => ?_, fun a different => ?_⟩
    · have noPlace' : label' r = none := (mapped.labels r inUse).trans noPlace
      rw [foreign r (used inUse) noPlace', mapped.foreign user.2 r inUse noPlace]
    · by_cases later : after.translate root a ≠ mid.translate root a
      · exact own a later
      · rw [not_not] at later
        rw [later] at different
        by_cases sameIndexes : indexes a = indexes va
        · obtain ⟨sameIndex, -⟩ := List.cons.inj sameIndexes
          rwa [sameIndex]
        · exact absurd (mapped.own user.2 a sameIndexes) different

theorem runJobs_loaded (blob : Blob) (jobs : List Job) (labelled : Labelled sys root label) :
    Loaded sys (runJobs blob root jobs sys).2 root label
      (accepted blob root jobs sys) := by
  induction jobs generalizing sys label with
  | nil => exact .nothing labelled.root_used fun _ _ _ => rfl
  | cons job rest ih =>
    cases job with
    | refuse code =>
      exact .nothing labelled.root_used fun _ _ _ => rfl
    | page p j =>
      have outcome := loadPage_spec blob p j labelled
      unfold wp at outcome
      unfold accepted runJobs
      cases isLoad : loadPage blob p root j sys with
      | mk result mid =>
      have run : runJob blob root (.page p j) sys = (result, mid) := isLoad
      rw [isLoad] at outcome
      cases result with
      | error code =>
        rw [bind_of_error run]
        exact .nothing labelled.root_used outcome
      | ok _ =>
        rw [bind_of_ok run]
        obtain ⟨phys, free, label', mapped, -⟩ := outcome
        exact .cons labelled.root_used mapped (ih mapped.labelled)

/-- The loader succeeds exactly if it refuses nothing and every page is mapped. -/
theorem runJobs_ok_iff {jobs : List Job} :
    (runJobs blob root jobs sys).1 = .ok () ↔
      (∀ job ∈ jobs, job.IsPage) ∧ accepted blob root jobs sys = asked jobs := by
  induction jobs generalizing sys with
  | nil => exact ⟨fun _ => ⟨forall_mem_nil _, rfl⟩, fun _ => rfl⟩
  | cons job rest ih =>
    cases job with
    | refuse code =>
      exact ⟨nofun, fun whole => (whole.1 _ (mem_cons_self ..)).elim⟩
    | page p j =>
      rw [runJobs, accepted, asked, forall_mem_cons]
      cases isLoad : loadPage blob p root j sys with
      | mk result mid =>
      have run : runJob blob root (.page p j) sys = (result, mid) := isLoad
      cases result with
      | error code =>
        rw [bind_of_error run]
        simp
      | ok _ =>
        rw [bind_of_ok run, ih]
        simp [Job.IsPage]

/--
As long as either list stays in the user half, the pages that get mapped are
those for which there was room before the first.
-/
theorem accepted_eq_roomFor {before : MmSys} {mapped : List Nat}
    (blob : Blob)
    (jobs : List Job)
    (labelled : Labelled sys root label)
    (aligned : ∀ page ∈ sys.pool, page % pageSize = 0)
    (tracks : Tracks before sys root mapped)
    (user : (∀ va ∈ accepted blob root jobs sys, UserPage va) ∨
      ∀ va ∈ before.roomFor root mapped sys.pool.length (asked jobs), UserPage va) :
    accepted blob root jobs sys =
      before.roomFor root mapped sys.pool.length (asked jobs) := by
  induction jobs generalizing sys label mapped with
  | nil => rfl
  | cons job rest ih =>
    cases job with
    | refuse code => rfl
    | page p j =>
      have outcome := loadPage_spec blob p j labelled
      have room := loadPage_room blob p j labelled aligned tracks
      unfold wp at outcome room
      rw [accepted, asked, MmSys.roomFor] at user ⊢
      cases isLoad : loadPage blob p root j sys with
      | mk result mid =>
      rw [isLoad] at user room outcome
      cases result with
      | error code =>
        refine (if_neg fun enough => ?_).symm
        exact absurd enough.2 (not_le.mpr (room enough.1))
      | ok _ =>
        obtain ⟨phys, later, label', isMapped, -⟩ := outcome
        obtain ⟨left, length, next⟩ := room
        have enough : before.left root mapped (indexes (p.pageVa j)) ∧
            needs (before.left root mapped) (p.pageVa j) ≤ sys.pool.length := ⟨left, by omega⟩
        have free : sys.pool.length - needs (before.left root mapped) (p.pageVa j) =
            mid.pool.length := by omega
        dsimp only at user ⊢
        rw [if_pos enough, free] at user ⊢
        rw [forall_mem_cons, forall_mem_cons, ← and_or_left] at user
        rw [ih isMapped.labelled (fun page listed => aligned page (isMapped.pool page listed))
          (next user.1) user.2]

end Run

/-! ## The ranges of a segment -/

section Ranges

variable {p : Phdr} {a : Nat}

theorem pageVa_of_mem (low : p.vaddr ≤ a) (high : a < p.vaddr + p.memsz)
    (small : p.vaddr + p.memsz ≤ 2 ^ 38) :
    a / pageSize - p.vaddr / pageSize < p.nPages ∧
      p.pageVa (a / pageSize - p.vaddr / pageSize) =
        a / pageSize * pageSize := by
  unfold Phdr.nPages Phdr.pageVa Phdr.vaHi Phdr.vaLo pageSize
  omega

theorem nPages_pos (some : p.memsz ≠ 0) (low : 2 ^ 64 - 2 ^ 38 ≤ p.vaddr)
    (high : p.vaddr + p.memsz ≤ 2 ^ 64) : 0 < p.nPages ∧ 256 ≤ l2Index (p.pageVa 0) := by
  unfold Phdr.nPages Phdr.pageVa Phdr.vaHi Phdr.vaLo pageSize l2Index
  omega

end Ranges

/-! ## Loading touches nothing else -/

/--
What the caller of the loader may rely on: the tables that were there before
the task's own translate as before, the task's table gets pages in the user
half outside the shared slot only, and success means that every address of
every loadable range is mapped.
-/
structure Contained (before sys after : MmSys) (result : Except Err Nat)
    (root : Nat) (blob : Blob) : Prop where
  others : ∀ r, r ∉ before.pool → ∀ va, after.translate r va = sys.translate r va
  added : ∀ va, after.translate root va ≠ sys.translate root va →
      va < 2 ^ 38 ∧ va / 2 ^ 30 ≠ sharedL2Index
  mapped : ∀ e, result = .ok e → ∀ p ∈ phdrs blob, p.IsLoad →
      ∀ a, p.vaddr ≤ a → a < p.vaddr + p.memsz → (after.translate root a).isSome

/--
The pages that the file asks for, as far as the table has room for them, have
indexes of the user half, not that of the shared slot; and if there is room for
all and the file is refused nothing, no range leaves the user half.
-/
structure Harmless (sys : MmSys) (root : Nat) (blob : Blob) : Prop where
  pages : ∀ va ∈ sys.roomFor root [] sys.pool.length (asked (jobs blob)), UserPage va
  ranges : (∀ job ∈ jobs blob, job.IsPage) →
    sys.roomFor root [] sys.pool.length (asked (jobs blob)) = asked (jobs blob) →
      ∀ p ∈ phdrs blob, p.IsLoad → p.memsz = 0 ∨ p.vaddr + p.memsz ≤ 2 ^ 38

section Load

variable {before sys : MmSys} {root lma imagePages l1 : Nat} {blob : Blob}

theorem loaded_iff {e : Nat} :
    (loadElf blob root sys).1 = .ok e ↔
      (runJobs blob root (jobs blob) sys).1 = .ok () ∧ entry blob = e := by
  rw [loadElf_eq]
  cases (runJobs blob root (jobs blob) sys).1 <;> simp [Except.map]

theorem job_of_whole {p : Phdr} {j : Nat} (whole : ∀ job ∈ jobs blob, job.IsPage)
    (listed : p ∈ phdrs blob) (isLoad : p.IsLoad) (below : j < p.nPages) :
    Job.page p j ∈ jobs blob := by
  unfold jobs at *
  cases isValid : validateHeader blob with
  | error code =>
    rw [isValid] at whole
    exact (whole _ (mem_singleton_self _)).elim
  | ok _ =>
    rw [isValid] at whole
    have pages (job : Job) (inJobs : job ∈ p.jobs blob) : job.IsPage :=
      whole job (mem_flatMap.mpr ⟨p, listed, inJobs⟩)
    refine mem_flatMap.mpr ⟨p, listed, ?_⟩
    unfold Phdr.jobs at *
    rw [if_neg (not_not.mpr isLoad)] at *
    split_ifs at * with outside shrinks
    · exact (pages _ (mem_singleton_self _)).elim
    · exact (pages _ (mem_singleton_self _)).elim
    · exact mem_map_of_mem (mem_range.mpr below)

theorem pageVa_mem_asked {jobs : List Job} {p : Phdr} {j : Nat}
    (whole : ∀ job ∈ jobs, job.IsPage) (listed : .page p j ∈ jobs) :
    p.pageVa j ∈ asked jobs := by
  induction jobs with
  | nil => nomatch listed
  | cons job rest ih =>
    cases job with
    | refuse code => nomatch whole _ (mem_cons_self ..)
    | page q k =>
      rw [asked]
      rcases mem_cons.mp listed with same | later
      · obtain ⟨rfl, rfl⟩ := Job.page.inj same
        exact mem_cons_self ..
      · exact mem_cons_of_mem _ (ih (forall_mem_cons.mp whole).2 later)

theorem accepted_of_loaded {p : Phdr} {e j : Nat}
    (loaded : (loadElf blob root sys).1 = .ok e) (listed : p ∈ phdrs blob)
    (isLoad : p.IsLoad) (below : j < p.nPages) :
    p.pageVa j ∈ accepted blob root (jobs blob) sys := by
  obtain ⟨whole, all⟩ := runJobs_ok_iff.mp (loaded_iff.mp loaded).1
  rw [all]
  exact pageVa_mem_asked whole (job_of_whole whole listed isLoad below)

/--
Loading a file into a new task's table is contained exactly if the pages it
asks for and the ranges it claims are harmless for that table.
-/
theorem load_contained_iff (tidy : Tidy before)
    (aligned : ∀ page ∈ before.pool, page % pageSize = 0)
    (sharedUsed : l1 ∉ before.pool)
    (made : newTaskTable lma imagePages l1 before = (.ok root, sys)) :
    Contained before sys (loadElf blob root sys).2 (loadElf blob root sys).1
        root blob ↔
      Harmless sys root blob := by
  obtain ⟨label, labelled, foreign⟩ := newTaskTable_labelled tidy sharedUsed made
  have loaded : Loaded sys (runJobs blob root (jobs blob) sys).2 root label
      (accepted blob root (jobs blob) sys) := runJobs_loaded blob _ labelled
  rw [← congrArg Prod.snd (loadElf_eq blob root sys)] at loaded
  have tracks : Tracks sys sys root [] := fun _ _ _ => by simp [MmSys.left]
  have inPool (page : Nat) (listed : page ∈ sys.pool) : page % pageSize = 0 :=
    aligned page (by_contra fun used => (foreign page used).2 listed)
  have sameList := accepted_eq_roomFor blob (jobs blob) labelled inPool tracks
  constructor
  · intro contained
    have pages : ∀ va ∈ accepted blob root (jobs blob) sys, UserPage va := by
      intro va isAccepted
      obtain ⟨fresh, there⟩ := loaded.there va isAccepted
      have changed : (loadElf blob root sys).2.translate root (canon va) ≠
          sys.translate root (canon va) := by
        rw [fresh]
        exact Option.isSome_iff_ne_none.mp there
      obtain ⟨low, slot⟩ := contained.added _ changed
      obtain ⟨-, same, -⟩ := canon_spec va
      have isIndex : l2Index (canon va) = canon va / 2 ^ 30 := by
        unfold l2Index
        omega
      unfold UserPage
      rw [← (List.cons.inj same).1, isIndex]
      exact ⟨by omega, slot⟩
    rw [sameList (.inl pages)] at pages
    refine ⟨pages, fun whole all p listed isLoad => ?_⟩
    have isOk := loaded_iff.mpr ⟨runJobs_ok_iff.mpr ⟨whole, (sameList (.inr pages)).trans all⟩, rfl⟩
    by_contra outside
    rw [not_or] at outside
    obtain ⟨some, large⟩ := outside
    have mapped := contained.mapped _ isOk p listed isLoad
    have canonical {a : Nat} (low : p.vaddr ≤ a) (high : a < p.vaddr + p.memsz) : Canonical a := by
      by_contra notCanonical
      have isSome := mapped a low high
      rw [translate_not_canonical notCanonical] at isSome
      nomatch isSome
    -- The last address is translated, hence in the kernel half; so is the
    -- first one, since the addresses between the halves are not.
    have last := canonical (a := p.vaddr + p.memsz - 1) (by omega) (by omega)
    have first : 2 ^ 64 - 2 ^ 38 ≤ p.vaddr := by
      by_contra below
      have between := canonical (a := max p.vaddr (2 ^ 38)) (le_max_left ..)
        (by unfold Canonical at last; omega)
      unfold Canonical at between last
      omega
    have high : p.vaddr + p.memsz ≤ 2 ^ 64 := by
      unfold Canonical at last
      omega
    obtain ⟨positive, index⟩ := nPages_pos some first high
    have isAccepted := accepted_of_loaded isOk listed isLoad positive
    rw [sameList (.inr pages)] at isAccepted
    have user := pages _ isAccepted
    exact absurd user.1 (not_lt.mpr index)
  · intro harmless
    have sameList := sameList (.inr harmless.pages)
    obtain ⟨others, own⟩ := loaded.confined (by rw [sameList]; exact harmless.pages)
    refine ⟨fun r used va => ?_, fun va changed => ?_, ?_⟩
    · obtain ⟨noPlace, left⟩ := foreign r used
      exact others r left noPlace va
    · obtain ⟨low, slot⟩ := own va changed
      have canonical : Canonical va := by
        by_contra notCanonical
        rw [translate_not_canonical notCanonical, translate_not_canonical notCanonical] at changed
        exact changed rfl
      obtain ⟨isLow, isIndex⟩ := lt_of_l2Index_lt canonical low
      rw [isIndex]
      exact ⟨isLow, slot⟩
    · intro e isOk p listed isLoad a low high
      obtain ⟨whole, all⟩ := runJobs_ok_iff.mp (loaded_iff.mp isOk).1
      have range := (harmless.ranges whole (sameList.symm.trans all) p listed isLoad).resolve_left
        (by omega)
      obtain ⟨below, isPage⟩ := pageVa_of_mem low high range
      have isAccepted := accepted_of_loaded isOk listed isLoad below
      obtain ⟨answer, found⟩ := Option.isSome_iff_exists.mp (loaded.there _ isAccepted).2
      have isLow : a / pageSize * pageSize < 2 ^ 38 := by
        unfold pageSize
        omega
      rw [isPage, canon_of_lt isLow] at found
      rw [translate_page (by omega) found]
      rfl

end Load

/-! ## Two files -/

/-- A file with one loadable segment at that address. -/
def segmentElf (vaddr : Nat) (data : List (BitVec 8)) (memsz : Nat) : Blob where
  bytes at_ :=
    let magic := write (fun _ => 0) 0 8 0x1010102464C457F
    let kind := write (write magic 16 2 2) 18 2 243
    let table := write (write (write kind 32 8 64) 54 2 56) 56 2 1
    let place := write (write (write (write table 64 4 1) 68 4 6) 72 8 120) 80 8 vaddr
    if at_ < 120 then write (write place 96 8 data.length) 104 8 memsz at_
    else data.getD (at_ - 120) 0
  size := 120 + data.length

/-- The boot table with the shared subtree, and sixteen free pages. -/
def bootSys : MmSys where
  tables t i := if t = 0x1000 ∧ i = sharedL2Index then .table 0x2000 else .none
  frames _ _ := 0
  pool := (List.range 16).map fun i => 0x3000 + i * pageSize

/-- The first task's table: one page of the library image. -/
def firstTask : Except Err Nat × MmSys :=
  newTaskTable 0x80200000 1 0x2000 bootSys

theorem bootSys_tidy : Tidy bootSys := by
  refine ⟨by decide, fun page used i c isTable => ?_⟩
  have child : c = 0x2000 := by
    unfold bootSys at isTable
    dsimp only at isTable
    split at isTable
    · exact (Pte.table.inj isTable).symm
    · nomatch isTable
  rw [child]
  decide

theorem firstTask_made : firstTask = (.ok 0x3000, firstTask.2) :=
  Prod.ext (by decide +kernel) rfl

theorem load_contained_low :
    Tidy bootSys ∧ 0x2000 ∉ bootSys.pool ∧ firstTask.1 = .ok 0x3000 ∧
      Contained bootSys firstTask.2
        (loadElf (segmentElf 0x10000 [] 8) 0x3000 firstTask.2).2
        (loadElf (segmentElf 0x10000 [] 8) 0x3000 firstTask.2).1 0x3000
        (segmentElf 0x10000 [] 8) := by
  refine ⟨bootSys_tidy, by decide, by decide +kernel, ?_⟩
  refine (load_contained_iff bootSys_tidy (by decide) (by decide) firstTask_made).mpr ?_
  exact ⟨by decide +kernel, fun _ _ => by decide +kernel⟩

/--
A segment behind the arena of the shared heap: the file is accepted, and its
page appears in the boot table, as in every other one.  And a segment of
`2 ^ 44` bytes is accepted with no page at all.
-/
theorem segment_in_shared_slot :
    Tidy bootSys ∧ 0x2000 ∉ bootSys.pool ∧ firstTask.1 = .ok 0x3000 ∧
      (loadElf (segmentElf 0x100800000 [] 1) 0x3000 firstTask.2).1 = .ok 0 ∧
      firstTask.2.translate 0x1000 0x100800000 = none ∧
      (loadElf (segmentElf 0x100800000 [] 1) 0x3000 firstTask.2).2.translate 0x1000
        0x100800000 = some (0x6000, .userRw) ∧
      (loadElf (segmentElf 0x10000 [] (2 ^ 44)) 0x3000 firstTask.2).1 = .ok 0 ∧
      (loadElf (segmentElf 0x10000 [] (2 ^ 44)) 0x3000 firstTask.2).2.translate 0x3000
        0x10000 = none :=
  ⟨bootSys_tidy, by decide, by decide +kernel, by decide +kernel,
    by decide +kernel, by decide +kernel, by decide +kernel, by decide +kernel⟩

end CaraOS.Mm
