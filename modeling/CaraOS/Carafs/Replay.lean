import Mathlib.Data.Fintype.Card
import CaraOS.Carafs.JournalSteps

namespace CaraOS.Carafs

/-!
# What replay does

Replay depends on the log region alone: the `LogView` of a mount is what it
reads there.  `LogView.chain` is the ordered list of the images of every
complete transaction, and replay applies this list to the disk, whatever the
blocks outside the log hold.
-/

open List
open Action (bind_assoc bind_of_ok wp wp_bind wp_mono wp_pure wp_read)

/-! ## The log as replay reads it -/

def chainCrc (bs : Nat) (images : List Block) (seed : Nat) : Nat :=
  images.foldl (fun crc image => crc32c crc (image.bytes bs)) seed

/-- The log region by ring offset, with the sizes that replay checks. -/
structure LogView where
  blockSize : Nat
  totalBlocks : Nat
  logBlocks : Nat
  block : Nat → Block

/-- The log of a mount; offsets outside the ring are left blank. -/
def Mount.logView (m : Mount) : LogView where
  blockSize := m.blockSize
  totalBlocks := m.sb.totalBlocks
  logBlocks := m.jLogBlocks
  block := fun off =>
    if 1 ≤ off ∧ off ≤ m.jLogBlocks then m.bdev.disk (jPhys m off)
    else default

variable {writes : List (Nat × Block)} {targets : List Nat} {last : Nat × Nat}

namespace LogView

def Shows (v : LogView) (image : Block) : Prop :=
  ∃ off, (1 ≤ off ∧ off ≤ v.logBlocks) ∧ v.block off = image

/-- The logged images `i, …, i + n - 1` of the transaction at `off`. -/
def images (v : LogView) (off i n : Nat) : List Block :=
  (List.range' i n).map fun k => v.block (jAdv v.logBlocks off (1 + k))

/-- The home writes of the complete transaction at `off`, if there is one. -/
def txnAt (v : LogView) (off seq : Nat) : Option (List (Nat × Block)) :=
  match descAccepted v.blockSize v.totalBlocks seq (v.block off) with
  | none => none
  | some targets =>
    let images := v.images off 0 targets.length
    if commitAccepted v.blockSize seq targets.length (chainCrc v.blockSize images 0)
        (v.block (jAdv v.logBlocks off (1 + targets.length))) then
      some (targets.zip images)
    else
      none

/--
The home writes of the chain of complete transactions from `off` on, and where
the chain ends.
-/
def chain (v : LogView) :
    Nat → Nat → Nat → List (Nat × Block) × Option (Nat × Nat)
  | 0, _, _ => ([], none)
  | fuel + 1, off, seq =>
    match v.txnAt off seq with
    | none => ([], some (off, seq))
    | some writes =>
      let rest := v.chain fuel (jAdv v.logBlocks off (writes.length + 2)) (nextSeq seq)
      (writes ++ rest.1, rest.2)

theorem images_length (v : LogView) (off i n : Nat) : (v.images off i n).length = n := by
  simp [images]

theorem descAccepted_eq_some {bs totalBlocks seq : Nat} {image : Block}
    (accepted : descAccepted bs totalBlocks seq image = some targets) :
    (∃ record, image = .jdesc record ∧ record.seq = seq) ∧
      0 < targets.length ∧ ∀ target ∈ targets, target < totalBlocks := by
  unfold descAccepted at accepted
  cases image with
  | jdesc record =>
    simp only [Option.ite_none_right_eq_some, Option.some.injEq,
      Bool.and_eq_true, beq_iff_eq, bne_iff_ne, all_eq_true, decide_eq_true_eq] at accepted
    obtain ⟨⟨⟨⟨⟨-, sameSeq⟩, nonempty⟩, -⟩, inVolume⟩, rfl⟩ := accepted
    exact ⟨⟨record, rfl, sameSeq⟩, by omega, inVolume⟩
  | _ =>
    exact absurd accepted (by simp)

theorem txnAt_eq_some {v : LogView} {off seq : Nat} (whole : v.txnAt off seq = some writes) :
    ∃ targets,
      descAccepted v.blockSize v.totalBlocks seq (v.block off) =
          some targets ∧
        writes = targets.zip (v.images off 0 targets.length) ∧
        commitAccepted v.blockSize seq targets.length
          (chainCrc v.blockSize (v.images off 0 targets.length) 0)
          (v.block (jAdv v.logBlocks off (1 + targets.length))) = true := by
  unfold txnAt at whole
  cases accepted : descAccepted v.blockSize v.totalBlocks seq (v.block off) with
  | none =>
    simp [accepted] at whole
  | some targets =>
    simp only [accepted, Option.ite_none_right_eq_some, Option.some.injEq] at whole
    exact ⟨targets, rfl, whole.2.symm, whole.1⟩

theorem txnAt_length {v : LogView} {off : Nat} :
    (targets.zip (v.images off 0 targets.length)).length =
      targets.length := by
  simp [images_length]

theorem descAccepted_putCrc {bs totalBlocks seq : Nat}
    (sized : 0 < targets.length ∧ targets.length ≤ txnMaxBlocks) :
    descAccepted bs totalBlocks seq
        (Block.putCrc bs (.jdesc { seq := seq, targets := targets })) =
      if ∀ target ∈ targets, target < totalBlocks then some targets
      else none := by
  have sealed := crcOk_putCrc bs (.jdesc { seq := seq, targets := targets }) (cons_ne_nil _ _)
  have nonempty : targets.length ≠ 0 := by omega
  unfold descAccepted Block.putCrc Block.setCrc
  unfold Block.putCrc Block.setCrc at sealed
  simp [sealed, nonempty, sized.2, all_eq_true]

theorem commitAccepted_putCrc (bs seq n txnCrc : Nat) :
    commitAccepted bs seq n txnCrc
      (Block.putCrc bs (.jcommit { seq := seq, txnCrc := txnCrc, nBlocks := n })) =
      true := by
  have sealed := crcOk_putCrc bs (.jcommit { seq := seq, txnCrc := txnCrc, nBlocks := n })
    (cons_ne_nil _ _)
  unfold commitAccepted Block.putCrc Block.setCrc
  unfold Block.putCrc Block.setCrc at sealed
  simp [sealed]

section Chain

variable {v : LogView} {fuel off seq : Nat}

theorem chain_of_none (positive : 0 < fuel) (torn : v.txnAt off seq = none) :
    v.chain fuel off seq = ([], some (off, seq)) := by
  obtain ⟨rounds, rfl⟩ := Nat.exists_eq_add_one.mpr positive
  rw [chain, torn]

theorem chain_of_some (positive : 0 < fuel) (whole : v.txnAt off seq = some writes) :
    v.chain fuel off seq =
      (writes ++ (v.chain (fuel - 1) (jAdv v.logBlocks off (writes.length + 2)) (nextSeq seq)).1,
        (v.chain (fuel - 1) (jAdv v.logBlocks off (writes.length + 2)) (nextSeq seq)).2) := by
  obtain ⟨rounds, rfl⟩ := Nat.exists_eq_add_one.mpr positive
  rw [chain, whole, Nat.add_sub_cancel]

theorem jAdv_bounds {logBlocks : Nat} (lower : 1 ≤ off) (upper : off ≤ logBlocks) (k : Nat) :
    1 ≤ jAdv logBlocks off k ∧ jAdv logBlocks off k ≤ logBlocks := by
  rw [jAdv_eq_slot (by omega) lower]
  exact ⟨Ring.slot_pos, Ring.slot_le (by omega)⟩

theorem chain_end (lower : 1 ≤ off) (upper : off ≤ v.logBlocks)
    (ended : (v.chain fuel off seq).2 = some last) :
    (1 ≤ last.1 ∧ last.1 ≤ v.logBlocks) ∧ v.txnAt last.1 last.2 = none := by
  induction fuel generalizing off seq with
  | zero =>
    exact absurd ended (by simp [chain])
  | succ fuel ih =>
    unfold chain at ended
    cases found : v.txnAt off seq with
    | none =>
      rw [found] at ended
      cases ended
      exact ⟨⟨lower, upper⟩, found⟩
    | some writes =>
      rw [found] at ended
      obtain ⟨nextLower, nextUpper⟩ := jAdv_bounds lower upper (writes.length + 2)
      exact ih nextLower nextUpper ended

theorem iterate_nextSeq_injective {first second : Nat}
    (firstShort : first < 2 ^ 64) (secondShort : second < 2 ^ 64)
    (same : nextSeq^[first] seq = nextSeq^[second] seq) : first = second := by
  have counted : ∀ k, nextSeq^[k + 1] seq = (seq + (k + 1)) % 2 ^ 64 := by
    intro k
    induction k with
    | zero =>
      rfl
    | succ k ih =>
      rw [Function.iterate_succ_apply', ih]
      unfold nextSeq
      omega
  cases first with
  | zero =>
    cases second with
    | zero =>
      rfl
    | succ second =>
      rw [counted, Function.iterate_zero_apply] at same
      omega
  | succ first =>
    cases second with
    | zero =>
      rw [counted, Function.iterate_zero_apply] at same
      omega
    | succ second =>
      rw [counted, counted] at same
      omega

/-- The sequence number of a DESC record. -/
def descSeq : Block → Option Nat
  | .jdesc record => some record.seq
  | _ => none

theorem txnAt_descSeq (found : v.txnAt off seq = some writes) :
    descSeq (v.block off) = some seq := by
  obtain ⟨targets, accepted, -, -⟩ := txnAt_eq_some found
  obtain ⟨⟨record, isDesc, rfl⟩, -⟩ := descAccepted_eq_some accepted
  rw [isDesc]
  rfl

theorem chain_exhausted (lower : 1 ≤ off) (upper : off ≤ v.logBlocks)
    (exhausted : (v.chain fuel off seq).2 = none) {round : Nat} (early : round < fuel) :
    ∃ place, (1 ≤ place ∧ place ≤ v.logBlocks) ∧
      descSeq (v.block place) = some (nextSeq^[round] seq) := by
  induction fuel generalizing off seq round with
  | zero =>
    exact absurd early (Nat.not_lt_zero _)
  | succ fuel ih =>
    unfold chain at exhausted
    cases found : v.txnAt off seq with
    | none =>
      simp [found] at exhausted
    | some writes =>
      rw [found] at exhausted
      cases round with
      | zero =>
        exact ⟨off, ⟨lower, upper⟩, txnAt_descSeq found⟩
      | succ round =>
        obtain ⟨nextLower, nextUpper⟩ := jAdv_bounds lower upper (writes.length + 2)
        obtain ⟨place, bounds, holds⟩ :=
          ih nextLower nextUpper exhausted (Nat.lt_of_succ_lt_succ early)
        exact ⟨place, bounds, holds⟩

theorem records_bounded (short : v.logBlocks < 2 ^ 64)
    (shown : ∀ round < v.logBlocks + 1, ∃ place, (1 ≤ place ∧ place ≤ v.logBlocks) ∧
          descSeq (v.block place) = some (nextSeq^[round] seq)) : False := by
  have each (round : Fin (v.logBlocks + 1)) := shown round round.isLt
  choose place bounds record using each
  have injective : Function.Injective (fun round : Fin (v.logBlocks + 1) =>
        (⟨place round - 1, by have := bounds round; omega⟩ : Fin v.logBlocks)) := by
    intro first second same
    have samePlace : place first = place second := by
      have := Fin.mk.inj same
      have := bounds first
      have := bounds second
      omega
    have sameSeq := (record first).symm.trans
      ((congrArg (fun p => descSeq (v.block p)) samePlace).trans (record second))
    exact Fin.ext (iterate_nextSeq_injective
      (by have := first.isLt; omega) (by have := second.isLt; omega) (Option.some.inj sameSeq))
  have := Fintype.card_le_of_injective _ injective
  simp only [Fintype.card_fin] at this
  omega

theorem chain_terminates
    (lower : 1 ≤ off) (upper : off ≤ v.logBlocks) (short : v.logBlocks < 2 ^ 64)
    (enough : v.logBlocks < fuel) : ∃ last, (v.chain fuel off seq).2 = some last := by
  by_contra endless
  have exhausted : (v.chain fuel off seq).2 = none :=
    Option.eq_none_iff_forall_ne_some.mpr fun last ended =>
      endless ⟨last, ended⟩
  exact records_bounded short fun round early =>
    chain_exhausted lower upper exhausted (Nat.lt_of_lt_of_le early enough)

end Chain

end LogView

/-! ## The run of replay -/

/--
One round of the loop of `carafs_journal_replay`: the number of images of the
transaction it applied, or nothing where the chain ends.
-/
def replayRound (off seq : Nat) : M (Option Nat) := do
  let m ← Action.read
  let descImage ← onBdev (Bdev.read (jPhys m off))
  match descAccepted m.blockSize m.sb.totalBlocks seq descImage with
  | none => pure none
  | some targets => do
      let n := targets.length
      let txnCrc ← replayCrc off n 0 0
      let commitImage ← onBdev (Bdev.read (jPhys m (jAdv m.jLogBlocks off (1 + n))))
      if commitAccepted m.blockSize seq n txnCrc commitImage then do
        replayApply off 0 targets
        pure (some n)
      else
        pure none

/-- What the loop does after a round. -/
def afterRound (fuel logBlocks off seq : Nat) :
    Option Nat → M (Option (Nat × Nat))
  | none => pure (some (off, seq))
  | some n => replayLoop fuel (jAdv logBlocks off (n + 2)) (nextSeq seq)

theorem replayLoop_succ (fuel off seq : Nat) (m : Mount) :
    replayLoop (fuel + 1) off seq m =
      (replayRound off seq >>= afterRound fuel m.jLogBlocks off seq) m := by
  rw [replayLoop, replayRound, bind_assoc, bind_of_ok (Action.read_apply m),
    bind_of_ok (Action.read_apply m), bind_assoc]
  refine congrFun (congrArg _ (funext fun descImage => ?_)) m
  cases descAccepted m.blockSize m.sb.totalBlocks seq descImage with
  | none =>
    rfl
  | some targets =>
    dsimp only
    rw [bind_assoc]
    refine congrArg _ (funext fun txnCrc => ?_)
    rw [bind_assoc]
    refine congrArg _ (funext fun commitImage => ?_)
    split
    · rw [bind_assoc]
      rfl
    · rfl

/-- The log region lies on the device. -/
structure LogOnDevice (m : Mount) : Prop where
  nonempty : 0 < m.jLogBlocks
  inRange : m.sb.journalStart + m.jLogBlocks < m.bdev.nBlocks

variable {j : Jsb}

section Run

variable {m after : Mount}

theorem LogOnDevice.of_frame (log : LogOnDevice m) (same : after.frame = m.frame) :
    LogOnDevice after where
  nonempty := (congrArg Mount.jLogBlocks same :) ▸ log.nonempty
  inRange := by
    have sameLog : after.jLogBlocks = m.jLogBlocks := (congrArg Mount.jLogBlocks same :)
    have sameStart : after.sb.journalStart = m.sb.journalStart :=
      (congrArg (fun mount => mount.sb.journalStart) same :)
    have sameSize : after.bdev.nBlocks = m.bdev.nBlocks :=
      (congrArg (fun mount => mount.bdev.nBlocks) same :)
    rw [sameLog, sameStart, sameSize]
    exact log.inRange

structure LogReady (m : Mount) : Prop where
  wf : CacheWf m
  healthy : Healthy m
  log : LogOnDevice m

theorem LogReady.follows (ready : LogReady m) (follows : Follows m after) : LogReady after :=
  ⟨follows.wf, follows.healthy ready.healthy, ready.log.of_frame follows.frame⟩

section

variable (same : after.frame = m.frame)
include same

theorem logView_congr
    (sameLog : ∀ block, InJournal m block → after.bdev.disk block = m.bdev.disk block) :
    after.logView = m.logView := by
  have sameSize : after.blockSize = m.blockSize := (congrArg Mount.blockSize same :)
  have sameSb : after.sb = m.sb := (congrArg Mount.sb same :)
  have sameBlocks : after.jLogBlocks = m.jLogBlocks := (congrArg Mount.jLogBlocks same :)
  unfold Mount.logView jPhys
  rw [sameSb, sameBlocks]
  congr 1
  funext off
  by_cases inside : 1 ≤ off ∧ off ≤ m.jLogBlocks
  · rw [if_pos inside, if_pos inside]
    exact sameLog _ ⟨by omega, by omega⟩
  · rw [if_neg inside, if_neg inside]

theorem logView_writeAll (writes : List (Nat × Block))
    (apart : ∀ write ∈ writes, ¬ InJournal m write.1)
    (wrote : after.bdev.disk = Redo.applyAll m.bdev.disk writes) : after.logView = m.logView := by
  refine logView_congr same fun block inside => ?_
  rw [wrote]
  apply Redo.applyAll_of_not_mem
  intro listed
  obtain ⟨write, member, rfl⟩ := mem_map.mp listed
  exact apart write member inside

theorem shows_of_writes {image : Block} (wrote : after.state = m.state.writeAll writes)
    (fromLog : ∀ write ∈ writes, m.logView.Shows write.2) (shown : after.logView.Shows image) :
    m.logView.Shows image := by
  obtain ⟨off, bounds, rfl⟩ := shown
  have sameLog : after.jLogBlocks = m.jLogBlocks := (congrArg Mount.jLogBlocks same :)
  have samePhys : jPhys after = jPhys m := (congrArg jPhys same :)
  have sameDisk : after.bdev.disk = Redo.applyAll m.bdev.disk writes :=
    congrArg CacheState.disk wrote
  replace bounds : 1 ≤ off ∧ off ≤ m.jLogBlocks := sameLog ▸ bounds
  show m.logView.Shows (if 1 ≤ off ∧ off ≤ after.jLogBlocks then
    after.bdev.disk (jPhys after off) else default)
  rw [sameLog, if_pos bounds, samePhys, sameDisk]
  by_cases listed : jPhys m off ∈ writes.map Prod.fst
  · exact fromLog _ (Redo.applyAll_mem listed)
  · rw [Redo.applyAll_of_not_mem listed]
    exact ⟨off, bounds, if_pos bounds⟩

end

section Reads

variable (ready : LogReady m) {off : Nat}
include ready

theorem wp_logRead (lower : 1 ≤ off) (upper : off ≤ m.jLogBlocks) {post : Block → Mount → Prop}
    (holds : post (m.logView.block off) m.ticked) :
    wp (onBdev (Bdev.read (jPhys m off))) post
      (fun _ _ => False) m := by
  have inRange : jPhys m off < m.bdev.nBlocks := by
    have := ready.log.inRange
    unfold jPhys
    omega
  apply wp_bdevRead
  · intro faulty
    exact absurd ⟨ready.healthy, inRange⟩ faulty
  · intro _
    simp only [Mount.logView, lower, upper, and_self, if_true] at holds
    exact holds

theorem wp_replayCrc (lower : 1 ≤ off) (upper : off ≤ m.jLogBlocks) (n i : Nat) (seed : Nat) :
    wp (replayCrc off n i seed)
      (fun crc after =>
        Follows m after ∧ after.state = m.state ∧
          crc = chainCrc m.blockSize (m.logView.images off i n) seed)
      (fun _ _ => False)
      m := by
  induction n generalizing m i seed with
  | zero =>
    exact ⟨.refl ready.wf, rfl, rfl⟩
  | succ n ih =>
    have ticked := (Follows.refl ready.wf).ticked
    obtain ⟨placeLower, placeUpper⟩ := LogView.jAdv_bounds lower upper (1 + i)
    unfold replayCrc
    rw [wp_bind, wp_read, wp_bind]
    apply wp_logRead ready placeLower placeUpper
    refine wp_mono (ih (ready.follows ticked) upper (i + 1) _) ?_ ?_
    · rintro crc after ⟨follows, sameState, sum⟩
      exact ⟨ticked.trans follows, sameState, sum⟩
    · nofun

theorem wp_replayApply (lower : 1 ≤ off) (upper : off ≤ m.jLogBlocks) (i : Nat)
    (inRange : ∀ target ∈ targets, target < m.bdev.nBlocks) :
    wp (replayApply off i targets)
      (fun _ after =>
        Follows m after ∧ ∃ images, (∀ image ∈ images, m.logView.Shows image) ∧
          after.state = m.state.writeAll (targets.zip images) ∧
          ((∀ target ∈ targets, ¬ InJournal m target) →
            images = m.logView.images off i targets.length))
      (fun _ _ => False)
      m := by
  induction targets generalizing m i with
  | nil =>
    exact ⟨.refl ready.wf, [], by simp, by simp, fun _ => rfl⟩
  | cons target rest ih =>
    have ticked := (Follows.refl ready.wf).ticked
    obtain ⟨placeLower, placeUpper⟩ := LogView.jAdv_bounds lower upper (1 + i)
    let image := m.logView.block (jAdv m.jLogBlocks off (1 + i))
    have isShown : m.logView.Shows image := ⟨_, ⟨placeLower, placeUpper⟩, rfl⟩
    have follows := ticked.written target image
    have midState : (m.ticked.written target image).state = m.state.writeAll [(target, image)] := by
      rw [state_written, state_ticked, CacheState.writeAll_cons, CacheState.writeAll_nil]
    unfold replayApply
    rw [wp_bind, wp_read, wp_bind]
    apply wp_logRead ready placeLower placeUpper
    rw [wp_bind]
    apply wp_write
    · intro faulty
      exact absurd ⟨ticked.healthy ready.healthy, inRange target mem_cons_self⟩ faulty
    · intro _
      refine wp_mono (ih (ready.follows follows) upper (i + 1) (fun later member =>
          inRange later (mem_cons_of_mem _ member))) ?_ nofun
      rintro _ after ⟨later, images, fromLog, laterState, exact_⟩
      refine ⟨follows.trans later, image :: images, ?_, ?_, fun apart => ?_⟩
      · intro other listed
        rcases mem_cons.mp listed with rfl | listed
        · exact isShown
        · refine shows_of_writes follows.frame midState ?_ (fromLog other listed)
          simpa using isShown
      · rw [laterState, midState, ← CacheState.writeAll_append]
        rfl
      · have sameView : (m.ticked.written target image).logView = m.logView :=
          logView_writeAll follows.frame [(target, image)]
            (by simpa using apart target mem_cons_self) (congrArg CacheState.disk midState)
        rw [exact_ fun later member => apart later (mem_cons_of_mem _ member), sameView]
        rfl

/-- A round applies the transaction at its offset, if its targets spare the log. -/
theorem wp_replayRound (fits : m.sb.totalBlocks ≤ m.bdev.nBlocks) (lower : 1 ≤ off)
    (upper : off ≤ m.jLogBlocks) (seq : Nat) :
    wp (replayRound off seq)
      (fun answer after =>
        Follows m after ∧ answer = (m.logView.txnAt off seq).map List.length ∧
          ∃ writes, (∀ write ∈ writes, m.logView.Shows write.2) ∧
            after.state = m.state.writeAll writes ∧
            ((∀ write ∈ (m.logView.txnAt off seq).getD [], ¬ InJournal m write.1) →
              writes = (m.logView.txnAt off seq).getD []))
      (fun _ _ => False)
      m := by
  have ticked := (Follows.refl ready.wf).ticked
  unfold replayRound
  rw [wp_bind, wp_read, wp_bind]
  apply wp_logRead ready lower upper
  cases accepted : descAccepted m.blockSize m.sb.totalBlocks seq (m.logView.block off) with
  | none =>
    have torn : m.logView.txnAt off seq = none := by
      show (match descAccepted m.blockSize m.sb.totalBlocks seq
        (m.logView.block off) with | none => _ | some targets => _) = _
      rw [accepted]
    rw [torn]
    exact ⟨ticked, rfl, [], by simp, by simp [state_ticked], fun _ => rfl⟩
  | some targets =>
    rw [wp_bind]
    refine wp_mono (wp_replayCrc (ready.follows ticked) lower upper targets.length 0 0) ?_ nofun
    rintro crc mid ⟨summed, summedState, sum⟩
    have toMid := ticked.trans summed
    have midState : mid.state = m.state := summedState
    have midView : mid.logView = m.logView :=
      logView_writeAll toMid.frame [] (by simp) (congrArg CacheState.disk midState)
    have midPhys : jPhys m = jPhys mid := (congrArg jPhys toMid.frame :).symm
    obtain ⟨commitLower, commitUpper⟩ := LogView.jAdv_bounds lower upper (1 + targets.length)
    rw [wp_bind, midPhys]
    apply wp_logRead (ready.follows toMid) commitLower (toMid.jLogBlocks ▸ commitUpper)
    rw [midView]
    have toAgain := toMid.ticked
    have startState : mid.ticked.state = m.state := midState
    have startView : mid.ticked.logView = m.logView := midView
    have summary : m.logView.txnAt off seq =
          if commitAccepted m.blockSize seq targets.length crc (m.logView.block
                (jAdv m.jLogBlocks off (1 + targets.length))) then
            some (targets.zip (m.logView.images off 0 targets.length))
          else
            none := by
      rw [sum]
      show (match descAccepted m.blockSize m.sb.totalBlocks seq
        (m.logView.block off) with | none => _ | some targets => _) = _
      rw [accepted]
      rfl
    by_cases whole : commitAccepted m.blockSize seq targets.length crc
        (m.logView.block (jAdv m.jLogBlocks off (1 + targets.length))) = true
    · rw [if_pos whole] at summary
      rw [if_pos whole, wp_bind, summary]
      refine wp_mono (wp_replayApply (ready.follows toAgain) lower
          (show off ≤ mid.ticked.jLogBlocks from toMid.jLogBlocks ▸ upper) 0 ?_) ?_ nofun
      · intro target member
        rw [toAgain.nBlocks]
        have := (LogView.descAccepted_eq_some accepted).2.2 target member
        omega
      · rintro _ home ⟨applied, images, fromLog, appliedState, exact_⟩
        rw [startState] at appliedState
        rw [startView] at fromLog exact_
        refine ⟨toAgain.trans applied, by rw [Option.map_some, LogView.txnAt_length],
          targets.zip images,
          fun write listed => fromLog _ (of_mem_zip listed).2, appliedState, fun apart => ?_⟩
        rw [exact_ fun target member => ?_]
        · rfl
        · have named : (targets.zip (m.logView.images off 0 targets.length)).map Prod.fst =
              targets := map_fst_zip (by rw [LogView.images_length])
          rw [← named] at member
          obtain ⟨write, listed, rfl⟩ := mem_map.mp member
          rw [show InJournal mid.ticked = InJournal m from (congrArg InJournal toAgain.frame :)]
          exact apart write listed
    · rw [if_neg whole] at summary
      rw [if_neg whole, summary]
      exact ⟨toAgain, rfl, [], by simp, startState.trans (by simp), fun _ => rfl⟩

theorem wp_replayLoop (fits : m.sb.totalBlocks ≤ m.bdev.nBlocks)
    (lower : 1 ≤ off) (upper : off ≤ m.jLogBlocks) (fuel seq : Nat)
    (apart : ∀ write ∈ (m.logView.chain fuel off seq).1, ¬ InJournal m write.1) :
    wp (replayLoop fuel off seq)
      (fun last after =>
        Follows m after ∧
          after.state =
            m.state.writeAll (m.logView.chain fuel off seq).1 ∧
          last = (m.logView.chain fuel off seq).2)
      (fun _ _ => False)
      m := by
  induction fuel generalizing m off seq with
  | zero =>
    exact ⟨.refl ready.wf, by simp [LogView.chain], rfl⟩
  | succ fuel ih =>
    unfold wp
    rw [replayLoop_succ]
    show wp _ _ _ m
    rw [wp_bind]
    refine wp_mono (wp_replayRound ready fits lower upper seq) ?_ nofun
    rintro answer home ⟨toHome, rfl, writes, -, homeState, exact_⟩
    cases found : m.logView.txnAt off seq with
    | none =>
      rw [LogView.chain_of_none (Nat.succ_pos _) found]
      rw [found] at exact_
      obtain rfl := exact_ (by simp)
      exact ⟨toHome, homeState, rfl⟩
    | some txn =>
      rw [LogView.chain_of_some (Nat.succ_pos _) found] at apart ⊢
      rw [found] at exact_
      obtain rfl := exact_ fun write member => apart write (mem_append_left _ member)
      have homeView : home.logView = m.logView :=
        logView_writeAll toHome.frame _ (fun write member =>
            apart write (mem_append_left _ member)) (congrArg CacheState.disk homeState)
      have homeJournal : InJournal home = InJournal m := (congrArg InJournal toHome.frame :)
      have homeFits : home.sb.totalBlocks ≤ home.bdev.nBlocks := by
        rwa [toHome.sb, toHome.nBlocks]
      obtain ⟨nextLower, nextUpper⟩ := LogView.jAdv_bounds lower upper (writes.length + 2)
      refine wp_mono (ih (ready.follows toHome) homeFits nextLower
          (toHome.jLogBlocks ▸ nextUpper) (nextSeq seq) ?_) ?_ nofun
      · rw [homeView, homeJournal]
        exact fun write member => apart write (mem_append_right _ member)
      · rintro last after ⟨rest, restState, ended⟩
        rw [homeView] at restState ended
        refine ⟨toHome.trans rest, restState.trans ?_, ended⟩
        rw [homeState, ← CacheState.writeAll_append]
        rfl

end Reads

structure JsbValid (m : Mount) (j : Jsb) : Prop where
  stored : m.bdev.disk m.sb.journalStart = .jsb j
  sealed : Block.crcOk m.blockSize (.jsb j) = true
  head : 1 ≤ j.head ∧ j.head ≤ m.jLogBlocks

/-- What `carafs_journal_replay` relies on when it starts. -/
structure ReplayReady (m : Mount) (j : Jsb) : Prop where
  wf : CacheWf m
  healthy : Healthy m
  log : LogOnDevice m
  sized : m.jLogBlocks = m.sb.journalBlocks - 1
  short : m.jLogBlocks < 2 ^ 64
  fits : m.sb.totalBlocks ≤ m.bdev.nBlocks
  jsb : JsbValid m j

theorem ReplayReady.logReady (ready : ReplayReady m j) : LogReady m :=
  ⟨ready.wf, ready.healthy, ready.log⟩

/-- The chain of complete transactions of a volume with the given JSB. -/
def Mount.logChain (m : Mount) (j : Jsb) : List (Nat × Block) × Option (Nat × Nat) :=
  m.logView.chain (m.bdev.nBlocks + 1) j.head j.seq

theorem ReplayReady.chain_end (ready : ReplayReady m j) :
    ∃ last, (m.logChain j).2 = some last ∧
      (1 ≤ last.1 ∧ last.1 ≤ m.jLogBlocks) ∧
      m.logView.txnAt last.1 last.2 = none := by
  obtain ⟨lower, upper⟩ := ready.jsb.head
  have enough : m.jLogBlocks < m.bdev.nBlocks + 1 := by
    have := ready.log.inRange
    omega
  obtain ⟨last, ended⟩ : ∃ last, (m.logChain j).2 = some last :=
    LogView.chain_terminates lower upper ready.short enough
  exact ⟨last, ended, LogView.chain_end lower upper ended⟩

theorem wp_jsbRead (ready : ReplayReady m j) :
    wp jsbRead
      (fun answer after => answer = j ∧ after = m.ticked)
      (fun _ _ => False)
      m := by
  have same : { m with jLogBlocks := m.sb.journalBlocks - 1 } = m := by
    rw [← ready.sized]
  have inRange : m.sb.journalStart < m.bdev.nBlocks := by
    have := ready.log.inRange
    omega
  unfold jsbRead
  rw [wp_bind, Action.wp_modify, same, wp_bind, wp_read, wp_bind]
  apply wp_bdevRead
  · intro faulty
    exact absurd ⟨ready.healthy, inRange⟩ faulty
  · intro _
    rw [ready.jsb.stored]
    have inside : ¬ ((j.head < 1 || j.head > m.jLogBlocks) = true) := by
      have := ready.jsb.head
      simp only [Bool.or_eq_true, decide_eq_true_eq]
      omega
    simp only [ready.jsb.sealed, Bool.not_true, Bool.false_eq_true,
      if_false, inside, wp_pure, and_self]

theorem wp_journalReplay (ready : ReplayReady m j)
    (apart : ∀ write ∈ (m.logChain j).1, ¬ InJournal m write.1)
    (ended : (m.logChain j).2 = some last) :
    wp journalReplay
      (fun _ after =>
        Follows (setJournal last.1 last.2 m) after ∧
          after.state =
            ((m.state.writeAll (m.logChain j).1).flush.write m.sb.journalStart
              (setJournal last.1 last.2 m).jsbImage).flush)
      (fun _ _ => False)
      m := by
  have ticked := (Follows.refl ready.wf).ticked
  unfold journalReplay
  rw [wp_bind]
  refine wp_mono (wp_jsbRead ready) ?_ nofun
  rintro found _ ⟨isJsb, rfl⟩
  rw [isJsb, wp_bind, wp_read, wp_bind]
  refine wp_mono (wp_replayLoop (ready.logReady.follows ticked) ready.fits
      ready.jsb.head.1 ready.jsb.head.2 _ _ apart) ?_ nofun
  rintro answer home ⟨applied, appliedState, rfl⟩
  have toHome := ticked.trans applied
  have homeState : home.state = m.state.writeAll (m.logChain j).1 := by
    rw [appliedState]
    rfl
  have ending : (m.ticked.logView.chain (m.ticked.bdev.nBlocks + 1)
      j.head j.seq).2 = some last := ended
  rw [ending]
  rw [wp_bind]
  apply wp_flush
  · intro faulty
    exact absurd (toHome.healthy ready.healthy) faulty
  · have toFlushed := toHome.flushed
    rw [wp_bind, Action.wp_modify]
    have movedWf : CacheWf (setJournal last.1 last.2 home.flushed) :=
      toFlushed.wf.of_same_table rfl rfl rfl
    have movedFrame : (setJournal last.1 last.2 home.flushed).frame =
          (setJournal last.1 last.2 m).frame :=
      congrArg (setJournal last.1 last.2) toFlushed.frame
    have sameJsb : (setJournal last.1 last.2 home.flushed).jsbImage =
          (setJournal last.1 last.2 m).jsbImage :=
      (congrArg Mount.jsbImage movedFrame :)
    have sameStart : home.flushed.sb.journalStart = m.sb.journalStart :=
      (congrArg (fun mount => mount.sb.journalStart) toFlushed.frame :)
    have movedState : (setJournal last.1 last.2 home.flushed).state =
          (m.state.writeAll (m.logChain j).1).flush :=
      congrArg CacheState.flush homeState
    refine wp_mono (wp_jsbWrite movedWf) ?_ ?_
    · rintro _ after ⟨wrote, wroteState⟩
      refine ⟨wrote.congr_frame movedFrame.symm, ?_⟩
      rw [wroteState, movedState, sameJsb]
      exact sameStart ▸ rfl
    · rintro code after ⟨faulty, -⟩
      refine faulty ⟨toFlushed.healthy ready.healthy, ?_⟩
      show home.flushed.sb.journalStart < home.flushed.bdev.nBlocks
      rw [toFlushed.nBlocks]
      have := ready.log.inRange
      omega

end Run

end CaraOS.Carafs
