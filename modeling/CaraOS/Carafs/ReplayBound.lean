import CaraOS.Carafs.ReplayRestart

namespace CaraOS.Carafs

/-!
# Replay of an arbitrary log

A transaction of a log that nobody wrote may aim at the log itself, so what a
later round reads need not be what the image held.  Replay only copies log
blocks, though: every DESC record it ever accepts stood somewhere in the log at
the start, and the sequence numbers of the accepted records are all different.
The size of the log therefore bounds the number of transactions applied.
-/

open Action (bind_assoc bind_of_ok wp wp_bind wp_mono wp_of_ok wp_read wp_total)

/-! ## Rounds of the loop -/

/--
The loop ends at `last` after it has applied `count` transactions from the
offset and sequence number given.
-/
inductive ReplayRounds :
    Nat → Nat → Nat → Mount → Nat × Nat → Mount → Prop where
  | ended
      {off seq : Nat}
      {m after : Mount}
      (round : replayRound off seq m = (.ok none, after)) :
      ReplayRounds 0 off seq m (off, seq) after
  | applied
      {count off seq n : Nat}
      {m mid after : Mount}
      {last : Nat × Nat}
      (round : replayRound off seq m = (.ok (some n), mid))
      (rest : ReplayRounds count (jAdv m.jLogBlocks off (n + 2)) (nextSeq seq) mid last after) :
      ReplayRounds (count + 1) off seq m last after

variable {last : Nat × Nat}

theorem ReplayRounds.loop {count off seq : Nat} {m after : Mount}
    (rounds : ReplayRounds count off seq m last after) {fuel : Nat}
    (enough : count < fuel) : replayLoop fuel off seq m = (.ok (some last), after) := by
  induction rounds generalizing fuel with
  | ended round =>
    obtain ⟨fuel, rfl⟩ := Nat.exists_eq_add_one.mpr enough
    rw [replayLoop_succ, bind_of_ok round]
    rfl
  | applied round rest ih =>
    obtain ⟨fuel, rfl⟩ := Nat.exists_eq_add_one.mpr (Nat.lt_of_le_of_lt (Nat.zero_le _) enough)
    rw [replayLoop_succ, bind_of_ok round]
    exact ih (Nat.lt_of_succ_lt_succ enough)

/-! ## Replay only copies log blocks -/

/-- Replay is under way and the log shows only blocks of a given collection. -/
structure Copying (S : Set Block) (m : Mount) : Prop where
  wf : CacheWf m
  healthy : Healthy m
  log : LogOnDevice m
  fits : m.sb.totalBlocks ≤ m.bdev.nBlocks
  shown : ∀ off, 1 ≤ off → off ≤ m.jLogBlocks → m.logView.block off ∈ S

section Copying

variable {S : Set Block} {m after : Mount} {off : Nat}

variable (copying : Copying S m)
include copying

theorem Copying.logReady : LogReady m :=
  ⟨copying.wf, copying.healthy, copying.log⟩

theorem Copying.of_writes {writes : List (Nat × Block)} (follows : Follows m after)
    (wrote : after.state = m.state.writeAll writes)
    (fromLog : ∀ write ∈ writes, m.logView.Shows write.2) : Copying S after :=
  { copying.logReady.follows follows with
    fits := by
      rw [follows.sb, follows.nBlocks]
      exact copying.fits
    shown := by
      intro off lower upper
      obtain ⟨place, bounds, isShown⟩ :=
        shows_of_writes follows.frame wrote fromLog ⟨off, ⟨lower, upper⟩, rfl⟩
      rw [← isShown]
      exact copying.shown place bounds.1 bounds.2 }

/--
Within any number of rounds the loop ends, or every round finds a DESC record
with the next sequence number.
-/
theorem rounds_or_records (lower : 1 ≤ off) (upper : off ≤ m.jLogBlocks) (limit seq : Nat) :
    (∃ count last after, count < limit ∧ ReplayRounds count off seq m last after ∧
        Follows m after) ∨
      ∀ round < limit, ∃ image ∈ S,
        LogView.descSeq image = some (nextSeq^[round] seq) := by
  induction limit generalizing m off seq with
  | zero =>
    exact .inr fun round early => absurd early (Nat.not_lt_zero _)
  | succ limit ih =>
    obtain ⟨_, mid, ran, follows, rfl, writes, fromLog, wrote, -⟩ :=
      wp_total (wp_replayRound copying.logReady copying.fits lower upper seq)
    have midCopying := copying.of_writes follows wrote fromLog
    cases found : m.logView.txnAt off seq with
    | none =>
      rw [found] at ran
      exact .inl ⟨0, (off, seq), mid, Nat.succ_pos _, .ended ran, follows⟩
    | some txn =>
      rw [found] at ran
      obtain ⟨nextLower, nextUpper⟩ := LogView.jAdv_bounds lower upper (txn.length + 2)
      rcases ih midCopying nextLower (follows.jLogBlocks ▸ nextUpper) (nextSeq seq) with
        ⟨count, last, after, early, rest, later⟩ | records
      · exact .inl ⟨count + 1, last, after, Nat.succ_lt_succ early,
          .applied ran rest, follows.trans later⟩
      · refine .inr fun round early => ?_
        cases round with
        | zero =>
          exact ⟨_, copying.shown off lower upper, LogView.txnAt_descSeq found⟩
        | succ round =>
          exact records round (Nat.lt_of_succ_lt_succ early)

end Copying

/-! ## The sequence of complete transactions -/

namespace LogView

/--
Complete transactions that follow each other in the log with consecutive
sequence numbers, from where they start to where they stop.
-/
inductive Consecutive (v : LogView) :
    Nat × Nat → List (List (Nat × Block)) → Nat × Nat → Prop where
  | nil (place : Nat × Nat) :
      Consecutive v place [] place
  | cons
      {off seq : Nat}
      {writes : List (Nat × Block)}
      {rest : List (List (Nat × Block))}
      {stop : Nat × Nat}
      (whole : v.txnAt off seq = some writes)
      (later : Consecutive v (jAdv v.logBlocks off (writes.length + 2), nextSeq seq) rest stop) :
      Consecutive v (off, seq) (writes :: rest) stop

variable {v : LogView}

theorem chain_consecutive {fuel off seq : Nat} {stop : Nat × Nat}
    (ended : (v.chain fuel off seq).2 = some stop) :
    ∃ txns, Consecutive v (off, seq) txns stop ∧
      txns.flatten = (v.chain fuel off seq).1 := by
  induction fuel generalizing off seq with
  | zero =>
    exact absurd ended (by simp [chain])
  | succ fuel ih =>
    unfold chain at ended ⊢
    cases found : v.txnAt off seq with
    | none =>
      rw [found] at ended
      cases ended
      exact ⟨[], .nil _, rfl⟩
    | some writes =>
      rw [found] at ended
      obtain ⟨rest, later, listed⟩ := ih ended
      refine ⟨writes :: rest, .cons found later, ?_⟩
      rw [List.flatten_cons, listed]

theorem Consecutive.longest
    {start stop otherStop : Nat × Nat} {txns other : List (List (Nat × Block))}
    (sequence : Consecutive v start txns stop) (torn : v.txnAt stop.1 stop.2 = none)
    (another : Consecutive v start other otherStop) : other <+: txns := by
  induction sequence generalizing other with
  | nil place =>
    cases another with
    | nil =>
      exact List.prefix_rfl
    | cons whole later =>
      rw [torn] at whole
      cases whole
  | cons whole later ih =>
    cases another with
    | nil =>
      exact List.nil_prefix
    | cons otherWhole otherLater =>
      rw [whole, Option.some.injEq] at otherWhole
      subst otherWhole
      exact (List.prefix_cons_inj _).mpr (ih torn otherLater)

end LogView

/-! ## Any image -/

section Image

variable {bs nBlocks : Nat} {disk : Nat → Block} {sb : Superblock} {j : Jsb}

theorem ReplayReady.rounds {m : Mount} (ready : ReplayReady m j) :
    ∃ count last home,
      count ≤ m.jLogBlocks ∧
        ReplayRounds count j.head j.seq m.ticked last home ∧
        Follows m home := by
  let S : Set Block := fun image =>
    ∃ off, (1 ≤ off ∧ off ≤ m.jLogBlocks) ∧ m.logView.block off = image
  have copying : Copying S m := {
    wf := ready.wf
    healthy := ready.healthy
    log := ready.log
    fits := ready.fits
    shown := fun off lower upper => ⟨off, ⟨lower, upper⟩, rfl⟩ }
  have ticked := (Follows.refl ready.wf).ticked
  have start : Copying S m.ticked :=
    @Copying.of_writes S m _ copying [] ticked (by simp [state_ticked]) (by simp)
  rcases rounds_or_records start ready.jsb.head.1 ready.jsb.head.2 (m.jLogBlocks + 1) j.seq with
    ⟨count, last, home, early, rounds, follows⟩ | records
  · exact ⟨count, last, home, Nat.le_of_lt_succ early, rounds, ticked.trans follows⟩
  · have short : m.logView.logBlocks < 2 ^ 64 := ready.short
    have crowded : ∀ round < m.logView.logBlocks + 1, ∃ off, (1 ≤ off ∧ off ≤ m.logView.logBlocks) ∧
            LogView.descSeq (m.logView.block off) = some (nextSeq^[round] j.seq) := by
      intro round early
      obtain ⟨image, ⟨off, bounds, here⟩, record⟩ := records round early
      exact ⟨off, bounds, here ▸ record⟩
    exact (LogView.records_bounded short crowded).elim

theorem journalReplay_of_rounds {m home : Mount} {count : Nat} (ready : ReplayReady m j)
    (rounds : ReplayRounds count j.head j.seq m.ticked last home)
    (few : count ≤ m.jLogBlocks) (follows : Follows m home) :
    ∃ whole, journalReplay m = (.ok (), whole) := by
  have enough : count < m.ticked.bdev.nBlocks + 1 := by
    have := ready.log.inRange
    show count < m.bdev.nBlocks + 1
    omega
  obtain ⟨answer, start, ranJsb, isJsb, isStart⟩ := wp_total (wp_jsbRead ready)
  subst isJsb isStart
  have total : wp journalReplay (fun _ _ => True) (fun _ _ => False) m := by
    unfold journalReplay
    rw [wp_bind]
    refine (wp_of_ok ranJsb).mpr ?_
    rw [wp_bind, wp_read, wp_bind]
    refine (wp_of_ok (rounds.loop enough)).mpr ?_
    rw [wp_bind]
    apply wp_flush
    · intro faulty
      exact absurd (follows.healthy ready.healthy) faulty
    · have toFlushed := follows.flushed
      rw [wp_bind, Action.wp_modify]
      have movedWf : CacheWf (setJournal last.1 last.2 home.flushed) :=
        toFlushed.wf.of_same_table rfl rfl rfl
      refine wp_mono (wp_jsbWrite movedWf) (fun _ _ _ => trivial) ?_
      rintro code after ⟨faulty, -⟩
      refine faulty ⟨toFlushed.healthy ready.healthy, ?_⟩
      have sameStart : home.flushed.sb.journalStart = m.sb.journalStart :=
        (congrArg (fun mount => mount.sb.journalStart) toFlushed.frame :)
      show home.flushed.sb.journalStart < home.flushed.bdev.nBlocks
      rw [toFlushed.nBlocks]
      have := ready.log.inRange
      omega
  obtain ⟨_, whole, ran, -⟩ := wp_total total
  exact ⟨whole, ran⟩

/--
Replay of an arbitrary log.  On every image with a valid superblock and a
valid JSB replay returns after at most as many transactions as the log has
blocks.  If no complete transaction aims at the journal region, the writes are
the images of the longest sequence of consecutive complete transactions from
the JSB head on, in order, and then the JSB.
-/
theorem replay_of_any_log (opts : MountOpts) (room : cacheMinBlocks ≤ opts.nEnts)
    (image : ValidImage bs nBlocks disk sb j) :
    ∃ (count : Nat) (last : Nat × Nat) (start home whole : Mount),
      jsbRead (beforeReplay opts bs nBlocks disk) = (.ok j, start) ∧
        ReplayRounds count j.head j.seq start last home ∧
        count ≤ sb.journalBlocks - 1 ∧
        journalReplay (beforeReplay opts bs nBlocks disk) =
          (.ok (), whole) ∧
        ((∀ txns stop, (imageLog bs disk sb).Consecutive (j.head, j.seq) txns stop →
            ∀ write ∈ txns.flatten, ¬ JournalBlock sb write.1) →
          ∃ txns stop,
            (imageLog bs disk sb).Consecutive (j.head, j.seq) txns stop ∧
              (∀ other otherStop, (imageLog bs disk sb).Consecutive (j.head, j.seq) other
                  otherStop →
                other <+: txns) ∧
              blockWrites
                  (issued (beforeReplay opts bs nBlocks disk) whole) =
                txns.flatten ++
                  [(sb.journalStart, Block.putCrc bs
                      (.jsb { seq := stop.2, head := stop.1 }))]) := by
  obtain ⟨-, loaded⟩ := beforeReplay_loaded opts room image.super
  have ready := loaded.ready image
  obtain ⟨answer, start, ranJsb, isJsb, isStart⟩ := wp_total (wp_jsbRead ready)
  subst isJsb isStart
  obtain ⟨count, last, home, few, rounds, follows⟩ := ready.rounds
  obtain ⟨whole, ran⟩ := journalReplay_of_rounds ready rounds few follows
  refine ⟨count, last, _, home, whole, ranJsb, rounds, loaded.logBlocks ▸ few, ran, fun apart => ?_⟩
  have chainEnds : ∃ stop, ((imageLog bs disk sb).chain (nBlocks + 1) answer.head answer.seq).2 =
        some stop := by
    obtain ⟨stop, ended, -⟩ := ready.chain_end
    refine ⟨stop, ?_⟩
    rw [← loaded.view]
    simpa only [Mount.logChain, loaded.nBlocks] using ended
  obtain ⟨stop, ended⟩ := chainEnds
  obtain ⟨txns, sequence, listed⟩ := LogView.chain_consecutive ended
  obtain ⟨stop', jsb, whole', ran', -, torn, rfl, ended', -, asked⟩ :=
    replay_image opts room image fun write member =>
      apart txns stop sequence write (listed ▸ member)
  rw [ended, Option.some.injEq] at ended'
  subst ended'
  rw [ran] at ran'
  obtain ⟨-, rfl⟩ := ran'
  refine ⟨txns, stop, sequence, fun other otherStop another =>
    sequence.longest torn another, ?_⟩
  rw [asked, listed]
  rfl

end Image

/-- The volume of 3000 blocks whose log holds two transactions. -/
theorem replay_of_two_transactions :
    ∃ (count : Nat) (last : Nat × Nat) (start home whole : Mount),
      ReplayRounds count 1 1 start last home ∧ count ≤ 2048 ∧
        journalReplay
            (beforeReplay { nEnts := 16 } 512 3000
              (RestartExample.disk 3000)) = (.ok (), whole) := by
  obtain ⟨count, last, start, home, whole, -, rounds, few, ran, -⟩ :=
    replay_of_any_log { nEnts := 16 } (by decide) (RestartExample.recoverable 3000).valid
  exact ⟨count, last, start, home, whole, rounds, few, ran⟩

end CaraOS.Carafs
