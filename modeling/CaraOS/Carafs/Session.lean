import CaraOS.Carafs.Rest

namespace CaraOS.Carafs

/-!
# Operations on a volume at rest

The bracket every mutating call runs in: what the body of the call finds, and
what the commit leaves.  File system code is only ever reasoned about on the
shadow it starts from.
-/

open Action (wp wp_attempt wp_bind wp_fail wp_modify wp_mono wp_pure wp_read)

/-- A mounted, writable volume between two operations, up to lax blocks. -/
structure Idles (lax : Set Nat) (m : Mount) : Prop extends Rests lax m where
  mounted : m.mounted = true
  writable : m.readonly = false
  outside : m.inTxn = false

/-- A mounted, writable volume between two operations. -/
abbrev Idle (m : Mount) : Prop :=
  Idles ∅ m

/-- A mount whose transaction has just been opened. -/
structure Opens (lax : Set Nat) (m after : Mount) : Prop where
  steady : Rests lax after
  fixed : after.fixed = m.fixed
  sb : after.sb = { m.sb with state := .dirty }
  saved : after.sbAtTxn = after.sb
  inside : after.inTxn = true
  empty : after.txnBlocks = []
  view : ∀ {block}, ¬ InJournal m block → block ∉ lax → block ≠ 0 → after.view block = m.view block
  homed : ∀ {block}, ¬ InJournal m block → block ∉ lax → block ≠ 0 →
      m.bdev.disk block = m.view block → after.bdev.disk block = after.view block

section Begin

variable {lax : Set Nat} {m after : Mount}

theorem Idles.empty (idle : Idles lax m) : m.txnBlocks = [] :=
  idle.wf.closed idle.outside

theorem Idles.few (idle : Idles lax m) : m.txnBlocks.length < cacheMinBlocks := by
  rw [idle.empty]
  decide

theorem Rests.retune (steady : Rests lax m) (empty : m.txnBlocks = []) (sb saved : Superblock)
    (sameStart : sb.journalStart = m.sb.journalStart) (flag : Bool) :
    Rests lax { m with
      sb := sb, sbAtTxn := saved, inTxn := flag, txnBlocks := [] } where
  wf := {
    toCacheWf := steady.wf.toCacheWf.of_same_table rfl rfl rfl
    members := by
      intro block
      rw [← empty]
      exact steady.wf.members
    nodup := List.nodup_nil
    bounded := Nat.zero_le _
    closed := fun _ => rfl }
  healthy := steady.healthy
  unpinned := steady.unpinned
  coherent := by
    intro block outside strict
    refine steady.coherent (fun inside => outside ?_) strict
    unfold InJournal at inside ⊢
    rwa [← sameStart] at inside
  room := steady.room
  start := sameStart ▸ steady.start
  large := steady.large
  inside := sameStart ▸ steady.inside
  head := steady.head
  tail := steady.tail

theorem Opens.of_marked {marked : Mount} (steady : Rests lax marked) (empty : marked.txnBlocks = [])
    (fixed : marked.fixed = m.fixed) (sb : marked.sb = { m.sb with state := .dirty })
    (view : ∀ {block}, ¬ InJournal m block → block ∉ lax → block ≠ 0 →
        marked.view block = m.view block ∧
        (m.bdev.disk block = m.view block → marked.bdev.disk block = m.view block)) :
    Opens lax m (txnBegin { marked with sbAtTxn := marked.sb }) where
  steady := steady.retune empty _ marked.sb rfl true
  fixed := fixed
  sb := sb
  saved := rfl
  inside := rfl
  empty := rfl
  view := fun outside strict other => (view outside strict other).1
  homed := by
    intro block outside strict other isHome
    obtain ⟨same, home⟩ := view outside strict other
    exact (home isHome).trans same.symm

theorem wp_opBegin (idle : Idles lax m) :
    wp opBegin (fun _ after => Opens lax m after) (fun _ _ => False)
      m := by
  unfold opBegin
  rw [wp_bind, wp_read]
  simp only [idle.mounted, idle.writable, Bool.not_true, Bool.or_self, Bool.false_eq_true, if_false]
  rw [wp_bind]
  unfold markDirty
  rw [wp_bind, wp_read]
  by_cases already : m.sb.state = .dirty
  · rw [if_pos already]
    refine Opens.of_marked idle.toRests idle.empty rfl ?_ fun _ _ _ => ⟨rfl, fun isHome => isHome⟩
    rw [← already]
  · rw [if_neg already, wp_bind, wp_modify, wp_bind, wp_attempt]
    have empty := idle.empty
    have steady : Rests lax { m with sb := { m.sb with state := .dirty } } := by
      have tuned := idle.toRests.retune empty { m.sb with state := .dirty } m.sbAtTxn rfl m.inTxn
      rwa [← empty] at tuned
    refine wp_mono (wp_sbWriteDirect_settles steady idle.few) ?_ nofun
    rintro _ marked ⟨markedSteady, fixed, sameSb, -, sameTxn, -, shows⟩
    rw [wp_pure, wp_modify]
    refine Opens.of_marked markedSteady (sameTxn.trans empty) fixed sameSb ?_
    intro block outside strict other
    exact shows outside strict other

theorem opBegin_refused (refused : m.mounted = false ∨ m.readonly = true) :
    opBegin m = (.error .einval, m) := by
  have closed : (!m.mounted || m.readonly) = true := by
    rcases refused with refused | refused <;> simp [refused]
  unfold opBegin
  rw [Action.bind_of_ok (Action.read_apply m), if_pos closed]
  rfl

end Begin

/-! ## Running the body -/

section Body

variable {base : Set Nat} {m₀ m : Mount} {s : Shadow} {α : Type}

theorem Tracks.run (tracks : Tracks base m₀ m s)
    {body : Fs α} {post : α → Shadow → Prop} {failed : Err → Shadow → Prop}
    (holds : s.wp body post failed) :
    wp (Fs.run body)
      (fun value after => ∃ s', post value s' ∧ Tracks base m₀ after s')
      (fun code after => ∃ s', failed code s' ∧ Tracks base m₀ after s')
      m := by
  obtain ⟨s', reached, ended⟩ :=
    Program.Prog.wp_sound Shadow.step (exec_tracks _) tracks holds
  unfold wp Fs.run
  cases outcome : Program.Prog.run exec (ExceptT.run body) m with
  | mk answer after =>
    rw [outcome] at reached ended
    cases answer with
    | ok value => exact ⟨s', reached, ended⟩
    | error code => exact ⟨s', reached, ended⟩

end Body

/-! ## Closing an operation -/

/-- The volume a committed operation leaves; what was loose is not kept. -/
structure Closes (m : Mount) (s : Shadow) (after : Mount) : Prop where
  idle : Idles s.loose after
  fixed : after.fixed = m.fixed
  sb : after.sb = s.sb
  view : ∀ {block}, ¬ InJournal m block → block ∉ s.loose → block ≠ 0 →
      after.view block = s.view block

/-- The superblock cannot be added to the transaction. -/
def Shadow.Full (s : Shadow) : Prop :=
  s.Crowded ∨ txnMaxBlocks ≤ s.txn.length

section Close

variable {lax : Set Nat} {m opened before : Mount} {s : Shadow}

theorem Opens.sameJournal (opens : Opens lax m opened) (block : Nat) :
    InJournal opened block ↔ InJournal m block := by
  have sameLog : opened.jLogBlocks = m.jLogBlocks := (congrArg Mount.jLogBlocks opens.fixed :)
  unfold InJournal
  rw [opens.sb, sameLog]

theorem Shadow.wp_sbWrite (bs : Nat) (notLoose : 0 ∉ s.loose) (inRange : 0 < s.nBlocks)
    (inside : s.inTxn = true) :
    s.wp (sbWrite bs)
      (fun _ after =>
        after.pins = s.pins ∧ after.loose ⊆ s.loose ∧ after.sb = s.sb ∧
          ∀ block, block ≠ 0 → after.view block = s.view block)
      (fun _ after =>
        s.Full ∧ after.pins = s.pins ∧ after.loose ⊆ s.loose ∧
          after.txn = s.txn ∧
          ∀ block, block ≠ 0 → after.view block = s.view block) := by
  unfold sbWrite
  rw [Shadow.wp_bind]
  refine Shadow.wp_get (.inl notLoose) ?_ ?_
  · intro fresh _
    rw [Shadow.wp_bind, Shadow.wp_sb, Shadow.wp_bind,
      Shadow.wp_store (Multiset.mem_cons_self 0 s.pins), Shadow.wp_bind, Shadow.wp_attempt]
    have kept : insert 0 s.loose \ {0} ⊆ s.loose := by
      rintro block ⟨rfl | loose, other⟩
      · exact absurd rfl other
      · exact loose
    refine Shadow.wp_txnDirty (Multiset.mem_cons_self 0 s.pins) inside ?_ ?_
    · intro _
      rw [Shadow.wp_bind, Shadow.wp_put]
      refine ⟨Multiset.erase_cons_head 0 s.pins, kept, rfl, ?_⟩
      intro block other
      exact Function.update_of_ne other ..
    · intro _ full
      rw [Shadow.wp_bind, Shadow.wp_put]
      refine ⟨.inr full, Multiset.erase_cons_head 0 s.pins, kept, rfl, ?_⟩
      intro block other
      exact Function.update_of_ne other ..
  · intro code cause _
    refine ⟨.inl ?_, rfl, subset_rfl, rfl, fun _ _ => rfl⟩
    rcases cause with outside | crowded
    · omega
    · exact crowded

theorem wp_opCommit {base : Set Nat} (idle : Idles lax m) (opens : Opens lax m opened)
    (tracks : Tracks base opened before s)
    (sameStart : s.sb.journalStart = m.sb.journalStart) (quiet : s.Quiet) :
    wp opCommit
      (fun _ after => Closes m s after)
      (fun _ after =>
        s.Full ∧ ∃ stopped s', after = opAbort stopped ∧
          Tracks base opened stopped s' ∧ s'.pins = s.pins ∧
          s'.loose ⊆ s.loose ∧ s'.txn = s.txn ∧
          ∀ block, block ≠ 0 → s'.view block = s.view block)
      before := by
  have inRange : 0 < s.nBlocks := by
    have := idle.inside
    have sameSize : before.bdev.nBlocks = opened.bdev.nBlocks :=
      (congrArg (fun mount => mount.bdev.nBlocks) tracks.core :)
    have sameSize' : opened.bdev.nBlocks = m.bdev.nBlocks :=
      (congrArg (fun mount => mount.bdev.nBlocks) opens.fixed :)
    rw [tracks.nBlocks]
    omega
  have isInside : s.inTxn = true := by
    have same : before.inTxn = opened.inTxn := (congrArg Mount.inTxn tracks.core :)
    rw [tracks.inTxn, same, opens.inside]
  have openedStart : opened.sb.journalStart = m.sb.journalStart := by
    rw [opens.sb]
  unfold opCommit
  rw [wp_bind, wp_read, wp_bind, wp_attempt, wp_bind]
  have wrote := tracks.run (Shadow.wp_sbWrite before.blockSize quiet.super inRange isInside)
  refine wp_mono wrote ?_ ?_
  · rintro _ written ⟨s', ⟨samePins, lessLoose, sameSb, shows⟩, logged⟩
    have quiet' : s'.Quiet :=
      ⟨samePins.trans quiet.pins, fun loose => quiet.super (lessLoose loose)⟩
    obtain ⟨steady, fixed, hasSb, seen, -⟩ := logged.settle opens.steady
      (sameSb ▸ sameStart.trans openedStart.symm) quiet'
    refine wp_mono (wp_commit_settles steady) ?_ nofun
    rintro _ after ⟨settles, closed⟩
    have sameFixed : after.fixed = m.fixed := (settles.fixed.trans fixed).trans opens.fixed
    rw [wp_pure]
    refine ⟨⟨settles.steady.mono fun _ loose => lessLoose loose, ?_, ?_, closed⟩, sameFixed,
      (settles.sb.trans hasSb).trans sameSb, ?_⟩
    · exact (congrArg Mount.mounted sameFixed :).trans idle.mounted
    · exact (congrArg Mount.readonly sameFixed :).trans idle.writable
    · intro block outside strict other
      have outsideOpened : ¬ InJournal opened block := fun inside =>
        outside ((opens.sameJournal block).mp inside)
      have outsideWritten : ¬ InJournal written block := by
        have sameLog : written.jLogBlocks = opened.jLogBlocks := (congrArg Mount.jLogBlocks fixed :)
        unfold InJournal at outsideOpened ⊢
        rwa [hasSb, sameSb, sameStart, ← openedStart, sameLog]
      rw [settles.view outsideWritten,
        seen fun loose => strict (lessLoose loose), shows block other]
  · rintro code stopped ⟨s', ⟨full, samePins, lessLoose, sameTxn, shows⟩, stoppedTracks⟩
    rw [wp_bind, wp_modify, wp_fail]
    exact ⟨full, stopped, s', rfl, stoppedTracks, samePins, lessLoose, sameTxn, shows⟩

theorem wp_bracket {α : Type} {body : Fs α} {post : α → Shadow → Prop}
    {failed : Err → Shadow → Prop} (idle : Idles lax m)
    (holds : ∀ {opened}, Opens lax m opened → (opened.laxShadow lax).wp body (fun value s =>
            post value s ∧ s.Quiet ∧
              s.sb.journalStart = m.sb.journalStart)
          failed) :
    wp (bracket body)
      (fun value after => ∃ s, post value s ∧ Closes m s after)
      (fun code after =>
        ∃ opened stopped s, Opens lax m opened ∧ after = opAbort stopped ∧
          Tracks opened.unhomed opened stopped s ∧
          (failed code s ∨ ∃ value s₀, post value s₀ ∧ s₀.Full ∧
            s.pins = s₀.pins ∧ s.loose ⊆ s₀.loose ∧ s.txn = s₀.txn ∧
            ∀ block, block ≠ 0 → s.view block = s₀.view block))
      m := by
  unfold bracket
  rw [wp_bind]
  refine wp_mono (wp_opBegin idle) ?_ nofun
  intro _ opened opens
  rw [wp_bind, wp_attempt]
  refine wp_mono (opens.steady.tracks.run (holds opens)) ?_ ?_
  · rintro value before ⟨s, ⟨reached, quiet, sameStart⟩, tracks⟩
    rw [wp_bind]
    refine wp_mono (wp_opCommit idle opens tracks sameStart quiet) ?_ ?_
    · intro _ after closes
      rw [wp_pure]
      exact ⟨s, reached, closes⟩
    · rintro code after ⟨full, stopped, s', rfl, stoppedTracks, same⟩
      exact ⟨opened, stopped, s', opens, rfl, stoppedTracks, .inr ⟨value, s, reached, full, same⟩⟩
  · rintro code stopped ⟨s, reached, tracks⟩
    dsimp only
    rw [wp_bind, wp_modify, wp_fail]
    exact ⟨opened, stopped, s, opens, rfl, tracks, .inl reached⟩

end Close

end CaraOS.Carafs
