import CaraOS.Carafs.Dir
import CaraOS.Carafs.WriteAhead
import CaraOS.Carafs.Xattr

namespace CaraOS.Carafs

/-!
# Sequences of public calls

Every sequence of public calls is a run of the driver, and no call leaves a
transaction open, whatever requests the device fails.
-/

open Action (wp_bind wp_mono wp_of_state wp_read wp_state)

variable (hash : List UInt8 → Nat)

/-- The public calls on the names, files, attributes and cnodes of a volume. -/
inductive Public : {α : Type} → M α → Prop where
  | dirLookup (dir name) : Public (carafsDirLookup hash dir name)
  | dirCreate (dir name type) : Public (carafsDirCreate hash dir name type)
  | dirSymlink (dir name target) : Public (carafsDirSymlink hash dir name target)
  | dirLink (dir name target) : Public (carafsDirLink hash dir name target)
  | dirRemove (dir name) : Public (carafsDirRemove hash dir name)
  | dirNext (dir cursor) : Public (carafsDirNext dir cursor)
  | symlinkRead (cnode buflen) : Public (carafsSymlinkRead cnode buflen)
  | fileRead (cnode off len) : Public (carafsFileRead cnode off len)
  | fileWrite (cnode off buf) : Public (carafsFileWrite cnode off buf)
  | xattrGet (cnode name buflen) : Public (carafsXattrGet cnode name buflen)
  | xattrSet (cnode name value) : Public (carafsXattrSet cnode name value)
  | xattrRemove (cnode name) : Public (carafsXattrRemove cnode name)
  | cnodeCreate (type hint) : Public (carafsCnodeCreate type hint)
  | cnodeDelete (cnode) : Public (carafsCnodeDelete cnode)
  | cnodeStat (cnode) : Public (carafsCnodeStat cnode)

/-- Public calls one after the other, and syncs of a writable volume. -/
inductive PublicRun (start : Mount) : Mount → Prop where
  | start : PublicRun start start
  | call {m : Mount} {α : Type} {call : M α} (run : PublicRun start m)
      (isPublic : Public hash call) : PublicRun start (call m).2
  | sync {m : Mount} (run : PublicRun start m) (writable : m.readonly = false) :
      PublicRun start (carafsSync m).2

section Calls

variable {hash} {α : Type} {m : Mount}

theorem exec_inTxn
    (wf : CacheWf m)
    (c : Prim) :
    (exec c m).2.inTxn = m.inTxn := by
  cases c with
  | get block mode =>
    exact wp_state (·.inTxn = m.inTxn) (wp_mono (wp_cacheGet wf block mode)
      (fun _ _ got => got.1.inTxn) fun _ _ failed => failed.1.inTxn)
  | put block => exact (cachePut_follows wf block).1.inTxn
  | store block image => exact (cacheStore_follows wf block image).1.inTxn
  | dirty block => exact (cacheDirty_follows wf block).1.inTxn
  | invalidate block => exact (cacheInvalidate_follows wf block).1.inTxn
  | txnDirty block =>
    refine wp_state (·.inTxn = m.inTxn) (wp_mono (wp_txnDirty wf block) ?_
      fun _ _ failed => failed.1.inTxn)
    rintro _ after ⟨e, -, ⟨-, follows, -⟩ | ⟨-, -, -, follows, -⟩⟩
    · exact follows.inTxn
    · exact follows.inTxn
  | load _ | sb | setSb _ | now => rfl

theorem runCalls_inTxn
    (calls : List Prim)
    (wf : TxnWf m) :
    (Program.Prog.runCalls exec calls m).inTxn = m.inTxn := by
  induction calls generalizing m with
  | nil => rfl
  | cons c rest ih => exact (ih (exec_keeps c wf)).trans (exec_inTxn wf.toCacheWf c)

variable (wf : TxnWf m) (idle : m.inTxn = false)
include wf idle

theorem reading_run (body : Nat → Fs α) : Completes m (reading body m).2 := by
  have ran : Completes m (Fs.run (body m.blockSize) m).2 := by
    refine ⟨fsRun_run _ m, ?_⟩
    obtain ⟨calls, same⟩ := Program.Prog.run_eq_runCalls exec (ExceptT.run (body m.blockSize)) m
    exact (congrArg Mount.inTxn same).trans ((runCalls_inTxn calls wf).trans idle)
  show Completes m ((if !m.mounted then Action.fail .einval else Fs.run (body m.blockSize)) m).2
  split
  · exact ⟨.refl, idle⟩
  · exact ran

theorem sync_run (writable : m.readonly = false) : Completes m (carafsSync m).2 := by
  refine wp_state (Completes m) ?_
  unfold carafsSync
  rw [wp_bind, wp_read, writable]
  split
  · exact ⟨.refl, idle⟩
  · exact wp_of_state (Completes m)
      ⟨.single (.checkpoint idle), (checkpoint_inTxn wf.toCacheWf).trans idle⟩

omit wf in
theorem guarded_run
    {p : Prop}
    [Decidable p]
    {refuse call : M α}
    (kept : (refuse m).2 = m)
    (completes : Completes m (call m).2) :
    Completes m ((if p then refuse else call) m).2 := by
  split
  · rw [kept]
    exact ⟨.refl, idle⟩
  · exact completes

theorem Public.completes
    {call : M α}
    (isPublic : Public hash call) :
    Completes m (call m).2 := by
  cases isPublic with
  | cnodeCreate | cnodeDelete => exact bracket_run _ wf idle
  | dirCreate | dirSymlink | dirLink | dirRemove | fileWrite | xattrSet | xattrRemove =>
    exact guarded_run idle rfl (bracket_run _ wf idle)
  | symlinkRead | fileRead | cnodeStat => exact reading_run wf idle _
  | dirLookup | xattrGet => exact guarded_run idle rfl (reading_run wf idle _)
  | dirNext dir cursor =>
    have kept := reading_run wf idle fun bs => Carafs.dirNext bs dir cursor
    exact wp_state (Completes m) ((wp_bind ..).mpr (wp_of_state (Completes m) kept))

end Calls

/--
After any sequence of public calls the volume is in a state that a run of the
driver reaches, with a well formed cache and no open transaction.
-/
theorem public_calls_run
    {start m : Mount}
    (wf : TxnWf start)
    (idle : start.inTxn = false)
    (run : PublicRun hash start m) :
    DriverRun start m ∧ TxnWf m ∧ m.inTxn = false ∧ m.txnBlocks = [] := by
  suffices completes : Completes start m from
    have kept := completes.1.keeps wf
    ⟨completes.1, kept, completes.2, kept.closed completes.2⟩
  induction run with
  | start => exact ⟨.refl, idle⟩
  | call run isPublic ih =>
    obtain ⟨ran, closed⟩ := isPublic.completes (ih.1.keeps wf) ih.2
    exact ⟨ih.1.trans ran, closed⟩
  | sync run writable ih =>
    obtain ⟨ran, closed⟩ := sync_run (ih.1.keeps wf) ih.2 writable
    exact ⟨ih.1.trans ran, closed⟩

/-- A file is made, and bytes are read from a cnode. -/
theorem public_calls_run_two :
    (carafsFileRead 100 0 8 (carafsCnodeCreate .file 0 RoomExample.start).2).2.inTxn = false :=
  (public_calls_run (fun _ => 0) RoomExample.start_wf rfl
    (.call (.call .start (.cnodeCreate .file 0)) (.fileRead 100 0 8))).2.2.1

end CaraOS.Carafs
