import CaraOS.Lib.Program
import CaraOS.Carafs.Cache

namespace CaraOS.Carafs

/-!
# File system programs

The allocator, the cnodes, the trees and the directories reach a volume only
through the cache: they pin blocks, read and store through the data pointers
of pinned blocks, register them with the transaction, and keep the in-memory
superblock.  Their code is written over exactly these calls, so that what is
proved about it does not depend on slots, eviction or the log.
-/

/-- The calls file system code makes on a mounted volume. -/
inductive Prim where
  | get (block : Nat) (mode : GetMode)
  | put (block : Nat)
  | load (block : Nat)
  | store (block : Nat) (image : Block)
  | dirty (block : Nat)
  | invalidate (block : Nat)
  | txnDirty (block : Nat)
  | sb
  | setSb (sb : Superblock)
  | now

/-- What a call answers. -/
def Prim.Answer : Prim → Type
  | .get .. => Except Err Bool
  | .load _ => Block
  | .txnDirty _ => Except Err Unit
  | .sb => Superblock
  | .now => Nat
  | _ => Unit

/-- The calls on a mount. -/
def exec : (c : Prim) → Mount → c.Answer × Mount
  | .get block mode, m => cacheGet block mode m
  | .put block, m => ((), cachePut block m)
  | .load block, m => (m.cached block, m)
  | .store block image, m => ((), cacheStore block image m)
  | .dirty block, m => ((), cacheDirty block m)
  | .invalidate block, m => ((), cacheInvalidate block m)
  | .txnDirty block, m => txnDirty block m
  | .sb, m => (m.sb, m)
  | .setSb sb, m => ((), { m with sb := sb })
  | .now, m => (m.clock m.ticks, { m with ticks := m.ticks + 1 })

/-- File system code: calls on the volume that may end in an error. -/
abbrev Fs (α : Type) :=
  ExceptT Err (Program.Prog Prim Prim.Answer) α

namespace Fs

/-- Perform one call. -/
def call (c : Prim) : Fs c.Answer :=
  ExceptT.lift (Program.Prog.request c)

/-- Fail with the error of a call, or return its value. -/
def settle {α : Type} : Except Err α → Fs α :=
  Program.Fallible.settle

/-- Catch the outcome of a piece of code. -/
def attempt {α : Type} (body : Fs α) : Fs (Except Err α) :=
  Program.Fallible.attempt body

/-- `carafs_cache_get`; reports whether the block was loaded. -/
def get (block : Nat) (mode : GetMode) : Fs Bool := do
  settle (← call (.get block mode))

/-- `carafs_cache_put`. -/
def put (block : Nat) : Fs Unit :=
  call (.put block)

/-- Read through the data pointer of a pinned block. -/
def load (block : Nat) : Fs Block :=
  call (.load block)

/-- Store through the data pointer of a pinned block. -/
def store (block : Nat) (image : Block) : Fs Unit :=
  call (.store block image)

def dirty (block : Nat) : Fs Unit :=
  call (.dirty block)

def invalidate (block : Nat) : Fs Unit :=
  call (.invalidate block)

def txnDirty (block : Nat) : Fs Unit := do
  settle (← call (.txnDirty block))

/-- The in-memory superblock. -/
def sb : Fs Superblock :=
  call .sb

/-- Update the in-memory superblock. -/
def setSb (sb : Superblock) : Fs Unit :=
  call (.setSb sb)

/-- `carafs_now`. -/
def now : Fs Nat :=
  call .now

def release {α : Type} (block : Nat) (code : Err) : Fs α := do
  put block
  throw code

/-- Release a block if the code after it fails. -/
def orPut {α : Type} (block : Nat) (body : Fs α) : Fs α :=
  Program.Fallible.orCleanup body (put block)

/-- Register a pinned block with the transaction, then release it. -/
def joinPut (block : Nat) : Fs Unit := do
  let joined ← attempt (txnDirty block)
  put block
  settle joined

/-- Run file system code on a mount. -/
def run {α : Type} (body : Fs α) : M α :=
  fun m => Program.Prog.run exec (ExceptT.run body) m

section Run

variable {α β : Type}

@[simp] theorem run_settle (outcome : Except Err α) :
    run (settle outcome) = Action.settle outcome := by
  cases outcome <;> rfl

theorem run_bind (first : Fs α) (next : α → Fs β) :
    run (first >>= next) = (run first >>= fun value => run (next value)) := by
  funext m
  cases ran : run first m with
  | mk answer after =>
    have ran' : Program.Prog.run exec (ExceptT.run first) m = (answer, after) := ran
    cases answer with
    | ok value =>
      rw [Action.bind_of_ok ran]
      show Program.Prog.run exec (ExceptT.run (first >>= next)) m = _
      rw [ExceptT.run_bind, Program.Prog.run_bind, ran']
      rfl
    | error code =>
      rw [Action.bind_of_error ran]
      show Program.Prog.run exec (ExceptT.run (first >>= next)) m = _
      rw [ExceptT.run_bind, Program.Prog.run_bind, ran']
      rfl

@[simp] theorem run_attempt (body : Fs α) : run (attempt body) = Action.attempt (run body) := by
  funext m
  unfold run attempt Program.Fallible.attempt
  rw [ExceptT.run_mk, Program.Prog.run_bind]
  rfl

theorem run_get (block : Nat) (mode : GetMode) : run (get block mode) = cacheGet block mode := by
  funext m
  unfold get
  rw [run_bind]
  have called : run (call (.get block mode)) m =
      (.ok (cacheGet block mode m).1, (cacheGet block mode m).2) :=
    rfl
  rw [Action.bind_of_ok called, run_settle]
  rfl

theorem run_put (block : Nat) : run (put block) = Action.modify (cachePut block) :=
  rfl

theorem run_load (block : Nat) (m : Mount) : run (load block) m = (.ok (m.cached block), m) :=
  rfl

end Run
end Fs

end CaraOS.Carafs
