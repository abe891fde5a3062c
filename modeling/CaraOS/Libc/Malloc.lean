import CaraOS.Croi.ExecMem

namespace CaraOS.Libc

/-!
# malloc, calloc, realloc and free

`stdlib.c` keeps the size of a block in a header of its own in front of the
bytes it hands out, and takes the memory from `AllocVec`, whose size is a
`ULONG`.  A run is any sequence of calls of one program, of its stores into
its blocks, and of what everybody else does with the heaps.
-/

open ByteMem Croi

def mallocHdr : Nat :=
  16

/-- `size` of `malloc`: 0 counts as 1. -/
def payloadSize (n : Nat) : Nat :=
  if n = 0 then 1 else n

/-- The argument of `AllocVec`: a `size_t` sum cast to `ULONG`. -/
def vecSize (n : Nat) : Nat :=
  (payloadSize n + mallocHdr) % 2 ^ 64 % 2 ^ 32

def malloc (n : Nat) (grant : Option Nat) (sys : HeapSys) : Nat × HeapSys :=
  let (raw, sys) := croiAllocVec (vecSize n) false grant sys
  if raw = 0 then (0, sys)
  else (raw + mallocHdr, sys.setMem (write sys.mem raw 8 (payloadSize n)))

def free (ptr : Nat) (sys : HeapSys) : HeapSys :=
  if ptr ≠ 0 then croiFreeVec (ptr - mallocHdr) sys else sys

def calloc (nmemb size : Nat) (grant : Option Nat) (sys : HeapSys) : Nat × HeapSys :=
  let total := nmemb * size % 2 ^ 64
  if nmemb ≠ 0 ∧ total / nmemb ≠ size then
    (0, sys)
  else
    let (p, sys) := malloc total grant sys
    if p ≠ 0 then (p, sys.setMem (fill sys.mem p total)) else (p, sys)

def realloc (ptr size : Nat) (grant : Option Nat) (sys : HeapSys) : Nat × HeapSys :=
  if ptr = 0 then
    malloc size grant sys
  else if size = 0 then
    (0, free ptr sys)
  else
    let old := read sys.mem (ptr - mallocHdr) 8
    let (np, sys) := malloc size grant sys
    if np ≠ 0 then
      let sys := sys.setMem (copy sys.mem np ptr (if old < size then old else size))
      (np, free ptr sys)
    else
      (np, sys)

/-! ## Runs -/

/-- A pointer the program holds, with the size it asked for. -/
structure Payload where
  ptr : Nat
  size : Nat
  deriving DecidableEq

/-- The block of the heap behind it. -/
def Payload.block (p : Payload) : Block where
  heap := .shared
  ptr := p.ptr - 24
  size := vecTotal (vecSize p.size)

/-- The heaps and what the program holds. -/
structure LibcRun where
  heap : HeapRun
  held : List Payload

/-- The run after a call that returned `answer` for `n` bytes. -/
def LibcRun.take (r : LibcRun) (n : Nat) (answer : Nat × HeapSys) : LibcRun :=
  if answer.1 = 0 then
    { r with heap := { r.heap with sys := answer.2 } }
  else
    let p : Payload := ⟨answer.1, n⟩
    { heap := ⟨answer.2, p.block :: r.heap.live⟩
      held := p :: r.held }

/-- The pointer is held no more. -/
def LibcRun.drop (r : LibcRun) (p : Payload) : LibcRun where
  heap := ⟨r.heap.sys, r.heap.live.erase p.block⟩
  held := r.held.erase p

/-- The run after a call of `realloc`: only a failure leaves the old pointer. -/
def LibcRun.exchange (r : LibcRun) (p : Payload) (n : Nat) (answer : Nat × HeapSys) : LibcRun :=
  if n ≠ 0 ∧ answer.1 = 0 then r.take n answer
  else (r.take n answer).drop p

/-- What happens. -/
inductive LibcOp where
  | malloc (n : Nat) (grant : Option Nat)
  | calloc (nmemb size : Nat) (grant : Option Nat)
  | realloc (old : Option Payload) (n : Nat) (grant : Option Nat)
  | free (p : Payload)
  | store (at_ : Nat) (value : BitVec 8)
  | other (op : HeapOp)

/-- Nobody else gives back or changes what the program holds. -/
def Foreign (held : List Payload) : HeapOp → Prop
  | .alloc .. => True
  | .free ptr => ∀ p ∈ held, p.block.ptr ≠ ptr
  | .store at_ _ =>
    ∀ p ∈ held, ¬ (p.block.ptr ≤ at_ ∧
      at_ < p.block.ptr + capacity p.block.size)

/-- One step; sizes are of type `size_t`. -/
inductive LibcOp.Step : LibcOp → LibcRun → LibcRun → Prop
  | malloc {n : Nat} {grant : Option Nat} {r : LibcRun}
      (small : n < 2 ^ 64)
      (good : GoodGrant r.heap.sys .shared (vecTotal (vecSize n)) grant) :
      Step (.malloc n grant) r (r.take n (Libc.malloc n grant r.heap.sys))
  | calloc {nmemb size : Nat} {grant : Option Nat} {r : LibcRun}
      (smallCount : nmemb < 2 ^ 64)
      (smallSize : size < 2 ^ 64)
      (good : GoodGrant r.heap.sys .shared (vecTotal (vecSize (nmemb * size % 2 ^ 64))) grant) :
      Step (.calloc nmemb size grant) r
        (r.take (nmemb * size % 2 ^ 64) (Libc.calloc nmemb size grant r.heap.sys))
  | first {n : Nat} {grant : Option Nat} {r : LibcRun}
      (small : n < 2 ^ 64)
      (good : GoodGrant r.heap.sys .shared (vecTotal (vecSize n)) grant) :
      Step (.realloc none n grant) r
        (r.take n (Libc.realloc 0 n grant r.heap.sys))
  | realloc {p : Payload} {n : Nat} {grant : Option Nat} {r : LibcRun}
      (isHeld : p ∈ r.held)
      (small : n < 2 ^ 64)
      (good : GoodGrant r.heap.sys .shared (vecTotal (vecSize n)) grant) :
      Step (.realloc (some p) n grant) r
        (r.exchange p n (Libc.realloc p.ptr n grant r.heap.sys))
  | free {p : Payload} {r : LibcRun}
      (isHeld : p ∈ r.held) :
      Step (.free p) r
        { heap := ⟨Libc.free p.ptr r.heap.sys, r.heap.live.erase p.block⟩
          held := r.held.erase p }
  | store {p : Payload} {at_ : Nat} {value : BitVec 8} {r : LibcRun}
      (isHeld : p ∈ r.held)
      (low : p.ptr ≤ at_)
      (high : at_ < p.ptr + p.size) :
      Step (.store at_ value) r { r with heap :=
          ⟨r.heap.sys.setMem (Function.update r.heap.sys.mem at_ value), r.heap.live⟩ }
  | other {op : HeapOp} {r : LibcRun} {last : HeapRun}
      (step : op.Step r.heap last)
      (foreign : Foreign r.held op) :
      Step (.other op) r { r with heap := last }

/-- A run, with the state before each of its steps. -/
inductive LibcRun.Run : LibcRun → List (LibcRun × LibcOp) → LibcRun → Prop
  | nil {r : LibcRun} : Run r [] r
  | snoc {r mid last : LibcRun} {trace : List (LibcRun × LibcOp)}
      {op : LibcOp}
      (before : Run r trace mid)
      (step : op.Step mid last) :
      Run r (trace ++ [(mid, op)]) last

/-- A program that has not allocated anything yet, on heaps as initialised. -/
def LibcRun.init (mem : Mem) (lists : HeapId → Nat → Nat) (lo hi : Nat) : LibcRun where
  heap := .init mem lists lo hi
  held := []

/-! ## The contract of the C library -/

/--
A pointer that `malloc(n)` may return: the request can be represented, the
pointer is 16-aligned, and the `n` bytes from it lie inside one live block of
the heap, apart from every other one and from what the program already holds.
-/
structure Granted (r : LibcRun) (n : Nat) (answer : Nat × HeapSys) : Prop where
  representable : n + 24 < 2 ^ 32
  aligned : answer.1 % 16 = 0
  usable : ∃ own ∈ (r.take n answer).heap.live,
      own.ptr ≤ answer.1 ∧ answer.1 + n ≤ own.ptr + capacity own.size ∧
        ∀ b ∈ (r.take n answer).heap.live.erase own, Apart answer.1 n b.ptr (capacity b.size)
  apart : ∀ q ∈ r.held, Apart answer.1 n q.ptr q.size

/-- What a call owes the program: null, or what the standard promises. -/
def LibcOp.Contract (op : LibcOp) (r : LibcRun) : Prop :=
  match op with
  | .malloc n grant =>
    let answer := Libc.malloc n grant r.heap.sys
    answer.1 = 0 ∨ Granted r n answer
  | .calloc nmemb size grant =>
    let answer := Libc.calloc nmemb size grant r.heap.sys
    answer.1 = 0 ∨ (nmemb * size < 2 ^ 64 ∧ Granted r (nmemb * size) answer ∧
        ∀ i < nmemb * size, answer.2.mem (answer.1 + i) = 0)
  | .realloc none n grant =>
    let answer := Libc.realloc 0 n grant r.heap.sys
    answer.1 = 0 ∨ Granted r n answer
  | .realloc (some p) n grant =>
    let answer := Libc.realloc p.ptr n grant r.heap.sys
    answer.1 = 0 ∨ (Granted r n answer ∧ ∀ i < min p.size n,
          answer.2.mem (answer.1 + i) = r.heap.sys.mem (p.ptr + i))
  | _ => True

/-- The shared heap has no room for what `malloc(n)` asks `AllocVec` for. -/
def Refused (n : Nat) (grant : Option Nat) (sys : HeapSys) : Prop :=
  VecRefused (vecSize n) grant sys

/-- The sizes that survive the way through the layers. -/
def Sized (n : Nat) : Prop :=
  2024 < n ∧ n + 24 < 2 ^ 32

/-- Every call is refused or asks for a size of that kind. -/
def LibcOp.Within (ok : Nat → Prop) (op : LibcOp) (r : LibcRun) : Prop :=
  match op with
  | .malloc n grant => Refused n grant r.heap.sys ∨ ok n
  | .calloc nmemb size grant =>
    2 ^ 64 ≤ nmemb * size ∨ Refused (nmemb * size) grant r.heap.sys ∨ ok (nmemb * size)
  | .realloc none n grant => Refused n grant r.heap.sys ∨ ok n
  | .realloc (some _) n grant =>
    n = 0 ∨ Refused n grant r.heap.sys ∨ ok n
  | _ => True

/-- When a call meets its contract. -/
def LibcOp.Fits (op : LibcOp) (r : LibcRun) : Prop :=
  op.Within Sized r

end CaraOS.Libc
