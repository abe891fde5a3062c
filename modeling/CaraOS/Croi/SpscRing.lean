import Mathlib.Algebra.Order.Ring.Nat
import CaraOS.Croi.MsgPort

namespace CaraOS.Croi

/-!
# The ring between one producer and one consumer

`Ring_Enqueue` and `Ring_Dequeue` in single steps: a load, a store, or an
access to a slot.  The steps of the two sides interleave in any way.  The
counters have 32 bits; how often they have wrapped is seen in the numbers of
slots that went in and out.
-/

open BitVec (ofNat_add toNat_and toNat_ofNat)

/-- Where the producer is in `Ring_Enqueue`. -/
inductive Producer where
  | idle
  | hasHead (v : RingSlot) (head : BitVec 32)
  | mayWrite (v : RingSlot) (head : BitVec 32)
  | written (v : RingSlot) (head : BitVec 32)

/-- Where the consumer is in `Ring_Dequeue`. -/
inductive Consumer where
  | idle
  | hasTail (tail : BitVec 32)
  | mayRead (tail : BitVec 32)
  | taken (tail : BitVec 32) (out : RingSlot)

/-- The shared ring, both sides, and what has gone in and come out. -/
structure Spsc where
  ring : RingHeader
  slots : Nat → RingSlot
  producer : Producer := .idle
  consumer : Consumer := .idle
  enqueued : List RingSlot := []
  dequeued : List RingSlot := []

/-- The next step of the producer, and the result if the call returns. -/
def Spsc.produce (v : RingSlot) (st : Spsc) : Option Bool × Spsc :=
  match st.producer with
  | .idle => (none, { st with producer := .hasHead v st.ring.head })
  | .hasHead v head =>
    if st.ring.capacity ≤ head - st.ring.tail then
      (some false, { st with producer := .idle })
    else
      (none, { st with producer := .mayWrite v head })
  | .mayWrite v head =>
    (none, { st with
      slots := Function.update st.slots (head &&& st.ring.mask).toNat v
      producer := .written v head })
  | .written v head =>
    (some true, { st with
      ring := { st.ring with head := head + 1 }
      producer := .idle
      enqueued := st.enqueued ++ [v] })

/-- The next step of the consumer, and the result if the call returns. -/
def Spsc.consume (st : Spsc) : Option Bool × Spsc :=
  match st.consumer with
  | .idle => (none, { st with consumer := .hasTail st.ring.tail })
  | .hasTail tail =>
    if st.ring.head = tail then
      (some false, { st with consumer := .idle })
    else
      (none, { st with consumer := .mayRead tail })
  | .mayRead tail =>
    (none, { st with
      consumer := .taken tail (st.slots (tail &&& st.ring.mask).toNat) })
  | .taken tail out =>
    (some true, { st with
      ring := { st.ring with tail := tail + 1 }
      consumer := .idle
      dequeued := st.dequeued ++ [out] })

/-- Which side goes on; the producer's next call is with `v`. -/
inductive SpscStep where
  | produce (v : RingSlot)
  | consume

/-- The state after a step of one side. -/
def Spsc.step (st : Spsc) : SpscStep → Spsc
  | .produce v => (st.produce v).2
  | .consume => st.consume.2

/-- The slots between the counters. -/
def Spsc.inFlight (st : Spsc) : Nat :=
  st.enqueued.length - st.dequeued.length

/-- The promises of a bounded queue. -/
structure Spsc.Sound (st : Spsc) (capacity : Nat) : Prop where
  fifo : st.dequeued <+: st.enqueued
  bounded : st.inFlight ≤ capacity
  -- what is in flight is in the slots, whatever the producer writes
  kept : ∀ i v, st.dequeued.length ≤ i → st.enqueued[i]? = some v → st.slots (i % capacity) = v
  full : ∀ v, (st.produce v).1 = some false → st.inFlight = capacity
  empty : st.consume.1 = some false → st.inFlight = 0

def Producer.Knows (st : Spsc) (capacity : Nat) : Producer → Prop
  | .idle => True
  | .hasHead _ head => head = st.ring.head
  | .mayWrite _ head =>
    head = st.ring.head ∧
      st.enqueued.length < st.dequeued.length + capacity
  | .written v head =>
    head = st.ring.head ∧
      st.enqueued.length < st.dequeued.length + capacity ∧
      st.slots (st.enqueued.length % capacity) = v

def Consumer.Knows (st : Spsc) : Consumer → Prop
  | .idle => True
  | .hasTail tail => tail = st.ring.tail
  | .mayRead tail =>
    tail = st.ring.tail ∧ st.dequeued.length < st.enqueued.length
  | .taken tail out =>
    tail = st.ring.tail ∧ st.enqueued[st.dequeued.length]? = some out

/-- The counters count what went in and out, the slots hold the difference. -/
structure Spsc.Inv (st : Spsc) (k : Nat) : Prop where
  small : k < 32
  capacity : st.ring.capacity = BitVec.ofNat 32 (2 ^ k)
  mask : st.ring.mask = BitVec.ofNat 32 (2 ^ k - 1)
  head : st.ring.head = BitVec.ofNat 32 st.enqueued.length
  tail : st.ring.tail = BitVec.ofNat 32 st.dequeued.length
  fifo : st.dequeued <+: st.enqueued
  bounded : st.enqueued.length ≤ st.dequeued.length + 2 ^ k
  kept : ∀ i v, st.dequeued.length ≤ i → st.enqueued[i]? = some v → st.slots (i % 2 ^ k) = v
  producer : st.producer.Knows st (2 ^ k)
  consumer : st.consumer.Knows st

variable {head tail : BitVec 32} {consumer : Consumer} {producer : Producer}

section Inv

variable {st after : Spsc} {k : Nat}

theorem pow_le_of_lt (small : k < 32) : 2 ^ k ≤ 2147483648 :=
  Nat.pow_le_pow_right (by decide) (show k ≤ 31 by omega)

theorem ringInit_pow {capacity : BitVec 32} {ring : RingHeader}
    (made : ringInit capacity = some ring) :
    ∃ k < 32, capacity = BitVec.ofNat 32 (2 ^ k) ∧
      ring = ⟨0, 0, capacity, BitVec.ofNat 32 (2 ^ k - 1)⟩ := by
  unfold ringInit at made
  split at made
  · cases made
  rename_i accepted
  obtain ⟨notZero, isPow⟩ := not_or.mp accepted
  rw [not_not] at isPow
  have isPower : ∃ k < 32, capacity.toNat = 2 ^ k := by
    have masked := congrArg BitVec.toNat isPow
    rw [toNat_and, BitVec.toNat_sub_of_le (by bv_omega)] at masked
    obtain ⟨k, isK⟩ := (Nat.and_sub_one_eq_zero_iff_isPowerOfTwo (by bv_omega)).mp masked
    refine ⟨k, ?_, isK⟩
    have bound := capacity.isLt
    rw [isK] at bound
    exact (Nat.pow_lt_pow_iff_right (by decide)).mp bound
  obtain ⟨k, small, isK⟩ := isPower
  refine ⟨k, small, by bv_omega, ?_⟩
  rw [← Option.some.inj made]
  congr 1
  bv_omega

theorem Spsc.Inv.slot (inv : st.Inv k) (n : Nat) :
    (BitVec.ofNat 32 n &&& st.ring.mask).toNat = n % 2 ^ k := by
  have large := pow_le_of_lt inv.small
  rw [inv.mask, toNat_and, toNat_ofNat, toNat_ofNat,
    Nat.mod_eq_of_lt (by omega : 2 ^ k - 1 < 2 ^ 32), Nat.and_two_pow_sub_one_eq_mod]
  exact Nat.mod_mod_of_dvd n (Nat.pow_dvd_pow 2 (le_of_lt inv.small))

theorem Spsc.Inv.count (inv : st.Inv k) :
    (st.ring.head - st.ring.tail).toNat =
      st.enqueued.length - st.dequeued.length := by
  have large := pow_le_of_lt inv.small
  have order := inv.fifo.length_le
  have bounded := inv.bounded
  rw [inv.head, inv.tail, BitVec.toNat_sub, toNat_ofNat, toNat_ofNat]
  omega

theorem Spsc.Inv.full_iff (inv : st.Inv k) :
    st.ring.capacity ≤ st.ring.head - st.ring.tail ↔
      st.inFlight = 2 ^ k := by
  have large := pow_le_of_lt inv.small
  have positive := Nat.two_pow_pos k
  have bounded := inv.bounded
  rw [BitVec.le_def, inv.count, inv.capacity, toNat_ofNat, Spsc.inFlight]
  omega

theorem Spsc.Inv.empty_iff (inv : st.Inv k) : st.ring.head = st.ring.tail ↔ st.inFlight = 0 := by
  rw [← ringIsEmpty_iff, ringIsEmpty, decide_eq_true_eq, Spsc.inFlight,
    ← inv.count, ← BitVec.toNat_inj]
  rfl

theorem Consumer.Knows.enqueue (knows : consumer.Knows st) (v : RingSlot) :
    consumer.Knows { st with
      ring := { st.ring with head := head }
      producer := producer
      enqueued := st.enqueued ++ [v] } := by
  cases consumer with
  | idle => trivial
  | hasTail tail => exact knows
  | mayRead tail =>
    refine ⟨knows.1, ?_⟩
    rw [List.length_append]
    exact Nat.lt_add_right _ knows.2
  | taken tail out =>
    obtain ⟨bound, -⟩ := List.getElem?_eq_some_iff.mp knows.2
    exact ⟨knows.1, (List.getElem?_append_left bound).trans knows.2⟩

theorem Producer.Knows.dequeue {capacity : Nat}
    (knows : producer.Knows st capacity) (out : RingSlot) :
    producer.Knows { st with
      ring := { st.ring with tail := tail }
      consumer := consumer
      dequeued := st.dequeued ++ [out] } capacity := by
  have longer : st.dequeued.length + capacity ≤ (st.dequeued ++ [out]).length + capacity := by simp
  cases producer with
  | idle => trivial
  | hasHead v head => exact knows
  | mayWrite v head => exact ⟨knows.1, knows.2.trans_le longer⟩
  | written v head =>
    exact ⟨knows.1, knows.2.1.trans_le longer, knows.2.2⟩

variable (inv : st.Inv k)
include inv

theorem Spsc.Inv.writeSlot {v : RingSlot} (isProducer : st.producer = .mayWrite v head) :
    Spsc.Inv { st with
      slots := Function.update st.slots (head &&& st.ring.mask).toNat v
      producer := .written v head } k := by
  have knows := inv.producer
  rw [isProducer] at knows
  obtain ⟨isHead, room⟩ := knows
  rw [isHead, inv.head, inv.slot]
  refine { inv with kept := ?_, producer := ?_, consumer := inv.consumer }
  · intro i w waiting listed
    dsimp only at waiting listed
    obtain ⟨bound, -⟩ := List.getElem?_eq_some_iff.mp listed
    have apart : i % 2 ^ k ≠ st.enqueued.length % 2 ^ k := by
      intro same
      have rounds := Nat.sub_mod_eq_zero_of_mod_eq same.symm
      rw [Nat.mod_eq_of_lt (by omega)] at rounds
      omega
    exact (Function.update_of_ne apart ..).trans (inv.kept i w waiting listed)
  · exact ⟨inv.head.symm, room, Function.update_self ..⟩

theorem Spsc.Inv.storeHead {v : RingSlot} (isProducer : st.producer = .written v head) :
    Spsc.Inv { st with
      ring := { st.ring with head := head + 1 }
      producer := .idle
      enqueued := st.enqueued ++ [v] } k := by
  have knows := inv.producer
  rw [isProducer] at knows
  obtain ⟨rfl, room, isSlot⟩ := knows
  refine { inv with
    head := ?_
    fifo := inv.fifo.trans (List.prefix_append ..)
    bounded := ?_
    kept := ?_
    producer := trivial
    consumer := inv.consumer.enqueue v }
  · simp [inv.head, ofNat_add]
  · simpa using Nat.succ_le_of_lt room
  · intro i w waiting listed
    rcases lt_trichotomy i st.enqueued.length with earlier | rfl | later
    · rw [List.getElem?_append_left earlier] at listed
      exact inv.kept i w waiting listed
    · rw [List.getElem?_concat_length] at listed
      rwa [← Option.some.inj listed]
    · rw [List.getElem?_eq_none (by simpa using Nat.succ_le_of_lt later)]
        at listed
      cases listed

theorem Spsc.Inv.storeTail {out : RingSlot} (isConsumer : st.consumer = .taken tail out) :
    Spsc.Inv { st with
      ring := { st.ring with tail := tail + 1 }
      consumer := .idle
      dequeued := st.dequeued ++ [out] } k := by
  have knows := inv.consumer
  rw [isConsumer] at knows
  obtain ⟨rfl, isNext⟩ := knows
  refine { inv with
    tail := ?_
    fifo := ?_
    bounded := ?_
    kept := ?_
    producer := inv.producer.dequeue out
    consumer := trivial }
  · simp [inv.tail, ofNat_add]
  · obtain ⟨rest, isWhole⟩ := inv.fifo
    rw [← isWhole, List.getElem?_append_right le_rfl, Nat.sub_self] at isNext
    cases rest with
    | nil => cases isNext
    | cons first rest =>
      cases isNext
      exact ⟨rest, by rw [← isWhole]; simp⟩
  · simpa using inv.bounded.trans (by omega)
  · intro i w waiting listed
    rw [List.length_append] at waiting
    exact inv.kept i w (Nat.le_of_succ_le waiting) listed

theorem Spsc.Inv.produce (v : RingSlot) :
    (st.produce v).2.Inv k ∧
      ((st.produce v).1 = some false → st.inFlight = 2 ^ k) := by
  have knows := inv.producer
  have bounded := inv.bounded
  unfold Spsc.produce
  cases isProducer : st.producer with
  | idle =>
    exact ⟨{ inv with producer := rfl, consumer := inv.consumer }, fun failed => by cases failed⟩
  | hasHead v head =>
    rw [isProducer] at knows
    obtain rfl : head = st.ring.head := knows
    dsimp only
    rw [if_congr inv.full_iff rfl rfl]
    split
    · rename_i isFull
      exact ⟨{ inv with producer := trivial, consumer := inv.consumer }, fun _ => isFull⟩
    · rename_i notFull
      unfold Spsc.inFlight at notFull
      have room : st.enqueued.length < st.dequeued.length + 2 ^ k := by
        have positive := Nat.two_pow_pos k
        omega
      exact ⟨{ inv with producer := ⟨rfl, room⟩, consumer := inv.consumer },
        fun failed => by cases failed⟩
  | mayWrite v head =>
    exact ⟨inv.writeSlot isProducer, fun failed => by cases failed⟩
  | written v head =>
    exact ⟨inv.storeHead isProducer, fun failed => by cases failed⟩

theorem Spsc.Inv.consume : st.consume.2.Inv k ∧ (st.consume.1 = some false → st.inFlight = 0) := by
  have knows := inv.consumer
  unfold Spsc.consume
  cases isConsumer : st.consumer with
  | idle =>
    exact ⟨{ inv with producer := inv.producer, consumer := rfl }, fun failed => by cases failed⟩
  | hasTail tail =>
    rw [isConsumer] at knows
    obtain rfl : tail = st.ring.tail := knows
    dsimp only
    rw [if_congr inv.empty_iff rfl rfl]
    split
    · rename_i isEmpty
      exact ⟨{ inv with producer := inv.producer, consumer := trivial }, fun _ => isEmpty⟩
    · rename_i notEmpty
      exact ⟨{ inv with
        producer := inv.producer
        consumer := ⟨rfl, Nat.lt_of_sub_ne_zero notEmpty⟩ },
        fun failed => by cases failed⟩
  | mayRead tail =>
    rw [isConsumer] at knows
    obtain ⟨rfl, waiting⟩ := knows
    refine ⟨{ inv with producer := inv.producer, consumer := ⟨rfl, ?_⟩ },
      fun failed => by cases failed⟩
    rw [inv.tail, inv.slot, inv.kept _ _ le_rfl (List.getElem?_eq_getElem waiting)]
    exact List.getElem?_eq_getElem waiting
  | taken tail out =>
    exact ⟨inv.storeTail isConsumer, fun failed => by cases failed⟩

theorem Spsc.Inv.run (steps : List SpscStep) : (steps.foldl Spsc.step st).Inv k := by
  induction steps generalizing st with
  | nil => exact inv
  | cons step rest ih =>
    cases step with
    | produce v => exact ih (inv.produce v).1
    | consume => exact ih inv.consume.1

end Inv

/--
After `Ring_Init` with any capacity it accepts, in every interleaving of the
steps of one producer and one consumer, what comes out is the beginning of what
went in, no more than the capacity is in flight and all of it is in its slots,
an enqueue fails at a moment when the ring is full and a dequeue at one when it
is empty.
-/
theorem spsc_ring_is_fifo {capacity : BitVec 32} {ring : RingHeader}
    (made : ringInit capacity = some ring) (slots : Nat → RingSlot)
    (steps : List SpscStep) :
    (steps.foldl Spsc.step { ring := ring, slots := slots }).Sound capacity.toNat := by
  obtain ⟨k, small, isCapacity, isRing⟩ := ringInit_pow made
  have large := pow_le_of_lt small
  have start : Spsc.Inv { ring := ring, slots := slots } k := by
    subst isRing
    refine ⟨small, isCapacity, rfl, rfl, rfl, List.prefix_rfl, ?_, ?_, ?_, ?_⟩
    · exact Nat.zero_le _
    · nofun
    · trivial
    · trivial
  have isPower : capacity.toNat = 2 ^ k := by
    rw [isCapacity, toNat_ofNat, Nat.mod_eq_of_lt (by omega)]
  have inv := start.run steps
  rw [isPower]
  exact ⟨inv.fifo, Nat.sub_le_iff_le_add'.mpr inv.bounded, inv.kept,
    fun v => (inv.produce v).2, inv.consume.2⟩

/-- A ring of one slot after an enqueue, and inside the next one. -/
def oneSlotRing : Spsc :=
  [SpscStep.produce ⟨1, 0, 0, 0⟩, .produce ⟨1, 0, 0, 0⟩, .consume,
    .produce ⟨1, 0, 0, 0⟩, .produce ⟨1, 0, 0, 0⟩, .consume,
    .produce ⟨2, 0, 0, 0⟩].foldl Spsc.step { ring := ⟨0, 0, 1, 0⟩, slots := fun _ => ⟨0, 0, 0, 0⟩ }

theorem spsc_ring_is_fifo_one :
    (oneSlotRing.produce ⟨2, 0, 0, 0⟩).1 = some false ∧ oneSlotRing.Sound 1 :=
  ⟨rfl, @spsc_ring_is_fifo 1 ⟨0, 0, 1, 0⟩ rfl _ _⟩

end CaraOS.Croi
