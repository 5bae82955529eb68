/-
  Zydon.Ipc.SpscRing.Basic

  The single-producer single-consumer ring of `ipc/ring_buffer.rs`, one load,
  store or access to a message at a time, sequentially consistent.

  The counters are `usize`s that wrap, as in a release build.  `accepted`
  records the messages in the order of the producer's stores to `head`, and
  `received` what the consumer has returned for each of its stores to `tail`.
-/

import Mathlib.Algebra.Group.Nat.Defs
import Zydon.Lib.Interleaving
import Zydon.Lib.Ring

namespace Zydon
namespace SpscRing

open Lib

/-- `usize`. -/
abbrev Usize := BitVec 64

/-- A capacity that `SpscRing::new` accepts. -/
structure Capacity where
  val : Usize
  is_power_of_two : ∃ k, val.toNat = 2 ^ k

/-- `Slot`. -/
structure Slot (M : Type*) where
  occupied : Usize
  message : Option M

/-- `SpscRing`, with the messages that have gone in and come out. -/
structure Ring (M : Type*) where
  head : Usize
  tail : Usize
  slots : Nat → Slot M
  capacity : Capacity
  accepted : List M
  received : List (Option M)

/-- `TrySendError`. -/
inductive TrySendError (M : Type*) where
  | full (msg : M)
  deriving DecidableEq

variable {M : Type*}

namespace Ring

/-- `SpscRing::new`. -/
def new (capacity : Capacity) : Ring M where
  head := 0
  tail := 0
  slots := fun _ => ⟨0, none⟩
  capacity := capacity
  accepted := []
  received := []

/-- The index of the slot of a counter: `pos & (capacity - 1)`. -/
def idx (r : Ring M) (pos : Usize) : Nat := (pos &&& (r.capacity.val - 1)).toNat

/-- The slot of a counter. -/
def slot (r : Ring M) (pos : Usize) : Slot M := r.slots (r.idx pos)

/-- Write to the slot of a counter. -/
def setSlot (r : Ring M) (pos : Usize) (f : Slot M → Slot M) : Ring M :=
  { r with slots := Function.update r.slots (r.idx pos) (f (r.slot pos)) }

/-- The check of `try_send`, with the `head` of the producer: no slot is
    available. -/
def isFull (r : Ring M) (head : Usize) : Bool := r.capacity.val - (head - r.tail) == 0

end Ring

-- ============================================================================
-- The producer
-- ============================================================================

/-- Where the producer is: outside the ring, with what its last call has
    returned, or before the operation named. -/
inductive SendPc (M : Type*) where
  | idle (result : Option (Except (TrySendError M) Unit))
  /-- The load of `tail`. -/
  | loadTail (head : Usize) (msg : M)
  /-- The write of the message. -/
  | write (head : Usize) (msg : M)
  /-- The store to `occupied`. -/
  | setOccupied (head : Usize) (msg : M)
  /-- The store to `head`. -/
  | storeHead (head : Usize) (msg : M)

/-- The labels of the producer: the start of a call with its first load, and
    every later operation. -/
inductive SendAction (M : Type*) where
  | trySend (msg : M)
  | run

/-- `SpscRing::try_send`. -/
def sendStep (r : Ring M) : SendPc M → SendAction M → Option (Ring M × SendPc M)
  | .idle _, .trySend msg => some (r, .loadTail r.head msg)
  | .loadTail head msg, .run =>
      if r.isFull head then some (r, .idle (some (.error (.full msg))))
      else some (r, .write head msg)
  | .write head msg, .run =>
      some (r.setSlot head fun x => { x with message := some msg }, .setOccupied head msg)
  | .setOccupied head msg, .run =>
      some (r.setSlot head fun x => { x with occupied := 1 }, .storeHead head msg)
  | .storeHead head msg, .run =>
      some ({ r with head := head + 1, accepted := r.accepted ++ [msg] }, .idle (some (.ok ())))
  | _, _ => none

/-- The producer. -/
def producer (M : Type*) : ThreadProgram (Ring M) (SendPc M) (SendAction M) where
  start := .idle none
  step := sendStep

-- ============================================================================
-- The consumer
-- ============================================================================

/-- Where the consumer is. -/
inductive RecvPc (M : Type*) where
  | idle (result : Option (Option M))
  /-- The load of `head`. -/
  | loadHead (tail : Usize)
  /-- The loop that waits for `occupied`. -/
  | waitOccupied (tail : Usize)
  /-- `take` of the message. -/
  | take (tail : Usize)
  /-- The store to `occupied`. -/
  | clear (tail : Usize) (msg : Option M)
  /-- The store to `tail`. -/
  | storeTail (tail : Usize) (msg : Option M)

/-- The labels of the consumer. -/
inductive RecvAction where
  | tryRecv
  | run
  deriving DecidableEq

/-- `SpscRing::try_recv`. -/
def recvStep (r : Ring M) : RecvPc M → RecvAction → Option (Ring M × RecvPc M)
  | .idle _, .tryRecv => some (r, .loadHead r.tail)
  | .loadHead tail, .run =>
      if tail = r.head then some (r, .idle (some none)) else some (r, .waitOccupied tail)
  | .waitOccupied tail, .run =>
      if (r.slot tail).occupied = 0 then some (r, .waitOccupied tail) else some (r, .take tail)
  | .take tail, .run =>
      some (r.setSlot tail fun x => { x with message := none }, .clear tail (r.slot tail).message)
  | .clear tail msg, .run =>
      some (r.setSlot tail fun x => { x with occupied := 0 }, .storeTail tail msg)
  | .storeTail tail msg, .run =>
      some ({ r with tail := tail + 1, received := r.received ++ [msg] }, .idle (some msg))
  | _, _ => none

/-- The consumer. -/
def consumer (M : Type*) : ThreadProgram (Ring M) (RecvPc M) RecvAction where
  start := .idle none
  step := recvStep

/-- The ring with its producer and its consumer. -/
abbrev State (M : Type*) := Pair (Ring M) (SendPc M) (RecvPc M)

/-- The producer and the consumer, interleaved. -/
def machine (M : Type*) (capacity : Capacity) : Machine (State M) (SendAction M ⊕ RecvAction) :=
  pair (producer M) (consumer M) (Ring.new capacity)

end SpscRing
end Zydon
