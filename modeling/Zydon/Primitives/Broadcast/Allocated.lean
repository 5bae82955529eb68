/-
  Zydon.Primitives.Broadcast.Allocated

  The allocation that the halves of a broadcast channel share, over every interleaving
  of their accesses with the drops that release their references, and what the
  receivers obtain as long as it lives.

  The count starts at 1 for two halves: the first drop frees the allocation, unless
  there has been a `subscribe` before.  What comes after that is on memory that may have
  been given to somebody else (`overwrite`).
-/

import Zydon.Primitives.Broadcast.Obtained

namespace Zydon
namespace Broadcast

open Lib

variable {R T Waker : Type*}

-- ============================================================================
-- The allocation
-- ============================================================================

/-- How a receiver stands to the allocation. -/
inductive Holding where
  | absent
  /-- In `subscribe`, which makes this receiver: the load of the generation. -/
  | counted
  | live
  | dropped
  deriving DecidableEq

/-- `BroadcastShared`, with its halves and with what has been sent. -/
structure BroadcastShared (R T Waker : Type*) where
  inner : Recorded (Halves R T Waker) (List T)
  refcount : BitVec 32
  /-- `Box::from_raw` has not been called yet. -/
  allocated : Bool
  /-- The sender has released its reference. -/
  senderDropped : Bool
  holding : R → Holding

/-- The labels. -/
inductive SharedAction (R T Waker : Type*) where
  /-- A step of `send`, of the sender's `drop` up to its release, of a poll, or of the
      drop of a future. -/
  | access (a : Unit × SendAction T ⊕ R × RecvAction Waker)
  /-- The release in the sender's `drop`. -/
  | dropSender
  /-- The `fetch_add` of `subscribe` on the receiver `parent`, which makes `new`. -/
  | retain (parent new : R)
  /-- The load of `generation` in `subscribe`, which makes `new`. -/
  | load (new : R)
  /-- `drop` of a receiver. -/
  | dropReceiver (r : R)
  /-- The memory of the freed allocation is written by its next owner. -/
  | overwrite (inner : BroadcastInner R T Waker)

/-- The sender is in `drop`, before the release. -/
def SendPc.isClosed : SendPc Waker → Bool
  | .closed => true
  | _ => false

/-- The receiver is in no call and has no future, so that it can be dropped. -/
def RecvPc.isFree (q : RecvPc T Waker) : Bool := q.isIdle && !q.registered

section Steps

variable [DecidableEq R]

namespace BroadcastShared

/-- `broadcast`: the count starts at 1, with the sender and the receiver `first`. -/
def new (first : R) : BroadcastShared R T Waker where
  inner :=
    { state :=
        { shared := .new
          left := fun _ => .idle
          right := Function.update (fun _ => .absent) first
            (.idle { lastSeen := 0, registered := false, seen := 0, got := [] } none) }
      record := [] }
  refcount := 1
  allocated := true
  senderDropped := false
  holding := Function.update (fun _ => .absent) first .live

/-- `fetch_sub` of the reference count, and the `drop` of the box if that was the last
    reference. -/
def release (s : BroadcastShared R T Waker) : BroadcastShared R T Waker :=
  { s with
    refcount := s.refcount - 1
    allocated := if s.refcount = 1 then false else s.allocated }

/-- A step of the sender, or of a receiver that there is. -/
def mayAccess (s : BroadcastShared R T Waker) : Unit × SendAction T ⊕ R × RecvAction Waker → Bool
  | .inl _ => true
  | .inr (r, _) => s.holding r = .live

/-- What a half does to the channel. -/
def inChannel (fuel : Nat) (s : BroadcastShared R T Waker)
    (a : Unit × SendAction T ⊕ R × RecvAction Waker) : Option (BroadcastShared R T Waker) :=
  match (sentMachine R T Waker fuel).step s.inner a with
  | some inner => some { s with inner := inner }
  | none => none

/-- One step. -/
def step (fuel : Nat) (s : BroadcastShared R T Waker) :
    SharedAction R T Waker → Option (BroadcastShared R T Waker)
  | .access a => if s.mayAccess a then s.inChannel fuel a else none
  | .dropSender =>
      if (s.inner.state.left ()).isClosed && !s.senderDropped then
        some { s with senderDropped := true }.release
      else none
  | .retain parent new =>
      if s.holding parent = .live ∧ s.holding new = .absent then
        some { s with
          refcount := s.refcount + 1
          holding := Function.update s.holding new .counted }
      else none
  | .load new =>
      if s.holding new = .counted then
        { s with holding := Function.update s.holding new .live }.inChannel fuel
          (.inr (new, .subscribe))
      else none
  | .dropReceiver r =>
      if s.holding r = .live ∧ (s.inner.state.right r).isFree then
        some { s with holding := Function.update s.holding r .dropped }.release
      else none
  | .overwrite inner =>
      if s.allocated then none
      else some { s with inner.state.shared := inner }

end BroadcastShared

/-- `broadcast`, with all interleavings of the sender, the receivers and their drops. -/
def sharedBroadcast (T Waker : Type*) (first : R) (fuel : Nat) :
    Machine (BroadcastShared R T Waker) (SharedAction R T Waker) where
  init := .new first
  step := BroadcastShared.step fuel

end Steps

-- ============================================================================
-- Runs
-- ============================================================================

variable [DecidableEq R] {fuel : Nat} {first : R} {s s' : BroadcastShared R T Waker}

/-- The state that `broadcast` makes, with its receiver subscribed at the generation 0. -/
theorem sentInv_new (first : R) :
    SentInv (BroadcastShared.new first : BroadcastShared R T Waker).inner := by
  have h_step : (sentMachine R T Waker 0).step (sentMachine R T Waker 0).init
      (.inr (first, .subscribe)) = some (BroadcastShared.new first).inner := rfl
  exact sentInv_init.step h_step

theorem SentInv.inChannel {a : Unit × SendAction T ⊕ R × RecvAction Waker} (h_inv : SentInv s.inner)
    (h : s.inChannel fuel a = some s') : SentInv s'.inner := by
  simp only [BroadcastShared.inChannel] at h
  split at h
  · next inner h_step =>
      obtain rfl := Option.some.inj h
      exact h_inv.step h_step
  · exact absurd h (by simp)

/-- A step on the allocation keeps the invariant of the channel. -/
theorem SentInv.shared_step {a : SharedAction R T Waker} (h_inv : SentInv s.inner)
    (h_allocated : s.allocated = true)
    (h : (sharedBroadcast T Waker first fuel).step s a = some s') : SentInv s'.inner := by
  cases a <;> simp only [sharedBroadcast, BroadcastShared.step] at h <;> split at h
  case access.isTrue => exact h_inv.inChannel h
  case load.isTrue => exact SentInv.inChannel (by exact h_inv) h
  case dropSender.isTrue | retain.isTrue | dropReceiver.isTrue =>
    obtain rfl := Option.some.inj h
    exact h_inv
  case overwrite.isFalse h_freed => exact absurd h_allocated h_freed
  all_goals exact absurd h (by simp)

/-- For one sender and any number of receivers, each of which drops its futures and
    itself when it likes: as long as every step finds the allocation there. -/
theorem obtainsSent_of_allocated {tr : List (SharedAction R T Waker)}
    (h_allocated : (sharedBroadcast T Waker first fuel).StepsMeet (fun s _ => s.allocated = true)
      (sharedBroadcast T Waker first fuel).init tr)
    (h_run : (sharedBroadcast T Waker first fuel).exec (sharedBroadcast T Waker first fuel).init
      tr = some s) (r : R) : ObtainsSent s.inner r := by
  have h_inv : SentInv s.inner :=
    Machine.exec_invariant (P := fun s => SentInv s.inner)
      (fun _ _ _ h_inv h_there h_step => h_inv.shared_step h_there h_step) (sentInv_new first)
      h_allocated h_run
  exact h_inv.obtainsSent r

/-- The value of the second send is written between the load and the clone of a poll,
    whose generation is that of the first; the receiver finds it again before the send
    has advanced the generation for it, and after that. -/
def writtenAhead : List (Unit × SendAction Nat ⊕ Nat × RecvAction Unit) :=
  sendSteps 10 ++ [.inr (0, .poll ())] ++ sendSteps 20 ++
    [.inl ((), .send 30), .inr (0, .next), .inr (0, .poll ()), .inr (0, .next), .inl ((), .next),
      .inr (0, .poll ()), .inr (0, .next)] ++ List.replicate 3 (.inl ((), .next))

/-- The sender is dropped after that, and with it the first reference, before the two
    receivers find the channel closed; the drop of the first one frees the allocation. -/
def droppedInTurn : List (SharedAction Nat Nat Unit) :=
  [.retain 0 1, .load 1] ++ writtenAhead.map .access ++ [.access (.inl ((), .drop))] ++
    List.replicate 3 (.access (.inl ((), .next))) ++
    [.dropSender, .access (.inr (0, .poll ())), .access (.inr (1, .poll ())), .dropReceiver 0]

theorem obtainsSent_droppedInTurn :
    ∃ s, (sharedBroadcast Nat Unit 0 0).exec (sharedBroadcast Nat Unit 0 0).init droppedInTurn =
        some s ∧
      ((s.inner.state.right 0).got = [(3, 30), (3, 30), (3, 30)] ∧
        (s.inner.state.right 1).answer = some .closed ∧ s.inner.record = [10, 20, 30] ∧
        s.allocated = false) ∧
      ObtainsSent s.inner 0 := by
  have h_replay : ((sharedBroadcast Nat Unit 0 0).exec (sharedBroadcast Nat Unit 0 0).init
      droppedInTurn).any (fun s => decide (
        (s.inner.state.right 0).got = [(3, 30), (3, 30), (3, 30)] ∧
        (s.inner.state.right 1).answer = some .closed ∧ s.inner.record = [10, 20, 30] ∧
        s.allocated = false)) = true := by
    decide +kernel
  obtain ⟨s, h_run, h_got⟩ := Machine.exec_of_decide h_replay
  exact ⟨s, h_run, h_got, obtainsSent_of_allocated (by decide +kernel) h_run 0⟩

end Broadcast
end Zydon
