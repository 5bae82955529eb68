/-
  Zydon.Primitives.Broadcast.Basic

  The broadcast channel of `primitives/broadcast.rs`, one access at a time: the
  sender, which sends any number of values and is dropped, and any number of
  receivers, which subscribe and poll.  The reference count of the allocation is
  left to `Allocated` and, for whole calls, to `Calls`.

  Values carry the number of their `send`, and the channel counts the values
  written and the generations advanced; no step depends on these.
-/

import Zydon.Lib.Interleaving
import Zydon.Primitives.WaitQueue.WakeAll

namespace Zydon
namespace Broadcast

open Lib

-- ============================================================================
-- The channel
-- ============================================================================

/-- `u64::MAX`, the generation of a closed channel. -/
def closedGeneration : BitVec 64 := BitVec.allOnes 64

/-- A value with the number of its `send`, from 1 on. -/
abbrev Elem (T : Type*) := Nat × T

/-- `BroadcastInner`, with the wait nodes at the addresses of their receivers. -/
structure BroadcastInner (R T Waker : Type*) where
  generation : BitVec 64
  value : Option (Elem T)
  waiters : WaitQueue R Waker
  /-- How many calls of `send` have written their value. -/
  writes : Nat
  /-- How many calls of `send` have advanced the generation. -/
  sends : Nat
  /-- The wakers invoked so far. -/
  invoked : List Waker

/-- The fields of a `Receiver`. -/
structure Receiver (T : Type*) where
  lastSeen : BitVec 64
  registered : Bool
  /-- How many sends had advanced the generation when `lastSeen` was loaded. -/
  seen : Nat
  /-- The values the receiver has obtained. -/
  got : List (Elem T)

/-- `Poll<Result<T, BroadcastRecvError>>`. -/
inductive RecvPoll (T : Type*) where
  | pending
  | ok (value : Elem T)
  | closed
  deriving DecidableEq, Repr

variable {R T Waker : Type*}

namespace BroadcastInner

/-- The state that `broadcast` makes. -/
def new : BroadcastInner R T Waker :=
  { generation := 0, value := none, waiters := WaitQueue.new, writes := 0, sends := 0,
    invoked := [] }

/-- The wait queue is replaced by `q`. -/
def setWaiters (s : BroadcastInner R T Waker) (q : WaitQueue R Waker) :
    BroadcastInner R T Waker :=
  { s with waiters := q }

end BroadcastInner

-- ============================================================================
-- The sender
-- ============================================================================

/-- Where the sender is: before the operation named. -/
inductive SendPc (Waker : Type*) where
  /-- The sender is alive, and in no call. -/
  | idle
  /-- In `send`: the `fetch_add` of the generation; the value is written. -/
  | advance
  /-- In `wake_all`, called by `send`, or by `drop` if `closing`. -/
  | wakeAll (closing : Bool)
  /-- In `wake_all`: the store to `len`. -/
  | storeLen (closing : Bool) (wakers : List Waker)
  /-- In `wake_all`: the calls of the wakers. -/
  | wake (closing : Bool) (wakers : List Waker)
  /-- In `drop`: the release of the reference. -/
  | closed

/-- The sender is in `drop`. -/
def SendPc.closing : SendPc Waker → Bool
  | .wakeAll closing | .storeLen closing _ | .wake closing _ => closing
  | .closed => true
  | .idle | .advance => false

/-- The sender is in `wake_all`. -/
def SendPc.waking : SendPc Waker → Bool
  | .wakeAll _ | .storeLen _ _ | .wake _ _ => true
  | .idle | .advance | .closed => false

/-- What the sender does next. -/
inductive SendAction (T : Type*) where
  | send (value : T)
  | drop
  /-- The next step of the call in progress. -/
  | next

section Programs

variable [DecidableEq R]

/-- One step of the sender; its `drop` goes up to the release of its reference. -/
def sendStep (fuel : Nat) (s : BroadcastInner R T Waker) :
    SendPc Waker → SendAction T → Option (BroadcastInner R T Waker × SendPc Waker)
  | .idle, .send v =>
      some ({ s with value := some (s.writes + 1, v), writes := s.writes + 1 }, .advance)
  | .idle, .drop => some ({ s with generation := closedGeneration }, .wakeAll true)
  | .advance, .next =>
      some ({ s with generation := s.generation + 1, sends := s.sends + 1 }, .wakeAll false)
  | .wakeAll closing, .next =>
      match s.waiters.wakeAllSection fuel with
      | some (wakers, q) => some (s.setWaiters q, .storeLen closing wakers)
      | none => none
  | .storeLen closing wakers, .next => some (s.setWaiters s.waiters.lenZero, .wake closing wakers)
  | .wake closing (w :: wakers), .next =>
      some ({ s with invoked := s.invoked ++ [w] }, .wake closing wakers)
  | .wake closing [], .next => some (s, if closing then .closed else .idle)
  | _, _ => none

/-- What one step of the sender does: a `send` or the `drop` starts, the generation
    is advanced, or `wake_all` goes on. -/
inductive SendEffect (s : BroadcastInner R T Waker) :
    SendPc Waker → BroadcastInner R T Waker → SendPc Waker → Prop
  | send (v : T) :
      SendEffect s .idle { s with value := some (s.writes + 1, v), writes := s.writes + 1 } .advance
  | drop : SendEffect s .idle { s with generation := closedGeneration } (.wakeAll true)
  | advance :
      SendEffect s .advance { s with generation := s.generation + 1, sends := s.sends + 1 }
        (.wakeAll false)
  | wakeAll {p p' : SendPc Waker} {q : WaitQueue R Waker} (invoked : List Waker) :
      p.waking = true → p' ≠ .advance → p'.closing = p.closing →
      (s.waiters.NoPriorities → q.NoPriorities) →
      SendEffect s p { s with waiters := q, invoked := invoked } p'

theorem sendStep_effect {fuel : Nat} {s s' : BroadcastInner R T Waker} {p p' : SendPc Waker}
    {a : SendAction T} (h : sendStep fuel s p a = some (s', p')) : SendEffect s p s' p' := by
  cases p <;> cases a <;> simp only [sendStep, reduceCtorEq] at h
  case idle.send v =>
    obtain ⟨rfl, rfl⟩ : _ = s' ∧ _ = p' := by simpa using h
    exact .send v
  case idle.drop =>
    obtain ⟨rfl, rfl⟩ : _ = s' ∧ _ = p' := by simpa using h
    exact .drop
  case advance.next =>
    obtain ⟨rfl, rfl⟩ : _ = s' ∧ _ = p' := by simpa using h
    exact .advance
  case wakeAll.next closing =>
    split at h
    · next wakers q h_section =>
        obtain ⟨rfl, rfl⟩ : _ = s' ∧ _ = p' := by simpa using h
        exact .wakeAll s.invoked rfl (by simp) rfl fun h_q => h_q.wakeAllSection h_section
    · exact nomatch h
  case storeLen.next closing wakers =>
    obtain ⟨rfl, rfl⟩ : _ = s' ∧ _ = p' := by simpa using h
    exact .wakeAll s.invoked rfl (by simp) rfl id
  case wake.next closing wakers =>
    cases wakers with
    | cons w wakers =>
        obtain ⟨rfl, rfl⟩ : _ = s' ∧ _ = p' := by simpa [sendStep] using h
        exact .wakeAll (s.invoked ++ [w]) rfl (by simp) rfl id
    | nil =>
        obtain ⟨rfl, rfl⟩ : _ = s' ∧ _ = p' := by simpa [sendStep] using h
        cases closing with
        | true => exact .wakeAll s.invoked rfl (by simp) rfl id
        | false => exact .wakeAll s.invoked rfl (by simp) rfl id

/-- The sender.  `fuel` bounds the loop of `wake_all`. -/
def sender (R T Waker : Type*) [DecidableEq R] (fuel : Nat) :
    ThreadProgram (BroadcastInner R T Waker) (SendPc Waker) (SendAction T) where
  start := .idle
  step := sendStep fuel

-- ============================================================================
-- The receivers
-- ============================================================================

/-- Where a receiver is: before the operation named. -/
inductive RecvPc (T Waker : Type*) where
  /-- There is no such receiver yet. -/
  | absent
  /-- In no call; the answer of the last poll. -/
  | idle (x : Receiver T) (answer : Option (RecvPoll T))
  /-- In `poll`: the clone of the value, after the load of `generation`, when `n`
      sends had advanced it. -/
  | clone (x : Receiver T) (generation : BitVec 64) (n : Nat)
  /-- In `poll`: `set_waker`. -/
  | setWaker (x : Receiver T) (waker : Waker)
  /-- In `poll`: the critical section of `enqueue`. -/
  | enqueue (x : Receiver T)
  /-- In `poll`: the `fetch_add` of `enqueue`. -/
  | lenAdd (x : Receiver T)
  /-- In `poll`: the second load of the generation. -/
  | recheck (x : Receiver T)
  /-- In `poll`: the critical section of `remove`, before the clone for the
      generation `found`, or the answer `Closed`. -/
  | remove (x : Receiver T) (found : Option (BitVec 64 × Nat))
  /-- In `poll`: the end of `remove`, which has unlinked the node if `unlinked`. -/
  | removed (x : Receiver T) (found : Option (BitVec 64 × Nat)) (unlinked : Bool)
  /-- In the drop of the future: the end of `remove`. -/
  | dropRemoved (x : Receiver T) (answer : Option (RecvPoll T)) (unlinked : Bool)
  /-- In the `expect` of `poll`. -/
  | panicked (x : Receiver T)

/-- What a receiver does next. -/
inductive RecvAction (Waker : Type*) where
  /-- `subscribe`, called on a live receiver, makes this one. -/
  | subscribe
  /-- A poll of the future of `recv` starts. -/
  | poll (waker : Waker)
  /-- The future of `recv` is dropped. -/
  | dropFuture
  /-- The next step of the call in progress. -/
  | next

/-- Both tests of the generation in `poll`. -/
inductive Seen where
  | closed
  | newer
  | nothing

/-- What a load of `generation` tells a receiver. -/
def Receiver.check (x : Receiver T) (generation : BitVec 64) : Seen :=
  if generation = closedGeneration then .closed
  else if x.lastSeen < generation then .newer
  else .nothing

/-- The value obtained for the generation `generation`. -/
def Receiver.obtain (x : Receiver T) (generation : BitVec 64) (n : Nat) (v : Elem T) : Receiver T :=
  { x with lastSeen := generation, seen := n, got := x.got ++ [v] }

/-- The `fetch_sub` of `remove`, if it has unlinked the node. -/
def lenSubIf (s : BroadcastInner R T Waker) (unlinked : Bool) : BroadcastInner R T Waker :=
  if unlinked then s.setWaiters s.waiters.lenSub else s

/-- One step of the receiver `r`.  Its node keeps the priority 0, so that the loop
    of `enqueue` needs no rounds. -/
def recvStep (r : R) (s : BroadcastInner R T Waker) :
    RecvPc T Waker → RecvAction Waker → Option (BroadcastInner R T Waker × RecvPc T Waker)
  | .absent, .subscribe =>
      some (s, .idle { lastSeen := s.generation, registered := false, seen := s.sends, got := [] }
        none)
  | .idle x _, .poll waker =>
      match x.check s.generation with
      | .closed => some (s, .idle x (some .closed))
      | .newer => some (s, .clone x s.generation s.sends)
      | .nothing => some (s, .setWaker x waker)
  | .idle x answer, .dropFuture =>
      if x.registered then
        let (unlinked, q) := s.waiters.removeSection r
        some (s.setWaiters q, .dropRemoved { x with registered := false } answer unlinked)
      else some (s, .idle x answer)
  | .clone x generation n, .next =>
      match s.value with
      | some v => some (s, .idle (x.obtain generation n v) (some (.ok v)))
      | none => some (s, .panicked x)
  | .setWaker x waker, .next =>
      some (s.setWaiters (s.waiters.setWaker r waker),
        if x.registered then .recheck x else .enqueue x)
  | .enqueue x, .next =>
      match s.waiters.enqueueSection 0 r with
      | some q => some (s.setWaiters q, .lenAdd { x with registered := true })
      | none => none
  | .lenAdd x, .next => some (s.setWaiters s.waiters.lenAdd, .recheck x)
  | .recheck x, .next =>
      match x.check s.generation with
      | .closed => some (s, .remove x none)
      | .newer => some (s, .remove x (some (s.generation, s.sends)))
      | .nothing => some (s, .idle x (some .pending))
  | .remove x found, .next =>
      let (unlinked, q) := s.waiters.removeSection r
      some (s.setWaiters q, .removed { x with registered := false } found unlinked)
  | .removed x none unlinked, .next => some (lenSubIf s unlinked, .idle x (some .closed))
  | .removed x (some (generation, n)) unlinked, .next =>
      some (lenSubIf s unlinked, .clone x generation n)
  | .dropRemoved x answer unlinked, .next => some (lenSubIf s unlinked, .idle x answer)
  | _, _ => none

/-- A receiver only changes the wait queue, and gives no node a priority. -/
theorem recvStep_frame {r : R} {s s' : BroadcastInner R T Waker} {q q' : RecvPc T Waker}
    {a : RecvAction Waker} (h : recvStep r s q a = some (s', q')) :
    s' = s.setWaiters s'.waiters ∧ (s.waiters.NoPriorities → s'.waiters.NoPriorities) := by
  have h_lenSub : ∀ unlinked, lenSubIf s unlinked = s.setWaiters (lenSubIf s unlinked).waiters ∧
      (s.waiters.NoPriorities → (lenSubIf s unlinked).waiters.NoPriorities) := by
    intro unlinked
    cases unlinked with
    | true => exact ⟨rfl, id⟩
    | false => exact ⟨rfl, id⟩
  cases q <;> cases a <;> simp only [recvStep, reduceCtorEq] at h
  case absent.subscribe =>
    obtain ⟨rfl, rfl⟩ : _ = s' ∧ _ = q' := by simpa using h
    exact ⟨rfl, id⟩
  case idle.poll x answer waker =>
    split at h <;> obtain ⟨rfl, rfl⟩ : _ = s' ∧ _ = q' := by simpa using h
    all_goals exact ⟨rfl, id⟩
  case idle.dropFuture x answer =>
    split at h <;> obtain ⟨rfl, rfl⟩ : _ = s' ∧ _ = q' := by simpa using h
    · exact ⟨rfl, fun h_q => h_q.removeSection r⟩
    · exact ⟨rfl, id⟩
  case clone.next x generation n =>
    split at h <;> obtain ⟨rfl, rfl⟩ : _ = s' ∧ _ = q' := by simpa using h
    all_goals exact ⟨rfl, id⟩
  case setWaker.next x waker =>
    obtain ⟨rfl, rfl⟩ : _ = s' ∧ _ = q' := by simpa using h
    exact ⟨rfl, fun h_q => h_q.setWaker r waker⟩
  case enqueue.next x =>
    split at h
    · next q h_section =>
        obtain ⟨rfl, rfl⟩ : _ = s' ∧ _ = q' := by simpa using h
        refine ⟨rfl, fun h_q => ?_⟩
        have h_enqueue := h_q.enqueueSection 0 r
        rw [h_section] at h_enqueue
        exact Option.some.inj h_enqueue.1 ▸ h_enqueue.2
    · exact nomatch h
  case lenAdd.next x =>
    obtain ⟨rfl, rfl⟩ : _ = s' ∧ _ = q' := by simpa using h
    exact ⟨rfl, id⟩
  case recheck.next x =>
    split at h <;> obtain ⟨rfl, rfl⟩ : _ = s' ∧ _ = q' := by simpa using h
    all_goals exact ⟨rfl, id⟩
  case remove.next x found =>
    obtain ⟨rfl, rfl⟩ : _ = s' ∧ _ = q' := by simpa using h
    exact ⟨rfl, fun h_q => h_q.removeSection r⟩
  case removed.next x found unlinked =>
    cases found with
    | none =>
        obtain ⟨rfl, rfl⟩ : _ = s' ∧ _ = q' := by simpa [recvStep] using h
        exact h_lenSub unlinked
    | some found =>
        obtain ⟨rfl, rfl⟩ : _ = s' ∧ _ = q' := by simpa [recvStep] using h
        exact h_lenSub unlinked
  case dropRemoved.next x answer unlinked =>
    obtain ⟨rfl, rfl⟩ : _ = s' ∧ _ = q' := by simpa using h
    exact h_lenSub unlinked

/-- The receiver `r`. -/
def receiver (T Waker : Type*) (r : R) :
    ThreadProgram (BroadcastInner R T Waker) (RecvPc T Waker) (RecvAction Waker) where
  start := .absent
  step := recvStep r

/-- The sender and the receivers of a channel. -/
abbrev Halves (R T Waker : Type*) :=
  Families Unit R (BroadcastInner R T Waker) (SendPc Waker) (RecvPc T Waker)

/-- `broadcast`: the channel with all interleavings of the sender and the
    receivers. -/
def broadcast (R T Waker : Type*) [DecidableEq R] (fuel : Nat) :
    Machine (Halves R T Waker) (Unit × SendAction T ⊕ R × RecvAction Waker) :=
  families (fun _ => sender R T Waker fuel) (receiver T Waker) .new

end Programs

end Broadcast
end Zydon
