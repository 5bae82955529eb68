/-
  Zydon.Primitives.Oneshot.Basic

  The oneshot channel of `primitives/oneshot.rs`: the sender, which sends one
  value or is dropped, and the future of the receiver, one access to `state`,
  `value` and `recv_waker` at a time.

  An arm that is `unreachable!()` in the source leads to `unreachable`, where the
  thread takes no further step.
-/

import Zydon.Lib.Interleaving

namespace Zydon
namespace Oneshot

open Lib

-- ============================================================================
-- The shared state
-- ============================================================================

/-- The channel state machine. -/
inductive ChannelState where
  /-- No value, no receiver waiting. -/
  | empty
  /-- The receiver is parked. -/
  | waiting
  /-- The value is sent, ready for delivery. -/
  | ready
  /-- The value is delivered. -/
  | consumed
  /-- The sender is dropped without sending. -/
  | closed
  deriving DecidableEq, Repr

/-- `OneshotInner`, with the wakers that have been invoked. -/
structure OneshotInner (T W : Type*) where
  state : ChannelState
  value : Option T
  recvWaker : Option W
  invoked : List W

/-- `SendError`. -/
inductive SendError (T : Type*) where
  | closed (value : T)
  deriving DecidableEq, Repr

/-- `RecvError`. -/
inductive RecvError where
  | closed
  deriving DecidableEq, Repr

variable {T W : Type*}

namespace OneshotInner

/-- The state that `oneshot` makes. -/
def new : OneshotInner T W :=
  { state := .empty, value := none, recvWaker := none, invoked := [] }

/-- A store to `state`. -/
def setState (s : OneshotInner T W) (state : ChannelState) : OneshotInner T W :=
  { s with state := state }

/-- A waker is invoked. -/
def wake (s : OneshotInner T W) (w : W) : OneshotInner T W := { s with invoked := s.invoked ++ [w] }

end OneshotInner

-- ============================================================================
-- The sender
-- ============================================================================

/-- Where the sender is. -/
inductive SendPc (T W : Type*) where
  /-- The sender is alive. -/
  | idle
  /-- In `send`, at the load of the loop; the value is stored. -/
  | load (v : T)
  /-- In `send`, at the exchange of `EMPTY` for `READY`. -/
  | exchange (v : T)
  /-- In `send`, at the store of `READY` after `WAITING` was loaded. -/
  | storeReady (v : T)
  /-- In `send`, at the `take` of the waker. -/
  | takeWaker (v : T)
  /-- In `send`, about to invoke `w`. -/
  | wake (v : T) (w : W)
  /-- `send` has returned `result`. -/
  | sent (v : T) (result : Except (SendError T) Unit)
  /-- In `drop`, at the store of `CLOSED` after `WAITING` was loaded. -/
  | closeWaiting
  /-- In `drop`, at the `take` of the waker. -/
  | dropTakeWaker
  /-- In `drop`, about to invoke `w`. -/
  | dropWake (w : W)
  /-- In `drop`, at the store of `CLOSED` after `EMPTY` was loaded. -/
  | closeEmpty
  /-- `drop` has returned. -/
  | dropped
  /-- In the `unreachable!()` of `send`. -/
  | unreachable

/-- What the sender does next. -/
inductive SendAction (T : Type*) where
  | send (v : T)
  | drop
  /-- The next step of the call in progress. -/
  | next

/-- One step of the sender. -/
def sendStep (s : OneshotInner T W) : SendPc T W → SendAction T →
    Option (OneshotInner T W × SendPc T W)
  | .idle, .send v => some ({ s with value := some v }, .load v)
  | .idle, .drop =>
      match s.state with
      | .waiting => some (s, .closeWaiting)
      | .empty => some (s, .closeEmpty)
      | _ => some (s, .dropped)
  | .load v, .next =>
      match s.state with
      | .empty => some (s, .exchange v)
      | .waiting => some (s, .storeReady v)
      | _ => some (s, .unreachable)
  | .exchange v, .next =>
      if s.state = .empty then some (s.setState .ready, .sent v (.ok ()))
      else some (s, .load v)
  | .storeReady v, .next => some (s.setState .ready, .takeWaker v)
  | .takeWaker v, .next =>
      match s.recvWaker with
      | some w => some ({ s with recvWaker := none }, .wake v w)
      | none => some (s, .sent v (.ok ()))
  | .wake v w, .next => some (s.wake w, .sent v (.ok ()))
  | .closeWaiting, .next => some (s.setState .closed, .dropTakeWaker)
  | .dropTakeWaker, .next =>
      match s.recvWaker with
      | some w => some ({ s with recvWaker := none }, .dropWake w)
      | none => some (s, .dropped)
  | .dropWake w, .next => some (s.wake w, .dropped)
  | .closeEmpty, .next => some (s.setState .closed, .dropped)
  | _, _ => none

/-- What one step of the sender does. -/
inductive SendEffect (s : OneshotInner T W) : SendPc T W → OneshotInner T W → SendPc T W → Prop
  | send (v : T) : SendEffect s .idle { s with value := some v } (.load v)
  | dropWaiting : s.state = .waiting → SendEffect s .idle s .closeWaiting
  | dropEmpty : s.state = .empty → SendEffect s .idle s .closeEmpty
  | dropOther : s.state ≠ .waiting → s.state ≠ .empty → SendEffect s .idle s .dropped
  | loadEmpty (v : T) : s.state = .empty → SendEffect s (.load v) s (.exchange v)
  | loadWaiting (v : T) : s.state = .waiting → SendEffect s (.load v) s (.storeReady v)
  | loadOther (v : T) : s.state ≠ .waiting → s.state ≠ .empty →
      SendEffect s (.load v) s .unreachable
  | exchanged (v : T) : s.state = .empty →
      SendEffect s (.exchange v) (s.setState .ready) (.sent v (.ok ()))
  | exchangeFailed (v : T) : s.state ≠ .empty → SendEffect s (.exchange v) s (.load v)
  | storedReady (v : T) : SendEffect s (.storeReady v) (s.setState .ready) (.takeWaker v)
  | tookWaker (v : T) (w : W) : s.recvWaker = some w →
      SendEffect s (.takeWaker v) { s with recvWaker := none } (.wake v w)
  | noWaker (v : T) : s.recvWaker = none → SendEffect s (.takeWaker v) s (.sent v (.ok ()))
  | woke (v : T) (w : W) : SendEffect s (.wake v w) (s.wake w) (.sent v (.ok ()))
  | closedWaiting : SendEffect s .closeWaiting (s.setState .closed) .dropTakeWaker
  | dropTookWaker (w : W) : s.recvWaker = some w →
      SendEffect s .dropTakeWaker { s with recvWaker := none } (.dropWake w)
  | dropNoWaker : s.recvWaker = none → SendEffect s .dropTakeWaker s .dropped
  | dropWoke (w : W) : SendEffect s (.dropWake w) (s.wake w) .dropped
  | closedEmpty : SendEffect s .closeEmpty (s.setState .closed) .dropped

theorem sendStep_effect {s s' : OneshotInner T W} {p p' : SendPc T W} {a : SendAction T}
    (h : sendStep s p a = some (s', p')) : SendEffect s p s' p' := by
  cases p <;> cases a <;> simp only [sendStep, reduceCtorEq] at h
  case idle.send v =>
    obtain ⟨rfl, rfl⟩ : _ = s' ∧ _ = p' := by simpa using h
    exact .send v
  case idle.drop =>
    split at h <;> obtain ⟨rfl, rfl⟩ : _ = s' ∧ _ = p' := by simpa using h
    · next h_state => exact .dropWaiting h_state
    · next h_state => exact .dropEmpty h_state
    · next h_waiting h_empty => exact .dropOther h_waiting h_empty
  case load.next v =>
    split at h <;> obtain ⟨rfl, rfl⟩ : _ = s' ∧ _ = p' := by simpa using h
    · next h_state => exact .loadEmpty v h_state
    · next h_state => exact .loadWaiting v h_state
    · next h_empty h_waiting => exact .loadOther v h_waiting h_empty
  case exchange.next v =>
    split at h <;> obtain ⟨rfl, rfl⟩ : _ = s' ∧ _ = p' := by simpa using h
    · next h_state => exact .exchanged v h_state
    · next h_state => exact .exchangeFailed v h_state
  case storeReady.next v =>
    obtain ⟨rfl, rfl⟩ : _ = s' ∧ _ = p' := by simpa using h
    exact .storedReady v
  case takeWaker.next v =>
    split at h <;> obtain ⟨rfl, rfl⟩ : _ = s' ∧ _ = p' := by simpa using h
    · next w h_waker => exact .tookWaker v w h_waker
    · next h_waker => exact .noWaker v h_waker
  case wake.next v w =>
    obtain ⟨rfl, rfl⟩ : _ = s' ∧ _ = p' := by simpa using h
    exact .woke v w
  case closeWaiting.next =>
    obtain ⟨rfl, rfl⟩ : _ = s' ∧ _ = p' := by simpa using h
    exact .closedWaiting
  case dropTakeWaker.next =>
    split at h <;> obtain ⟨rfl, rfl⟩ : _ = s' ∧ _ = p' := by simpa using h
    · next w h_waker => exact .dropTookWaker w h_waker
    · next h_waker => exact .dropNoWaker h_waker
  case dropWake.next w =>
    obtain ⟨rfl, rfl⟩ : _ = s' ∧ _ = p' := by simpa using h
    exact .dropWoke w
  case closeEmpty.next =>
    obtain ⟨rfl, rfl⟩ : _ = s' ∧ _ = p' := by simpa using h
    exact .closedEmpty

/-- The sender. -/
def sender (T W : Type*) : ThreadProgram (OneshotInner T W) (SendPc T W) (SendAction T) where
  start := .idle
  step := sendStep

-- ============================================================================
-- The receiver
-- ============================================================================

/-- Where the receiver is. -/
inductive RecvPc (T W : Type*) where
  /-- Between polls: the field `registered`, and the waker of the last poll. -/
  | idle (registered : Bool) (last : Option W)
  /-- In `poll`, at the store of the waker. -/
  | storeWaker (registered : Bool) (w : W)
  /-- In `poll`, at the exchange of `EMPTY` for `WAITING`. -/
  | exchange (w : W)
  /-- In `poll`, at the second load of the state. -/
  | recheck (w : W)
  /-- In `poll`, at the store of `CONSUMED`. -/
  | consume
  /-- In `poll`, at the `take` of the value. -/
  | takeValue
  /-- `poll` has returned `Ready`. -/
  | done (result : Except RecvError T)
  /-- The receiver is dropped before that. -/
  | dropped
  /-- In an `unreachable!()` of `poll`. -/
  | unreachable

/-- What the receiver does next. -/
inductive RecvAction (W : Type*) where
  /-- A poll with the waker `w` starts. -/
  | poll (w : W)
  /-- The next step of the poll in progress. -/
  | next
  /-- The receiver, or its future, is dropped. -/
  | drop

/-- One step of the receiver. -/
def recvStep (s : OneshotInner T W) : RecvPc T W → RecvAction W →
    Option (OneshotInner T W × RecvPc T W)
  | .idle registered _, .poll w =>
      match s.state with
      | .ready => some (s, .consume)
      | .closed => some (s, .done (.error .closed))
      | .empty | .waiting => some (s, .storeWaker registered w)
      | .consumed => some (s, .unreachable)
  | .storeWaker registered w, .next =>
      some ({ s with recvWaker := some w }, if registered then .recheck w else .exchange w)
  | .exchange w, .next =>
      if s.state = .empty then some (s.setState .waiting, .recheck w) else some (s, .recheck w)
  | .recheck w, .next =>
      match s.state with
      | .ready => some (s, .consume)
      | .closed => some (s, .done (.error .closed))
      | _ => some (s, .idle true (some w))
  | .consume, .next => some (s.setState .consumed, .takeValue)
  | .takeValue, .next =>
      match s.value with
      | some v => some ({ s with value := none }, .done (.ok v))
      | none => some ({ s with value := none }, .unreachable)
  | .idle _ _, .drop => some (s, .dropped)
  | _, _ => none

/-- What one step of the receiver does. -/
inductive RecvEffect (s : OneshotInner T W) : RecvPc T W → OneshotInner T W → RecvPc T W → Prop
  | pollReady {r : Bool} {l : Option W} : s.state = .ready → RecvEffect s (.idle r l) s .consume
  | pollClosed {r : Bool} {l : Option W} : s.state = .closed →
      RecvEffect s (.idle r l) s (.done (.error .closed))
  | pollOpen {r : Bool} {l : Option W} (w : W) : s.state = .empty ∨ s.state = .waiting →
      RecvEffect s (.idle r l) s (.storeWaker r w)
  | pollConsumed {r : Bool} {l : Option W} : s.state = .consumed →
      RecvEffect s (.idle r l) s .unreachable
  | updated (w : W) :
      RecvEffect s (.storeWaker true w) { s with recvWaker := some w } (.recheck w)
  | stored (w : W) :
      RecvEffect s (.storeWaker false w) { s with recvWaker := some w } (.exchange w)
  | exchanged (w : W) : s.state = .empty →
      RecvEffect s (.exchange w) (s.setState .waiting) (.recheck w)
  | exchangeFailed (w : W) : s.state ≠ .empty → RecvEffect s (.exchange w) s (.recheck w)
  | recheckReady (w : W) : s.state = .ready → RecvEffect s (.recheck w) s .consume
  | recheckClosed (w : W) : s.state = .closed →
      RecvEffect s (.recheck w) s (.done (.error .closed))
  | pending (w : W) : s.state ≠ .ready → s.state ≠ .closed →
      RecvEffect s (.recheck w) s (.idle true (some w))
  | consumed : RecvEffect s .consume (s.setState .consumed) .takeValue
  | took (v : T) : s.value = some v →
      RecvEffect s .takeValue { s with value := none } (.done (.ok v))
  | noValue : s.value = none → RecvEffect s .takeValue { s with value := none } .unreachable
  | dropped {r : Bool} {l : Option W} : RecvEffect s (.idle r l) s .dropped

theorem recvStep_effect {s s' : OneshotInner T W} {q q' : RecvPc T W} {a : RecvAction W}
    (h : recvStep s q a = some (s', q')) : RecvEffect s q s' q' := by
  cases q <;> cases a <;> simp only [recvStep, reduceCtorEq] at h
  case idle.poll r l w =>
    split at h <;> obtain ⟨rfl, rfl⟩ : _ = s' ∧ _ = q' := by simpa using h
    · next h_state => exact .pollReady h_state
    · next h_state => exact .pollClosed h_state
    · next h_state => exact .pollOpen w (.inl h_state)
    · next h_state => exact .pollOpen w (.inr h_state)
    · next h_state => exact .pollConsumed h_state
  case idle.drop r l =>
    obtain ⟨rfl, rfl⟩ : _ = s' ∧ _ = q' := by simpa using h
    exact .dropped
  case storeWaker.next r w =>
    obtain ⟨rfl, rfl⟩ : _ = s' ∧ _ = q' := by simpa using h
    cases r with
    | true => exact .updated w
    | false => exact .stored w
  case exchange.next w =>
    split at h <;> obtain ⟨rfl, rfl⟩ : _ = s' ∧ _ = q' := by simpa using h
    · next h_state => exact .exchanged w h_state
    · next h_state => exact .exchangeFailed w h_state
  case recheck.next w =>
    split at h <;> obtain ⟨rfl, rfl⟩ : _ = s' ∧ _ = q' := by simpa using h
    · next h_state => exact .recheckReady w h_state
    · next h_state => exact .recheckClosed w h_state
    · next h_ready h_closed => exact .pending w h_ready h_closed
  case consume.next =>
    obtain ⟨rfl, rfl⟩ : _ = s' ∧ _ = q' := by simpa using h
    exact .consumed
  case takeValue.next =>
    split at h <;> obtain ⟨rfl, rfl⟩ : _ = s' ∧ _ = q' := by simpa using h
    · next v h_value => exact .took v h_value
    · next h_value => exact .noValue h_value

/-- The receiver, not yet polled. -/
def receiver (T W : Type*) : ThreadProgram (OneshotInner T W) (RecvPc T W) (RecvAction W) where
  start := .idle false none
  step := recvStep

/-- The two halves of a channel. -/
abbrev Halves (T W : Type*) := Pair (OneshotInner T W) (SendPc T W) (RecvPc T W)

/-- `oneshot`: the channel with all interleavings of its halves. -/
def oneshot (T W : Type*) : Machine (Halves T W) (SendAction T ⊕ RecvAction W) :=
  pair (sender T W) (receiver T W) .new

end Oneshot
end Zydon
