/-
  Zydon.Primitives.Channel.WakeUps

  Wake-ups between one producer and the consumer, over every interleaving of
  their operations.

  `send` does not check again once its node is queued, so that a receive in
  between is missed; `recv` does, but a future whose node has been dequeued by a
  late `wake_one` believes that it is queued.  `HeedsWakeUps` excludes the two,
  and the runs within it lose no wake-up (`noLostWakeUp_of_heedsWakeUps`).
-/

import Mathlib.Data.Fintype.Basic
import Zydon.Primitives.Channel.Delivery
import Zydon.Primitives.Channel.Parking

namespace Zydon
namespace Channel

open Lib WaitQueue

variable {SF RF Waker V : Type*}

-- ============================================================================
-- The two parties
-- ============================================================================

/-- The producer is in a send. -/
def SendPc.sending : SendPc SF RF Waker V → Bool
  | .idle _ | .dropLenSub _ => false
  | _ => true

/-- The consumer is in a receive. -/
def RecvPc.receiving : RecvPc SF RF Waker V → Bool
  | .idle _ | .dropLenSub _ => false
  | _ => true

theorem SendPc.quiet {p : SendPc SF RF Waker V} (h : p.sending = false) :
    p.waking = none ∧ ¬ p.willWake = true := by
  cases p <;> simp_all [SendPc.sending, SendPc.waking, SendPc.willWake]

theorem RecvPc.quiet {q : RecvPc SF RF Waker V} (h : q.receiving = false) :
    q.waking = none ∧ ¬ q.willWake = true := by
  cases q <;> simp_all [RecvPc.receiving, RecvPc.waking, RecvPc.willWake]

/-- One producer and the consumer. -/
abbrev Duo (SF RF Waker V : Type*) := State Unit SF RF Waker V

/-- Nobody is parked on what has come:

    * with no receive in progress, a send future that is pending and has not been
      woken waits at a full buffer;
    * with no send in progress, such a receive future waits at an empty one. -/
structure NoLostWakeUp (s : Duo SF RF Waker V) : Prop where
  send : s.owner.receiving = false → ∀ f, (s.shared.sendFutures f).status = .pending →
    (s.shared.sendFutures f).woken = false → s.shared.capacity.val ≤ s.shared.len.toNat
  recv : (s.thread ()).sending = false → ∀ f, (s.shared.recvFutures f).status = .pending →
    (s.shared.recvFutures f).woken = false → s.shared.len.toNat = 0

/-- The producer and the consumer each await one future at a time. -/
def Awaits (s : Duo SF RF Waker V) : Action Unit SF RF Waker V → Prop
  | .inl (.poll f _) => ∀ g, g ≠ f → (s.shared.recvFutures g).status ≠ .pending
  | .inr (_, .poll f _) => ∀ g, g ≠ f → (s.shared.sendFutures g).status ≠ .pending
  | _ => True

/-- The operation heeds the wake-ups of the other party. -/
def HeedsWakeUps (s : Duo SF RF Waker V) : Action Unit SF RF Waker V → Prop
  | .inl .run => RecvHeeds s.shared (s.thread ()) s.owner
  | .inr (_, .run) => SendHeeds s.shared s.owner (s.thread ())
  | _ => True

section Decide

variable [DecidableEq SF] [DecidableEq RF] {c : ChannelInner SF RF Waker V}

instance SendHeeds.decidable {q : RecvPc SF RF Waker V} : ∀ p, Decidable (SendHeeds c q p)
  | .enqueue _ => inferInstanceAs (Decidable (_ ∨ _))
  | .setWaker _ _ => inferInstanceAs (Decidable (_ ∨ _ ∨ _))
  | .idle _ | .tryLoadLen _ | .pollLoadLen _ _ | .claim _ _ | .write _ _ _ | .setOccupied _ _ _
  | .lenAdd _ _ | .wakeOne _ | .wakeLenSub _ _ _ | .wakeCall _ _ | .remove _ | .removeLenSub _
  | .enqueueLenAdd _ | .dropLenSub _ => .isTrue trivial

instance RecvHeeds.decidable {p : SendPc SF RF Waker V} : ∀ q, Decidable (RecvHeeds c p q)
  | .recheckLen _ => inferInstanceAs (Decidable (_ → _ ∨ _ ∨ _))
  | .idle _ | .tryClosed | .claim _ | .clear _ _ | .read _ _ | .lenSub _ _ | .wakeOne _ _
  | .wakeLenSub _ _ _ _ | .wakeCall _ _ _ | .remove _ _ | .removeLenSub _ _ | .pollClosed _ _
  | .enqueue _ | .enqueueLenAdd _ | .setWaker _ _ | .recheckClosed _ | .dropLenSub _ =>
      .isTrue trivial

variable {s : Duo SF RF Waker V}

instance HeedsWakeUps.decidable : ∀ a, Decidable (HeedsWakeUps s a)
  | .inl .run => RecvHeeds.decidable s.owner
  | .inr (_, .run) => SendHeeds.decidable (s.thread ())
  | .inl .tryRecv | .inl (.poll _ _) | .inl (.dropFuture _) => .isTrue trivial
  | .inr (_, .trySend _) | .inr (_, .poll _ _) | .inr (_, .dropFuture _) => .isTrue trivial

variable [Fintype SF] [Fintype RF]

instance Awaits.decidable : ∀ a, Decidable (Awaits s a)
  | .inl (.poll _ _) => inferInstanceAs (Decidable (∀ _, _ → _))
  | .inr (_, .poll _ _) => inferInstanceAs (Decidable (∀ _, _ → _))
  | .inl .tryRecv | .inl (.dropFuture _) | .inl .run => .isTrue trivial
  | .inr (_, .trySend _) | .inr (_, .dropFuture _) | .inr (_, .run) => .isTrue trivial

instance NoLostWakeUp.decidable : Decidable (NoLostWakeUp s) :=
  decidable_of_iff
    ((s.owner.receiving = false → ∀ f, (s.shared.sendFutures f).status = .pending →
        (s.shared.sendFutures f).woken = false → s.shared.capacity.val ≤ s.shared.len.toNat) ∧
      ((s.thread ()).sending = false → ∀ f, (s.shared.recvFutures f).status = .pending →
        (s.shared.recvFutures f).woken = false → s.shared.len.toNat = 0))
    ⟨fun ⟨h_send, h_recv⟩ => ⟨h_send, h_recv⟩, fun h => ⟨h.send, h.recv⟩⟩

end Decide

-- ============================================================================
-- The ring
-- ============================================================================

section Ring

variable [DecidableEq SF] [DecidableEq RF] {c c' : ChannelInner SF RF Waker V}

/-- Nobody closes the channel. -/
theorem sendStep_closed {p p' : SendPc SF RF Waker V} {a : SendAction SF Waker V}
    (h : sendStep c p a = some (c', p')) : c'.closed = c.closed := by
  cases p <;> cases a <;>
    simp only [sendStep, sendStart, sendRun, sendWoken, sendPark, sendReady, sendPending, sendDrop,
      reduceCtorEq] at h
  all_goals grind [ChannelInner.setSend, ChannelInner.setRecv]

theorem recvStep_closed {q q' : RecvPc SF RF Waker V} {a : RecvAction RF Waker}
    (h : recvStep c q a = some (c', q')) : c'.closed = c.closed := by
  cases q <;> cases a <;>
    simp only [recvStep, recvStart, recvRun, recvWoken, recvPark, recvReady, recvRemoved, recvDrop,
      reduceCtorEq] at h
  all_goals grind [ChannelInner.setSend, ChannelInner.setRecv]

/-- A producer that enters the ring has found room. -/
theorem sendStep_enters {p p' : SendPc SF RF Waker V} {a : SendAction SF Waker V}
    (h : sendStep c p a = some (c', p')) (h_out : p.phase = .outside) (h_in : p'.phase ≠ .outside) :
    c.len.toNat < c.capacity.val := by
  cases p <;> cases a <;>
    simp only [sendStep, sendStart, sendRun, sendWoken, sendPark, sendReady, sendPending, sendDrop,
      reduceCtorEq] at h
  all_goals grind [SendPc.phase]

variable {r r' : Ring V}

/-- A producer that is alone in the ring keeps the room it has found. -/
theorem SendEffect.room {ph ph' : SendPhase V} (h : SendEffect r ph r' ph')
    (h_room : ph ≠ .outside → r.len.toNat < r.capacity.val)
    (h_enters : ph = .outside → ph' ≠ .outside → r.len.toNat < r.capacity.val)
    (h_in : ph' ≠ .outside) : r'.len.toNat < r'.capacity.val := by
  cases h with
  | stay => exact h_room h_in
  | enter => exact h_enters rfl h_in
  | claim value | write pos x | setOccupied pos x => exact h_room (by simp)
  | count x => exact absurd rfl h_in

/-- The consumer only makes room. -/
theorem RecvEffect.room {ph ph' : RecvPhase} (h : RecvEffect r ph r' ph')
    (h_some : ph ≠ .outside → 0 < r.len.toNat) (h_room : r.len.toNat < r.capacity.val) :
    r'.len.toNat < r'.capacity.val := by
  cases h with
  | stay | enter | resume | claim | clear pos | read pos => exact h_room
  | release =>
      rw [Ring.lenSub_len (h_some (by simp))]
      exact Nat.lt_of_le_of_lt (Nat.sub_le _ 1) h_room

/-- The consumer in the ring keeps the value it has found. -/
theorem RecvEffect.some {ph ph' : RecvPhase} (h : RecvEffect r ph r' ph')
    (h_some : ph ≠ .outside → 0 < r.len.toNat) (h_in : ph' ≠ .outside) : 0 < r'.len.toNat := by
  cases h with
  | stay => exact h_some h_in
  | enter _ h_len => exact h_len
  | resume | claim | clear pos | read pos => exact h_some (by simp)
  | release => exact absurd rfl h_in

/-- A producer only adds values. -/
theorem SendEffect.some {ph ph' : SendPhase V} (h : SendEffect r ph r' ph')
    (h_room : ph ≠ .outside → r.len.toNat < r.capacity.val) (h_some : 0 < r.len.toNat) :
    0 < r'.len.toNat := by
  cases h with
  | stay | enter | claim value | write pos x | setOccupied pos x => exact h_some
  | count x =>
      rw [Ring.lenAdd_len (h_room (by simp))]
      exact Nat.succ_pos _

end Ring

-- ============================================================================
-- Runs
-- ============================================================================

/-- The channel is open, a producer in the ring has room, the consumer in it has a
    value, and no wake-up has been lost. -/
structure WakeInv (s : Duo SF RF Waker V) : Prop where
  not_closed : s.shared.closed = false
  room : (s.thread ()).phase ≠ .outside → s.shared.len.toNat < s.shared.capacity.val
  some : s.owner.phase ≠ .outside → 0 < s.shared.len.toNat
  senders : ∃ l, (sendStation s.shared (s.thread ()) s.owner).Inv l
  receivers : ∃ l, (recvStation s.shared (s.thread ()) s.owner).Inv l

namespace WakeInv

theorem noLostWakeUp {s : Duo SF RF Waker V} (h : WakeInv s) : NoLostWakeUp s where
  send := by
    intro h_quiet f h_pending h_woken
    obtain ⟨l, h_senders⟩ := h.senders
    obtain ⟨h_waking, h_due⟩ := RecvPc.quiet h_quiet
    exact h_senders.sound.not_lost (f := f) (.inl h_pending) (by simp [sendStation, Station.side,
      SendFuture.flags, h_woken]) h_waking h_due
  recv := by
    intro h_quiet f h_pending h_woken
    obtain ⟨l, h_receivers⟩ := h.receivers
    obtain ⟨h_waking, h_due⟩ := SendPc.quiet h_quiet
    exact h_receivers.sound.not_lost (f := f) (.inl h_pending) (by simp [recvStation, Station.side,
      RecvFuture.flags, h_woken]) h_waking h_due

variable [DecidableEq SF] [DecidableEq RF]

omit [DecidableEq SF] [DecidableEq RF] in
theorem new (capacity : Capacity) (values : SF → V) :
    WakeInv (⟨channel capacity values, .idle none, fun _ => .idle none⟩ : Duo SF RF Waker V) where
  not_closed := rfl
  room := fun h_in => absurd rfl h_in
  some := fun h_in => absurd rfl h_in
  senders := ⟨[], .init rfl (fun _ => rfl) rfl⟩
  receivers := ⟨[], .init rfl (fun _ => rfl) rfl⟩

/-- One operation of the consumer. -/
theorem recv_step {s : Duo SF RF Waker V} (h : WakeInv s) {a : RecvAction RF Waker}
    (h_await : Awaits s (.inl a)) (h_heeds : HeedsWakeUps s (.inl a))
    {c : ChannelInner SF RF Waker V} {q : RecvPc SF RF Waker V}
    (h_step : recvStep s.shared s.owner a = .some (c, q)) :
    WakeInv { s with shared := c, owner := q } where
  not_closed := (recvStep_closed h_step).trans h.not_closed
  room := fun h_in => (recvStep_effect h_step).room h.some (h.room h_in)
  some := (recvStep_effect h_step).some h.some
  senders := by
    obtain ⟨l, h_senders⟩ := h.senders
    exact h_senders.touch (recvStep_touch h_step)
  receivers := by
    obtain ⟨l, h_receivers⟩ := h.receivers
    refine recvStep_inv h_receivers h.not_closed h.some (fun f waker h_a => ?_) (fun h_a => ?_)
      h_step
    · subst h_a
      exact h_await
    · subst h_a
      exact h_heeds

/-- One operation of the producer. -/
theorem send_step {s : Duo SF RF Waker V} (h : WakeInv s) {a : SendAction SF Waker V}
    (h_await : Awaits s (.inr ((), a))) (h_heeds : HeedsWakeUps s (.inr ((), a)))
    {c : ChannelInner SF RF Waker V} {p : SendPc SF RF Waker V}
    (h_step : sendStep s.shared (s.thread ()) a = .some (c, p)) :
    WakeInv { s with shared := c, thread := Function.update s.thread () p } := by
  constructor
  case not_closed => exact (sendStep_closed h_step).trans h.not_closed
  case room =>
    simp only [Function.update_self]
    exact fun h_in => (sendStep_effect h_step).room h.room (sendStep_enters h_step) h_in
  case some => exact fun h_in => (sendStep_effect h_step).some h.room (h.some h_in)
  case senders =>
    obtain ⟨l, h_senders⟩ := h.senders
    simp only [Function.update_self]
    refine sendStep_inv h_senders h.not_closed h.room (fun f waker h_a => ?_) (fun h_a => ?_)
      h_step
    · subst h_a
      exact h_await
    · subst h_a
      exact h_heeds
  case receivers =>
    obtain ⟨l, h_receivers⟩ := h.receivers
    simp only [Function.update_self]
    exact h_receivers.touch (sendStep_touch h_step)

end WakeInv

section Runs

variable [DecidableEq SF] [DecidableEq RF]

/-- In every run in which the producer and the consumer heed each other's wake-ups,
    none is lost. -/
theorem noLostWakeUp_of_heedsWakeUps {capacity : Capacity} {values : SF → V}
    {tr : List (Action Unit SF RF Waker V)} {s : Duo SF RF Waker V}
    (h_await : (machine Unit RF Waker capacity values).StepsMeet Awaits
      (machine Unit RF Waker capacity values).init tr)
    (h_heeds : (machine Unit RF Waker capacity values).StepsMeet HeedsWakeUps
      (machine Unit RF Waker capacity values).init tr)
    (h_run : (machine Unit RF Waker capacity values).exec
      (machine Unit RF Waker capacity values).init tr = some s) : NoLostWakeUp s := by
  refine (Machine.exec_invariant (P := WakeInv) (fun s a s' hs h_ok h_step => ?_)
    (WakeInv.new capacity values) (Machine.stepsMeet_and h_await h_heeds) h_run).noLostWakeUp
  rcases a with a | ⟨⟨⟩, a⟩
  · obtain ⟨c, q, h_op, rfl⟩ := OwnerAndThreads.step_owner_eq_some h_step
    exact hs.recv_step h_ok.1 h_ok.2 h_op
  · obtain ⟨c, p, h_op, rfl⟩ := OwnerAndThreads.step_thread_eq_some h_step
    exact hs.send_step h_ok.1 h_ok.2 h_op

end Runs

/-- A channel of capacity one with two futures on each side. -/
abbrev duoMachine : Machine (Duo Bool Bool Unit Nat) (Action Unit Bool Bool Unit Nat) :=
  machine Unit Bool Unit capacityOne fun _ => 0

/-- The producer polls a send future, and takes `n` more operations. -/
def sendPolls (f : Bool) (n : Nat) : List (Action Unit Bool Bool Unit Nat) :=
  .inr ((), .poll f ()) :: List.replicate n (.inr ((), .run))

/-- The consumer polls a receive future, and takes `n` more operations. -/
def recvPolls (f : Bool) (n : Nat) : List (Action Unit Bool Bool Unit Nat) :=
  .inl (.poll f ()) :: List.replicate n (.inl .run)

/-- The consumer starts a `try_recv`, and takes `n` more operations. -/
def tryRecvs (n : Nat) : List (Action Unit Bool Bool Unit Nat) :=
  .inl .tryRecv :: List.replicate n (.inl .run)

/-- A second send parks at the full buffer, is woken by a receive and sends; then a
    receive parks at the empty buffer. -/
def heededRun : List (Action Unit Bool Bool Unit Nat) :=
  sendPolls false 6 ++ sendPolls true 3 ++ tryRecvs 7 ++ sendPolls true 7 ++ tryRecvs 5 ++
    recvPolls false 5

theorem noLostWakeUp_heededRun :
    ∃ s, duoMachine.exec duoMachine.init heededRun = some s ∧ NoLostWakeUp s := by
  have h_await : duoMachine.StepsMeet Awaits duoMachine.init heededRun := by decide +kernel
  have h_heeds : duoMachine.StepsMeet HeedsWakeUps duoMachine.init heededRun := by decide +kernel
  obtain ⟨s, h_run⟩ := Option.isSome_iff_exists.mp (show
    (duoMachine.exec duoMachine.init heededRun).isSome by decide +kernel)
  exact ⟨s, h_run, noLostWakeUp_of_heedsWakeUps h_await h_heeds h_run⟩

/-- The second send finds the buffer full.  A whole `try_recv` follows, with nobody
    to wake, and then the send queues its node and parks. -/
def missedRecvRun : List (Action Unit Bool Bool Unit Nat) :=
  sendPolls false 6 ++ sendPolls true 1 ++ tryRecvs 5 ++ List.replicate 2 (.inr ((), .run))

/-- The first send has counted its value, and is yet to wake someone.  One receive
    takes the value and the next one parks, is woken by the send, and parks again
    without queueing.  The second send wakes nobody. -/
def lateWakeRun : List (Action Unit Bool Bool Unit Nat) :=
  sendPolls false 5 ++ recvPolls false 5 ++ recvPolls true 5 ++
    List.replicate 3 (.inr ((), .run)) ++ recvPolls true 4 ++ sendPolls true 6

/-- After the first run the channel has room and the consumer has returned, after
    the second one it holds a value and the producer has returned; and a future is
    pending that nobody has woken since its last poll. -/
theorem duoRuns_lose_wakeUps :
    (duoMachine.StepsMeet Awaits duoMachine.init missedRecvRun ∧
      ∃ s, duoMachine.exec duoMachine.init missedRecvRun = some s ∧
        s.shared.len.toNat < s.shared.capacity.val ∧ s.owner.receiving = false ∧
        (s.shared.sendFutures true).status = .pending ∧
        (s.shared.sendFutures true).woken = false ∧ ¬ NoLostWakeUp s) ∧
    duoMachine.StepsMeet Awaits duoMachine.init lateWakeRun ∧
      ∃ s, duoMachine.exec duoMachine.init lateWakeRun = some s ∧
        0 < s.shared.len.toNat ∧ (s.thread ()).sending = false ∧
        (s.shared.recvFutures true).status = .pending ∧
        (s.shared.recvFutures true).woken = false ∧ ¬ NoLostWakeUp s := by
  refine ⟨⟨by decide +kernel, ?_⟩, by decide +kernel, ?_⟩
  · exact Machine.exec_of_decide (by decide +kernel)
  · exact Machine.exec_of_decide (by decide +kernel)

end Channel
end Zydon
