/-
  Zydon.Primitives.Channel.Progress

  Neither the consumer nor a producer ever gets stuck inside a call.

  As in the async mutex, `enqueue` is the one operation of the model that could
  refuse to go on; the channel gives no node a priority, so it does not
  (`send_enabled`, `recv_enabled`).
-/

import Zydon.Primitives.Channel.Basic
import Zydon.Primitives.WaitQueue.Rep

namespace Zydon
namespace Channel

open Lib WaitQueue

variable {Producer SF RF Waker V : Type*} [DecidableEq SF] [DecidableEq RF]

/-- No node of either queue has been given a priority. -/
structure PlainQueues (c : ChannelInner SF RF Waker V) : Prop where
  send : NoPriorities c.sendWaiters
  recv : NoPriorities c.recvWaiters

namespace PlainQueues

variable {c c' : ChannelInner SF RF Waker V}

/-! ## Producers -/

omit [DecidableEq RF] in
theorem sendWoken {p' : SendPc SF RF Waker V} {call : SendCall SF} (hc : PlainQueues c)
    (h : Channel.sendWoken c call = (c', p')) : PlainQueues c' := by
  cases call with
  | trySend =>
      cases h
      exact hc
  | poll f =>
      simp only [Channel.sendWoken] at h
      split at h <;> cases h
      · exact hc
      · exact ⟨hc.send, hc.recv⟩

omit [DecidableEq RF] in
theorem sendPark {p' : SendPc SF RF Waker V} {f : SF} {waker : Waker} (hc : PlainQueues c)
    (h : Channel.sendPark c f waker = (c', p')) : PlainQueues c' := by
  simp only [Channel.sendPark] at h
  split at h <;> cases h
  · exact hc
  · exact ⟨hc.send.setWaker f waker, hc.recv⟩

omit [DecidableEq RF] in
theorem sendDrop {p' : SendPc SF RF Waker V} {f : SF} (hc : PlainQueues c)
    (h : Channel.sendDrop c f = (c', p')) : PlainQueues c' := by
  simp only [Channel.sendDrop] at h
  split at h <;> cases h
  · exact ⟨hc.send.removeSection f, hc.recv⟩
  · exact ⟨hc.send, hc.recv⟩

omit [DecidableEq RF] in
theorem sendStart {a : SendAction SF Waker V} {p' : SendPc SF RF Waker V} (hc : PlainQueues c)
    (h : Channel.sendStart c a = some (c', p')) : PlainQueues c' := by
  cases a with
  | trySend value =>
      simp only [Channel.sendStart] at h
      split at h <;> cases h <;> exact hc
  | poll f waker =>
      simp only [Channel.sendStart] at h
      split at h
      · split at h
        · split at h <;> cases h
          exact ⟨hc.send, hc.recv⟩
        · cases h
          exact ⟨hc.send, hc.recv⟩
      · exact absurd h (by simp)
  | dropFuture f =>
      simp only [Channel.sendStart] at h
      split at h
      · exact hc.sendDrop (Option.some.inj h)
      · exact hc.sendDrop (Option.some.inj h)
      · exact hc.sendDrop (Option.some.inj h)
      · exact absurd h (by simp)
      · exact absurd h (by simp)
  | run => exact absurd h (by simp [Channel.sendStart])

theorem sendRun {p p' : SendPc SF RF Waker V} (hc : PlainQueues c)
    (h : Channel.sendRun c p = some (c', p')) : PlainQueues c' := by
  cases p with
  | idle result => exact absurd h (by simp [Channel.sendRun])
  | tryLoadLen value =>
      simp only [Channel.sendRun] at h
      split at h <;> cases h <;> exact hc
  | pollLoadLen f waker =>
      simp only [Channel.sendRun] at h
      split at h
      · split at h
        · cases h
          exact ⟨hc.send, hc.recv⟩
        · exact hc.sendPark (Option.some.inj h)
      · exact hc.sendPark (Option.some.inj h)
  | claim call value | write call pos x | setOccupied call pos x | lenAdd call x
  | enqueueLenAdd f | removeLenSub f | dropLenSub f =>
      cases h
      exact ⟨hc.send, hc.recv⟩
  | wakeOne call =>
      have h_wake := hc.recv.wakeOneSection
      simp only [Channel.sendRun] at h
      split at h
      · next h_section =>
          rw [h_section] at h_wake
          refine sendWoken ?_ (Option.some.inj h)
          exact ⟨hc.send, h_wake⟩
      · next h_section =>
          rw [h_section] at h_wake
          cases h
          exact ⟨hc.send, h_wake⟩
  | wakeLenSub call g hasWaker =>
      simp only [Channel.sendRun, Option.some.injEq] at h
      split at h
      · cases h
        exact ⟨hc.send, hc.recv⟩
      · refine sendWoken ?_ h
        exact ⟨hc.send, hc.recv⟩
  | wakeCall call g =>
      simp only [Channel.sendRun, Option.some.injEq] at h
      refine sendWoken ?_ h
      exact ⟨hc.send, hc.recv⟩
  | remove f =>
      simp only [Channel.sendRun] at h
      split at h <;> cases h <;> exact ⟨hc.send.removeSection f, hc.recv⟩
  | enqueue f =>
      simp only [Channel.sendRun, (hc.send.enqueueSection 0 f).1] at h
      cases h
      exact ⟨(hc.send.enqueueSection 0 f).2, hc.recv⟩
  | setWaker f waker =>
      cases h
      exact ⟨hc.send.setWaker f waker, hc.recv⟩

theorem sendStep {p p' : SendPc SF RF Waker V} {a : SendAction SF Waker V} (hc : PlainQueues c)
    (h : Channel.sendStep c p a = some (c', p')) : PlainQueues c' := by
  cases p <;> cases a <;> simp only [Channel.sendStep] at h
  all_goals first
    | exact hc.sendStart h
    | exact hc.sendRun h
    | cases h

/-! ## The consumer -/

omit [DecidableEq SF] in
theorem recvWoken {p' : RecvPc SF RF Waker V} {value : Option (Elem V)} {call : RecvCall RF}
    (hc : PlainQueues c) (h : Channel.recvWoken c value call = (c', p')) : PlainQueues c' := by
  cases call with
  | tryRecv =>
      cases h
      exact hc
  | poll f =>
      simp only [Channel.recvWoken] at h
      split at h <;> cases h
      · exact hc
      · exact ⟨hc.send, hc.recv⟩

omit [DecidableEq SF] in
theorem recvRemoved {p' : RecvPc SF RF Waker V} {f : RF} {after : AfterRemove V}
    (hc : PlainQueues c) (h : Channel.recvRemoved c f after = (c', p')) : PlainQueues c' := by
  cases after <;> cases h <;> exact ⟨hc.send, hc.recv⟩

omit [DecidableEq SF] in
theorem recvPark {p' : RecvPc SF RF Waker V} {f : RF} {waker : Waker} (hc : PlainQueues c)
    (h : Channel.recvPark c f waker = (c', p')) : PlainQueues c' := by
  simp only [Channel.recvPark] at h
  split at h <;> cases h
  · exact hc
  · exact ⟨hc.send, hc.recv.setWaker f waker⟩

omit [DecidableEq SF] in
theorem recvDrop {p' : RecvPc SF RF Waker V} {f : RF} (hc : PlainQueues c)
    (h : Channel.recvDrop c f = (c', p')) : PlainQueues c' := by
  simp only [Channel.recvDrop] at h
  split at h <;> cases h
  · exact ⟨hc.send, hc.recv.removeSection f⟩
  · exact ⟨hc.send, hc.recv⟩

omit [DecidableEq SF] in
theorem recvStart {a : RecvAction RF Waker} {p' : RecvPc SF RF Waker V} (hc : PlainQueues c)
    (h : Channel.recvStart c a = some (c', p')) : PlainQueues c' := by
  cases a with
  | tryRecv =>
      cases h
      exact hc
  | poll f waker =>
      simp only [Channel.recvStart] at h
      split at h <;> cases h
      exact ⟨hc.send, hc.recv⟩
  | dropFuture f =>
      simp only [Channel.recvStart] at h
      split at h
      · exact hc.recvDrop (Option.some.inj h)
      · exact hc.recvDrop (Option.some.inj h)
      · exact hc.recvDrop (Option.some.inj h)
      · exact absurd h (by simp)
      · exact absurd h (by simp)
  | run => exact absurd h (by simp [Channel.recvStart])

theorem recvRun {p p' : RecvPc SF RF Waker V} (hc : PlainQueues c)
    (h : Channel.recvRun c p = some (c', p')) : PlainQueues c' := by
  cases p with
  | idle result => exact absurd h (by simp [Channel.recvRun])
  | tryClosed | claim call | clear call pos | read call pos | lenSub call value
  | enqueueLenAdd f | recheckLen f | dropLenSub f =>
      cases h
      exact ⟨hc.send, hc.recv⟩
  | wakeOne call value =>
      have h_wake := hc.send.wakeOneSection
      simp only [Channel.recvRun] at h
      split at h
      · next h_section =>
          rw [h_section] at h_wake
          refine recvWoken ?_ (Option.some.inj h)
          exact ⟨h_wake, hc.recv⟩
      · next h_section =>
          rw [h_section] at h_wake
          cases h
          exact ⟨h_wake, hc.recv⟩
  | wakeLenSub call value g hasWaker =>
      simp only [Channel.recvRun, Option.some.injEq] at h
      split at h
      · cases h
        exact ⟨hc.send, hc.recv⟩
      · refine recvWoken ?_ h
        exact ⟨hc.send, hc.recv⟩
  | wakeCall call value g =>
      simp only [Channel.recvRun, Option.some.injEq] at h
      refine recvWoken ?_ h
      exact ⟨hc.send, hc.recv⟩
  | remove f after =>
      simp only [Channel.recvRun] at h
      split at h
      · cases h
        exact ⟨hc.send, hc.recv.removeSection f⟩
      · refine recvRemoved ?_ (Option.some.inj h)
        exact ⟨hc.send, hc.recv.removeSection f⟩
  | removeLenSub f after =>
      simp only [Channel.recvRun, Option.some.injEq] at h
      refine recvRemoved ?_ h
      exact ⟨hc.send, hc.recv⟩
  | pollClosed f waker =>
      simp only [Channel.recvRun] at h
      split at h
      · simp only [Option.some.injEq] at h
        split at h <;> cases h
        · exact hc
        · exact ⟨hc.send, hc.recv⟩
      · exact hc.recvPark (Option.some.inj h)
  | enqueue f =>
      simp only [Channel.recvRun, (hc.recv.enqueueSection 0 f).1] at h
      cases h
      exact ⟨hc.send, (hc.recv.enqueueSection 0 f).2⟩
  | setWaker f waker =>
      cases h
      exact ⟨hc.send, hc.recv.setWaker f waker⟩
  | recheckClosed f =>
      simp only [Channel.recvRun] at h
      split at h <;> cases h
      · exact hc
      · exact ⟨hc.send, hc.recv⟩

theorem recvStep {p p' : RecvPc SF RF Waker V} {a : RecvAction RF Waker} (hc : PlainQueues c)
    (h : Channel.recvStep c p a = some (c', p')) : PlainQueues c' := by
  cases p <;> cases a <;> simp only [Channel.recvStep] at h
  all_goals first
    | exact hc.recvStart h
    | exact hc.recvRun h
    | cases h

end PlainQueues
-- ============================================================================
-- Runs
-- ============================================================================

variable [DecidableEq Producer] {capacity : Capacity} {values : SF → V}
  {s : State Producer SF RF Waker V}

theorem plainQueues_of_reachable (h : (machine Producer RF Waker capacity values).Reachable s) :
    PlainQueues s.shared := by
  apply h.invariant (P := fun s => PlainQueues s.shared)
  · exact ⟨NoPriorities.new, NoPriorities.new⟩
  · intro s a s' hs h_step
    rcases a with a | ⟨p, a⟩
    · obtain ⟨c, q, h_recv, rfl⟩ := OwnerAndThreads.step_owner_eq_some h_step
      exact hs.recvStep h_recv
    · obtain ⟨c, q, h_send, rfl⟩ := OwnerAndThreads.step_thread_eq_some h_step
      exact hs.sendStep h_send

/-- In every reachable state, a producer that is inside a call can go on. -/
theorem send_enabled (h : (machine Producer RF Waker capacity values).Reachable s) {p : Producer}
    (h_pc : ∀ result, s.thread p ≠ .idle result) :
    ∃ s', (machine Producer RF Waker capacity values).step s (.inr (p, .run)) = some s' := by
  have h_queue := (plainQueues_of_reachable h).send
  obtain ⟨⟨c, q⟩, h_run⟩ : ∃ o, sendStep s.shared (s.thread p) .run = some o := by
    cases h_p : s.thread p with
    | idle result => exact absurd h_p (h_pc result)
    | enqueue f =>
        simp only [sendStep, sendRun, (h_queue.enqueueSection 0 f).1]
        exact ⟨_, rfl⟩
    | tryLoadLen value | remove f | wakeOne call =>
        simp only [sendStep, sendRun]
        split <;> exact ⟨_, rfl⟩
    | pollLoadLen f waker =>
        simp only [sendStep, sendRun]
        split
        · split <;> exact ⟨_, rfl⟩
        · exact ⟨_, rfl⟩
    | _ => exact ⟨_, rfl⟩
  exact ⟨{ s with shared := c, thread := Function.update s.thread p q }, by
    simp only [machine, ownerAndThreads, sender, h_run]⟩

/-- In every reachable state, the consumer can go on when it is inside a call. -/
theorem recv_enabled (h : (machine Producer RF Waker capacity values).Reachable s)
    (h_pc : ∀ result, s.owner ≠ .idle result) :
    ∃ s', (machine Producer RF Waker capacity values).step s (.inl .run) = some s' := by
  have h_queue := (plainQueues_of_reachable h).recv
  obtain ⟨⟨c, q⟩, h_run⟩ : ∃ o, recvStep s.shared s.owner .run = some o := by
    cases h_p : s.owner with
    | idle result => exact absurd h_p (h_pc result)
    | enqueue f =>
        simp only [recvStep, recvRun, (h_queue.enqueueSection 0 f).1]
        exact ⟨_, rfl⟩
    | remove f after | wakeOne call value | pollClosed f waker | recheckClosed f =>
        simp only [recvStep, recvRun]
        split <;> exact ⟨_, rfl⟩
    | _ => exact ⟨_, rfl⟩
  exact ⟨{ s with shared := c, owner := q }, by
    simp only [machine, ownerAndThreads, receiver, h_run]⟩

end Channel
end Zydon
