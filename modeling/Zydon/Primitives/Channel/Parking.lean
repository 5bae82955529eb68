/-
  Zydon.Primitives.Channel.Parking

  How the futures of one producer and of the consumer park, one operation at a
  time.

  A future checks the buffer and then parks, in several operations.  An
  operation that heeds the wake-ups of the other party (`SendHeeds`,
  `RecvHeeds`) keeps the line of its side (`sendStep_inv`, `recvStep_inv`).
-/

import Zydon.Primitives.Channel.Waking

namespace Zydon
namespace Channel

open Lib WaitQueue

variable {SF RF Waker V : Type*}

-- ============================================================================
-- The producer
-- ============================================================================

/-- The operation of the producer heeds the wake-ups of the consumer:

    * a node is queued only while the buffer is full, or the consumer is still to
      wake someone for what it takes;
    * a future that is registered parks again only if its node is still queued, or
      its waker has been invoked since the start of its poll or is about to be. -/
def SendHeeds (c : ChannelInner SF RF Waker V) (q : RecvPc SF RF Waker V) :
    SendPc SF RF Waker V → Prop
  | .enqueue _ => c.capacity.val ≤ c.len.toNat ∨ q.willWake = true
  | .setWaker f _ => (c.sendWaiters.nodes f).linked = true ∨ (c.sendFutures f).woken = true ∨
      q.waking = some f
  | _ => True

section Send

variable [DecidableEq SF] [DecidableEq RF] {c c' : ChannelInner SF RF Waker V}
  {p p' : SendPc SF RF Waker V} {q : RecvPc SF RF Waker V} {l : List SF} {f : SF}

omit [DecidableEq RF] in
/-- The polled future `f`, which is not queued any more, is ready. -/
theorem sendReady_inv (h : (sendStation c p q).Inv l)
    (h_place : p.place = .polling f ∨ p.place = .leaving f) (h_out : f ∉ l) :
    (sendStation (sendReady c f).1 (sendReady c f).2 q).Inv l :=
  h.ready h_place h_out rfl (Function.comp_update SendFuture.flags c.sendFutures f _) rfl rfl
    ⟨rfl, Iff.rfl, id⟩

omit [DecidableEq RF] in
/-- `SendFuture::poll` returns `Pending`: the future is queued, or its wake-up is on
    its way. -/
theorem sendPending_inv (h : (sendStation c p q).Inv l) (h_f : p.place.polled = some f)
    {w : WaitQueue SF Waker} (h_parked : Parked w l)
    (h_covered : f ∈ l ∨ (c.sendFutures f).woken = true ∨ q.waking = some f) :
    (sendStation (sendPending { c with sendWaiters := w } f).1
      (sendPending { c with sendWaiters := w } f).2 q).Inv l := by
  refine h.rest h_f rfl (Function.comp_update SendFuture.flags c.sendFutures f _) rfl rfl
    (fun _ => rfl) h_parked rfl h_covered fun h_mem => ?_
  exact h.sound.justified f (.inr (.inr ⟨trivial, .inr h_mem⟩)) h_mem

omit [DecidableEq RF] in
/-- What follows `recv_waiters.wake_one`. -/
theorem sendWoken_inv (h : (sendStation c p q).Inv l) {call : SendCall SF}
    (h_place : p.place = call.place) (h_eq : sendWoken c call = (c', p')) :
    (sendStation c' p' q).Inv l := by
  cases call with
  | trySend =>
      cases h_eq
      exact h.go h_place.symm rfl rfl ⟨rfl, Iff.rfl, id⟩
  | poll f =>
      simp only [sendWoken] at h_eq
      split at h_eq
      · cases h_eq
        exact h.go h_place.symm rfl rfl ⟨rfl, Iff.rfl, id⟩
      · next h_f =>
          cases h_eq
          exact sendReady_inv h (.inl h_place) (h.not_mem h_place (Bool.eq_false_iff.mpr h_f))

omit [DecidableEq RF] in
/-- `SendFuture::poll` has found the buffer full. -/
theorem sendPark_inv (h : (sendStation c p q).Inv l) {waker : Waker}
    (h_place : p.place = .polling f) (h_eq : sendPark c f waker = (c', p')) :
    (sendStation c' p' q).Inv l := by
  simp only [sendPark] at h_eq
  split at h_eq
  · cases h_eq
    exact h.go h_place.symm rfl rfl ⟨rfl, Iff.rfl, id⟩
  · next h_f =>
      cases h_eq
      refine h.prepare h_place rfl rfl (h.parked.setWaker f waker)
        (h.not_mem h_place (Bool.eq_false_iff.mpr h_f)) ?_ ⟨rfl, Iff.rfl, id⟩
      simp only [sendStation, WaitQueue.setWaker, modify_nodes, if_true]
      rfl

omit [DecidableEq RF] in
/-- The start of a call of the producer, which awaits one send future at a time. -/
theorem sendStart_inv {result : Option (SendOutcome V)}
    (h : (sendStation c (.idle result) q).Inv l) (h_open : c.closed = false)
    {a : SendAction SF Waker V}
    (h_await : ∀ f waker, a = .poll f waker → ∀ g, g ≠ f → (c.sendFutures g).status ≠ .pending)
    (h_start : sendStart c a = some (c', p')) : ∃ l', (sendStation c' p' q).Inv l' := by
  cases a with
  | trySend value =>
      simp only [sendStart, h_open, Bool.false_eq_true, if_false] at h_start
      cases h_start
      exact ⟨l, h.go rfl rfl rfl ⟨rfl, Iff.rfl, id⟩⟩
  | poll f waker =>
      simp only [sendStart, h_open, Bool.false_eq_true, if_false] at h_start
      split at h_start
      · cases h_start
        exact ⟨l, h.start rfl rfl (Function.comp_update SendFuture.flags c.sendFutures f _)
          (h_await f waker rfl) h.parked ⟨rfl, Iff.rfl, id⟩⟩
      · exact absurd h_start (by simp)
  | dropFuture f =>
      have h_drop : sendDrop c f = (c', p') → (sendStation c' p' q).Inv (l.erase f) := by
        intro h_eq
        have h_futures := Function.comp_update SendFuture.flags c.sendFutures f
          { c.sendFutures f with status := .dropped }
        simp only [sendDrop] at h_eq
        split at h_eq
        · next h_registered =>
            cases h_eq
            refine h.drop rfl ?_ h_futures (if_pos h_registered).symm ⟨rfl, Iff.rfl, id⟩
            simp only [sendStation]
            split <;> rfl
        · next h_registered =>
            cases h_eq
            exact h.drop rfl rfl h_futures (if_neg h_registered).symm ⟨rfl, Iff.rfl, id⟩
      simp only [sendStart] at h_start
      split at h_start
      case h_1 | h_2 | h_3 => exact ⟨_, h_drop (Option.some.inj h_start)⟩
      case h_4 | h_5 => exact absurd h_start (by simp)
  | run => exact absurd h_start (by simp [sendStart])

/-- One operation inside a call of the producer. -/
theorem sendRun_inv (h : (sendStation c p q).Inv l)
    (h_room : p.phase ≠ .outside → c.len.toNat < c.capacity.val) (h_heeds : SendHeeds c q p)
    (h_run : sendRun c p = some (c', p')) : ∃ l', (sendStation c' p' q).Inv l' := by
  cases p with
  | idle result => exact absurd h_run (by simp [sendRun])
  | tryLoadLen value =>
      simp only [sendRun] at h_run
      split at h_run <;> cases h_run <;> exact ⟨l, h.go rfl rfl rfl ⟨rfl, Iff.rfl, id⟩⟩
  | pollLoadLen f waker =>
      simp only [sendRun] at h_run
      split at h_run
      · split at h_run
        · cases h_run
          refine ⟨l, h.go rfl ?_ rfl ⟨rfl, Iff.rfl, id⟩⟩
          exact (Function.comp_update SendFuture.flags c.sendFutures f _).trans
            (Function.update_eq_self f _)
        · exact ⟨l, sendPark_inv h rfl (Option.some.inj h_run)⟩
      · exact ⟨l, sendPark_inv h rfl (Option.some.inj h_run)⟩
  | claim call value | write call pos x | setOccupied call pos x =>
      cases h_run
      exact ⟨l, h.go rfl rfl rfl ⟨rfl, Iff.rfl, id⟩⟩
  | lenAdd call x =>
      cases h_run
      refine ⟨l, h.go rfl rfl rfl ⟨rfl, Iff.rfl, Or.imp_left fun h_full => ?_⟩⟩
      exact absurd (h_room (by simp [SendPc.phase])) (Nat.not_lt.mpr h_full)
  | wakeOne call =>
      simp only [sendRun] at h_run
      split at h_run
      · next waiters h_section =>
          have h_c : (sendStation { c with recvWaiters := waiters } (.wakeOne call) q).Inv l := h
          exact ⟨l, sendWoken_inv h_c rfl (Option.some.inj h_run)⟩
      · cases h_run
        exact ⟨l, h.go rfl rfl rfl ⟨rfl, Iff.rfl, id⟩⟩
  | wakeLenSub call g hasWaker =>
      simp only [sendRun, Option.some.injEq] at h_run
      split at h_run
      · cases h_run
        exact ⟨l, h.go rfl rfl rfl ⟨rfl, Iff.rfl, id⟩⟩
      · have h_c : (sendStation { c with recvWaiters := c.recvWaiters.lenSub }
            (.wakeLenSub call g hasWaker) q).Inv l := h
        exact ⟨l, sendWoken_inv h_c rfl h_run⟩
  | wakeCall call g =>
      simp only [sendRun, Option.some.injEq] at h_run
      have h_c : (sendStation (c.setRecv g fun x => { x with woken := true })
          (.wakeCall call g) q).Inv l := h
      exact ⟨l, sendWoken_inv h_c rfl h_run⟩
  | remove f =>
      simp only [sendRun] at h_run
      by_cases h_mem : f ∈ l
      · obtain ⟨w, h_remove, h_w⟩ := h.parked.remove_of_mem h_mem
        have h_section : c.sendWaiters.removeSection f = (true, w) := h_remove
        simp only [h_section, if_true] at h_run
        cases h_run
        exact ⟨l.erase f, h.unlink rfl rfl rfl h_w ⟨rfl, Iff.rfl, id⟩⟩
      · have h_section : c.sendWaiters.removeSection f = (false, c.sendWaiters) :=
          h.parked.remove_of_not_mem h_mem
        simp only [h_section, Bool.false_eq_true, if_false] at h_run
        cases h_run
        exact ⟨l, sendReady_inv h (.inl rfl) h_mem⟩
  | removeLenSub f =>
      cases h_run
      have h_c : (sendStation { c with sendWaiters := c.sendWaiters.lenSub }
          (.removeLenSub f) q).Inv l :=
        h.frame rfl rfl h.parked.lenSub (fun _ _ => id) ⟨rfl, Iff.rfl, id⟩
      exact ⟨l, sendReady_inv h_c (.inr rfl) (h.leaving f rfl)⟩
  | enqueue f =>
      obtain ⟨h_out, h_waker⟩ := h.entering f rfl
      obtain ⟨w, h_enqueue, h_w⟩ := h.parked.enqueue h_out h_waker 0
      have h_section : c.sendWaiters.enqueueSection 0 f = some w := h_enqueue
      simp only [sendRun, h_section] at h_run
      cases h_run
      exact ⟨l ++ [f], h.enqueue rfl rfl rfl h_w fun _ => h_heeds⟩
  | enqueueLenAdd f =>
      cases h_run
      refine ⟨l, sendPending_inv h rfl h.parked.lenAdd ?_⟩
      exact h.sound.covered f (.inr (.inr ⟨trivial, .inl rfl⟩))
  | setWaker f waker =>
      cases h_run
      refine ⟨l, sendPending_inv h rfl (h.parked.setWaker f waker) ?_⟩
      exact h_heeds.imp_left (h.parked.linked_iff f).mp
  | dropLenSub f =>
      cases h_run
      exact ⟨l, h.frame rfl rfl h.parked.lenSub (fun _ _ => id) ⟨rfl, Iff.rfl, id⟩⟩

/-- One operation of the producer keeps the line of the senders. -/
theorem sendStep_inv (h : (sendStation c p q).Inv l) (h_open : c.closed = false)
    (h_room : p.phase ≠ .outside → c.len.toNat < c.capacity.val) {a : SendAction SF Waker V}
    (h_await : ∀ f waker, a = .poll f waker → ∀ g, g ≠ f → (c.sendFutures g).status ≠ .pending)
    (h_heeds : a = .run → SendHeeds c q p) (h_step : sendStep c p a = some (c', p')) :
    ∃ l', (sendStation c' p' q).Inv l' := by
  cases p <;> cases a <;> simp only [sendStep] at h_step
  all_goals first
    | exact sendStart_inv h h_open h_await h_step
    | exact sendRun_inv h h_room (h_heeds rfl) h_step
    | exact absurd h_step (by simp)

end Send

-- ============================================================================
-- The consumer
-- ============================================================================

/-- The operation of the consumer heeds the wake-ups of the producer: a future that
    finds the buffer empty again parks only if its node is still queued, or its
    waker has been invoked since the start of its poll or is about to be. -/
def RecvHeeds (c : ChannelInner SF RF Waker V) (p : SendPc SF RF Waker V) :
    RecvPc SF RF Waker V → Prop
  | .recheckLen f => c.len.toNat = 0 → (c.recvWaiters.nodes f).linked = true ∨
      (c.recvFutures f).woken = true ∨ p.waking = some f
  | _ => True

section Recv

variable [DecidableEq SF] [DecidableEq RF] {c c' : ChannelInner SF RF Waker V}
  {p : SendPc SF RF Waker V} {q q' : RecvPc SF RF Waker V} {l : List RF} {f : RF}

omit [DecidableEq SF] in
/-- The polled future `f`, which is not queued any more, is ready. -/
theorem recvReady_inv (h : (recvStation c p q).Inv l)
    (h_place : q.place = .polling f ∨ q.place = .leaving f) (h_out : f ∉ l)
    (result : Except RecvError (Option (Elem V))) :
    (recvStation (recvReady c f result).1 p (recvReady c f result).2).Inv l :=
  h.ready h_place h_out rfl (Function.comp_update RecvFuture.flags c.recvFutures f _) rfl rfl
    ⟨rfl, Iff.rfl, id⟩

omit [DecidableEq SF] in
/-- What follows `send_waiters.wake_one`. -/
theorem recvWoken_inv (h : (recvStation c p q).Inv l) {value : Option (Elem V)} {call : RecvCall RF}
    (h_place : q.place = call.place) (h_eq : recvWoken c value call = (c', q')) :
    (recvStation c' p q').Inv l := by
  cases call with
  | tryRecv =>
      cases h_eq
      exact h.go h_place.symm rfl rfl ⟨rfl, Iff.rfl, id⟩
  | poll f =>
      simp only [recvWoken] at h_eq
      split at h_eq
      · cases h_eq
        exact h.go h_place.symm rfl rfl ⟨rfl, Iff.rfl, id⟩
      · next h_f =>
          cases h_eq
          exact recvReady_inv h (.inl h_place) (h.not_mem h_place (Bool.eq_false_iff.mpr h_f)) _

omit [DecidableEq SF] in
/-- What follows `remove`. -/
theorem recvRemoved_inv (h : (recvStation c p q).Inv l)
    (h_place : q.place = .polling f ∨ q.place = .leaving f) (h_out : f ∉ l) {after : AfterRemove V}
    (h_eq : recvRemoved c f after = (c', q')) : (recvStation c' p q').Inv l := by
  cases after with
  | ready value | closed =>
      cases h_eq
      exact recvReady_inv h h_place h_out _
  | dequeue =>
      cases h_eq
      have h_polled : q.place.polled = some f := by
        rcases h_place with h_place | h_place
        · rw [h_place, Place.polled]
        · rw [h_place, Place.polled]
      exact h.mark h_polled rfl (Function.comp_update RecvFuture.flags c.recvFutures f _)
        (fun h_mem => absurd h_mem h_out) h.parked ⟨rfl, Iff.rfl, id⟩

omit [DecidableEq SF] in
/-- `RecvFuture::poll` has found the buffer empty. -/
theorem recvPark_inv (h : (recvStation c p q).Inv l) {waker : Waker}
    (h_place : q.place = .polling f) (h_eq : recvPark c f waker = (c', q')) :
    (recvStation c' p q').Inv l := by
  simp only [recvPark] at h_eq
  split at h_eq
  · cases h_eq
    exact h.go h_place.symm rfl rfl ⟨rfl, Iff.rfl, id⟩
  · next h_f =>
      cases h_eq
      refine h.prepare h_place rfl rfl (h.parked.setWaker f waker)
        (h.not_mem h_place (Bool.eq_false_iff.mpr h_f)) ?_ ⟨rfl, Iff.rfl, id⟩
      simp only [recvStation, WaitQueue.setWaker, modify_nodes, if_true]
      rfl

omit [DecidableEq SF] in
/-- The start of a call of the consumer, which awaits one receive future at a time. -/
theorem recvStart_inv {result : Option (RecvOutcome V)}
    (h : (recvStation c p (.idle result)).Inv l) {a : RecvAction RF Waker}
    (h_await : ∀ f waker, a = .poll f waker → ∀ g, g ≠ f → (c.recvFutures g).status ≠ .pending)
    (h_start : recvStart c a = some (c', q')) : ∃ l', (recvStation c' p q').Inv l' := by
  cases a with
  | tryRecv =>
      cases h_start
      refine ⟨l, h.go ?_ rfl rfl ⟨rfl, Iff.rfl, id⟩⟩
      simp only [recvStation]
      split <;> rfl
  | poll f waker =>
      simp only [recvStart] at h_start
      split at h_start
      · cases h_start
        refine ⟨l, h.start rfl ?_ (Function.comp_update RecvFuture.flags c.recvFutures f _)
          (h_await f waker rfl) h.parked ⟨rfl, Iff.rfl, id⟩⟩
        simp only [recvStation]
        split <;> rfl
      · exact absurd h_start (by simp)
  | dropFuture f =>
      have h_drop : recvDrop c f = (c', q') → (recvStation c' p q').Inv (l.erase f) := by
        intro h_eq
        have h_futures := Function.comp_update RecvFuture.flags c.recvFutures f
          { c.recvFutures f with status := .dropped }
        simp only [recvDrop] at h_eq
        split at h_eq
        · next h_registered =>
            cases h_eq
            refine h.drop rfl ?_ h_futures (if_pos h_registered).symm ⟨rfl, Iff.rfl, id⟩
            simp only [recvStation]
            split <;> rfl
        · next h_registered =>
            cases h_eq
            exact h.drop rfl rfl h_futures (if_neg h_registered).symm ⟨rfl, Iff.rfl, id⟩
      simp only [recvStart] at h_start
      split at h_start
      case h_1 | h_2 | h_3 => exact ⟨_, h_drop (Option.some.inj h_start)⟩
      case h_4 | h_5 => exact absurd h_start (by simp)
  | run => exact absurd h_start (by simp [recvStart])

/-- One operation inside a call of the consumer. -/
theorem recvRun_inv (h : (recvStation c p q).Inv l) (h_open : c.closed = false)
    (h_some : q.phase ≠ .outside → 0 < c.len.toNat) (h_heeds : RecvHeeds c p q)
    (h_run : recvRun c q = some (c', q')) : ∃ l', (recvStation c' p q').Inv l' := by
  cases q with
  | idle result => exact absurd h_run (by simp [recvRun])
  | tryClosed | claim call | clear call pos | read call pos =>
      cases h_run
      exact ⟨l, h.go rfl rfl rfl ⟨rfl, Iff.rfl, id⟩⟩
  | lenSub call value =>
      cases h_run
      refine ⟨l, h.go rfl rfl rfl ⟨rfl, Iff.rfl, Or.imp_left fun h_empty => ?_⟩⟩
      exact absurd h_empty (Nat.ne_of_gt (h_some (by simp [RecvPc.phase])))
  | wakeOne call value =>
      simp only [recvRun] at h_run
      split at h_run
      · next waiters h_section =>
          have h_c : (recvStation { c with sendWaiters := waiters } p
              (.wakeOne call value)).Inv l := h
          exact ⟨l, recvWoken_inv h_c rfl (Option.some.inj h_run)⟩
      · cases h_run
        exact ⟨l, h.go rfl rfl rfl ⟨rfl, Iff.rfl, id⟩⟩
  | wakeLenSub call value g hasWaker =>
      simp only [recvRun, Option.some.injEq] at h_run
      split at h_run
      · cases h_run
        exact ⟨l, h.go rfl rfl rfl ⟨rfl, Iff.rfl, id⟩⟩
      · have h_c : (recvStation { c with sendWaiters := c.sendWaiters.lenSub } p
            (.wakeLenSub call value g hasWaker)).Inv l := h
        exact ⟨l, recvWoken_inv h_c rfl h_run⟩
  | wakeCall call value g =>
      simp only [recvRun, Option.some.injEq] at h_run
      have h_c : (recvStation (c.setSend g fun x => { x with woken := true }) p
          (.wakeCall call value g)).Inv l := h
      exact ⟨l, recvWoken_inv h_c rfl h_run⟩
  | remove f after =>
      simp only [recvRun] at h_run
      by_cases h_mem : f ∈ l
      · obtain ⟨w, h_remove, h_w⟩ := h.parked.remove_of_mem h_mem
        have h_section : c.recvWaiters.removeSection f = (true, w) := h_remove
        simp only [h_section, if_true] at h_run
        cases h_run
        exact ⟨l.erase f, h.unlink rfl rfl rfl h_w ⟨rfl, Iff.rfl, id⟩⟩
      · have h_section : c.recvWaiters.removeSection f = (false, c.recvWaiters) :=
          h.parked.remove_of_not_mem h_mem
        simp only [h_section, Bool.false_eq_true, if_false] at h_run
        exact ⟨l, recvRemoved_inv h (.inl rfl) h_mem (Option.some.inj h_run)⟩
  | removeLenSub f after =>
      simp only [recvRun, Option.some.injEq] at h_run
      have h_c : (recvStation { c with recvWaiters := c.recvWaiters.lenSub } p
          (.removeLenSub f after)).Inv l :=
        h.frame rfl rfl h.parked.lenSub (fun _ _ => id) ⟨rfl, Iff.rfl, id⟩
      exact ⟨l, recvRemoved_inv h_c (.inr rfl) (h.leaving f rfl) h_run⟩
  | pollClosed f waker =>
      simp only [recvRun, h_open, Bool.false_eq_true, if_false] at h_run
      exact ⟨l, recvPark_inv h rfl (Option.some.inj h_run)⟩
  | enqueue f =>
      obtain ⟨h_out, h_waker⟩ := h.entering f rfl
      obtain ⟨w, h_enqueue, h_w⟩ := h.parked.enqueue h_out h_waker 0
      have h_section : c.recvWaiters.enqueueSection 0 f = some w := h_enqueue
      simp only [recvRun, h_section] at h_run
      cases h_run
      exact ⟨l ++ [f], h.enqueue rfl rfl rfl h_w False.elim⟩
  | enqueueLenAdd f =>
      cases h_run
      exact ⟨l, h.mark rfl rfl (Function.comp_update RecvFuture.flags c.recvFutures f _)
        (fun _ => rfl) h.parked.lenAdd ⟨rfl, Iff.rfl, id⟩⟩
  | setWaker f waker =>
      cases h_run
      exact ⟨l, h.frame rfl rfl (h.parked.setWaker f waker) (fun g h_g => absurd h_g (by
        simp [recvStation, RecvPc.place])) ⟨rfl, Iff.rfl, id⟩⟩
  | recheckLen f =>
      cases h_run
      by_cases h_len : c.len.toNat = 0
      · rw [if_neg (by omega)]
        refine ⟨l, h.settle rfl rfl rfl h.parked rfl ?_ (.inl h_len)⟩
        exact (h_heeds h_len).imp_left (h.parked.linked_iff f).mp
      · rw [if_pos (by omega)]
        exact ⟨l, h.go rfl rfl rfl ⟨rfl, Iff.rfl, id⟩⟩
  | recheckClosed f =>
      simp only [recvRun, h_open, Bool.false_eq_true, if_false] at h_run
      cases h_run
      have h_rests : (recvStation c p (.recheckClosed f)).Rests l f := .inr (.inl rfl)
      refine ⟨l, h.rest rfl rfl (Function.comp_update RecvFuture.flags c.recvFutures f _) rfl rfl
        (fun h_mem => ?_) h.parked rfl (h.sound.covered f h_rests) (h.sound.justified f h_rests)⟩
      exact (h.registered f h_mem).resolve_right (by simp [recvStation, RecvPc.place])
  | dropLenSub f =>
      cases h_run
      exact ⟨l, h.frame rfl rfl h.parked.lenSub (fun _ _ => id) ⟨rfl, Iff.rfl, id⟩⟩

/-- One operation of the consumer keeps the line of the receivers. -/
theorem recvStep_inv (h : (recvStation c p q).Inv l) (h_open : c.closed = false)
    (h_some : q.phase ≠ .outside → 0 < c.len.toNat) {a : RecvAction RF Waker}
    (h_await : ∀ f waker, a = .poll f waker → ∀ g, g ≠ f → (c.recvFutures g).status ≠ .pending)
    (h_heeds : a = .run → RecvHeeds c p q) (h_step : recvStep c q a = some (c', q')) :
    ∃ l', (recvStation c' p q').Inv l' := by
  cases q <;> cases a <;> simp only [recvStep] at h_step
  all_goals first
    | exact recvStart_inv h h_await h_step
    | exact recvRun_inv h h_open h_some (h_heeds rfl) h_step
    | exact absurd h_step (by simp)

end Recv

end Channel
end Zydon
