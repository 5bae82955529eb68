/-
  Zydon.Primitives.Channel.Waking

  The two wait queues of the channel, between the consumer and one producer.

  Each is a station (`sendStation`, `recvStation`).  Seen from the senders, the
  consumer leaves them alone except in `wake_one`, where it dequeues a node in
  one operation and invokes its waker in a later one (`recvStep_touch`); and the
  same for the receivers and the producer (`sendStep_touch`).
-/

import Zydon.Primitives.Channel.Phases
import Zydon.Primitives.WaitQueue.Station

namespace Zydon
namespace Channel

open Lib WaitQueue

variable {SF RF Waker V : Type*}

-- ============================================================================
-- Where a call is
-- ============================================================================

def SendCall.place : SendCall SF → Place SF
  | .trySend => .away
  | .poll f => .polling f

/-- Where the producer is in `poll`. -/
def SendPc.place : SendPc SF RF Waker V → Place SF
  | .idle _ | .tryLoadLen _ | .dropLenSub _ => .away
  | .pollLoadLen f _ | .remove f | .setWaker f _ => .polling f
  | .claim call _ | .write call _ _ | .setOccupied call _ _ | .lenAdd call _
  | .wakeOne call | .wakeLenSub call _ _ | .wakeCall call _ => call.place
  | .removeLenSub f => .leaving f
  | .enqueue f => .entering f
  | .enqueueLenAdd f => .joining f

/-- The call has a critical section of `recv_waiters.wake_one` before it. -/
def SendPc.willWake : SendPc SF RF Waker V → Bool
  | .claim _ _ | .write _ _ _ | .setOccupied _ _ _ | .lenAdd _ _ | .wakeOne _ => true
  | _ => false

/-- The receive future that has been dequeued and whose waker is still to be
    invoked. -/
def SendPc.waking : SendPc SF RF Waker V → Option RF
  | .wakeLenSub _ g true | .wakeCall _ g => some g
  | _ => none

def RecvCall.place : RecvCall RF → Place RF
  | .tryRecv => .away
  | .poll f => .polling f

/-- Where the consumer is in `poll`. -/
def RecvPc.place : RecvPc SF RF Waker V → Place RF
  | .idle _ | .tryClosed | .dropLenSub _ => .away
  | .remove f _ | .pollClosed f _ | .setWaker f _ | .recheckLen f => .polling f
  | .claim call | .clear call _ | .read call _ | .lenSub call _ | .wakeOne call _
  | .wakeLenSub call _ _ _ | .wakeCall call _ _ => call.place
  | .removeLenSub f _ => .leaving f
  | .enqueue f => .entering f
  | .enqueueLenAdd f => .joining f
  | .recheckClosed f => .settling f

/-- The call has a critical section of `send_waiters.wake_one` before it. -/
def RecvPc.willWake : RecvPc SF RF Waker V → Bool
  | .claim _ | .clear _ _ | .read _ _ | .lenSub _ _ | .wakeOne _ _
  | .remove _ .dequeue | .removeLenSub _ .dequeue => true
  | _ => false

/-- The send future that has been dequeued and whose waker is still to be
    invoked. -/
def RecvPc.waking : RecvPc SF RF Waker V → Option SF
  | .wakeLenSub _ _ g true | .wakeCall _ _ g => some g
  | _ => none

-- ============================================================================
-- The stations
-- ============================================================================

def SendFuture.flags (x : SendFuture V) : WaitFlags where
  registered := x.registered
  status := x.status
  woken := x.woken

def RecvFuture.flags (x : RecvFuture) : WaitFlags where
  registered := x.registered
  status := x.status
  woken := x.woken

/-- The senders.  A send future queues its node without another look at `len`. -/
def sendStation (c : ChannelInner SF RF Waker V) (p : SendPc SF RF Waker V)
    (q : RecvPc SF RF Waker V) : Station SF Waker where
  queue := c.sendWaiters
  flags := SendFuture.flags ∘ c.sendFutures
  place := p.place
  waking := q.waking
  due := q.willWake = true
  blocked := c.capacity.val ≤ c.len.toNat
  early := True

/-- The receivers.  A receive future looks at `len` again once it is queued. -/
def recvStation (c : ChannelInner SF RF Waker V) (p : SendPc SF RF Waker V)
    (q : RecvPc SF RF Waker V) : Station RF Waker where
  queue := c.recvWaiters
  flags := RecvFuture.flags ∘ c.recvFutures
  place := q.place
  waking := p.waking
  due := p.willWake = true
  blocked := c.len.toNat = 0
  early := False

-- ============================================================================
-- The senders, seen from the consumer
-- ============================================================================

section Touch

variable [DecidableEq SF] [DecidableEq RF] {c c' : ChannelInner SF RF Waker V}
  {p p' : SendPc SF RF Waker V} {q q' : RecvPc SF RF Waker V}

omit [DecidableEq RF] in
/-- An operation that leaves the senders in place. -/
theorem sendStation_frame
    (h_queue : c'.sendWaiters = c.sendWaiters ∨ c'.sendWaiters = c.sendWaiters.lenSub)
    (h_futures : c'.sendFutures = c.sendFutures) (h_waking : q'.waking = q.waking)
    (h_due : q.willWake = true → q'.willWake = true)
    (h_ring : c'.toRing = c.toRing ∨ q'.willWake = true) :
    (sendStation c p q).Touch (sendStation c' p q') := by
  refine .frame rfl h_queue (congrArg (SendFuture.flags ∘ ·) h_futures) ⟨h_waking, Iff.rfl, ?_⟩
  simp only [sendStation]
  rintro (h_blocked | h_q)
  · rcases h_ring with h_ring | h_q'
    · exact .inl (h_ring ▸ h_blocked)
    · exact .inr h_q'
  · exact .inr (h_due h_q)

omit [DecidableEq RF] in
/-- A stretch of a call out of reach of `wake_one`. -/
theorem sendStation_quiet (h_waking : q.waking = none)
    (h_due : q.willWake = false) (h : c'.sendWaiters = c.sendWaiters ∧
      c'.sendFutures = c.sendFutures ∧ q'.waking = none ∧ c'.toRing = c.toRing) :
    (sendStation c p q).Touch (sendStation c' p q') :=
  sendStation_frame (.inl h.1) h.2.1 (h.2.2.1.trans h_waking.symm)
    (fun h_q => absurd h_q (by simp [h_due])) (.inl h.2.2.2)

omit [DecidableEq RF] in
/-- The critical section of `wake_one`. -/
theorem sendStation_dequeue
    (h_queue : c'.sendWaiters = c.sendWaiters.wakeOneSection.2)
    (h_futures : c'.sendFutures = c.sendFutures) (h_none : q.waking = none)
    (h_waking : q'.waking = taken c.sendWaiters.wakeOneSection.1) :
    (sendStation c p q).Touch (sendStation c' p q') :=
  .dequeue rfl Iff.rfl h_queue (congrArg (SendFuture.flags ∘ ·) h_futures) h_none h_waking

omit [DecidableEq RF] in
/-- `wake_one` invokes the waker of `g`. -/
theorem sendStation_invoke (g : SF) (h_queue : c'.sendWaiters = c.sendWaiters)
    (h_futures : c'.sendFutures =
      Function.update c.sendFutures g { c.sendFutures g with woken := true })
    (h_g : q.waking = some g) (h_waking : q'.waking = none) (h_due : q.willWake = false)
    (h_ring : c'.toRing = c.toRing) :
    (sendStation c p q).Touch (sendStation c' p q') := by
  refine .invoke g rfl Iff.rfl h_queue ?_ h_g h_waking ?_
  · refine (congrArg (SendFuture.flags ∘ ·) h_futures).trans ?_
    exact Function.comp_update SendFuture.flags c.sendFutures g _
  · simp only [sendStation, h_ring, h_due]
    exact fun h_owed => h_owed.imp_right fun h_false => absurd h_false (by simp)

omit [DecidableEq SF] in
theorem recvWoken_touch {value : Option (Elem V)} {call : RecvCall RF}
    (h : recvWoken c value call = (c', q')) : c'.sendWaiters = c.sendWaiters ∧
      c'.sendFutures = c.sendFutures ∧ q'.waking = none ∧ c'.toRing = c.toRing := by
  cases call with
  | tryRecv =>
      cases h
      exact ⟨rfl, rfl, rfl, rfl⟩
  | poll f =>
      simp only [recvWoken] at h
      split at h <;> cases h <;> exact ⟨rfl, rfl, rfl, rfl⟩

omit [DecidableEq SF] in
theorem recvPark_touch {f : RF} {waker : Waker}
    (h : recvPark c f waker = (c', q')) : c'.sendWaiters = c.sendWaiters ∧
      c'.sendFutures = c.sendFutures ∧ q'.waking = none ∧ c'.toRing = c.toRing := by
  simp only [recvPark] at h
  split at h <;> cases h <;> exact ⟨rfl, rfl, rfl, rfl⟩

omit [DecidableEq SF] in
theorem recvDrop_touch {f : RF} (h : recvDrop c f = (c', q')) :
    c'.sendWaiters = c.sendWaiters ∧ c'.sendFutures = c.sendFutures ∧ q'.waking = none ∧
      c'.toRing = c.toRing := by
  simp only [recvDrop] at h
  split at h
  · cases h
    refine ⟨rfl, rfl, ?_, rfl⟩
    split <;> rfl
  · cases h
    exact ⟨rfl, rfl, rfl, rfl⟩

omit [DecidableEq SF] in
/-- What follows `remove` leaves the senders alone, and goes on to wake one of them
    if it dequeues a value. -/
theorem recvRemoved_touch {f : RF} {after : AfterRemove V}
    (h : recvRemoved c f after = (c', q')) : c'.sendWaiters = c.sendWaiters ∧
      c'.sendFutures = c.sendFutures ∧ q'.waking = none ∧ c'.toRing = c.toRing ∧
      ((RecvPc.remove f after : RecvPc SF RF Waker V).willWake = true → q'.willWake = true) := by
  cases after with
  | ready value | closed =>
      cases h
      exact ⟨rfl, rfl, rfl, rfl, fun h_due => absurd h_due (by simp [RecvPc.willWake])⟩
  | dequeue =>
      cases h
      exact ⟨rfl, rfl, rfl, rfl, fun _ => rfl⟩

theorem recvStart_touch {a : RecvAction RF Waker}
    {result : Option (RecvOutcome V)} (h : recvStart c a = some (c', q')) :
    (sendStation c p (.idle result)).Touch (sendStation c' p q') := by
  cases a with
  | tryRecv =>
      cases h
      refine sendStation_quiet rfl rfl ⟨rfl, rfl, ?_, rfl⟩
      split <;> rfl
  | poll f waker =>
      simp only [recvStart] at h
      split at h <;> cases h
      refine sendStation_quiet rfl rfl ⟨rfl, rfl, ?_, rfl⟩
      split <;> rfl
  | dropFuture f =>
      simp only [recvStart] at h
      split at h
      case h_1 | h_2 | h_3 => exact sendStation_quiet rfl rfl (recvDrop_touch (Option.some.inj h))
      case h_4 | h_5 => exact absurd h (by simp)
  | run => exact absurd h (by simp [recvStart])

theorem recvRun_touch (h : recvRun c q = some (c', q')) :
    (sendStation c p q).Touch (sendStation c' p q') := by
  cases q with
  | idle result => exact absurd h (by simp [recvRun])
  | tryClosed | dropLenSub f | enqueueLenAdd f | setWaker f waker =>
      cases h
      exact sendStation_quiet rfl rfl ⟨rfl, rfl, rfl, rfl⟩
  | claim call | clear call pos | read call pos | lenSub call value =>
      cases h
      exact sendStation_frame (.inl rfl) rfl rfl (fun _ => rfl) (.inr rfl)
  | wakeOne call value =>
      simp only [recvRun] at h
      split at h
      · next h_section =>
          obtain ⟨h_queue, h_futures, h_waking, h_ring⟩ := recvWoken_touch (Option.some.inj h)
          refine sendStation_dequeue ?_ h_futures rfl ?_
          · rw [h_queue, h_section]
          · rw [h_waking, h_section]
            rfl
      · next g waker waiters h_section =>
          cases h
          refine sendStation_dequeue ?_ rfl rfl ?_
          · rw [h_section]
          · rw [h_section]
            cases waker <;> rfl
  | wakeLenSub call value g hasWaker =>
      simp only [recvRun, Option.some.injEq] at h
      cases hasWaker with
      | true =>
          cases h
          exact sendStation_frame (.inr rfl) rfl rfl
            (fun h_q => absurd h_q (by simp [RecvPc.willWake])) (.inl rfl)
      | false =>
          obtain ⟨h_queue, h_futures, h_waking, h_ring⟩ := recvWoken_touch h
          exact sendStation_frame (.inr h_queue) h_futures h_waking
            (fun h_q => absurd h_q (by simp [RecvPc.willWake])) (.inl h_ring)
  | wakeCall call value g =>
      simp only [recvRun, Option.some.injEq] at h
      obtain ⟨h_queue, h_futures, h_waking, h_ring⟩ := recvWoken_touch h
      exact sendStation_invoke g h_queue h_futures rfl h_waking rfl h_ring
  | remove f after =>
      simp only [recvRun] at h
      split at h
      · cases h
        refine sendStation_frame (.inl rfl) rfl rfl (fun h_due => ?_) (.inl rfl)
        cases after <;> exact h_due
      · obtain ⟨h_queue, h_futures, h_waking, h_ring, h_due⟩ :=
          recvRemoved_touch (Option.some.inj h)
        exact sendStation_frame (.inl h_queue) h_futures h_waking h_due (.inl h_ring)
  | removeLenSub f after =>
      simp only [recvRun, Option.some.injEq] at h
      obtain ⟨h_queue, h_futures, h_waking, h_ring, h_due⟩ := recvRemoved_touch h
      refine sendStation_frame (.inl h_queue) h_futures h_waking (fun h_q => h_due ?_) (.inl h_ring)
      cases after <;> exact h_q
  | pollClosed f waker =>
      simp only [recvRun] at h
      split at h
      · simp only [Option.some.injEq] at h
        split at h <;> cases h <;> exact sendStation_quiet rfl rfl ⟨rfl, rfl, rfl, rfl⟩
      · exact sendStation_quiet rfl rfl (recvPark_touch (Option.some.inj h))
  | enqueue f =>
      simp only [recvRun] at h
      split at h <;> cases h
      exact sendStation_quiet rfl rfl ⟨rfl, rfl, rfl, rfl⟩
  | recheckLen f =>
      cases h
      refine sendStation_quiet rfl rfl ⟨rfl, rfl, ?_, rfl⟩
      split <;> rfl
  | recheckClosed f =>
      simp only [recvRun] at h
      split at h <;> cases h <;> exact sendStation_quiet rfl rfl ⟨rfl, rfl, rfl, rfl⟩

/-- One operation of the consumer, seen from the senders. -/
theorem recvStep_touch {a : RecvAction RF Waker}
    (h : recvStep c q a = some (c', q')) : (sendStation c p q).Touch (sendStation c' p q') := by
  cases q <;> cases a <;> simp only [recvStep] at h
  all_goals first
    | exact recvStart_touch h
    | exact recvRun_touch h
    | exact absurd h (by simp)

-- ============================================================================
-- The receivers, seen from a producer
-- ============================================================================

omit [DecidableEq SF] in
/-- An operation that leaves the receivers in place. -/
theorem recvStation_frame
    (h_queue : c'.recvWaiters = c.recvWaiters ∨ c'.recvWaiters = c.recvWaiters.lenSub)
    (h_futures : c'.recvFutures = c.recvFutures) (h_waking : p'.waking = p.waking)
    (h_due : p.willWake = true → p'.willWake = true)
    (h_ring : c'.toRing = c.toRing ∨ p'.willWake = true) :
    (recvStation c p q).Touch (recvStation c' p' q) := by
  refine .frame rfl h_queue (congrArg (RecvFuture.flags ∘ ·) h_futures) ⟨h_waking, Iff.rfl, ?_⟩
  simp only [recvStation]
  rintro (h_blocked | h_p)
  · rcases h_ring with h_ring | h_p'
    · exact .inl (h_ring ▸ h_blocked)
    · exact .inr h_p'
  · exact .inr (h_due h_p)

omit [DecidableEq SF] in
/-- A stretch of a call out of reach of `wake_one`. -/
theorem recvStation_quiet (h_waking : p.waking = none)
    (h_due : p.willWake = false) (h : c'.recvWaiters = c.recvWaiters ∧
      c'.recvFutures = c.recvFutures ∧ p'.waking = none ∧ c'.toRing = c.toRing) :
    (recvStation c p q).Touch (recvStation c' p' q) :=
  recvStation_frame (.inl h.1) h.2.1 (h.2.2.1.trans h_waking.symm)
    (fun h_p => absurd h_p (by simp [h_due])) (.inl h.2.2.2)

omit [DecidableEq SF] in
/-- The critical section of `wake_one`. -/
theorem recvStation_dequeue
    (h_queue : c'.recvWaiters = c.recvWaiters.wakeOneSection.2)
    (h_futures : c'.recvFutures = c.recvFutures) (h_none : p.waking = none)
    (h_waking : p'.waking = taken c.recvWaiters.wakeOneSection.1) :
    (recvStation c p q).Touch (recvStation c' p' q) :=
  .dequeue rfl Iff.rfl h_queue (congrArg (RecvFuture.flags ∘ ·) h_futures) h_none h_waking

omit [DecidableEq SF] in
/-- `wake_one` invokes the waker of `g`. -/
theorem recvStation_invoke (g : RF) (h_queue : c'.recvWaiters = c.recvWaiters)
    (h_futures : c'.recvFutures =
      Function.update c.recvFutures g { c.recvFutures g with woken := true })
    (h_g : p.waking = some g) (h_waking : p'.waking = none) (h_due : p.willWake = false)
    (h_ring : c'.toRing = c.toRing) :
    (recvStation c p q).Touch (recvStation c' p' q) := by
  refine .invoke g rfl Iff.rfl h_queue ?_ h_g h_waking ?_
  · refine (congrArg (RecvFuture.flags ∘ ·) h_futures).trans ?_
    exact Function.comp_update RecvFuture.flags c.recvFutures g _
  · simp only [recvStation, h_ring, h_due]
    exact fun h_owed => h_owed.imp_right fun h_false => absurd h_false (by simp)

omit [DecidableEq RF] in
theorem sendWoken_touch {call : SendCall SF}
    (h : sendWoken c call = (c', p')) : c'.recvWaiters = c.recvWaiters ∧
      c'.recvFutures = c.recvFutures ∧ p'.waking = none ∧ c'.toRing = c.toRing := by
  cases call with
  | trySend =>
      cases h
      exact ⟨rfl, rfl, rfl, rfl⟩
  | poll f =>
      simp only [sendWoken] at h
      split at h <;> cases h <;> exact ⟨rfl, rfl, rfl, rfl⟩

omit [DecidableEq RF] in
theorem sendPark_touch {f : SF} {waker : Waker}
    (h : sendPark c f waker = (c', p')) : c'.recvWaiters = c.recvWaiters ∧
      c'.recvFutures = c.recvFutures ∧ p'.waking = none ∧ c'.toRing = c.toRing := by
  simp only [sendPark] at h
  split at h <;> cases h <;> exact ⟨rfl, rfl, rfl, rfl⟩

omit [DecidableEq RF] in
theorem sendDrop_touch {f : SF} (h : sendDrop c f = (c', p')) :
    c'.recvWaiters = c.recvWaiters ∧ c'.recvFutures = c.recvFutures ∧ p'.waking = none ∧
      c'.toRing = c.toRing := by
  simp only [sendDrop] at h
  split at h
  · cases h
    refine ⟨rfl, rfl, ?_, rfl⟩
    split <;> rfl
  · cases h
    exact ⟨rfl, rfl, rfl, rfl⟩

theorem sendStart_touch {a : SendAction SF Waker V}
    {result : Option (SendOutcome V)} (h : sendStart c a = some (c', p')) :
    (recvStation c (.idle result) q).Touch (recvStation c' p' q) := by
  cases a with
  | trySend value =>
      simp only [sendStart] at h
      split at h <;> cases h <;> exact recvStation_quiet rfl rfl ⟨rfl, rfl, rfl, rfl⟩
  | poll f waker =>
      simp only [sendStart] at h
      split at h
      · split at h
        · split at h <;> cases h
          exact recvStation_quiet rfl rfl ⟨rfl, rfl, rfl, rfl⟩
        · cases h
          exact recvStation_quiet rfl rfl ⟨rfl, rfl, rfl, rfl⟩
      · exact absurd h (by simp)
  | dropFuture f =>
      simp only [sendStart] at h
      split at h
      case h_1 | h_2 | h_3 => exact recvStation_quiet rfl rfl (sendDrop_touch (Option.some.inj h))
      case h_4 | h_5 => exact absurd h (by simp)
  | run => exact absurd h (by simp [sendStart])

theorem sendRun_touch (h : sendRun c p = some (c', p')) :
    (recvStation c p q).Touch (recvStation c' p' q) := by
  cases p with
  | idle result => exact absurd h (by simp [sendRun])
  | tryLoadLen value =>
      simp only [sendRun] at h
      split at h <;> cases h <;> exact recvStation_quiet rfl rfl ⟨rfl, rfl, rfl, rfl⟩
  | pollLoadLen f waker =>
      simp only [sendRun] at h
      split at h
      · split at h
        · cases h
          exact recvStation_quiet rfl rfl ⟨rfl, rfl, rfl, rfl⟩
        · exact recvStation_quiet rfl rfl (sendPark_touch (Option.some.inj h))
      · exact recvStation_quiet rfl rfl (sendPark_touch (Option.some.inj h))
  | claim call value | write call pos x | setOccupied call pos x | lenAdd call x =>
      cases h
      exact recvStation_frame (.inl rfl) rfl rfl (fun _ => rfl) (.inr rfl)
  | wakeOne call =>
      simp only [sendRun] at h
      split at h
      · next h_section =>
          obtain ⟨h_queue, h_futures, h_waking, h_ring⟩ := sendWoken_touch (Option.some.inj h)
          refine recvStation_dequeue ?_ h_futures rfl ?_
          · rw [h_queue, h_section]
          · rw [h_waking, h_section]
            rfl
      · next g waker waiters h_section =>
          cases h
          refine recvStation_dequeue ?_ rfl rfl ?_
          · rw [h_section]
          · rw [h_section]
            cases waker <;> rfl
  | wakeLenSub call g hasWaker =>
      simp only [sendRun, Option.some.injEq] at h
      cases hasWaker with
      | true =>
          cases h
          exact recvStation_frame (.inr rfl) rfl rfl
            (fun h_p => absurd h_p (by simp [SendPc.willWake])) (.inl rfl)
      | false =>
          obtain ⟨h_queue, h_futures, h_waking, h_ring⟩ := sendWoken_touch h
          exact recvStation_frame (.inr h_queue) h_futures h_waking
            (fun h_p => absurd h_p (by simp [SendPc.willWake])) (.inl h_ring)
  | wakeCall call g =>
      simp only [sendRun, Option.some.injEq] at h
      obtain ⟨h_queue, h_futures, h_waking, h_ring⟩ := sendWoken_touch h
      exact recvStation_invoke g h_queue h_futures rfl h_waking rfl h_ring
  | remove f =>
      simp only [sendRun] at h
      split at h <;> cases h <;> exact recvStation_quiet rfl rfl ⟨rfl, rfl, rfl, rfl⟩
  | removeLenSub f | enqueueLenAdd f | setWaker f waker | dropLenSub f =>
      cases h
      exact recvStation_quiet rfl rfl ⟨rfl, rfl, rfl, rfl⟩
  | enqueue f =>
      simp only [sendRun] at h
      split at h <;> cases h
      exact recvStation_quiet rfl rfl ⟨rfl, rfl, rfl, rfl⟩

/-- One operation of a producer, seen from the receivers. -/
theorem sendStep_touch {a : SendAction SF Waker V}
    (h : sendStep c p a = some (c', p')) : (recvStation c p q).Touch (recvStation c' p' q) := by
  cases p <;> cases a <;> simp only [sendStep] at h
  all_goals first
    | exact sendStart_touch h
    | exact sendRun_touch h
    | exact absurd h (by simp)

end Touch

end Channel
end Zydon
