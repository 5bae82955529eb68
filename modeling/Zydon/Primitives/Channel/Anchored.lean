/-
  Zydon.Primitives.Channel.Anchored

  The futures whose nodes the two queues of a channel point to, over every
  interleaving of the consumer and of any number of producers.

  Each side links its nodes into its own queue, and dequeues those of the other.  A
  send future that has been dropped is not in `send_waiters`, nor a receive future in
  `recv_waiters`, and no step writes to the memory of either.
-/

import Zydon.Primitives.Channel.Progress
import Zydon.Primitives.WaitQueue.Anchored

namespace Zydon
namespace Channel

open Lib WaitQueue

variable {Producer SF RF Waker V : Type*}

-- ============================================================================
-- The two queues
-- ============================================================================

/-- The flags of a send future. -/
def SendFuture.queueFlags : Waiters.Flags (SendFuture V) where
  status x := x.status
  registered x := x.registered

/-- The flags of a receive future. -/
def RecvFuture.queueFlags : Waiters.Flags RecvFuture where
  status x := x.status
  registered x := x.registered

def SendCall.queuePlace : SendCall SF → Option (SF × PollStage)
  | .trySend => none
  | .poll f => some (f, .entered)

def RecvCall.queuePlace : RecvCall RF → Option (RF × PollStage)
  | .tryRecv => none
  | .poll f => some (f, .entered)

/-- The send future that a producer polls, and how far it is. -/
def SendPc.queuePlace : SendPc SF RF Waker V → Option (SF × PollStage)
  | .idle _ | .tryLoadLen _ | .dropLenSub _ => none
  | .pollLoadLen f _ => some (f, .entered)
  | .claim call _ | .write call _ _ | .setOccupied call _ _ | .lenAdd call _ | .wakeOne call
  | .wakeLenSub call _ _ | .wakeCall call _ => call.queuePlace
  | .enqueue f => some (f, .preparing)
  | .enqueueLenAdd f => some (f, .joining)
  | .remove f | .setWaker f _ => some (f, .settling)
  | .removeLenSub f => some (f, .leaving)

/-- The receive future that the consumer polls, and how far it is. -/
def RecvPc.queuePlace : RecvPc SF RF Waker V → Option (RF × PollStage)
  | .idle _ | .tryClosed | .dropLenSub _ => none
  | .claim call | .clear call _ | .read call _ | .lenSub call _ | .wakeOne call _
  | .wakeLenSub call _ _ _ | .wakeCall call _ _ => call.queuePlace
  | .pollClosed f _ => some (f, .entered)
  | .enqueue f => some (f, .preparing)
  | .enqueueLenAdd f => some (f, .joining)
  | .remove f _ | .setWaker f _ | .recheckLen f | .recheckClosed f => some (f, .settling)
  | .removeLenSub f _ => some (f, .leaving)

/-- `send_waiters`, with producers at `place`. -/
def ChannelInner.sendersAt (c : ChannelInner SF RF Waker V)
    (place : Producer → Option (SF × PollStage)) : Waiters Producer SF Waker :=
  .of SendFuture.queueFlags c.sendWaiters c.sendFutures place

/-- `recv_waiters`, with the consumer at `place`. -/
def ChannelInner.receiversAt (c : ChannelInner SF RF Waker V)
    (place : Unit → Option (RF × PollStage)) : Waiters Unit RF Waker :=
  .of RecvFuture.queueFlags c.recvWaiters c.recvFutures place

/-- A step leaves the send futures alone, and at most wakes one. -/
structure WakesSend (c c' : ChannelInner SF RF Waker V) [DecidableEq SF] : Prop where
  queue : Operation c.sendWaiters none c'.sendWaiters
  futures : ∀ f, (c'.sendFutures f).status = (c.sendFutures f).status ∧
    (c'.sendFutures f).registered = (c.sendFutures f).registered

/-- A step leaves the receive futures alone, and at most wakes one. -/
structure WakesRecv (c c' : ChannelInner SF RF Waker V) [DecidableEq RF] : Prop where
  queue : Operation c.recvWaiters none c'.recvWaiters
  futures : ∀ f, (c'.recvFutures f).status = (c.recvFutures f).status ∧
    (c'.recvFutures f).registered = (c.recvFutures f).registered

variable [DecidableEq SF] [DecidableEq RF] {c c' c₁ : ChannelInner SF RF Waker V} {f : SF} {g : RF}

/-- A step of a producer starts a call, or is an operation inside one. -/
theorem sendStep_cases {p p' : SendPc SF RF Waker V} {a : SendAction SF Waker V}
    (h : sendStep c p a = some (c', p')) :
    (p.queuePlace = none ∧ sendStart c a = some (c', p')) ∨ sendRun c p = some (c', p') := by
  cases p <;> cases a <;> simp only [sendStep, reduceCtorEq] at h
  all_goals first
    | exact .inl ⟨rfl, h⟩
    | exact .inr h

/-- A step of the consumer starts a call, or is an operation inside one. -/
theorem recvStep_cases {p p' : RecvPc SF RF Waker V} {a : RecvAction RF Waker}
    (h : recvStep c p a = some (c', p')) :
    (p.queuePlace = none ∧ recvStart c a = some (c', p')) ∨ recvRun c p = some (c', p') := by
  cases p <;> cases a <;> simp only [recvStep, reduceCtorEq] at h
  all_goals first
    | exact .inl ⟨rfl, h⟩
    | exact .inr h

-- ============================================================================
-- A producer and the receive futures
-- ============================================================================

omit [DecidableEq SF] in
theorem wakesRecv_same (h_queue : c'.recvWaiters = c.recvWaiters)
    (h_futures : c'.recvFutures = c.recvFutures) : WakesRecv c c' where
  queue := h_queue ▸ .skip
  futures := fun _ => by rw [h_futures]; exact ⟨rfl, rfl⟩

omit [DecidableEq RF] in
theorem sendWoken_recv {call : SendCall SF} {p' : SendPc SF RF Waker V}
    (h : sendWoken c call = (c', p')) :
    c'.recvWaiters = c.recvWaiters ∧ c'.recvFutures = c.recvFutures := by
  cases call with
  | trySend =>
      cases h
      exact ⟨rfl, rfl⟩
  | poll f =>
      simp only [sendWoken] at h
      split at h <;> cases h <;> exact ⟨rfl, rfl⟩

omit [DecidableEq RF] in
theorem sendPark_recv {waker : Waker} {p' : SendPc SF RF Waker V}
    (h : sendPark c f waker = (c', p')) :
    c'.recvWaiters = c.recvWaiters ∧ c'.recvFutures = c.recvFutures := by
  simp only [sendPark] at h
  split at h <;> cases h <;> exact ⟨rfl, rfl⟩

omit [DecidableEq RF] in
theorem sendDrop_recv {p' : SendPc SF RF Waker V} (h : sendDrop c f = (c', p')) :
    c'.recvWaiters = c.recvWaiters ∧ c'.recvFutures = c.recvFutures := by
  simp only [sendDrop] at h
  split at h <;> cases h <;> exact ⟨rfl, rfl⟩

omit [DecidableEq RF] in
theorem sendStart_recv {a : SendAction SF Waker V} {p' : SendPc SF RF Waker V}
    (h : sendStart c a = some (c', p')) :
    c'.recvWaiters = c.recvWaiters ∧ c'.recvFutures = c.recvFutures := by
  cases a with
  | trySend value =>
      simp only [sendStart] at h
      split at h <;> cases h <;> exact ⟨rfl, rfl⟩
  | poll f waker =>
      simp only [sendStart] at h
      split at h
      · split at h
        · split at h <;> cases h
          exact ⟨rfl, rfl⟩
        · cases h
          exact ⟨rfl, rfl⟩
      · exact absurd h (by simp)
  | dropFuture f =>
      simp only [sendStart] at h
      cases h_status : (c.sendFutures f).status <;> simp only [h_status, reduceCtorEq] at h
      all_goals exact sendDrop_recv (Option.some.inj h)
  | run => exact absurd h (by simp [sendStart])

/-- A producer dequeues receive futures, and does nothing else to them. -/
theorem sendRun_wakesRecv {p p' : SendPc SF RF Waker V} (h : sendRun c p = some (c', p')) :
    WakesRecv c c' := by
  cases p with
  | idle result => exact absurd h (by simp [sendRun])
  | tryLoadLen value =>
      simp only [sendRun] at h
      split at h <;> cases h <;> exact wakesRecv_same rfl rfl
  | pollLoadLen f waker =>
      simp only [sendRun] at h
      split at h
      · split at h
        · cases h
          exact wakesRecv_same rfl rfl
        · obtain ⟨h_queue, h_futures⟩ := sendPark_recv (Option.some.inj h)
          exact wakesRecv_same h_queue h_futures
      · obtain ⟨h_queue, h_futures⟩ := sendPark_recv (Option.some.inj h)
        exact wakesRecv_same h_queue h_futures
  | claim call value | write call pos x | setOccupied call pos x | lenAdd call x
  | enqueueLenAdd f | removeLenSub f | dropLenSub f | setWaker f waker =>
      cases h
      exact wakesRecv_same rfl rfl
  | wakeOne call =>
      have h_wake : Operation c.recvWaiters none c.recvWaiters.wakeOneSection.2 := .wakeOne
      simp only [sendRun] at h
      split at h
      · next h_section =>
          rw [h_section] at h_wake
          obtain ⟨h_queue, h_futures⟩ := sendWoken_recv (Option.some.inj h)
          exact ⟨h_queue ▸ h_wake, fun _ => by rw [h_futures]; exact ⟨rfl, rfl⟩⟩
      · next h_section =>
          rw [h_section] at h_wake
          cases h
          exact ⟨h_wake, fun _ => ⟨rfl, rfl⟩⟩
  | wakeLenSub call g hasWaker =>
      simp only [sendRun, Option.some.injEq] at h
      split at h
      · cases h
        exact ⟨.lenSub, fun _ => ⟨rfl, rfl⟩⟩
      · obtain ⟨h_queue, h_futures⟩ := sendWoken_recv h
        exact ⟨h_queue ▸ .lenSub, fun _ => by rw [h_futures]; exact ⟨rfl, rfl⟩⟩
  | wakeCall call g =>
      simp only [sendRun, Option.some.injEq] at h
      obtain ⟨h_queue, h_futures⟩ := sendWoken_recv h
      refine ⟨h_queue ▸ .skip, fun g' => ?_⟩
      rw [h_futures]
      by_cases h_g : g' = g
      · subst h_g
        simp [ChannelInner.setRecv]
      · simp [ChannelInner.setRecv, h_g]
  | remove f =>
      simp only [sendRun] at h
      split at h <;> cases h <;> exact wakesRecv_same rfl rfl
  | enqueue f =>
      simp only [sendRun] at h
      split at h <;> cases h
      exact wakesRecv_same rfl rfl

theorem sendStep_wakesRecv {p p' : SendPc SF RF Waker V} {a : SendAction SF Waker V}
    (h : sendStep c p a = some (c', p')) : WakesRecv c c' := by
  rcases sendStep_cases h with ⟨-, h_start⟩ | h_run
  · obtain ⟨h_queue, h_futures⟩ := sendStart_recv h_start
    exact wakesRecv_same h_queue h_futures
  · exact sendRun_wakesRecv h_run

-- ============================================================================
-- A producer and the send futures
-- ============================================================================

section Senders

variable [DecidableEq Producer] {place : Producer → Option (SF × PollStage)} {t : Producer}
  {p p' : SendPc SF RF Waker V}

omit [DecidableEq RF] in
/-- The end of a poll that has sent, after which the node is out of the queue. -/
theorem senders_ready {own : Option SF} {stage : PollStage} (h_t : place t = some (f, stage))
    (h_queue : Operation c.sendWaiters own c₁.sendWaiters) (h_own : own = none ∨ own = some f)
    (h_futures : c₁.sendFutures = c.sendFutures) (h_free : (c₁.sendWaiters.nodes f).linked = false)
    (h : sendReady c₁ f = (c', p')) :
    (c.sendersAt place).Step (c'.sendersAt (Function.update place t p'.queuePlace)) := by
  have h_set : (sendReady c₁ f).1.sendFutures = Function.update c.sendFutures f
      { c.sendFutures f with registered := false, status := .ready } := by
    rw [← h_futures]
    rfl
  cases h
  exact Waiters.step_ready h_t h_queue h_own h_set rfl rfl h_free

omit [DecidableEq RF] in
/-- What follows the wake-up of a receiver. -/
theorem senders_woken {call : SendCall SF} (hw : (c.sendersAt place).Moored)
    (h_t : place t = call.queuePlace) (h_queue : c₁.sendWaiters = c.sendWaiters)
    (h_futures : c₁.sendFutures = c.sendFutures) (h : sendWoken c₁ call = (c', p')) :
    (c.sendersAt place).Step (c'.sendersAt (Function.update place t p'.queuePlace)) := by
  cases call with
  | trySend =>
      cases h
      exact Waiters.step_aside (h_queue ▸ .skip) (fun _ => by rw [h_futures]; exact ⟨rfl, rfl⟩)
        h_t.symm
  | poll f =>
      obtain ⟨-, h_linked⟩ := hw.placed t f .entered h_t
      simp only [sendWoken, h_futures] at h
      split at h
      · next h_registered =>
          cases h
          exact Waiters.step_on .settling hw h_t (h_queue ▸ .skip) (.inl rfl) h_futures
            rfl fun _ => h_registered
      · next h_unregistered =>
          refine senders_ready h_t (h_queue ▸ .skip) (.inl rfl) h_futures ?_ h
          rw [h_queue]
          exact Bool.eq_false_iff.mpr fun h => h_unregistered (h_linked h)

omit [DecidableEq RF] in
/-- A poll parks. -/
theorem senders_park {waker : Waker} (hw : (c.sendersAt place).Moored)
    (h_t : place t = some (f, .entered)) (h : sendPark c f waker = (c', p')) :
    (c.sendersAt place).Step (c'.sendersAt (Function.update place t p'.queuePlace)) := by
  obtain ⟨-, h_linked⟩ := hw.placed t f .entered h_t
  simp only [sendPark] at h
  split at h
  · next h_registered =>
      cases h
      exact Waiters.step_on .settling hw h_t .skip (.inl rfl) rfl rfl
        fun _ => h_registered
  · next h_unregistered =>
      cases h
      have h_free : (c.sendWaiters.nodes f).linked = false :=
        Bool.eq_false_iff.mpr fun h => h_unregistered (h_linked h)
      refine Waiters.step_on .preparing hw h_t (.setWaker f waker) (.inr rfl) rfl rfl
        fun _ => ?_
      simpa [PollStage.Fits, Waiters.Flags.view, SendFuture.queueFlags, WaitQueue.setWaker,
        modify_nodes, h_free] using h_unregistered

omit [DecidableEq RF] in
/-- The drop of a send future. -/
theorem senders_drop (hw : (c.sendersAt place).Moored) (h_t : place t = none)
    (h_not : (c.sendFutures f).status ≠ .polling) (h_there : (c.sendFutures f).status ≠ .dropped)
    (h : sendDrop c f = (c', p')) :
    (c.sendersAt place).Step (c'.sendersAt (Function.update place t p'.queuePlace)) := by
  simp only [sendDrop] at h
  split at h
  · cases h
    refine Waiters.step_act (.inr ⟨h_t, h_not, h_there⟩) (.remove f) (.inr rfl) rfl ?_
      (.inl ⟨?_, by simp [SendFuture.queueFlags]⟩)
    · simp [Rests, Waiters.Flags.view, SendFuture.queueFlags, removeSection_linked]
    · split <;> rfl
  · next h_unregistered =>
      cases h
      have h_free : (c.sendWaiters.nodes f).linked = false :=
        Bool.eq_false_iff.mpr fun h => h_unregistered (hw.registered_of_linked h_not h)
      exact Waiters.step_act (.inr ⟨h_t, h_not, h_there⟩) .skip (.inl rfl) rfl h_free
        (.inl ⟨rfl, by simp [SendFuture.queueFlags]⟩)

omit [DecidableEq RF] in
/-- The start of a call of a producer. -/
theorem senders_start {a : SendAction SF Waker V} (hw : (c.sendersAt place).Moored)
    (h_t : place t = none) (h : sendStart c a = some (c', p')) :
    (c.sendersAt place).Step (c'.sendersAt (Function.update place t p'.queuePlace)) := by
  cases a with
  | trySend value =>
      simp only [sendStart] at h
      split at h <;> cases h <;> exact Waiters.step_aside .skip (fun _ => ⟨rfl, rfl⟩) h_t.symm
  | poll f waker =>
      simp only [sendStart] at h
      split at h
      · next h_status =>
          have h_not : (c.sendFutures f).status ≠ .polling ∧
              (c.sendFutures f).status ≠ .dropped := by
            rcases h_status with h_status | h_status <;> rw [h_status] <;> decide
          have h_linked : (c.sendWaiters.nodes f).linked = true →
              (c.sendFutures f).registered = true := hw.registered_of_linked h_not.1
          split at h
          · split at h <;> cases h
            exact Waiters.step_act (.inr ⟨h_t, h_not⟩) .skip (.inl rfl) rfl h_linked
              (.inl ⟨rfl, by simp [SendFuture.queueFlags]⟩)
          · cases h
            exact Waiters.step_act (.inr ⟨h_t, h_not⟩) .skip (.inl rfl) rfl trivial
              (.inr ⟨.entered, rfl, rfl, h_linked⟩)
      · exact absurd h (by simp)
  | dropFuture f =>
      simp only [sendStart] at h
      cases h_status : (c.sendFutures f).status <;> simp only [h_status, reduceCtorEq] at h
      all_goals
        exact senders_drop hw h_t (by simp [h_status]) (by simp [h_status]) (Option.some.inj h)
  | run => exact absurd h (by simp [sendStart])

/-- An operation inside a call of a producer. -/
theorem senders_run (h_plain : NoPriorities c.sendWaiters) (hw : (c.sendersAt place).Moored)
    (h_t : place t = p.queuePlace) (h : sendRun c p = some (c', p')) :
    (c.sendersAt place).Step (c'.sendersAt (Function.update place t p'.queuePlace)) := by
  cases p with
  | idle result => exact absurd h (by simp [sendRun])
  | tryLoadLen value =>
      simp only [sendRun] at h
      split at h <;> cases h <;> exact Waiters.step_aside .skip (fun _ => ⟨rfl, rfl⟩) h_t.symm
  | pollLoadLen f waker =>
      simp only [sendRun] at h
      split at h
      · split at h
        · obtain ⟨h_polling, h_linked⟩ := hw.placed t f .entered h_t
          cases h
          exact Waiters.step_go .entered h_t .skip (.inl rfl) rfl h_polling rfl h_linked
        · exact senders_park hw h_t (Option.some.inj h)
      · exact senders_park hw h_t (Option.some.inj h)
  | claim call value | write call pos x | setOccupied call pos x | lenAdd call x =>
      cases h
      exact Waiters.step_aside .skip (fun _ => ⟨rfl, rfl⟩) h_t.symm
  | wakeOne call =>
      simp only [sendRun] at h
      split at h
      · refine senders_woken hw h_t ?_ ?_ (Option.some.inj h) <;> rfl
      · cases h
        exact Waiters.step_aside .skip (fun _ => ⟨rfl, rfl⟩) h_t.symm
  | wakeLenSub call g hasWaker =>
      simp only [sendRun, Option.some.injEq] at h
      split at h
      · cases h
        exact Waiters.step_aside .skip (fun _ => ⟨rfl, rfl⟩) h_t.symm
      · refine senders_woken hw h_t ?_ ?_ h <;> rfl
  | wakeCall call g =>
      simp only [sendRun, Option.some.injEq] at h
      refine senders_woken hw h_t ?_ ?_ h <;> rfl
  | remove f =>
      have h_free : ((c.sendWaiters.removeSection f).2.nodes f).linked = false := by
        rw [removeSection_linked, if_pos rfl]
      simp only [sendRun] at h
      split at h
      · cases h
        exact Waiters.step_on .leaving hw h_t (.remove f) (.inr rfl) rfl rfl
          fun _ => h_free
      · refine senders_ready h_t ?_ (.inr rfl) ?_ ?_ (Option.some.inj h)
        · exact .remove f
        · rfl
        · exact h_free
  | removeLenSub f =>
      obtain ⟨-, h_free⟩ := hw.placed t f .leaving h_t
      refine senders_ready h_t ?_ (.inl rfl) ?_ ?_ (Option.some.inj h)
      · exact .lenSub
      · rfl
      · exact h_free
  | enqueue f =>
      obtain ⟨-, h_free, -⟩ := hw.placed t f .preparing h_t
      simp only [sendRun, (h_plain.enqueueSection 0 f).1] at h
      cases h
      exact Waiters.step_on .joining hw h_t (.enqueue f h_free) (.inr rfl) rfl rfl
        fun _ => trivial
  | enqueueLenAdd f =>
      cases h
      exact Waiters.step_act (.inl ⟨_, h_t⟩) .lenAdd (.inl rfl) rfl rfl
        (.inl ⟨rfl, by simp [SendFuture.queueFlags]⟩)
  | setWaker f waker =>
      cases h
      exact Waiters.step_act (.inl ⟨_, h_t⟩) (.setWaker f waker) (.inr rfl) rfl rfl
        (.inl ⟨rfl, by simp [SendFuture.queueFlags]⟩)
  | dropLenSub f =>
      cases h
      exact Waiters.step_aside .lenSub (fun _ => ⟨rfl, rfl⟩) h_t.symm

theorem senders_step {a : SendAction SF Waker V} (h_plain : NoPriorities c.sendWaiters)
    (hw : (c.sendersAt place).Moored) (h_t : place t = p.queuePlace)
    (h : sendStep c p a = some (c', p')) :
    (c.sendersAt place).Step (c'.sendersAt (Function.update place t p'.queuePlace)) := by
  rcases sendStep_cases h with ⟨h_none, h_start⟩ | h_run
  · exact senders_start hw (h_t.trans h_none) h_start
  · exact senders_run h_plain hw h_t h_run

end Senders

-- ============================================================================
-- The consumer and the send futures
-- ============================================================================

omit [DecidableEq RF] in
theorem wakesSend_same (h_queue : c'.sendWaiters = c.sendWaiters)
    (h_futures : c'.sendFutures = c.sendFutures) : WakesSend c c' where
  queue := h_queue ▸ .skip
  futures := fun _ => by rw [h_futures]; exact ⟨rfl, rfl⟩

omit [DecidableEq SF] in
theorem recvWoken_send {value : Option (Elem V)} {call : RecvCall RF} {p' : RecvPc SF RF Waker V}
    (h : recvWoken c value call = (c', p')) :
    c'.sendWaiters = c.sendWaiters ∧ c'.sendFutures = c.sendFutures := by
  cases call with
  | tryRecv =>
      cases h
      exact ⟨rfl, rfl⟩
  | poll f =>
      simp only [recvWoken] at h
      split at h <;> cases h <;> exact ⟨rfl, rfl⟩

omit [DecidableEq SF] in
theorem recvStart_send {a : RecvAction RF Waker} {p' : RecvPc SF RF Waker V}
    (h : recvStart c a = some (c', p')) :
    c'.sendWaiters = c.sendWaiters ∧ c'.sendFutures = c.sendFutures := by
  cases a with
  | tryRecv =>
      cases h
      exact ⟨rfl, rfl⟩
  | poll f waker =>
      simp only [recvStart] at h
      split at h <;> cases h
      exact ⟨rfl, rfl⟩
  | dropFuture f =>
      simp only [recvStart] at h
      cases h_status : (c.recvFutures f).status <;> simp only [h_status, reduceCtorEq] at h
      all_goals
        simp only [recvDrop, Option.some.injEq] at h
        split at h <;> cases h <;> exact ⟨rfl, rfl⟩
  | run => exact absurd h (by simp [recvStart])

/-- The consumer dequeues send futures, and does nothing else to them. -/
theorem recvRun_wakesSend {p p' : RecvPc SF RF Waker V} (h : recvRun c p = some (c', p')) :
    WakesSend c c' := by
  cases p with
  | idle result => exact absurd h (by simp [recvRun])
  | tryClosed | claim call | clear call pos | read call pos | lenSub call value
  | enqueueLenAdd f | setWaker f waker | recheckLen f | dropLenSub f =>
      cases h
      exact wakesSend_same rfl rfl
  | wakeOne call value =>
      have h_wake : Operation c.sendWaiters none c.sendWaiters.wakeOneSection.2 := .wakeOne
      simp only [recvRun] at h
      split at h
      · next h_section =>
          rw [h_section] at h_wake
          obtain ⟨h_queue, h_futures⟩ := recvWoken_send (Option.some.inj h)
          exact ⟨h_queue ▸ h_wake, fun _ => by rw [h_futures]; exact ⟨rfl, rfl⟩⟩
      · next h_section =>
          rw [h_section] at h_wake
          cases h
          exact ⟨h_wake, fun _ => ⟨rfl, rfl⟩⟩
  | wakeLenSub call value f hasWaker =>
      simp only [recvRun, Option.some.injEq] at h
      split at h
      · cases h
        exact ⟨.lenSub, fun _ => ⟨rfl, rfl⟩⟩
      · obtain ⟨h_queue, h_futures⟩ := recvWoken_send h
        exact ⟨h_queue ▸ .lenSub, fun _ => by rw [h_futures]; exact ⟨rfl, rfl⟩⟩
  | wakeCall call value f =>
      simp only [recvRun, Option.some.injEq] at h
      obtain ⟨h_queue, h_futures⟩ := recvWoken_send h
      refine ⟨h_queue ▸ .skip, fun f' => ?_⟩
      rw [h_futures]
      by_cases h_f : f' = f
      · subst h_f
        simp [ChannelInner.setSend]
      · simp [ChannelInner.setSend, h_f]
  | remove f after =>
      simp only [recvRun] at h
      split at h
      · cases h
        exact wakesSend_same rfl rfl
      · cases after <;> cases h <;> exact wakesSend_same rfl rfl
  | removeLenSub f after => cases after <;> cases h <;> exact wakesSend_same rfl rfl
  | pollClosed f waker =>
      simp only [recvRun] at h
      split at h
      · simp only [Option.some.injEq] at h
        split at h <;> cases h <;> exact wakesSend_same rfl rfl
      · simp only [recvPark, Option.some.injEq] at h
        split at h <;> cases h <;> exact wakesSend_same rfl rfl
  | enqueue f =>
      simp only [recvRun] at h
      split at h <;> cases h
      exact wakesSend_same rfl rfl
  | recheckClosed f =>
      simp only [recvRun] at h
      split at h <;> cases h <;> exact wakesSend_same rfl rfl

theorem recvStep_wakesSend {p p' : RecvPc SF RF Waker V} {a : RecvAction RF Waker}
    (h : recvStep c p a = some (c', p')) : WakesSend c c' := by
  rcases recvStep_cases h with ⟨-, h_start⟩ | h_run
  · obtain ⟨h_queue, h_futures⟩ := recvStart_send h_start
    exact wakesSend_same h_queue h_futures
  · exact recvRun_wakesSend h_run

-- ============================================================================
-- The consumer and the receive futures
-- ============================================================================

section Receivers

variable {place : Unit → Option (RF × PollStage)} {p p' : RecvPc SF RF Waker V}

omit [DecidableEq SF] in
/-- The end of a poll, after which the node is out of the queue. -/
theorem receivers_ready {own : Option RF} {stage : PollStage}
    {result : Except RecvError (Option (Elem V))} (h_t : place () = some (g, stage))
    (h_queue : Operation c.recvWaiters own c₁.recvWaiters)
    (h_own : own = none ∨ own = some g) (h_futures : c₁.recvFutures = c.recvFutures)
    (h_free : (c₁.recvWaiters.nodes g).linked = false) (h : recvReady c₁ g result = (c', p')) :
    (c.receiversAt place).Step (c'.receiversAt (Function.update place () p'.queuePlace)) := by
  have h_set : (recvReady c₁ g result).1.recvFutures = Function.update c.recvFutures g
      { c.recvFutures g with registered := false, status := .ready } := by
    rw [← h_futures]
    rfl
  cases h
  exact Waiters.step_ready h_t h_queue h_own h_set rfl rfl h_free

omit [DecidableEq SF] in
/-- What follows `remove`. -/
theorem receivers_removed {own : Option RF} {stage : PollStage} {after : AfterRemove V}
    (hw : (c.receiversAt place).Moored) (h_t : place () = some (g, stage))
    (h_queue : Operation c.recvWaiters own c₁.recvWaiters) (h_own : own = none ∨ own = some g)
    (h_futures : c₁.recvFutures = c.recvFutures) (h_free : (c₁.recvWaiters.nodes g).linked = false)
    (h : recvRemoved c₁ g after = (c', p')) :
    (c.receiversAt place).Step (c'.receiversAt (Function.update place () p'.queuePlace)) := by
  cases after with
  | ready value | closed => exact receivers_ready h_t h_queue h_own h_futures h_free h
  | dequeue =>
      obtain ⟨h_polling, -⟩ := hw.placed () g stage h_t
      have h_set : (c₁.setRecv g fun x => { x with registered := false }).recvFutures =
          Function.update c.recvFutures g { c.recvFutures g with registered := false } := by
        rw [← h_futures]
        rfl
      cases h
      refine Waiters.step_go .entered h_t h_queue h_own h_set h_polling rfl
        fun h_linked => ?_
      exact absurd (h_free.symm.trans h_linked) (by simp)

omit [DecidableEq SF] in
/-- What follows the wake-up of a sender. -/
theorem receivers_woken {call : RecvCall RF} {value : Option (Elem V)}
    (hw : (c.receiversAt place).Moored) (h_t : place () = call.queuePlace)
    (h_queue : c₁.recvWaiters = c.recvWaiters) (h_futures : c₁.recvFutures = c.recvFutures)
    (h : recvWoken c₁ value call = (c', p')) :
    (c.receiversAt place).Step (c'.receiversAt (Function.update place () p'.queuePlace)) := by
  cases call with
  | tryRecv =>
      cases h
      exact Waiters.step_aside (h_queue ▸ .skip) (fun _ => by rw [h_futures]; exact ⟨rfl, rfl⟩)
        h_t.symm
  | poll g =>
      obtain ⟨-, h_linked⟩ := hw.placed () g .entered h_t
      simp only [recvWoken, h_futures] at h
      split at h
      · next h_registered =>
          cases h
          exact Waiters.step_on .settling hw h_t (h_queue ▸ .skip) (.inl rfl) h_futures
            rfl fun _ => h_registered
      · next h_unregistered =>
          refine receivers_ready h_t (h_queue ▸ .skip) (.inl rfl) h_futures ?_ h
          rw [h_queue]
          exact Bool.eq_false_iff.mpr fun h => h_unregistered (h_linked h)

omit [DecidableEq SF] in
/-- A poll parks. -/
theorem receivers_park {waker : Waker} (hw : (c.receiversAt place).Moored)
    (h_t : place () = some (g, .entered)) (h : recvPark c g waker = (c', p')) :
    (c.receiversAt place).Step (c'.receiversAt (Function.update place () p'.queuePlace)) := by
  obtain ⟨-, h_linked⟩ := hw.placed () g .entered h_t
  simp only [recvPark] at h
  split at h
  · next h_registered =>
      cases h
      exact Waiters.step_on .settling hw h_t .skip (.inl rfl) rfl rfl
        fun _ => h_registered
  · next h_unregistered =>
      cases h
      have h_free : (c.recvWaiters.nodes g).linked = false :=
        Bool.eq_false_iff.mpr fun h => h_unregistered (h_linked h)
      refine Waiters.step_on .preparing hw h_t (.setWaker g waker) (.inr rfl) rfl rfl
        fun _ => ?_
      simpa [PollStage.Fits, Waiters.Flags.view, RecvFuture.queueFlags, WaitQueue.setWaker,
        modify_nodes, h_free] using h_unregistered

omit [DecidableEq SF] in
/-- The start of a call of the consumer. -/
theorem receivers_start {a : RecvAction RF Waker} (hw : (c.receiversAt place).Moored)
    (h_t : place () = none) (h : recvStart c a = some (c', p')) :
    (c.receiversAt place).Step (c'.receiversAt (Function.update place () p'.queuePlace)) := by
  cases a with
  | tryRecv =>
      cases h
      refine Waiters.step_aside .skip (fun _ => ⟨rfl, rfl⟩) ?_
      rw [h_t]
      split <;> rfl
  | poll g waker =>
      simp only [recvStart] at h
      split at h
      · next h_status =>
          have h_not : (c.recvFutures g).status ≠ .polling ∧
              (c.recvFutures g).status ≠ .dropped := by
            rcases h_status with h_status | h_status <;> rw [h_status] <;> decide
          have h_linked : (c.recvWaiters.nodes g).linked = true →
              (c.recvFutures g).registered = true := hw.registered_of_linked h_not.1
          cases h
          refine Waiters.step_act (.inr ⟨h_t, h_not⟩) .skip (.inl rfl) rfl trivial
            (.inr ⟨.entered, ?_, rfl, h_linked⟩)
          split <;> rfl
      · exact absurd h (by simp)
  | dropFuture g =>
      have h_drop : (c.recvFutures g).status ≠ .polling ∧ (c.recvFutures g).status ≠ .dropped ∧
          recvDrop c g = (c', p') := by
        simp only [recvStart] at h
        cases h_status : (c.recvFutures g).status <;> simp only [h_status, reduceCtorEq] at h
        all_goals exact ⟨by simp, by simp, Option.some.inj h⟩
      obtain ⟨h_not, h_there, h_drop⟩ := h_drop
      simp only [recvDrop] at h_drop
      split at h_drop
      · cases h_drop
        refine Waiters.step_act (.inr ⟨h_t, h_not, h_there⟩) (.remove g) (.inr rfl) rfl ?_
          (.inl ⟨?_, by simp [RecvFuture.queueFlags]⟩)
        · simp [Rests, Waiters.Flags.view, RecvFuture.queueFlags, removeSection_linked]
        · split <;> rfl
      · next h_unregistered =>
          cases h_drop
          have h_free : (c.recvWaiters.nodes g).linked = false :=
            Bool.eq_false_iff.mpr fun h => h_unregistered (hw.registered_of_linked h_not h)
          exact Waiters.step_act (.inr ⟨h_t, h_not, h_there⟩) .skip (.inl rfl) rfl h_free
            (.inl ⟨rfl, by simp [RecvFuture.queueFlags]⟩)
  | run => exact absurd h (by simp [recvStart])

/-- An operation inside a call of the consumer. -/
theorem receivers_run (h_plain : NoPriorities c.recvWaiters) (hw : (c.receiversAt place).Moored)
    (h_t : place () = p.queuePlace) (h : recvRun c p = some (c', p')) :
    (c.receiversAt place).Step (c'.receiversAt (Function.update place () p'.queuePlace)) := by
  cases p with
  | idle result => exact absurd h (by simp [recvRun])
  | tryClosed | claim call | clear call pos | read call pos | lenSub call value =>
      cases h
      exact Waiters.step_aside .skip (fun _ => ⟨rfl, rfl⟩) h_t.symm
  | wakeOne call value =>
      simp only [recvRun] at h
      split at h
      · refine receivers_woken hw h_t ?_ ?_ (Option.some.inj h) <;> rfl
      · cases h
        exact Waiters.step_aside .skip (fun _ => ⟨rfl, rfl⟩) h_t.symm
  | wakeLenSub call value f hasWaker =>
      simp only [recvRun, Option.some.injEq] at h
      split at h
      · cases h
        exact Waiters.step_aside .skip (fun _ => ⟨rfl, rfl⟩) h_t.symm
      · refine receivers_woken hw h_t ?_ ?_ h <;> rfl
  | wakeCall call value f =>
      simp only [recvRun, Option.some.injEq] at h
      refine receivers_woken hw h_t ?_ ?_ h <;> rfl
  | remove g after =>
      have h_free : ((c.recvWaiters.removeSection g).2.nodes g).linked = false := by
        rw [removeSection_linked, if_pos rfl]
      simp only [recvRun] at h
      split at h
      · cases h
        exact Waiters.step_on .leaving hw h_t (.remove g) (.inr rfl) rfl rfl
          fun _ => h_free
      · refine receivers_removed hw h_t ?_ (.inr rfl) ?_ ?_ (Option.some.inj h)
        · exact .remove g
        · rfl
        · exact h_free
  | removeLenSub g after =>
      obtain ⟨-, h_free⟩ := hw.placed () g .leaving h_t
      refine receivers_removed hw h_t ?_ (.inl rfl) ?_ ?_ (Option.some.inj h)
      · exact .lenSub
      · rfl
      · exact h_free
  | pollClosed g waker =>
      obtain ⟨-, h_linked⟩ := hw.placed () g .entered h_t
      simp only [recvRun] at h
      split at h
      · simp only [Option.some.injEq] at h
        split at h
        · next h_registered =>
            cases h
            exact Waiters.step_on .settling hw h_t .skip (.inl rfl) rfl rfl
              fun _ => h_registered
        · next h_unregistered =>
            refine receivers_ready h_t .skip (.inl rfl) rfl ?_ h
            exact Bool.eq_false_iff.mpr fun h => h_unregistered (h_linked h)
      · exact receivers_park hw h_t (Option.some.inj h)
  | enqueue g =>
      obtain ⟨-, h_free, -⟩ := hw.placed () g .preparing h_t
      simp only [recvRun, (h_plain.enqueueSection 0 g).1] at h
      cases h
      exact Waiters.step_on .joining hw h_t (.enqueue g h_free) (.inr rfl) rfl rfl
        fun _ => trivial
  | enqueueLenAdd g =>
      obtain ⟨h_polling, -⟩ := hw.placed () g .joining h_t
      cases h
      exact Waiters.step_go .settling h_t .lenAdd (.inl rfl) rfl h_polling rfl rfl
  | setWaker g waker =>
      cases h
      exact Waiters.step_on .settling hw h_t (.setWaker g waker) (.inr rfl) rfl rfl id
  | recheckLen g =>
      cases h
      refine Waiters.step_on .settling hw h_t .skip (.inl rfl) rfl ?_ id
      split <;> rfl
  | recheckClosed g =>
      obtain ⟨-, h_registered⟩ := hw.placed () g .settling h_t
      simp only [recvRun] at h
      split at h <;> cases h
      · exact Waiters.step_on _ hw h_t .skip (.inl rfl) rfl rfl id
      · exact Waiters.step_act (.inl ⟨_, h_t⟩) .skip (.inl rfl) rfl h_registered
          (.inl ⟨rfl, by simp [RecvFuture.queueFlags]⟩)
  | dropLenSub g =>
      cases h
      exact Waiters.step_aside .lenSub (fun _ => ⟨rfl, rfl⟩) h_t.symm

theorem receivers_step {a : RecvAction RF Waker} (h_plain : NoPriorities c.recvWaiters)
    (hw : (c.receiversAt place).Moored) (h_t : place () = p.queuePlace)
    (h : recvStep c p a = some (c', p')) :
    (c.receiversAt place).Step (c'.receiversAt (Function.update place () p'.queuePlace)) := by
  rcases recvStep_cases h with ⟨h_none, h_start⟩ | h_run
  · exact receivers_start hw (h_t.trans h_none) h_start
  · exact receivers_run h_plain hw h_t h_run

end Receivers

-- ============================================================================
-- Runs
-- ============================================================================

variable [DecidableEq Producer] {capacity : Capacity} {values : SF → V}
  {s s' : State Producer SF RF Waker V}

/-- `send_waiters` and the producers that use it. -/
def senders (s : State Producer SF RF Waker V) : Waiters Producer SF Waker :=
  s.shared.sendersAt (SendPc.queuePlace ∘ s.thread)

/-- `recv_waiters` and the consumer. -/
def receivers (s : State Producer SF RF Waker V) : Waiters Unit RF Waker :=
  s.shared.receiversAt fun _ => s.owner.queuePlace

/-- What a step does to both queues. -/
theorem waiters_step {l : Action Producer SF RF Waker V} (h_plain : PlainQueues s.shared)
    (h_send : (senders s).Moored) (h_recv : (receivers s).Moored)
    (h_step : (machine Producer RF Waker capacity values).step s l = some s') :
    (senders s).Step (senders s') ∧ (receivers s).Step (receivers s') := by
  rcases l with a | ⟨t, a⟩
  · obtain ⟨c, p, h_task, rfl⟩ := OwnerAndThreads.step_owner_eq_some h_step
    obtain ⟨h_queue, h_futures⟩ := recvStep_wakesSend h_task
    refine ⟨.wake h_queue (funext fun f => (h_futures f).1) (funext fun f => (h_futures f).2) rfl,
      ?_⟩
    have h_moved := receivers_step h_plain.recv h_recv rfl h_task
    have h_place : Function.update (fun _ => s.owner.queuePlace) () p.queuePlace =
        fun _ => p.queuePlace := funext fun _ => Function.update_self ..
    rwa [h_place] at h_moved
  · obtain ⟨c, p, h_task, rfl⟩ := OwnerAndThreads.step_thread_eq_some h_step
    obtain ⟨h_queue, h_futures⟩ := sendStep_wakesRecv h_task
    refine ⟨?_,
      .wake h_queue (funext fun f => (h_futures f).1) (funext fun f => (h_futures f).2) rfl⟩
    have h_moved := senders_step (t := t) h_plain.send h_send rfl h_task
    rwa [← Function.comp_update] at h_moved

end Channel
end Zydon
