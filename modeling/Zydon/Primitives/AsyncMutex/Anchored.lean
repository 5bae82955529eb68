/-
  Zydon.Primitives.AsyncMutex.Anchored

  The lock futures whose nodes the queue of an async mutex points to, over every
  interleaving.

  `wait_node` is a field of `MutexLockFuture`, and `enqueue` a raw pointer to it.
  No task ever follows such a pointer to a future that has been dropped, and none
  writes to the memory of one.
-/

import Zydon.Primitives.AsyncMutex.Progress
import Zydon.Primitives.WaitQueue.Anchored

namespace Zydon
namespace AsyncMutex

open Lib WaitQueue

variable {Task Fut Waker : Type*}

/-- The future that a task polls, and how far it is. -/
def Pc.place : Pc Fut → Option (Fut × PollStage)
  | .pollStore f | .pollEnqueue f => some (f, .preparing)
  | .pollLenAdd f => some (f, .joining)
  | .boostLoad f | .boostExchange f _ | .pollRetry f | .pollRemove f => some (f, .settling)
  | .pollLenSub f => some (f, .leaving)
  | .idle | .unlockIsEmpty | .unlockSwap | .unlockStore | .wakeOne | .wakeLenSub _ _
  | .wakeCall _ | .dropLenSub _ => none

/-- The flags of a lock future. -/
def LockFuture.flags : Waiters.Flags LockFuture where
  status x := x.status
  registered x := x.registered

/-- The queue of the mutex `m`, with tasks at `place`. -/
def Mutex.waitersAt (m : Mutex Fut Waker) (place : Task → Option (Fut × PollStage)) :
    Waiters Task Fut Waker :=
  .of LockFuture.flags m.waiters m.futures place

variable [DecidableEq Task] [DecidableEq Fut] {m m' : Mutex Fut Waker}
  {place : Task → Option (Fut × PollStage)} {t : Task} {p p' : Pc Fut} {f : Fut} {stage : PollStage}

-- ============================================================================
-- The steps
-- ============================================================================

/-- The start of a poll. -/
theorem step_pollStart {waker : Waker} (hw : (m.waitersAt place).Moored) (h_t : place t = none)
    (h_status : (m.futures f).status = .fresh ∨ (m.futures f).status = .pending)
    (h : pollStart m f waker = (m', p')) :
    (m.waitersAt place).Step (m'.waitersAt (Function.update place t p'.place)) := by
  have h_not : (m.futures f).status ≠ .polling ∧ (m.futures f).status ≠ .dropped := by
    rcases h_status with h_status | h_status <;> rw [h_status] <;> decide
  have h_linked : (m.waiters.nodes f).linked = true → (m.futures f).registered = true :=
    hw.registered_of_linked h_not.1
  simp only [pollStart] at h
  split at h
  · cases h
    exact Waiters.step_act (.inr ⟨h_t, h_not⟩) .skip (.inl rfl) rfl h_linked
      (.inl ⟨rfl, by simp [LockFuture.flags]⟩)
  · split at h
    · next h_registered =>
        cases h
        replace h_registered : (m.futures f).registered = true := by
          simpa [Mutex.setFuture] using h_registered
        exact Waiters.step_act (.inr ⟨h_t, h_not⟩) .skip (.inl rfl) rfl trivial
          (.inr ⟨.settling, rfl, rfl, h_registered⟩)
    · next h_unregistered =>
        cases h
        replace h_unregistered : (m.futures f).registered = false := by
          simpa [Mutex.setFuture] using h_unregistered
        have h_free : (m.waiters.nodes f).linked = false :=
          Bool.eq_false_iff.mpr fun h => absurd (h_unregistered.symm.trans (h_linked h)) (by simp)
        refine Waiters.step_act (.inr ⟨h_t, h_not⟩) (.setPriority f waker 0) (.inr rfl) rfl trivial
          (.inr ⟨.preparing, rfl, rfl, ?_⟩)
        simp [PollStage.Fits, Waiters.Flags.view, LockFuture.flags, Mutex.setFuture,
          WaitQueue.setWaker, WaitQueue.setPriority, modify_nodes, h_free, h_unregistered]

/-- The drop of a future. -/
theorem step_dropFuture (hw : (m.waitersAt place).Moored) (h_t : place t = none)
    (h_not : (m.futures f).status ≠ .polling) (h_there : (m.futures f).status ≠ .dropped)
    (h : dropFuture m f = (m', p')) :
    (m.waitersAt place).Step (m'.waitersAt (Function.update place t p'.place)) := by
  simp only [dropFuture] at h
  split at h
  · cases h
    refine Waiters.step_act (.inr ⟨h_t, h_not, h_there⟩) (.remove f) (.inr rfl) rfl ?_
      (.inl ⟨?_, by simp [LockFuture.flags]⟩)
    · simp [Rests, Waiters.Flags.view, LockFuture.flags, removeSection_linked]
    · split <;> rfl
  · next h_unregistered =>
      cases h
      have h_free : (m.waiters.nodes f).linked = false :=
        Bool.eq_false_iff.mpr fun h => h_unregistered (hw.registered_of_linked h_not h)
      exact Waiters.step_act (.inr ⟨h_t, h_not, h_there⟩) .skip (.inl rfl) rfl h_free
        (.inl ⟨rfl, by simp [LockFuture.flags]⟩)

/-- The start of a call. -/
theorem step_startCall {a : Action Fut Waker} (hw : (m.waitersAt place).Moored)
    (h_t : place t = none) (h : startCall m a = some (m', p')) :
    (m.waitersAt place).Step (m'.waitersAt (Function.update place t p'.place)) := by
  cases a with
  | tryLock =>
      cases h
      refine Waiters.step_aside ?_ (fun f => ?_) h_t.symm
      · rw [tryLock]
        split <;> exact .skip
      · rw [tryLock]
        split <;> exact ⟨rfl, rfl⟩
  | poll f waker =>
      simp only [startCall] at h
      split at h
      · next h_status => exact step_pollStart hw h_t h_status (Option.some.inj h)
      · exact absurd h (by simp)
  | dropGuard =>
      simp only [startCall] at h
      split at h <;> cases h
      exact Waiters.step_aside .skip (fun _ => ⟨rfl, rfl⟩) h_t.symm
  | dropFuture f =>
      simp only [startCall] at h
      cases h_status : (m.futures f).status <;> simp only [h_status, reduceCtorEq] at h
      all_goals
        exact step_dropFuture hw h_t (by simp [h_status]) (by simp [h_status]) (Option.some.inj h)
  | run | spurious => exact absurd h (by simp [startCall])

/-- One operation inside a call. -/
theorem step_runCall (h_plain : NoPriorities m.waiters) (hw : (m.waitersAt place).Moored)
    (h_t : place t = p.place) (h : runCall m p = some (m', p')) :
    (m.waitersAt place).Step (m'.waitersAt (Function.update place t p'.place)) := by
  cases p with
  | idle => exact absurd h (by simp [runCall])
  | pollStore f =>
      cases h
      exact Waiters.step_on _ hw h_t .skip (.inl rfl) rfl rfl id
  | pollEnqueue f =>
      obtain ⟨-, h_free, -⟩ := hw.placed t f .preparing h_t
      simp only [runCall, (h_plain.enqueueSection 0 f).1] at h
      cases h
      exact Waiters.step_on .joining hw h_t (.enqueue f h_free) (.inr rfl) rfl rfl
        fun _ => trivial
  | pollLenAdd f =>
      obtain ⟨h_polling, -⟩ := hw.placed t f .joining h_t
      cases h
      exact Waiters.step_go .settling h_t .lenAdd (.inl rfl) rfl h_polling rfl rfl
  | boostLoad f | boostExchange f current =>
      simp only [runCall] at h
      split at h <;> cases h <;> exact Waiters.step_on _ hw h_t .skip (.inl rfl) rfl rfl id
  | pollRetry f =>
      obtain ⟨-, h_registered⟩ := hw.placed t f .settling h_t
      replace h_registered : (m.futures f).registered = true := h_registered
      simp only [runCall, pollRetry, h_registered, if_true] at h
      split at h
      · cases h
        exact Waiters.step_on _ hw h_t .skip (.inl rfl) rfl rfl id
      · cases h
        exact Waiters.step_act (.inl ⟨_, h_t⟩) .skip (.inl rfl) rfl h_registered
          (.inl ⟨rfl, by simp [LockFuture.flags]⟩)
  | pollRemove f =>
      have h_free : ((m.waiters.removeSection f).2.nodes f).linked = false := by
        rw [removeSection_linked, if_pos rfl]
      simp only [runCall] at h
      split at h
      · cases h
        exact Waiters.step_on .leaving hw h_t (.remove f) (.inr rfl) rfl rfl
          fun _ => h_free
      · cases h
        exact Waiters.step_ready h_t (.remove f) (.inr rfl) (Function.update_idem ..) rfl rfl h_free
  | pollLenSub f =>
      obtain ⟨-, h_free⟩ := hw.placed t f .leaving h_t
      cases h
      exact Waiters.step_ready h_t .lenSub (.inl rfl) (Function.update_idem ..) rfl rfl h_free
  | unlockIsEmpty =>
      cases h
      refine Waiters.step_aside .skip (fun _ => ⟨rfl, rfl⟩) ?_
      rw [h_t]
      split <;> rfl
  | unlockSwap | unlockStore =>
      cases h
      exact Waiters.step_aside .skip (fun _ => ⟨rfl, rfl⟩) h_t.symm
  | wakeOne =>
      have h_wake : Operation m.waiters none m.waiters.wakeOneSection.2 := .wakeOne
      simp only [runCall] at h
      split at h <;> cases h <;> next h_section =>
        rw [h_section] at h_wake
        exact Waiters.step_aside h_wake (fun _ => ⟨rfl, rfl⟩) h_t.symm
  | wakeLenSub g hasWaker =>
      cases h
      refine Waiters.step_aside .lenSub (fun _ => ⟨rfl, rfl⟩) ?_
      rw [h_t]
      split <;> rfl
  | wakeCall g =>
      cases h
      refine Waiters.step_aside .skip (fun f => ?_) h_t.symm
      by_cases h_f : f = g
      · subst h_f
        simp [LockFuture.flags, Mutex.setFuture]
      · simp [LockFuture.flags, Mutex.setFuture, h_f]
  | dropLenSub g =>
      cases h
      exact Waiters.step_aside .lenSub (fun _ => ⟨rfl, rfl⟩) h_t.symm

/-- Every step of a task is one that the queue allows. -/
theorem step_waiters {a : Action Fut Waker} (h_plain : NoPriorities m.waiters)
    (hw : (m.waitersAt place).Moored) (h_t : place t = p.place)
    (h : step m p a = some (m', p')) :
    (m.waitersAt place).Step (m'.waitersAt (Function.update place t p'.place)) := by
  by_cases h_idle : p = .idle
  · subst h_idle
    exact step_startCall hw h_t h
  · by_cases h_run : a = .run
    · subst h_run
      have h_step : step m p .run = runCall m p := by
        cases p <;> first | exact absurd rfl h_idle | rfl
      exact step_runCall h_plain hw h_t (h_step ▸ h)
    · -- what is left is a spurious failure
      obtain ⟨f, current, rfl, rfl, rfl⟩ : ∃ f current,
          p = .boostExchange f current ∧ m' = m ∧ p' = .boostLoad f := by
        cases p <;> cases a <;> simp [step] at h h_idle h_run
        exact ⟨_, _, rfl, h.1.symm, h.2.symm⟩
      exact Waiters.step_on _ hw h_t .skip (.inl rfl) rfl rfl id

-- ============================================================================
-- Runs
-- ============================================================================

/-- The queue of the mutex and the tasks that use it. -/
def waiters (s : Threads Task (Mutex Fut Waker) (Pc Fut)) : Waiters Task Fut Waker :=
  s.shared.waitersAt (Pc.place ∘ s.pc)

theorem waiters_step {s s' : Threads Task (Mutex Fut Waker) (Pc Fut)} {l : Task × Action Fut Waker}
    (h_plain : NoPriorities s.shared.waiters) (hw : (waiters s).Moored)
    (h_step : (machine Task Fut Waker).step s l = some s') : (waiters s).Step (waiters s') := by
  obtain ⟨t, a⟩ := l
  obtain ⟨m, p, h_task, rfl⟩ := ThreadProgram.interleave_step_eq_some h_step
  have h_moved := step_waiters (t := t) h_plain hw rfl h_task
  rwa [← Function.comp_update] at h_moved

end AsyncMutex
end Zydon
