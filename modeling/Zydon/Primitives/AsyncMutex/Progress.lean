/-
  Zydon.Primitives.AsyncMutex.Progress

  No task ever gets stuck inside a call of the async mutex.

  The one operation of the model that could refuse to go on is `enqueue`, whose
  insertion loop has no fuel.  `poll` gives every node the priority `0`, so the
  loop is never entered (`run_enabled`).
-/

import Zydon.Primitives.AsyncMutex.Basic
import Zydon.Primitives.WaitQueue.Rep

namespace Zydon
namespace AsyncMutex

open Lib WaitQueue

variable {Task Fut Waker : Type*} [DecidableEq Task] [DecidableEq Fut]

/-- The start of a call gives no node another priority. -/
theorem startCall_noPriorities {m m' : Mutex Fut Waker} {a : Action Fut Waker} {p' : Pc Fut}
    (hm : NoPriorities m.waiters) (h : startCall m a = some (m', p')) :
    NoPriorities m'.waiters := by
  cases a with
  | tryLock =>
      cases h
      rw [tryLock]
      split <;> exact hm
  | poll f waker =>
      simp only [startCall, pollStart] at h
      split at h
      · split at h
        · cases h
          exact hm
        · split at h <;> cases h
          · exact hm
          · exact (hm.setWaker f waker).setPriority f
      · exact absurd h (by simp)
  | dropGuard =>
      simp only [startCall] at h
      split at h <;> cases h
      exact hm
  | dropFuture f =>
      have h_drop : ∀ {o : Mutex Fut Waker × Pc Fut}, dropFuture m f = o →
          NoPriorities o.1.waiters := by
        rintro o rfl
        rw [dropFuture]
        split
        · exact hm.removeSection f
        · exact hm
      simp only [startCall] at h
      split at h
      · exact h_drop (Option.some.inj h)
      · exact h_drop (Option.some.inj h)
      · exact h_drop (Option.some.inj h)
      · exact absurd h (by simp)
      · exact absurd h (by simp)
  | run | spurious => exact absurd h (by simp [startCall])

/-- An operation inside a call gives no node another priority. -/
theorem runCall_noPriorities {m m' : Mutex Fut Waker} {p p' : Pc Fut}
    (hm : NoPriorities m.waiters) (h : runCall m p = some (m', p')) : NoPriorities m'.waiters := by
  cases p with
  | idle => exact absurd h (by simp [runCall])
  | pollStore f | pollLenAdd f | pollLenSub f | unlockIsEmpty | unlockSwap | unlockStore
  | wakeLenSub f hasWaker | wakeCall f | dropLenSub f =>
      cases h
      exact hm
  | pollEnqueue f =>
      simp only [runCall, (hm.enqueueSection 0 f).1] at h
      cases h
      exact (hm.enqueueSection 0 f).2
  | boostLoad f | boostExchange f current =>
      simp only [runCall] at h
      split at h <;> cases h <;> exact hm
  | pollRetry f =>
      simp only [runCall, pollRetry] at h
      split at h
      · split at h <;> cases h <;> exact hm
      · cases h
        exact hm
  | pollRemove f =>
      simp only [runCall] at h
      split at h <;> cases h <;> exact hm.removeSection f
  | wakeOne =>
      have h_wake := hm.wakeOneSection
      simp only [runCall] at h
      split at h <;> next h_section =>
        rw [h_section] at h_wake
        cases h
        exact h_wake

theorem step_noPriorities {m m' : Mutex Fut Waker} {p p' : Pc Fut} {a : Action Fut Waker}
    (hm : NoPriorities m.waiters) (h : step m p a = some (m', p')) : NoPriorities m'.waiters := by
  cases p <;> cases a <;> simp only [step] at h
  all_goals first
    | exact startCall_noPriorities hm h
    | exact runCall_noPriorities hm h
    | cases h
  -- the exchange that fails spuriously
  exact hm

theorem noPriorities_of_reachable {s : Threads Task (Mutex Fut Waker) (Pc Fut)}
    (h : (machine Task Fut Waker).Reachable s) : NoPriorities s.shared.waiters := by
  apply h.invariant (P := fun s => NoPriorities s.shared.waiters) NoPriorities.new
  rintro s ⟨t, a⟩ s' hs h_step
  obtain ⟨m, p, h_task, rfl⟩ := ThreadProgram.interleave_step_eq_some h_step
  exact step_noPriorities hs h_task

/-- In every reachable state, a task that is inside a call can go on. -/
theorem run_enabled {s : Threads Task (Mutex Fut Waker) (Pc Fut)}
    (h : (machine Task Fut Waker).Reachable s) {t : Task} (h_pc : s.pc t ≠ .idle) :
    ∃ s', (machine Task Fut Waker).step s (t, .run) = some s' := by
  have h_queue := noPriorities_of_reachable h
  obtain ⟨⟨m, p⟩, h_run⟩ : ∃ o, runCall s.shared (s.pc t) = some o := by
    cases h_p : s.pc t with
    | idle => exact absurd h_p h_pc
    | pollEnqueue f => exact ⟨_, by rw [runCall, (h_queue.enqueueSection 0 f).1]⟩
    | boostLoad f | boostExchange f current | pollRemove f =>
        simp only [runCall]
        split <;> exact ⟨_, rfl⟩
    | wakeOne =>
        simp only [runCall]
        split <;> exact ⟨_, rfl⟩
    | _ => exact ⟨_, rfl⟩
  have h_step : step s.shared (s.pc t) .run = some (m, p) := by
    cases h_p : s.pc t with
    | idle => exact absurd h_p h_pc
    | _ => rw [h_p] at h_run; exact h_run
  exact ⟨{ shared := m, pc := Function.update s.pc t p }, by
    simp only [machine, ThreadProgram.interleave, program, h_step]⟩

end AsyncMutex
end Zydon
