/-
  Zydon.Primitives.AsyncMutex.Order

  In what order the waiters of an async mutex are woken, over every interleaving.

  The queue is ordered by priority, and `apply_priority_inheritance` is to raise the
  holder to the priority of a waiter.  But `poll` gives every node the priority `0`:
  the waiters are woken in the order in which they were enqueued, `holder_priority`
  stays `0`, and its exchange is never reached.
-/

import Zydon.Lib.History
import Zydon.Primitives.AsyncMutex.Anchored

namespace Zydon
namespace AsyncMutex

open Lib WaitQueue

variable {Task Fut Waker : Type*}

-- ============================================================================
-- The order of enqueuing
-- ============================================================================

section Model

variable [DecidableEq Task] [DecidableEq Fut]

/-- The futures that have been enqueued, the first one first. -/
def noteEnqueue (s : Threads Task (Mutex Fut Waker) (Pc Fut)) (l : Task × Action Fut Waker)
    (_ : Threads Task (Mutex Fut Waker) (Pc Fut)) (enqueued : List Fut) : List Fut :=
  match s.pc l.1 with
  | .pollEnqueue f => if l.2 matches .run then enqueued ++ [f] else enqueued
  | _ => enqueued

end Model

variable [DecidableEq Fut] {m m' : Mutex Fut Waker} {p p' : Pc Fut} {a : Action Fut Waker} {f : Fut}
  {l : List Fut}

-- ============================================================================
-- Boosts
-- ============================================================================

/-- Nobody comes to the exchange of `holder_priority`. -/
theorem step_holder (h_plain : NoPriorities m.waiters) (h_holder : m.holderPriority = 0)
    (h_p : ∀ f current, p ≠ .boostExchange f current) (h : step m p a = some (m', p')) :
    m'.holderPriority = 0 ∧ ∀ f current, p' ≠ .boostExchange f current := by
  by_cases h_idle : p = .idle
  · subst h_idle
    replace h : startCall m a = some (m', p') := h
    cases a with
    | tryLock =>
        cases h
        refine ⟨?_, by simp⟩
        rw [tryLock]
        split <;> exact h_holder
    | poll f waker =>
        simp only [startCall] at h
        split at h
        · simp only [pollStart, Option.some.injEq] at h
          split at h
          · cases h
            exact ⟨h_holder, by simp⟩
          · split at h <;> cases h <;> exact ⟨h_holder, by simp⟩
        · exact absurd h (by simp)
    | dropGuard =>
        simp only [startCall] at h
        split at h <;> cases h
        exact ⟨rfl, by simp⟩
    | dropFuture f =>
        have h_drop : dropFuture m f = (m', p') := by
          simp only [startCall] at h
          cases h_status : (m.futures f).status <;> simp only [h_status, reduceCtorEq] at h
          all_goals exact Option.some.inj h
        simp only [dropFuture] at h_drop
        split at h_drop
        · cases h_drop
          refine ⟨h_holder, fun g current => ?_⟩
          split <;> simp
        · cases h_drop
          exact ⟨h_holder, by simp⟩
    | run | spurious => exact absurd h (by simp [startCall])
  · have h_run : runCall m p = some (m', p') := by
      cases p <;> cases a <;> simp only [step, reduceCtorEq] at h
      all_goals first
        | exact h
        | exact absurd rfl h_idle
        | exact absurd rfl (h_p _ _)
    cases p with
    | idle => exact absurd rfl h_idle
    | boostExchange f current => exact absurd rfl (h_p f current)
    | boostLoad f =>
        simp only [runCall, h_holder, h_plain f] at h_run
        cases h_run
        exact ⟨h_holder, by simp⟩
    | pollStore f | pollLenAdd f | pollLenSub f | unlockSwap | unlockStore | wakeCall f
    | dropLenSub f =>
        cases h_run
        exact ⟨h_holder, by simp⟩
    | pollEnqueue f =>
        simp only [runCall] at h_run
        split at h_run <;> cases h_run
        exact ⟨h_holder, by simp⟩
    | pollRetry f =>
        simp only [runCall, pollRetry, Option.some.injEq] at h_run
        split at h_run
        · split at h_run <;> cases h_run <;> exact ⟨h_holder, by simp⟩
        · cases h_run
          exact ⟨h_holder, by simp⟩
    | pollRemove f =>
        simp only [runCall] at h_run
        split at h_run <;> cases h_run <;> exact ⟨h_holder, by simp⟩
    | unlockIsEmpty =>
        cases h_run
        refine ⟨h_holder, fun g current => ?_⟩
        split <;> simp
    | wakeOne =>
        simp only [runCall] at h_run
        split at h_run <;> cases h_run <;> exact ⟨h_holder, by simp⟩
    | wakeLenSub f hasWaker =>
        cases h_run
        refine ⟨h_holder, fun g current => ?_⟩
        split <;> simp

-- ============================================================================
-- The line
-- ============================================================================

/-- What a step does to the line of the queue. -/
inductive LineEffect (p : Pc Fut) (a : Action Fut Waker) (l : List Fut) : List Fut → Prop
  | joined (f : Fut) : p = .pollEnqueue f → a = .run → LineEffect p a l (l ++ [f])
  | left {l' : List Fut} : (∀ f, p = .pollEnqueue f → a ≠ .run) → l'.Sublist l →
      LineEffect p a l l'

theorem startCall_line (hq : Rep m.waiters l) (h : startCall m a = some (m', p')) :
    ∃ l', Rep m'.waiters l' ∧ LineEffect .idle a l l' := by
  have h_same : Rep m'.waiters l → ∃ l', Rep m'.waiters l' ∧ LineEffect .idle a l l' :=
    fun h => ⟨l, h, .left (by simp) (List.Sublist.refl l)⟩
  cases a with
  | tryLock =>
      cases h
      apply h_same
      rw [tryLock]
      split <;> exact hq
  | poll f waker =>
      simp only [startCall] at h
      split at h
      · simp only [pollStart, Option.some.injEq] at h
        split at h
        · cases h
          exact h_same hq
        · split at h <;> cases h
          · exact h_same hq
          · exact h_same ((hq.setWaker f waker).setPriority f 0)
      · exact absurd h (by simp)
  | dropGuard =>
      simp only [startCall] at h
      split at h <;> cases h
      exact h_same hq
  | dropFuture f =>
      have h_drop : dropFuture m f = (m', p') := by
        simp only [startCall] at h
        cases h_status : (m.futures f).status <;> simp only [h_status, reduceCtorEq] at h
        all_goals exact Option.some.inj h
      simp only [dropFuture] at h_drop
      split at h_drop <;> cases h_drop
      · exact ⟨_, hq.removeSection f, .left (by simp) List.erase_sublist⟩
      · exact h_same hq
  | run | spurious => exact absurd h (by simp [startCall])

theorem runCall_line (h_plain : NoPriorities m.waiters) (hq : Rep m.waiters l)
    (h_free : ∀ f, p = .pollEnqueue f → (m.waiters.nodes f).linked = false)
    (h : runCall m p = some (m', p')) : ∃ l', Rep m'.waiters l' ∧
      LineEffect p (.run : Action Fut Waker) l l' := by
  have h_same : (∀ f, p ≠ .pollEnqueue f) → Rep m'.waiters l →
      ∃ l', Rep m'.waiters l' ∧ LineEffect p (.run : Action Fut Waker) l l' :=
    fun h_p h => ⟨l, h, .left (fun f h_f => absurd h_f (h_p f)) (List.Sublist.refl l)⟩
  cases p with
  | idle => exact absurd h (by simp [runCall])
  | pollEnqueue f =>
      simp only [runCall, (h_plain.enqueueSection 0 f).1] at h
      cases h
      exact ⟨_, hq.link (h_free f rfl), .joined f rfl rfl⟩
  | pollStore f | unlockIsEmpty | unlockSwap | unlockStore | wakeCall f =>
      cases h
      exact h_same (by simp) hq
  | pollLenAdd f =>
      cases h
      exact h_same (by simp) hq.lenAdd
  | pollLenSub f | wakeLenSub f hasWaker | dropLenSub f =>
      cases h
      exact h_same (by simp) hq.lenSub
  | boostLoad f | boostExchange f current =>
      simp only [runCall] at h
      split at h <;> cases h <;> exact h_same (by simp) hq
  | pollRetry f =>
      simp only [runCall, pollRetry, Option.some.injEq] at h
      split at h
      · split at h <;> cases h <;> exact h_same (by simp) hq
      · cases h
        exact h_same (by simp) hq
  | pollRemove f =>
      simp only [runCall] at h
      split at h <;> cases h <;>
        exact ⟨_, hq.removeSection f, .left (by simp) List.erase_sublist⟩
  | wakeOne =>
      simp only [runCall] at h
      cases l with
      | nil =>
          rw [wakeOneSection_nil hq] at h
          cases h
          exact h_same (by simp) hq
      | cons node l =>
          obtain ⟨q, h_section, -, h_q, -⟩ := wakeOneSection_head hq hq.head_eq
          rw [h_section] at h
          cases h
          exact ⟨l, h_q, .left (by simp) (List.sublist_cons_self node l)⟩

/-- A step lets the future join the line that it enqueues, or some leave. -/
theorem step_line (h_plain : NoPriorities m.waiters) (hq : Rep m.waiters l)
    (h_free : ∀ f, p = .pollEnqueue f → (m.waiters.nodes f).linked = false)
    (h : step m p a = some (m', p')) : ∃ l', Rep m'.waiters l' ∧ LineEffect p a l l' := by
  cases p <;> cases a <;> simp only [step, reduceCtorEq] at h
  case boostExchange.spurious f current =>
    cases h
    exact ⟨l, hq, .left (by simp) (List.Sublist.refl l)⟩
  all_goals first
    | exact startCall_line hq h
    | exact runCall_line h_plain hq h_free h

-- ============================================================================
-- New futures
-- ============================================================================

/-- Only a future that is new, or whose node is about to be enqueued already, is
    about to be enqueued. -/
theorem step_preparing (h : step m p a = some (m', p')) (h_p' : p'.place = some (f, .preparing)) :
    p.place = some (f, .preparing) ∧ (∀ g, p ≠ .pollEnqueue g) ∨
      p = .idle ∧ (m.futures f).registered = false ∧
        ((m.futures f).status = .fresh ∨ (m.futures f).status = .pending) := by
  by_cases h_idle : p = .idle
  · subst h_idle
    replace h : startCall m a = some (m', p') := h
    cases a with
    | tryLock =>
        cases h
        exact absurd h_p' (by simp [Pc.place])
    | poll g waker =>
        simp only [startCall] at h
        split at h
        · next h_status =>
            simp only [pollStart, Option.some.injEq] at h
            split at h
            · cases h
              exact absurd h_p' (by simp [Pc.place])
            · split at h
              · cases h
                exact absurd h_p' (by simp [Pc.place])
              · next h_registered =>
                  cases h
                  obtain rfl : g = f := by simpa [Pc.place] using h_p'
                  exact .inr ⟨rfl, by simpa [Mutex.setFuture] using h_registered, h_status⟩
        · exact absurd h (by simp)
    | dropGuard =>
        simp only [startCall] at h
        split at h <;> cases h
        exact absurd h_p' (by simp [Pc.place])
    | dropFuture g =>
        have h_drop : dropFuture m g = (m', p') := by
          simp only [startCall] at h
          cases h_status : (m.futures g).status <;> simp only [h_status, reduceCtorEq] at h
          all_goals exact Option.some.inj h
        simp only [dropFuture] at h_drop
        split at h_drop <;> cases h_drop
        · split at h_p' <;> exact absurd h_p' (by simp [Pc.place])
        · exact absurd h_p' (by simp [Pc.place])
    | run | spurious => exact absurd h (by simp [startCall])
  · cases p with
    | idle => exact absurd rfl h_idle
    | pollStore g =>
        cases a <;> simp only [step, runCall, reduceCtorEq, Option.some.injEq] at h
        cases h
        exact .inl ⟨h_p', by simp⟩
    | _ =>
        exfalso
        cases a <;> simp only [step, runCall, pollRetry, pollRemoved, Mutex.ready, reduceCtorEq,
          Option.some.injEq] at h
        all_goals
          repeat' split at h
        all_goals cases h
        all_goals exact absurd h_p' (by simp [Pc.place])

-- ============================================================================
-- The invariant
-- ============================================================================

/-- The invariant of the order: beside what is stated, that a future that has been
    enqueued is not new, and not about to be enqueued. -/
structure OrderInv (s : Threads Task (Mutex Fut Waker) (Pc Fut)) (enqueued : List Fut) : Prop where
  plain : NoPriorities s.shared.waiters
  moored : (waiters s).Moored
  once : enqueued.Nodup
  line : ∃ l, Rep s.shared.waiters l ∧ l.Sublist enqueued
  used : ∀ f ∈ enqueued, (s.shared.futures f).status ≠ .fresh ∧
    ∀ t, (s.pc t).place ≠ some (f, .preparing)
  holder : s.shared.holderPriority = 0
  noBoost : ∀ t f current, s.pc t ≠ .boostExchange f current

variable [DecidableEq Task]

theorem OrderInv.step {s s' : Threads Task (Mutex Fut Waker) (Pc Fut)} {enqueued : List Fut}
    {i : Task × Action Fut Waker} (hs : OrderInv s enqueued)
    (h_step : (machine Task Fut Waker).step s i = some s') :
    OrderInv s' (noteEnqueue s i s' enqueued) := by
  have h_moved := waiters_step hs.plain hs.moored h_step
  have h_moored := hs.moored.step h_moved
  obtain ⟨t, a⟩ := i
  obtain ⟨m, p, h_task, rfl⟩ := ThreadProgram.interleave_step_eq_some h_step
  have h_free : ∀ f, s.pc t = .pollEnqueue f → (s.shared.waiters.nodes f).linked = false :=
    fun f h_pc => (hs.moored.placed t f .preparing (by simp [waiters, Mutex.waitersAt, Waiters.of,
      h_pc, Pc.place])).2.1
  obtain ⟨l, h_l, h_sub⟩ := hs.line
  obtain ⟨l', h_l', h_line⟩ := step_line hs.plain h_l h_free h_task
  obtain ⟨h_holder, h_noBoost⟩ := step_holder hs.plain hs.holder (hs.noBoost t) h_task
  -- who has been enqueued is used, and not about to be enqueued again
  have h_used : ∀ f ∈ enqueued, (m.futures f).status ≠ .fresh ∧
      ∀ u, (Function.update s.pc t p u).place ≠ some (f, .preparing) := by
    intro f h_f
    obtain ⟨h_status, h_not⟩ := hs.used f h_f
    refine ⟨h_moved.used (f := f) h_status, fun u => ?_⟩
    by_cases h_u : u = t
    · subst h_u
      rw [Function.update_self]
      intro h_p
      rcases step_preparing h_task h_p with ⟨h_old, -⟩ | ⟨-, h_unregistered, h_turn⟩
      · exact h_not u h_old
      · -- a future that is pending is registered
        have h_pending := h_turn.resolve_left h_status
        have h_rests := hs.moored.rests f
        simp only [Rests, Waiters.view, waiters, Mutex.waitersAt, Waiters.of, LockFuture.flags,
          Function.comp_apply, h_pending, h_unregistered] at h_rests
        exact absurd h_rests (by simp)
    · rw [Function.update_of_ne h_u]
      exact h_not u
  have h_boost : ∀ u f current, Function.update s.pc t p u ≠ .boostExchange f current := by
    intro u f current
    by_cases h_u : u = t
    · subst h_u
      rw [Function.update_self]
      exact h_noBoost f current
    · rw [Function.update_of_ne h_u]
      exact hs.noBoost u f current
  have h_plain := step_noPriorities hs.plain h_task
  cases h_line with
  | joined f h_pc h_run =>
      have h_at : (s.pc t).place = some (f, .preparing) := by
        rw [h_pc]
        rfl
      have h_new : f ∉ enqueued := fun h_f => (hs.used f h_f).2 t h_at
      have h_note : noteEnqueue s (t, a) ⟨m, Function.update s.pc t p⟩ enqueued =
          enqueued ++ [f] := by
        simp only [noteEnqueue, h_pc, h_run, if_true]
      rw [h_note]
      refine ⟨h_plain, h_moored, ?_, ⟨_, h_l', h_sub.append (List.Sublist.refl [f])⟩, ?_, h_holder,
        h_boost⟩
      · rw [List.nodup_append]
        refine ⟨hs.once, List.nodup_singleton f, fun g h_g g' h_g' => ?_⟩
        rintro rfl
        exact h_new (List.mem_singleton.mp h_g' ▸ h_g)
      · intro g h_g
        rcases List.mem_append.mp h_g with h_g | h_g
        · exact h_used g h_g
        · obtain rfl := List.mem_singleton.mp h_g
          have h_polling := (hs.moored.placed t g .preparing h_at).1
          refine ⟨h_moved.used (f := g) (by rw [h_polling]; decide), fun u h_u => ?_⟩
          -- it was this task that was about to enqueue it
          by_cases h_ut : u = t
          · subst h_ut
            change (Function.update s.pc u p u).place = _ at h_u
            rw [Function.update_self] at h_u
            rcases step_preparing h_task h_u with ⟨-, h_not⟩ | ⟨h_idle, -⟩
            · exact h_not g h_pc
            · exact absurd (h_pc.symm.trans h_idle) (by simp)
          · change (Function.update s.pc t p u).place = _ at h_u
            rw [Function.update_of_ne h_ut] at h_u
            exact h_ut (hs.moored.alone u t g .preparing .preparing h_u h_at)
  | left h_not h_sub' =>
      have h_note : noteEnqueue s (t, a) ⟨m, Function.update s.pc t p⟩ enqueued = enqueued := by
        simp only [noteEnqueue]
        split
        · next f h_pc =>
            have h_a := h_not f h_pc
            cases a <;> first | rfl | exact absurd rfl h_a
        · rfl
      rw [h_note]
      exact ⟨h_plain, h_moored, hs.once, ⟨_, h_l', h_sub'.trans h_sub⟩, h_used, h_holder, h_boost⟩

end AsyncMutex
end Zydon
