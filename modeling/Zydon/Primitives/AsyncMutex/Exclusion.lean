/-
  Zydon.Primitives.AsyncMutex.Exclusion

  The lock word of the async mutex, over every interleaving.

  Only the task that has moved `state` away from `UNLOCKED` owns the lock, and
  only its unlock puts `UNLOCKED` back: at most one guard is alive, whatever
  the contenders store in between (`atMostOneGuard_of_reachable`).

  The converse fails.  A contender stores `LOCKED_HAS_WAITERS` some time after
  it has found the lock taken; if the holder unlocks between the two, the
  store locks the mutex for nobody, and the exchanges of all later calls fail
  (`lateStore_locks_for_nobody`).  `unlocked_of_storesWhileLocked` covers the
  runs without such a store.
-/

import Zydon.Primitives.AsyncMutex.Basic

namespace Zydon
namespace AsyncMutex

open Lib

variable {Task Fut Waker : Type*}

-- ============================================================================
-- Ownership
-- ============================================================================

/-- The task owns the lock: it has a guard to return, or one that it drops. -/
def Pc.owns : Pc Fut → Bool
  | .pollRemove _ | .pollLenSub _ | .unlockIsEmpty | .unlockSwap | .unlockStore => true
  | _ => false

/-- The next operation of the task is the write of `unlock_inner` to `state`. -/
def Pc.unlocks : Pc Fut → Bool
  | .unlockSwap | .unlockStore => true
  | _ => false

/-- The task is in `poll` or `unlock_inner`. -/
def Pc.inPollOrUnlock : Pc Fut → Bool
  | .idle | .dropLenSub _ => false
  | _ => true

theorem Pc.inPollOrUnlock_of_owns {p : Pc Fut} (h : p.owns = true) : p.inPollOrUnlock = true := by
  cases p <;> simp_all [Pc.owns, Pc.inPollOrUnlock]

theorem Pc.owns_of_unlocks {p : Pc Fut} (h : p.unlocks = true) : p.owns = true := by
  cases p <;> simp_all [Pc.owns, Pc.unlocks]

-- ============================================================================
-- The invariant of the lock word
-- ============================================================================

/-- At most one guard is alive: one that a caller holds, one that a poll has
    still to return, or one whose drop has not written `state` yet. -/
structure AtMostOneGuard (s : Threads Task (Mutex Fut Waker) (Pc Fut)) : Prop where
  guards_le : s.shared.guards ≤ 1
  no_guard_of_owner : ∀ t, (s.pc t).owns = true → s.shared.guards = 0
  owner_unique : ∀ t u, (s.pc t).owns = true → (s.pc u).owns = true → t = u

/-- The invariant of the lock word. -/
structure LockInv (s : Threads Task (Mutex Fut Waker) (Pc Fut)) : Prop
    extends AtMostOneGuard s where
  /-- While the word is `UNLOCKED`, nobody owns the lock. -/
  unlocked_free : s.shared.state = unlocked → s.shared.guards = 0 ∧ ∀ t, (s.pc t).owns = false

/-- Neither the guards nor the owners change, and the word does not become
    `UNLOCKED`. -/
theorem LockInv.of_same {s s' : Threads Task (Mutex Fut Waker) (Pc Fut)} (hs : LockInv s)
    (h_state : s'.shared.state = s.shared.state ∨ s'.shared.state ≠ unlocked)
    (h_guards : s'.shared.guards = s.shared.guards)
    (h_owns : ∀ u, (s'.pc u).owns = (s.pc u).owns) : LockInv s' where
  guards_le := h_guards ▸ hs.guards_le
  no_guard_of_owner := fun u h_u => by
    rw [h_guards]
    exact hs.no_guard_of_owner u (h_owns u ▸ h_u)
  owner_unique := fun u v h_u h_v => hs.owner_unique u v (h_owns u ▸ h_u) (h_owns v ▸ h_v)
  unlocked_free := fun h_unlocked => by
    rcases h_state with h_state | h_state
    · obtain ⟨h_zero, h_none⟩ := hs.unlocked_free (h_state ▸ h_unlocked)
      exact ⟨h_guards.trans h_zero, fun u => (h_owns u).trans (h_none u)⟩
    · exact absurd h_unlocked h_state

/-- No task owns the lock; there is at most one guard, and none if the word is
    `UNLOCKED`. -/
theorem LockInv.of_nobody {s : Threads Task (Mutex Fut Waker) (Pc Fut)}
    (h_le : s.shared.guards ≤ 1) (h_free : s.shared.state = unlocked → s.shared.guards = 0)
    (h_nobody : ∀ u, (s.pc u).owns = false) : LockInv s where
  guards_le := h_le
  no_guard_of_owner := fun u h_u => absurd h_u (by simp [h_nobody])
  owner_unique := fun u _ h_u => absurd h_u (by simp [h_nobody])
  unlocked_free := fun h_unlocked => ⟨h_free h_unlocked, h_nobody⟩

/-- One task owns the lock, which is locked, and there is no guard. -/
theorem LockInv.of_owner {s : Threads Task (Mutex Fut Waker) (Pc Fut)} {t : Task}
    (h_zero : s.shared.guards = 0) (h_locked : s.shared.state ≠ unlocked)
    (h_only : ∀ u, (s.pc u).owns = true → u = t) : LockInv s where
  guards_le := h_zero ▸ Nat.zero_le 1
  no_guard_of_owner := fun _ _ => h_zero
  owner_unique := fun u v h_u h_v => (h_only u h_u).trans (h_only v h_v).symm
  unlocked_free := fun h_unlocked => absurd h_unlocked h_locked

/-- Without a guard in the hands of a caller, the tasks other than an owner own
    nothing. -/
theorem AtMostOneGuard.others {s : Threads Task (Mutex Fut Waker) (Pc Fut)}
    (hs : AtMostOneGuard s) {t : Task} (h_owns : (s.pc t).owns = true) :
    ∀ u, u ≠ t → (s.pc u).owns = false := by
  intro u h_ne
  by_contra h_u
  exact h_ne (hs.owner_unique u t (by simpa using h_u) h_owns)

section Updates

variable [DecidableEq Task]

/-- After task `t` has moved to a place where it owns the lock, it is the only
    owner if there was no other one. -/
theorem owner_update {pc : Task → Pc Fut} {t : Task} {p : Pc Fut}
    (h_others : ∀ u, u ≠ t → (pc u).owns = false) :
    ∀ u, (Function.update pc t p u).owns = true → u = t := by
  intro u h_u
  by_contra h_ne
  rw [Function.update_of_ne h_ne, h_others u h_ne] at h_u
  exact absurd h_u (by simp)

/-- After task `t` has moved to a place where it does not own the lock, nobody
    does if there was no other owner. -/
theorem nobody_update {pc : Task → Pc Fut} {t : Task} {p : Pc Fut} (h_owns : p.owns = false)
    (h_others : ∀ u, u ≠ t → (pc u).owns = false) :
    ∀ u, (Function.update pc t p u).owns = false := by
  intro u
  by_cases h_u : u = t
  · rw [h_u, Function.update_self, h_owns]
  · rw [Function.update_of_ne h_u, h_others u h_u]

/-- The owners stay the same when task `t` moves to a place that owns the lock
    as much as the old one. -/
theorem same_update {pc : Task → Pc Fut} {t : Task} {p : Pc Fut} (h_owns : p.owns = (pc t).owns) :
    ∀ u, (Function.update pc t p u).owns = (pc u).owns := by
  intro u
  by_cases h_u : u = t
  · rw [h_u, Function.update_self, h_owns]
  · rw [Function.update_of_ne h_u]

end Updates

-- ============================================================================
-- What one step does
-- ============================================================================

variable [DecidableEq Fut]

/-- What a step of one task does to the lock word and the ownership. -/
inductive LockEffect (m : Mutex Fut Waker) (p : Pc Fut) (m' : Mutex Fut Waker) (p' : Pc Fut) :
    Prop where
  | keep (h_state : m'.state = m.state) (h_guards : m'.guards = m.guards) (h_owns : p'.owns = p.owns)
  /-- An exchange succeeds and the call returns a guard. -/
  | lock (h_old : m.state = unlocked) (h_new : m'.state ≠ unlocked)
      (h_guards : m'.guards = m.guards + 1) (h_owns : p'.owns = false)
  /-- An exchange succeeds and the guard is returned later. -/
  | acquire (h_old : m.state = unlocked) (h_new : m'.state ≠ unlocked)
      (h_guards : m'.guards = m.guards) (h_owns : p'.owns = true)
  | returnGuard (h_state : m'.state = m.state) (h_guards : m'.guards = m.guards + 1)
      (h_owned : p.owns = true) (h_owns : p'.owns = false)
  | dropGuard (h_state : m'.state = m.state) (h_guards : m.guards = m'.guards + 1)
      (h_owns : p'.owns = true)
  | unlock (h_new : m'.state = unlocked) (h_guards : m'.guards = m.guards)
      (h_owned : p.owns = true) (h_owns : p'.owns = false)
  /-- The store of a contender. -/
  | mark (f : Fut) (h_pc : p = .pollStore f) (h_new : m'.state = lockedHasWaiters)
      (h_guards : m'.guards = m.guards) (h_owns : p'.owns = false)

/-- The effect of the start of a call. -/
theorem startCall_effect {m m' : Mutex Fut Waker} {a : Action Fut Waker} {p' : Pc Fut}
    (h : startCall m a = some (m', p')) : LockEffect m .idle m' p' := by
  cases a with
  | tryLock =>
      simp only [startCall, tryLock, Option.some.injEq, Prod.mk.injEq] at h
      obtain ⟨rfl, rfl⟩ := h
      cases h_cas : compareExchange m.state lockedNoWaiters with
      | none => exact .keep rfl rfl rfl
      | some state =>
          obtain ⟨h_old, rfl⟩ := compareExchange_eq_some h_cas
          exact .lock h_old lockedNoWaiters_ne rfl rfl
  | poll f waker =>
      simp only [startCall] at h
      split at h
      · simp only [pollStart, Option.some.injEq] at h
        split at h
        · next state h_cas =>
            obtain ⟨h_old, rfl⟩ := compareExchange_eq_some h_cas
            simp only [Prod.mk.injEq] at h
            obtain ⟨rfl, rfl⟩ := h
            exact .lock h_old lockedNoWaiters_ne rfl rfl
        · split at h
          · simp only [Prod.mk.injEq] at h
            obtain ⟨rfl, rfl⟩ := h
            exact .keep rfl rfl rfl
          · simp only [Prod.mk.injEq] at h
            obtain ⟨rfl, rfl⟩ := h
            exact .keep rfl rfl rfl
      · exact absurd h (by simp)
  | dropGuard =>
      simp only [startCall] at h
      split at h
      · next h_guard =>
          simp only [Option.some.injEq, Prod.mk.injEq] at h
          obtain ⟨rfl, rfl⟩ := h
          exact .dropGuard rfl (show m.guards = m.guards - 1 + 1 by omega) rfl
      · exact absurd h (by simp)
  | dropFuture f =>
      have h_drop : dropFuture m f = (m', p') := by
        simp only [startCall] at h
        split at h
        · exact Option.some.inj h
        · exact Option.some.inj h
        · exact Option.some.inj h
        · exact absurd h (by simp)
        · exact absurd h (by simp)
      simp only [dropFuture] at h_drop
      split at h_drop
      · simp only [Prod.mk.injEq] at h_drop
        obtain ⟨rfl, rfl⟩ := h_drop
        refine .keep rfl rfl ?_
        split <;> rfl
      · simp only [Prod.mk.injEq] at h_drop
        obtain ⟨rfl, rfl⟩ := h_drop
        exact .keep rfl rfl rfl
  | run => exact absurd h (by simp [startCall])
  | spurious => exact absurd h (by simp [startCall])

/-- The effect of one operation inside a call. -/
theorem runCall_effect {m m' : Mutex Fut Waker} {p p' : Pc Fut}
    (h : runCall m p = some (m', p')) : LockEffect m p m' p' := by
  cases p with
  | idle => exact absurd h (by simp [runCall])
  | pollStore f =>
      simp only [runCall, Option.some.injEq, Prod.mk.injEq] at h
      obtain ⟨rfl, rfl⟩ := h
      exact .mark f rfl rfl rfl rfl
  | pollEnqueue f =>
      simp only [runCall] at h
      split at h
      · simp only [Option.some.injEq, Prod.mk.injEq] at h
        obtain ⟨rfl, rfl⟩ := h
        exact .keep rfl rfl rfl
      · exact absurd h (by simp)
  | boostLoad f =>
      simp only [runCall] at h
      split at h <;> simp only [Option.some.injEq, Prod.mk.injEq] at h <;>
        (obtain ⟨rfl, rfl⟩ := h; exact .keep rfl rfl rfl)
  | boostExchange f current =>
      simp only [runCall] at h
      split at h <;> simp only [Option.some.injEq, Prod.mk.injEq] at h <;>
        (obtain ⟨rfl, rfl⟩ := h; exact .keep rfl rfl rfl)
  | pollRetry f =>
      simp only [runCall, pollRetry, Option.some.injEq] at h
      split at h
      · next state h_cas =>
          obtain ⟨h_old, rfl⟩ := compareExchange_eq_some h_cas
          split at h
          · simp only [Prod.mk.injEq] at h
            obtain ⟨rfl, rfl⟩ := h
            exact .acquire h_old lockedHasWaiters_ne rfl rfl
          · simp only [Prod.mk.injEq] at h
            obtain ⟨rfl, rfl⟩ := h
            exact .lock h_old lockedHasWaiters_ne rfl rfl
      · simp only [Prod.mk.injEq] at h
        obtain ⟨rfl, rfl⟩ := h
        exact .keep rfl rfl rfl
  | pollRemove f =>
      simp only [runCall] at h
      split at h
      · simp only [Option.some.injEq, Prod.mk.injEq] at h
        obtain ⟨rfl, rfl⟩ := h
        exact .keep rfl rfl rfl
      · simp only [pollRemoved, Option.some.injEq, Prod.mk.injEq] at h
        obtain ⟨rfl, rfl⟩ := h
        exact .returnGuard rfl rfl rfl rfl
  | pollLenSub f =>
      simp only [runCall, pollRemoved, Option.some.injEq, Prod.mk.injEq] at h
      obtain ⟨rfl, rfl⟩ := h
      exact .returnGuard rfl rfl rfl rfl
  | unlockIsEmpty =>
      simp only [runCall, Option.some.injEq, Prod.mk.injEq] at h
      obtain ⟨rfl, rfl⟩ := h
      refine .keep rfl rfl ?_
      split <;> rfl
  | unlockSwap =>
      simp only [runCall, Option.some.injEq, Prod.mk.injEq] at h
      obtain ⟨rfl, rfl⟩ := h
      exact .unlock rfl rfl rfl rfl
  | unlockStore =>
      simp only [runCall, Option.some.injEq, Prod.mk.injEq] at h
      obtain ⟨rfl, rfl⟩ := h
      exact .unlock rfl rfl rfl rfl
  | wakeOne =>
      simp only [runCall] at h
      split at h <;> simp only [Option.some.injEq, Prod.mk.injEq] at h <;>
        (obtain ⟨rfl, rfl⟩ := h; exact .keep rfl rfl rfl)
  | wakeLenSub f hasWaker =>
      simp only [runCall, Option.some.injEq, Prod.mk.injEq] at h
      obtain ⟨rfl, rfl⟩ := h
      refine .keep rfl rfl ?_
      split <;> rfl
  | pollLenAdd f | wakeCall f | dropLenSub f =>
      simp only [runCall, Option.some.injEq, Prod.mk.injEq] at h
      obtain ⟨rfl, rfl⟩ := h
      exact .keep rfl rfl rfl

theorem step_effect {m m' : Mutex Fut Waker} {p p' : Pc Fut} {a : Action Fut Waker}
    (h : step m p a = some (m', p')) : LockEffect m p m' p' := by
  by_cases h_idle : p = .idle
  · subst h_idle
    exact startCall_effect h
  · by_cases h_run : a = .run
    · subst h_run
      have h_step : step m p .run = runCall m p := by
        cases p <;> first | exact absurd rfl h_idle | rfl
      exact runCall_effect (h_step ▸ h)
    · -- what is left is a spurious failure
      cases p <;> cases a <;> simp [step] at h h_idle h_run
      obtain ⟨rfl, rfl⟩ := h
      exact .keep rfl rfl rfl

-- ============================================================================
-- Mutual exclusion
-- ============================================================================

variable [DecidableEq Task]

theorem lockInv_init : LockInv (machine Task Fut Waker).init :=
  .of_nobody (Nat.zero_le 1) (fun _ => rfl) fun _ => rfl

/-- One step keeps the invariant. -/
theorem LockInv.step {s s' : Threads Task (Mutex Fut Waker) (Pc Fut)}
    {a : Task × Action Fut Waker} (hs : LockInv s)
    (h : (machine Task Fut Waker).step s a = some s') : LockInv s' := by
  obtain ⟨t, a⟩ := a
  obtain ⟨m, p, h_step, rfl⟩ := ThreadProgram.interleave_step_eq_some h
  have h_le := hs.guards_le
  cases step_effect h_step with
  | keep h_state h_guards h_owns =>
      exact hs.of_same (.inl h_state) h_guards (same_update h_owns)
  | mark f h_pc h_new h_guards h_owns =>
      have h_locked : m.state ≠ unlocked := h_new ▸ lockedHasWaiters_ne
      refine hs.of_same (.inr h_locked) h_guards (same_update ?_)
      rw [h_owns, h_pc]
      rfl
  | lock h_old h_new h_guards h_owns =>
      obtain ⟨h_zero, h_none⟩ := hs.unlocked_free h_old
      refine .of_nobody ?_ (fun h => absurd h h_new) (nobody_update h_owns fun u _ => h_none u)
      show m.guards ≤ 1
      omega
  | acquire h_old h_new h_guards h_owns =>
      obtain ⟨h_zero, h_none⟩ := hs.unlocked_free h_old
      exact .of_owner (h_guards.trans h_zero) h_new (owner_update fun u _ => h_none u)
  | returnGuard h_state h_guards h_owned h_owns =>
      have h_zero := hs.no_guard_of_owner t h_owned
      have h_locked : m.state ≠ unlocked := by
        rw [h_state]
        intro h_unlocked
        have h_free := (hs.unlocked_free h_unlocked).2 t
        rw [h_owned] at h_free
        exact absurd h_free (by simp)
      refine .of_nobody ?_ (fun h => absurd h h_locked) (nobody_update h_owns (hs.others h_owned))
      show m.guards ≤ 1
      omega
  | dropGuard h_state h_guards h_owns =>
      have h_none : ∀ u, (s.pc u).owns = false := by
        intro u
        by_contra h_u
        have h_zero := hs.no_guard_of_owner u (by simpa using h_u)
        omega
      have h_locked : m.state ≠ unlocked := by
        rw [h_state]
        intro h_unlocked
        have h_zero := (hs.unlocked_free h_unlocked).1
        omega
      refine .of_owner ?_ h_locked (owner_update fun u _ => h_none u)
      show m.guards = 0
      omega
  | unlock h_new h_guards h_owned h_owns =>
      have h_zero := h_guards.trans (hs.no_guard_of_owner t h_owned)
      refine .of_nobody ?_ (fun _ => h_zero) (nobody_update h_owns (hs.others h_owned))
      show m.guards ≤ 1
      omega

/-- In every interleaving of any number of tasks that lock, poll, cancel and
    unlock, at most one guard is alive, and an unlock replaces a state other
    than `UNLOCKED`. -/
theorem atMostOneGuard_of_reachable {s : Threads Task (Mutex Fut Waker) (Pc Fut)}
    (h : (machine Task Fut Waker).Reachable s) :
    AtMostOneGuard s ∧ ∀ t, (s.pc t).unlocks = true → s.shared.state ≠ unlocked := by
  have hs : LockInv s := h.invariant lockInv_init fun _ _ _ hs h_step => hs.step h_step
  refine ⟨hs.toAtMostOneGuard, fun t h_t h_unlocked => ?_⟩
  have h_free := (hs.unlocked_free h_unlocked).2 t
  rw [Pc.owns_of_unlocks h_t] at h_free
  exact absurd h_free (by simp)

/-- A task takes the lock, another one polls and stores `LOCKED_HAS_WAITERS`,
    and the first is about to replace that by `UNLOCKED`. -/
def contendedUnlock : List (Bool × Action Unit Unit) :=
  [(false, .tryLock), (true, .poll () ()), (true, .run), (false, .dropGuard), (true, .run),
    (false, .run)]

theorem atMostOneGuard_contendedUnlock :
    ∃ s, (machine Bool Unit Unit).exec (machine Bool Unit Unit).init contendedUnlock = some s ∧
      AtMostOneGuard s ∧ (s.pc false).unlocks = true ∧ (s.pc true).inPollOrUnlock = true ∧
      s.shared.state ≠ unlocked := by
  have h_replay : ((machine Bool Unit Unit).exec (machine Bool Unit Unit).init
      contendedUnlock).any (fun s => decide ((s.pc false).unlocks = true ∧
        (s.pc true).inPollOrUnlock = true)) = true := by
    decide +kernel
  obtain ⟨s, h_run, h_unlocks, h_polls⟩ := Machine.exec_of_decide h_replay
  obtain ⟨h_one, h_state⟩ := atMostOneGuard_of_reachable ⟨contendedUnlock, h_run⟩
  exact ⟨s, h_run, h_one, h_unlocks, h_polls, h_state false h_unlocks⟩

-- ============================================================================
-- Locked by nobody
-- ============================================================================

/-- The next operation of the task is the store of `LOCKED_HAS_WAITERS`. -/
def Pc.stores : Pc Fut → Bool
  | .pollStore _ => true
  | _ => false

/-- The step does not store `LOCKED_HAS_WAITERS` over `UNLOCKED`. -/
def StoresWhileLocked (s : Threads Task (Mutex Fut Waker) (Pc Fut))
    (a : Task × Action Fut Waker) : Prop :=
  (s.pc a.1).stores = true → s.shared.state ≠ unlocked

instance (s : Threads Task (Mutex Fut Waker) (Pc Fut)) (a : Task × Action Fut Waker) :
    Decidable (StoresWhileLocked s a) :=
  inferInstanceAs (Decidable (_ → _))

/-- A locked word has an owner. -/
def LockedByOwner (s : Threads Task (Mutex Fut Waker) (Pc Fut)) : Prop :=
  s.shared.state ≠ unlocked → 0 < s.shared.guards ∨ ∃ t, (s.pc t).owns = true

/-- A step that does not store over `UNLOCKED` does not lock the word for
    nobody. -/
theorem LockedByOwner.step {s s' : Threads Task (Mutex Fut Waker) (Pc Fut)}
    {a : Task × Action Fut Waker} (hs : LockedByOwner s) (h_ok : StoresWhileLocked s a)
    (h : (machine Task Fut Waker).step s a = some s') : LockedByOwner s' := by
  obtain ⟨t, a⟩ := a
  obtain ⟨m, p, h_step, rfl⟩ := ThreadProgram.interleave_step_eq_some h
  have h_keep : m.guards = s.shared.guards → p.owns = (s.pc t).owns →
      s.shared.state ≠ unlocked → 0 < m.guards ∨ ∃ u, (Function.update s.pc t p u).owns = true := by
    intro h_guards h_owns h_locked
    rcases hs h_locked with h_guard | ⟨u, h_u⟩
    · exact .inl (h_guards ▸ h_guard)
    · exact .inr ⟨u, by rw [same_update h_owns, h_u]⟩
  intro h_locked
  cases step_effect h_step with
  | keep h_state h_guards h_owns => exact h_keep h_guards h_owns (h_state ▸ h_locked)
  | mark f h_pc h_new h_guards h_owns =>
      have h_stores : (s.pc t).stores = true := by
        rw [h_pc]
        rfl
      refine h_keep h_guards ?_ (h_ok h_stores)
      rw [h_owns, h_pc]
      rfl
  | lock h_old h_new h_guards h_owns => exact .inl (show 0 < m.guards by omega)
  | returnGuard h_state h_guards h_owned h_owns => exact .inl (show 0 < m.guards by omega)
  | acquire _ _ _ h_owns | dropGuard _ _ h_owns =>
      refine .inr ⟨t, ?_⟩
      show (Function.update s.pc t p t).owns = true
      rw [Function.update_self, h_owns]
  | unlock h_new h_guards h_owned h_owns => exact absurd h_new h_locked

/-- In every run that never stores `LOCKED_HAS_WAITERS` over `UNLOCKED`, the
    word is `UNLOCKED` whenever no guard is alive and no poll or unlock is in
    progress. -/
theorem unlocked_of_storesWhileLocked {tr : List (Task × Action Fut Waker)}
    {s : Threads Task (Mutex Fut Waker) (Pc Fut)}
    (h_meet : (machine Task Fut Waker).StepsMeet StoresWhileLocked (machine Task Fut Waker).init tr)
    (h_run : (machine Task Fut Waker).exec (machine Task Fut Waker).init tr = some s)
    (h_guards : s.shared.guards = 0) (h_quiet : ∀ t, (s.pc t).inPollOrUnlock = false) :
    s.shared.state = unlocked := by
  have h_init : LockedByOwner (machine Task Fut Waker).init := fun h => absurd rfl h
  have hs : LockedByOwner s :=
    Machine.exec_invariant (fun _ _ _ hs h_ok h => hs.step h_ok h) h_init h_meet h_run
  by_contra h_locked
  rcases hs h_locked with h_guard | ⟨t, h_t⟩
  · omega
  · have h_in := h_quiet t
    rw [Pc.inPollOrUnlock_of_owns h_t] at h_in
    exact absurd h_in (by simp)

/-- Task `true` finds the lock taken by task `false`, registers, and is woken by
    the unlock. -/
def wokenRun : List (Bool × Action Unit Unit) :=
  [(false, .tryLock), (true, .poll () ()), (true, .run), (true, .run), (true, .run), (true, .run),
    (true, .run), (false, .dropGuard), (false, .run), (false, .run), (false, .run), (false, .run),
    (false, .run)]

theorem unlocked_after_wokenRun :
    ∃ s, (machine Bool Unit Unit).exec (machine Bool Unit Unit).init wokenRun = some s ∧
      s.shared.state = unlocked := by
  refine ⟨_, rfl, ?_⟩
  apply unlocked_of_storesWhileLocked (show (machine Bool Unit Unit).StepsMeet
    StoresWhileLocked (machine Bool Unit Unit).init wokenRun by decide) rfl rfl
  decide

/-- The holder unlocks between the exchange of a contender that finds the lock
    taken and its store. -/
def lateStoreRun : List (Bool × Action Unit Unit) :=
  [(false, .tryLock), (true, .poll () ()), (false, .dropGuard), (false, .run), (false, .run),
    (true, .run), (true, .run), (true, .run), (true, .run), (true, .run)]

/-- The contender stores `LOCKED_HAS_WAITERS` over `UNLOCKED`, and its poll
    returns `Pending`: the mutex is locked by nobody. -/
theorem lateStore_locks_for_nobody :
    ∃ s, (machine Bool Unit Unit).exec (machine Bool Unit Unit).init lateStoreRun = some s ∧
      s.shared.guards = 0 ∧ (∀ t, (s.pc t).inPollOrUnlock = false) ∧
      s.shared.state ≠ unlocked := by
  refine ⟨_, rfl, rfl, ?_, ?_⟩
  · decide
  · decide

end AsyncMutex
end Zydon
