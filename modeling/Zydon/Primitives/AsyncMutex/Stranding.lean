/-
  Zydon.Primitives.AsyncMutex.Stranding

  Waiters of the async mutex when no call is interrupted.

  `Quiet m l` is the state between calls, with `l` the queue; `CallEffect` is
  what one call does to the lock word, the futures and that list
  (`callAlone_effect`).

  A wake-up takes a future off the queue and leaves it `registered`, so that it
  does not queue again.  Three orders of calls then lose a wake-up: the woken
  future finds the lock taken again, the woken future has already been ready,
  or it is dropped.  `CarriesWakeUp` excludes the three, and the runs within it
  strand nobody (`someoneWoken_of_carriesWakeUp`).
-/

import Mathlib.Data.Fintype.Basic
import Zydon.Primitives.AsyncMutex.Basic
import Zydon.Primitives.WaitQueue.Parked

namespace Zydon
namespace AsyncMutex

open Lib WaitQueue

variable {Fut Waker : Type*}

-- ============================================================================
-- Between calls
-- ============================================================================

/-- The mutex between calls, with the futures of `l` queued. -/
structure Quiet (m : Mutex Fut Waker) (l : List Fut) : Prop where
  rep : Rep m.waiters l
  len_eq : m.waiters.len = l.length
  priority_eq : ∀ f, (m.waiters.nodes f).priority = 0
  holderPriority_eq : m.holderPriority = 0
  waker_some : ∀ f ∈ l, (m.waiters.nodes f).waker.isSome
  registered : ∀ f ∈ l, (m.futures f).registered = true
  status_eq : ∀ f ∈ l, (m.futures f).status = .pending ∨ (m.futures f).status = .ready

theorem quiet_new : Quiet (new : Mutex Fut Waker) [] where
  rep := rep_new
  len_eq := rfl
  priority_eq := fun _ => rfl
  holderPriority_eq := rfl
  waker_some := fun _ h => absurd h List.not_mem_nil
  registered := fun _ h => absurd h List.not_mem_nil
  status_eq := fun _ h => absurd h List.not_mem_nil

/-- A future that is not registered is not queued. -/
theorem Quiet.not_mem {m : Mutex Fut Waker} {l : List Fut} (hm : Quiet m l) {f : Fut}
    (h : (m.futures f).registered = false) : f ∉ l := by
  intro h_mem
  rw [hm.registered f h_mem] at h
  exact absurd h (by simp)

theorem Quiet.parked {m : Mutex Fut Waker} {l : List Fut} (hm : Quiet m l) :
    Parked m.waiters l where
  rep := hm.rep
  priorities := hm.priority_eq
  waker_some := hm.waker_some

variable [DecidableEq Fut]

/-- What an uninterrupted call does to the lock word, the futures and the queue. -/
inductive CallEffect (m : Mutex Fut Waker) (l : List Fut) :
    Action Fut Waker → Mutex Fut Waker → List Fut → Prop where
  | tryLock {m' : Mutex Fut Waker} (h_futures : m'.futures = m.futures)
      (h_state : m'.state = m.state ∨ m'.state ≠ unlocked) : CallEffect m l .tryLock m' l
  | ready {f : Fut} {w : Waker} {m' : Mutex Fut Waker}
      (h_futures : m'.futures = Function.update m.futures f { m.futures f with status := .ready })
      (h_state : m'.state ≠ unlocked) : CallEffect m l (.poll f w) m' l
  /-- The future is registered already. -/
  | repoll {f : Fut} {w : Waker} {m' : Mutex Fut Waker} (h_locked : m.state ≠ unlocked)
      (h_registered : (m.futures f).registered = true)
      (h_futures : m'.futures = Function.update m.futures f ⟨true, .pending, false⟩)
      (h_state : m'.state ≠ unlocked) : CallEffect m l (.poll f w) m' l
  | register {f : Fut} {w : Waker} {m' : Mutex Fut Waker}
      (h_futures : m'.futures = Function.update m.futures f ⟨true, .pending, false⟩)
      (h_state : m'.state ≠ unlocked) : CallEffect m l (.poll f w) m' (l ++ [f])
  | unlock {m' : Mutex Fut Waker} (h_empty : l = []) (h_futures : m'.futures = m.futures) :
      CallEffect m l .dropGuard m' []
  | unlockWake {f : Fut} {l' : List Fut} {m' : Mutex Fut Waker} (h_head : l = f :: l')
      (h_futures : m'.futures = Function.update m.futures f { m.futures f with woken := true }) :
      CallEffect m l .dropGuard m' l'
  | cancel {f : Fut} {m' : Mutex Fut Waker}
      (h_futures : m'.futures = Function.update m.futures f { m.futures f with status := .dropped })
      (h_state : m'.state = m.state) : CallEffect m l (.dropFuture f) m' (l.erase f)

/-! ## Calls -/

theorem callAlone_tryLock {m : Mutex Fut Waker} {l : List Fut} (hm : Quiet m l) :
    ∃ m', callAlone m .tryLock = some m' ∧ Quiet m' l ∧ CallEffect m l .tryLock m' l := by
  refine ⟨tryLock m, rfl, ?_⟩
  rw [tryLock]
  cases h : compareExchange m.state lockedNoWaiters with
  | none => exact ⟨hm, .tryLock rfl (.inl rfl)⟩
  | some state =>
      obtain ⟨-, rfl⟩ := compareExchange_eq_some h
      exact ⟨{ hm with }, .tryLock rfl (.inr lockedNoWaiters_ne)⟩

/-- The queue and one future change.  The futures queued are registered, and not
    dropped. -/
theorem Quiet.change {m m' : Mutex Fut Waker} {l l' : List Fut} (hm : Quiet m l) {f : Fut}
    {x : LockFuture} (h_parked : Parked m'.waiters l') (h_len : m'.waiters.len = l'.length)
    (h_priority : m'.holderPriority = 0) (h_futures : m'.futures = Function.update m.futures f x)
    (h_x : f ∈ l' → x.registered = true ∧ (x.status = .pending ∨ x.status = .ready))
    (h_other : ∀ g ∈ l', g ≠ f → g ∈ l) : Quiet m' l' where
  rep := h_parked.rep
  len_eq := h_len
  priority_eq := h_parked.priorities
  holderPriority_eq := h_priority
  waker_some := h_parked.waker_some
  registered := by
    intro g h_g
    rw [h_futures, Function.update_apply]
    split
    · next h => exact (h_x (h ▸ h_g)).1
    · next h => exact hm.registered g (h_other g h_g h)
  status_eq := by
    intro g h_g
    rw [h_futures, Function.update_apply]
    split
    · next h => exact (h_x (h ▸ h_g)).2
    · next h => exact hm.status_eq g (h_other g h_g h)

/-- Changing one future keeps the mutex quiet, if a queued one stays registered
    and does not get dropped. -/
theorem Quiet.setFuture {m m' : Mutex Fut Waker} {l : List Fut} (hm : Quiet m l) {f : Fut}
    {x : LockFuture} (h_waiters : m'.waiters = m.waiters)
    (h_priority : m'.holderPriority = 0) (h_futures : m'.futures = Function.update m.futures f x)
    (h_x : f ∈ l → x.registered = true ∧ (x.status = .pending ∨ x.status = .ready)) :
    Quiet m' l :=
  hm.change (h_waiters ▸ hm.parked) (h_waiters ▸ hm.len_eq) h_priority h_futures h_x
    fun _ h_g _ => h_g

/-- A poll that finds the mutex unlocked. -/
theorem callAlone_ready {m : Mutex Fut Waker} {l : List Fut} (hm : Quiet m l) {f : Fut} (w : Waker)
    (h_status : (m.futures f).status = .fresh ∨ (m.futures f).status = .pending)
    (h_unlocked : m.state = unlocked) :
    ∃ m', callAlone m (.poll f w) = some m' ∧ Quiet m' l ∧ CallEffect m l (.poll f w) m' l := by
  refine ⟨{ m with state := lockedNoWaiters }.ready f, ?_, ?_, .ready rfl lockedNoWaiters_ne⟩
  · simp [callAlone, startCall, h_status, pollStart, compareExchange, h_unlocked,
      ThreadProgram.soloUntil, Pc.isIdle]
  · exact hm.setFuture rfl hm.holderPriority_eq rfl fun h => ⟨hm.registered f h, .inr rfl⟩

/-- A poll of a registered future, when the lock is taken. -/
theorem callAlone_repoll {m : Mutex Fut Waker} {l : List Fut} (hm : Quiet m l) {f : Fut}
    (w : Waker) (h_status : (m.futures f).status = .fresh ∨ (m.futures f).status = .pending)
    (h_locked : m.state ≠ unlocked) (h_registered : (m.futures f).registered = true) :
    ∃ m', callAlone m (.poll f w) = some m' ∧ Quiet m' l ∧ CallEffect m l (.poll f w) m' l := by
  refine ⟨{ m with futures := Function.update m.futures f ⟨true, .pending, false⟩ }, ?_, ?_,
    .repoll h_locked h_registered rfl h_locked⟩
  · simp [callAlone, startCall, h_status, pollStart, compareExchange_of_locked, h_locked,
      h_registered, Mutex.setFuture, ThreadProgram.soloUntil, Pc.isIdle, program, step, runCall,
      pollRetry]
  · exact hm.setFuture rfl hm.holderPriority_eq rfl fun _ => ⟨rfl, .inl rfl⟩

/-- A poll of a future that is not registered, when the lock is taken. -/
theorem callAlone_register {m : Mutex Fut Waker} {l : List Fut} (hm : Quiet m l) {f : Fut}
    (w : Waker) (h_status : (m.futures f).status = .fresh ∨ (m.futures f).status = .pending)
    (h_locked : m.state ≠ unlocked) (h_registered : (m.futures f).registered = false) :
    ∃ m', callAlone m (.poll f w) = some m' ∧ Quiet m' (l ++ [f]) ∧
      CallEffect m l (.poll f w) m' (l ++ [f]) := by
  have h_not_mem := hm.not_mem h_registered
  have h_parked : Parked ((m.waiters.setWaker f w).setPriority f 0) l :=
    (hm.parked.setWaker f w).setPriority f
  have h_waker : (((m.waiters.setWaker f w).setPriority f 0).nodes f).waker.isSome := by
    simp [WaitQueue.setPriority, WaitQueue.setWaker, modify_nodes]
  have h_prio : ∀ g, (((m.waiters.setWaker f w).setPriority f 0).nodes g).priority = 0 :=
    h_parked.priorities
  have h_enqueue : ((m.waiters.setWaker f w).setPriority f 0).enqueueSection 0 f =
      some (((m.waiters.setWaker f w).setPriority f 0).link f) :=
    (h_parked.priorities.enqueueSection 0 f).1
  refine ⟨{ m with
    state := lockedHasWaiters
    waiters := (((m.waiters.setWaker f w).setPriority f 0).link f).lenAdd
    futures := Function.update m.futures f ⟨true, .pending, false⟩ }, ?_, ?_,
    .register rfl lockedHasWaiters_ne⟩
  · simp [callAlone, startCall, h_status, pollStart, compareExchange_of_locked, h_locked,
      h_registered, Mutex.setFuture, ThreadProgram.soloUntil, Pc.isIdle, program, step, runCall,
      h_enqueue, hm.holderPriority_eq, lenAdd, h_prio, pollRetry, lockedHasWaiters_ne]
  · refine hm.change (h_parked.link h_not_mem h_waker).lenAdd ?_ hm.holderPriority_eq rfl
      (fun _ => ⟨rfl, .inl rfl⟩) fun g h_g h_gf => ?_
    · simp [lenAdd, WaitQueue.setPriority, WaitQueue.setWaker, hm.len_eq]
    · simpa [h_gf] using h_g

/-- The drop of a guard with nobody queued. -/
theorem callAlone_unlock {m : Mutex Fut Waker} (hm : Quiet m []) (h_guard : 0 < m.guards) :
    ∃ m', callAlone m .dropGuard = some m' ∧ Quiet m' [] ∧ CallEffect m [] .dropGuard m' [] := by
  have h_empty : m.waiters.isEmpty = true := by simp [WaitQueue.isEmpty, hm.len_eq]
  refine ⟨{ m with state := unlocked, guards := m.guards - 1, holderPriority := 0 }, ?_, ?_,
    .unlock rfl rfl⟩
  · simp [callAlone, startCall, h_guard, ThreadProgram.soloUntil, Pc.isIdle, program, step, runCall,
      h_empty]
  · exact { hm with holderPriority_eq := rfl }

/-- The drop of a guard with a future queued. -/
theorem callAlone_unlockWake {m : Mutex Fut Waker} {l : List Fut} {f : Fut}
    (hm : Quiet m (f :: l)) (h_guard : 0 < m.guards) :
    ∃ m', callAlone m .dropGuard = some m' ∧ Quiet m' l ∧
      CallEffect m (f :: l) .dropGuard m' l := by
  have h_empty : m.waiters.isEmpty = false := by
    have h_len : m.waiters.len ≠ 0 := by
      rw [hm.len_eq, List.length_cons]
      omega
    simp [WaitQueue.isEmpty, h_len]
  have h_waker : (m.waiters.nodes f).waker.isSome = true := hm.waker_some f List.mem_cons_self
  have h_wake := hm.rep.wakeOneSection_cons
  have h_not_mem : f ∉ l := (List.nodup_cons.mp hm.rep.nodup).1
  refine ⟨{ m with
    state := unlocked
    waiters := ((m.waiters.unlink f).modify f fun n => { n with waker := none }).lenSub
    guards := m.guards - 1
    holderPriority := 0
    futures := Function.update m.futures f { m.futures f with woken := true } }, ?_, ?_,
    .unlockWake rfl rfl⟩
  · simp [callAlone, startCall, h_guard, ThreadProgram.soloUntil, Pc.isIdle, program, step, runCall,
      h_empty, h_wake, h_waker, Mutex.setFuture]
  · refine hm.change hm.parked.takeFirst.lenSub ?_ rfl rfl (fun h_mem => absurd h_mem h_not_mem)
      fun g h_g _ => List.mem_cons_of_mem f h_g
    simp [lenSub, hm.len_eq]

/-- The drop of a future. -/
theorem callAlone_cancel {m : Mutex Fut Waker} {l : List Fut} (hm : Quiet m l) {f : Fut}
    (h_status : (m.futures f).status = .fresh ∨ (m.futures f).status = .pending ∨
      (m.futures f).status = .ready) :
    ∃ m', callAlone m (.dropFuture f) = some m' ∧ Quiet m' (l.erase f) ∧
      CallEffect m l (.dropFuture f) m' (l.erase f) := by
  have h_start : startCall m (.dropFuture f) = some (dropFuture m f) := by
    rcases h_status with h | h | h <;> simp [startCall, h]
  by_cases h_mem : f ∈ l
  · have h_registered := hm.registered f h_mem
    have h_remove := hm.parked.removeSection_of_mem h_mem
    refine ⟨{ m with
      waiters := (m.waiters.unlink f).lenSub
      futures := Function.update m.futures f { m.futures f with status := .dropped } }, ?_, ?_,
      .cancel rfl rfl⟩
    · simp [callAlone, h_start, dropFuture, h_registered, h_remove, ThreadProgram.soloUntil,
        Pc.isIdle, program, step, runCall, Mutex.setFuture]
    · refine hm.change (hm.parked.unlink h_mem).lenSub ?_ hm.holderPriority_eq rfl
        (fun h_f => absurd h_f hm.rep.nodup.not_mem_erase) fun g h_g _ => List.mem_of_mem_erase h_g
      have h_pos := List.length_pos_of_mem h_mem
      simp only [lenSub, unlink_len, hm.len_eq, List.length_erase_of_mem h_mem]
      omega
  · have h_remove := hm.parked.remove_of_not_mem h_mem
    refine ⟨m.setFuture f fun x => { x with status := .dropped }, ?_, ?_, .cancel rfl rfl⟩
    · cases h_registered : (m.futures f).registered <;>
        simp [callAlone, h_start, dropFuture, h_registered, h_remove, ThreadProgram.soloUntil,
          Pc.isIdle, Mutex.setFuture]
    · rw [List.erase_of_not_mem h_mem]
      exact hm.setFuture rfl hm.holderPriority_eq rfl fun h => absurd h h_mem

/-- Every call that returns keeps the mutex quiet and has one of the effects. -/
theorem callAlone_effect {m m' : Mutex Fut Waker} {l : List Fut} {a : Action Fut Waker}
    (hm : Quiet m l) (h : callAlone m a = some m') :
    ∃ l', Quiet m' l' ∧ CallEffect m l a m' l' := by
  have h_same : ∀ {l' : List Fut},
      (∃ n, callAlone m a = some n ∧ Quiet n l' ∧ CallEffect m l a n l') →
      ∃ l', Quiet m' l' ∧ CallEffect m l a m' l' := by
    rintro l' ⟨n, h_n, h_quiet, h_effect⟩
    obtain rfl : n = m' := Option.some.inj (h_n.symm.trans h)
    exact ⟨l', h_quiet, h_effect⟩
  cases a with
  | tryLock => exact h_same (callAlone_tryLock hm)
  | poll f w =>
      by_cases h_status : (m.futures f).status = .fresh ∨ (m.futures f).status = .pending
      · by_cases h_unlocked : m.state = unlocked
        · exact h_same (callAlone_ready hm w h_status h_unlocked)
        · cases h_registered : (m.futures f).registered with
          | true => exact h_same (callAlone_repoll hm w h_status h_unlocked h_registered)
          | false => exact h_same (callAlone_register hm w h_status h_unlocked h_registered)
      · exact absurd h (by simp [callAlone, startCall, h_status])
  | dropGuard =>
      by_cases h_guard : 0 < m.guards
      · cases l with
        | nil => exact h_same (callAlone_unlock hm h_guard)
        | cons f l => exact h_same (callAlone_unlockWake hm h_guard)
      · exact absurd h (by simp [callAlone, startCall, h_guard])
  | dropFuture f =>
      cases h_status : (m.futures f).status with
      | fresh => exact h_same (callAlone_cancel hm (.inl h_status))
      | pending => exact h_same (callAlone_cancel hm (.inr (.inl h_status)))
      | ready => exact h_same (callAlone_cancel hm (.inr (.inr h_status)))
      | polling | dropped => exact absurd h (by simp [callAlone, startCall, h_status])
  | run | spurious => exact absurd h (by simp [callAlone, startCall])

-- ============================================================================
-- Stranded waiters
-- ============================================================================

/-- The last poll of `f` returned `Pending`, and `f` has not been dropped. -/
def Mutex.isPending (m : Mutex Fut Waker) (f : Fut) : Prop := (m.futures f).status = .pending

instance (m : Mutex Fut Waker) (f : Fut) : Decidable (m.isPending f) :=
  inferInstanceAs (Decidable (_ = _))

/-- If the mutex is unlocked while some future is pending, then some pending
    future has been woken since its last poll. -/
def SomeoneWoken (m : Mutex Fut Waker) : Prop :=
  m.state = unlocked → (∃ f, m.isPending f) → ∃ f, m.isPending f ∧ (m.futures f).woken = true

/-- The call does not lose a wake-up:

    * a future whose node a wake-up has taken off the queue is not polled while
      the mutex is locked;
    * a guard is not dropped with a future that has been ready at the head of
      the queue and a pending one behind it;
    * while the mutex is unlocked, a woken future is not dropped if others are
      pending and none of them has been woken. -/
def CarriesWakeUp (m : Mutex Fut Waker) : Action Fut Waker → Prop
  | .poll f _ => m.state ≠ unlocked → (m.futures f).registered = true →
      (m.waiters.nodes f).linked = true
  | .dropGuard => ∀ f, m.waiters.head = some f →
      m.isPending f ∨ ∀ g, (m.waiters.nodes g).linked = true → ¬ m.isPending g
  | .dropFuture f => m.state = unlocked → m.isPending f → (m.futures f).woken = true →
      (∀ g, g ≠ f → ¬ m.isPending g) ∨
        ∃ g, g ≠ f ∧ m.isPending g ∧ (m.futures g).woken = true
  | .tryLock | .run | .spurious => True

instance SomeoneWoken.decidable [Fintype Fut] (m : Mutex Fut Waker) : Decidable (SomeoneWoken m) :=
  inferInstanceAs (Decidable (_ → _ → _))

instance CarriesWakeUp.decidable [Fintype Fut] (m : Mutex Fut Waker) :
    ∀ a, Decidable (CarriesWakeUp m a)
  | .poll _ _ => inferInstanceAs (Decidable (_ → _ → _))
  | .dropGuard => inferInstanceAs (Decidable (∀ _, _ → _))
  | .dropFuture _ => inferInstanceAs (Decidable (_ → _ → _ → _))
  | .tryLock | .run | .spurious => inferInstanceAs (Decidable True)

/-- The invariant of the runs that lose no wake-up. -/
structure WaitInv (m : Mutex Fut Waker) (l : List Fut) : Prop extends Quiet m l where
  /-- A pending future is queued, or has been woken. -/
  queued_or_woken : ∀ f, m.isPending f → f ∈ l ∨ (m.futures f).woken = true
  someone_woken : SomeoneWoken m

omit [DecidableEq Fut] in
theorem waitInv_new : WaitInv (new : Mutex Fut Waker) [] where
  toQuiet := quiet_new
  queued_or_woken := fun f h => absurd h (by simp [Mutex.isPending, new])
  someone_woken := fun _ ⟨f, h⟩ => absurd h (by simp [Mutex.isPending, new])

/-- A pending future of the state after a call on `f` is `f` or was pending before. -/
theorem isPending_update {m m' : Mutex Fut Waker} {f g : Fut} {x : LockFuture}
    (h_futures : m'.futures = Function.update m.futures f x) (h_ne : g ≠ f) :
    (m'.isPending g ↔ m.isPending g) ∧ (m'.futures g).woken = (m.futures g).woken := by
  simp [Mutex.isPending, h_futures, h_ne]

/-- After the call, every pending future is queued or has been woken. -/
theorem WaitInv.queued_or_woken_step {m m' : Mutex Fut Waker} {l l' : List Fut}
    {a : Action Fut Waker} (hm : WaitInv m l) (h_ok : CarriesWakeUp m a)
    (h_effect : CallEffect m l a m' l') :
    ∀ g, m'.isPending g → g ∈ l' ∨ (m'.futures g).woken = true := by
  intro g h_g
  cases h_effect with
  | tryLock h_futures h_state =>
      rw [h_futures]
      exact hm.queued_or_woken g (by rwa [Mutex.isPending, h_futures] at h_g)
  | @ready f w _ h_futures h_state =>
      have h_gf : g ≠ f := by
        rintro rfl
        simp [Mutex.isPending, h_futures] at h_g
      obtain ⟨h_pending, h_woken⟩ := isPending_update h_futures h_gf
      rw [h_woken]
      exact hm.queued_or_woken g (h_pending.mp h_g)
  | @repoll f w _ h_locked h_registered h_futures h_state =>
      by_cases h_gf : g = f
      · subst h_gf
        exact .inl ((hm.rep.linked_iff g).mp (h_ok h_locked h_registered))
      · obtain ⟨h_pending, h_woken⟩ := isPending_update h_futures h_gf
        rw [h_woken]
        exact hm.queued_or_woken g (h_pending.mp h_g)
  | @register f w _ h_futures h_state =>
      by_cases h_gf : g = f
      · subst h_gf
        exact .inl (by simp)
      · obtain ⟨h_pending, h_woken⟩ := isPending_update h_futures h_gf
        rw [h_woken, List.mem_append]
        exact (hm.queued_or_woken g (h_pending.mp h_g)).imp_left .inl
  | unlock h_empty h_futures =>
      rw [h_futures, ← h_empty]
      exact hm.queued_or_woken g (by rwa [Mutex.isPending, h_futures] at h_g)
  | @unlockWake f _ _ h_head h_futures =>
      by_cases h_gf : g = f
      · subst h_gf
        exact .inr (by simp [h_futures])
      · obtain ⟨h_pending, h_woken⟩ := isPending_update h_futures h_gf
        rw [h_woken]
        have h_old := hm.queued_or_woken g (h_pending.mp h_g)
        simpa [h_head, h_gf] using h_old
  | @cancel f _ h_futures h_state =>
      have h_gf : g ≠ f := by
        rintro rfl
        simp [Mutex.isPending, h_futures] at h_g
      obtain ⟨h_pending, h_woken⟩ := isPending_update h_futures h_gf
      rw [h_woken, List.mem_erase_of_ne h_gf]
      exact hm.queued_or_woken g (h_pending.mp h_g)

/-- After the call, someone has been woken if the mutex is unlocked and a future
    is pending. -/
theorem WaitInv.someone_woken_step {m m' : Mutex Fut Waker} {l l' : List Fut}
    {a : Action Fut Waker} (hm : WaitInv m l) (h_ok : CarriesWakeUp m a)
    (h_effect : CallEffect m l a m' l') : SomeoneWoken m' := by
  rintro h_unlocked ⟨g, h_g⟩
  cases h_effect with
  | tryLock h_futures h_state =>
      rcases h_state with h_state | h_state
      · simp only [Mutex.isPending, h_futures] at h_g ⊢
        exact hm.someone_woken (h_state ▸ h_unlocked) ⟨g, h_g⟩
      · exact absurd h_unlocked h_state
  | ready _ h_state | repoll _ _ _ h_state | register _ h_state => exact absurd h_unlocked h_state
  | unlock h_empty h_futures =>
      -- nobody is queued, so everyone pending has been woken
      have h_pending : m.isPending g := by rwa [Mutex.isPending, h_futures] at h_g
      have h_woken := (hm.queued_or_woken g h_pending).resolve_left (by simp [h_empty])
      exact ⟨g, h_g, h_futures ▸ h_woken⟩
  | @unlockWake f _ _ h_head h_futures =>
      have h_first : m.waiters.head = some f := by rw [hm.rep.head_eq, h_head, List.head?_cons]
      by_cases h_f : m.isPending f
      · exact ⟨f, by simpa [Mutex.isPending, h_futures] using h_f, by simp [h_futures]⟩
      · -- the wake-up goes to a future that is ready; nobody pending is queued
        have h_gf : g ≠ f := by
          rintro rfl
          exact h_f (by simpa [Mutex.isPending, h_futures] using h_g)
        obtain ⟨h_pending, h_woken⟩ := isPending_update h_futures h_gf
        have h_none := (h_ok f h_first).resolve_left h_f
        have h_not_queued : g ∉ l := fun h_mem =>
          h_none g ((hm.rep.linked_iff g).mpr h_mem) (h_pending.mp h_g)
        have h_old := (hm.queued_or_woken g (h_pending.mp h_g)).resolve_left h_not_queued
        exact ⟨g, h_g, h_woken.trans h_old⟩
  | @cancel f _ h_futures h_state =>
      rw [h_state] at h_unlocked
      have h_carry : ∀ k, k ≠ f → m.isPending k → (m.futures k).woken = true →
          ∃ k, m'.isPending k ∧ (m'.futures k).woken = true := by
        intro k h_kf h_k h_woken
        obtain ⟨h_pending, h_same⟩ := isPending_update h_futures h_kf
        exact ⟨k, h_pending.mpr h_k, h_same.trans h_woken⟩
      have h_gf : g ≠ f := by
        rintro rfl
        simp [Mutex.isPending, h_futures] at h_g
      have h_pending := (isPending_update h_futures h_gf).1.mp h_g
      obtain ⟨k, h_k, h_woken⟩ := hm.someone_woken h_unlocked ⟨g, h_pending⟩
      by_cases h_kf : k = f
      · subst h_kf
        rcases h_ok h_unlocked h_k h_woken with h_none | ⟨i, h_if, h_i, h_i_woken⟩
        · exact absurd h_pending (h_none g h_gf)
        · exact h_carry i h_if h_i h_i_woken
      · exact h_carry k h_kf h_k h_woken

/-- One call keeps the invariant. -/
theorem WaitInv.step {m m' : Mutex Fut Waker} {l : List Fut} {a : Action Fut Waker}
    (hm : WaitInv m l) (h_ok : CarriesWakeUp m a) (h : callAlone m a = some m') :
    ∃ l', WaitInv m' l' := by
  obtain ⟨l', h_quiet, h_effect⟩ := callAlone_effect hm.toQuiet h
  exact ⟨l', { h_quiet with
    queued_or_woken := hm.queued_or_woken_step h_ok h_effect
    someone_woken := hm.someone_woken_step h_ok h_effect }⟩

/-- In every run of uninterrupted calls that loses no wake-up, some pending
    future has been woken whenever the mutex is unlocked and a future is
    pending. -/
theorem someoneWoken_of_carriesWakeUp {tr : List (Action Fut Waker)} {m : Mutex Fut Waker}
    (h_meet : (aloneMachine Fut Waker).StepsMeet CarriesWakeUp (aloneMachine Fut Waker).init tr)
    (h_run : (aloneMachine Fut Waker).exec (aloneMachine Fut Waker).init tr = some m) :
    SomeoneWoken m := by
  obtain ⟨l, hm⟩ : ∃ l, WaitInv m l :=
    Machine.exec_invariant (P := fun m => ∃ l, WaitInv m l)
      (fun _ _ _ ⟨_, hm⟩ h_ok h => hm.step h_ok h) ⟨[], waitInv_new⟩ h_meet h_run
  exact hm.someone_woken

/-- The futures of the runs below. -/
inductive Waiter where
  | first
  | second
  | third
  deriving DecidableEq

instance : Fintype Waiter where
  elems := {.first, .second, .third}
  complete := fun f => by cases f <;> decide

/-- Two futures wait; the unlock wakes the first one, a `try_lock` comes before
    its next poll, and it is dropped while the lock is taken. -/
def handedOnRun : List (Action Waiter Unit) :=
  [.tryLock, .poll .first (), .poll .second (), .dropGuard, .tryLock, .dropFuture .first,
    .dropGuard]

theorem someoneWoken_handedOnRun :
    ∃ m, (aloneMachine Waiter Unit).exec (aloneMachine Waiter Unit).init handedOnRun = some m ∧
      SomeoneWoken m := by
  have h_meet : (aloneMachine Waiter Unit).StepsMeet CarriesWakeUp
      (aloneMachine Waiter Unit).init handedOnRun := by
    decide +kernel
  obtain ⟨m, h_run⟩ := Option.isSome_iff_exists.mp (show
    ((aloneMachine Waiter Unit).exec (aloneMachine Waiter Unit).init handedOnRun).isSome by
      decide +kernel)
  exact ⟨m, h_run, someoneWoken_of_carriesWakeUp h_meet h_run⟩

/-- The woken future is dropped before its next poll. -/
def cancelledRun : List (Action Waiter Unit) :=
  [.tryLock, .poll .first (), .poll .second (), .dropGuard, .dropFuture .first]

/-- A `try_lock` takes the lock before the woken future is polled, which parks
    again without queueing. -/
def bargedRun : List (Action Waiter Unit) :=
  [.tryLock, .poll .first (), .dropGuard, .tryLock, .poll .first (), .dropGuard]

/-- The second future gets the lock while it is queued; its unlock wakes it, and
    not the third one behind it. -/
def readyAtHeadRun : List (Action Waiter Unit) :=
  [.tryLock, .poll .first (), .poll .second (), .dropGuard, .poll .second (), .poll .third (),
    .dropFuture .first, .dropGuard]

/-- Each of the three runs ends with the mutex unlocked and a pending future, and
    no pending future has been woken. -/
theorem runs_strand_waiters :
    (∃ m, (aloneMachine Waiter Unit).exec (aloneMachine Waiter Unit).init cancelledRun = some m ∧
        ¬ SomeoneWoken m) ∧
      (∃ m, (aloneMachine Waiter Unit).exec (aloneMachine Waiter Unit).init bargedRun = some m ∧
        ¬ SomeoneWoken m) ∧
      ∃ m, (aloneMachine Waiter Unit).exec (aloneMachine Waiter Unit).init readyAtHeadRun = some m ∧
        ¬ SomeoneWoken m := by
  refine ⟨?_, ?_, ?_⟩
  · exact Machine.exec_of_decide (by decide +kernel)
  · exact Machine.exec_of_decide (by decide +kernel)
  · exact Machine.exec_of_decide (by decide +kernel)

end AsyncMutex
end Zydon
