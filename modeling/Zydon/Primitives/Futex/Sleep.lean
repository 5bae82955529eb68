/-
  Zydon.Primitives.Futex.Sleep

  A task that waits on a word against a task that stores to the word and wakes,
  one access at a time: the read of the word in user space, the critical sections
  of the two locks, the updates of `len`, and the call of the waker.

  The first poll enqueues the task without reading the word again.  A task that
  takes the lock of the bucket after `wake` has returned is enqueued behind the
  only wake-up there is, and left parked (`notLeftParked_iff`).
-/

import Zydon.Lib.Interleaving
import Zydon.Primitives.Futex.Basic
import Zydon.Primitives.WaitQueue.Parked

namespace Zydon
namespace Futex

open Lib WaitQueue

-- ============================================================================
-- The two tasks
-- ============================================================================

/-- `FutexBucket`, with the node of the only task that waits. -/
structure FutexBucket (Waker : Type*) where
  locked : Bool
  queue : WaitQueue Unit Waker

/-- The word, the table, and the wakers that have been invoked. -/
structure Memory (Waker : Type*) where
  word : BitVec 32
  buckets : Bucket → FutexBucket Waker
  invoked : List Waker

variable {Waker : Type*}

namespace Memory

/-- The `_lock` of bucket `b` is taken or released. -/
def setLocked (s : Memory Waker) (b : Bucket) (locked : Bool) : Memory Waker :=
  { s with buckets := Function.update s.buckets b { s.buckets b with locked := locked } }

/-- The queue of bucket `b` is replaced by `q`. -/
def setQueue (s : Memory Waker) (b : Bucket) (q : WaitQueue Unit Waker) : Memory Waker :=
  { s with buckets := Function.update s.buckets b { s.buckets b with queue := q } }

/-- A waker is invoked. -/
def wake (s : Memory Waker) (waker : Waker) : Memory Waker :=
  { s with invoked := s.invoked ++ [waker] }

end Memory

/-- Where the waiter is: before the operation named, or done. -/
inductive WaiterPc where
  /-- In user space: the read of the word. -/
  | readWord
  /-- In `poll`: `set_waker` and `set_priority`. -/
  | prepare
  /-- In `poll`: the `lock` of the bucket. -/
  | lock
  /-- In `poll`: the critical section of `enqueue`. -/
  | enqueue
  /-- In `poll`: the `fetch_add` of `enqueue`. -/
  | lenAdd
  /-- In `poll`: the release of the bucket. -/
  | unlock
  /-- `poll` has returned; `none` is `Pending`. -/
  | polled (result : Option FutexResult)
  /-- The word was not the expected one: the task does not wait. -/
  | skipped
  deriving DecidableEq

/-- Where the waking task is: before the operation named, or done. -/
inductive WakerPc (Waker : Type*) where
  /-- In user space: the store to the word. -/
  | store
  /-- In `wake`: the `lock` of the bucket. -/
  | lock
  /-- In `wake`: the test of the loop, and the critical section of `wake_one`. -/
  | wakeOne (woken : Nat)
  /-- In `wake_one`, which has dequeued a node: the `fetch_sub`. -/
  | lenSub (woken : Nat) (waker : Option Waker)
  /-- In `wake_one`: the call of the waker. -/
  | invoke (woken : Nat) (waker : Waker)
  /-- In `wake`: the release of the bucket. -/
  | unlock (woken : Nat)
  /-- `wake` has returned. -/
  | done (woken : Nat)

section Programs

variable (virtToPhys : Usize → Usize) (addr : Usize)

/-- One step of the waiter: `wait(addr, expected)` after the read, and its first
    poll with `waker`. -/
def waiterStep (expected : BitVec 32) (waker : Waker) (fuel : Nat) (s : Memory Waker)
    (p : WaiterPc) : Option (Memory Waker × WaiterPc) :=
  let b := bucketFor virtToPhys addr
  let q := (s.buckets b).queue
  match p with
  | .readWord => if s.word = expected then some (s, .prepare) else some (s, .skipped)
  | .prepare => some (s.setQueue b ((q.setWaker () waker).setPriority () 0), .lock)
  | .lock => if (s.buckets b).locked then none else some (s.setLocked b true, .enqueue)
  | .enqueue =>
      match q.enqueueSection fuel () with
      | some q => some (s.setQueue b q, .lenAdd)
      | none => none
  | .lenAdd => some (s.setQueue b q.lenAdd, .unlock)
  | .unlock => some (s.setLocked b false, .polled none)
  | .polled _ | .skipped => none

/-- One step of the waking task: a store of `value`, then `wake(addr, count)`. -/
def wakerStep (value : BitVec 32) (count : Nat) (s : Memory Waker) (r : WakerPc Waker) :
    Option (Memory Waker × WakerPc Waker) :=
  let b := bucketFor virtToPhys addr
  let q := (s.buckets b).queue
  match r with
  | .store => some ({ s with word := value }, .lock)
  | .lock => if (s.buckets b).locked then none else some (s.setLocked b true, .wakeOne 0)
  | .wakeOne woken =>
      if woken < count then
        match q.wakeOneSection with
        | (some (_, waker), q) => some (s.setQueue b q, .lenSub woken waker)
        | (none, q) => some (s.setQueue b q, .unlock woken)
      else some (s, .unlock woken)
  | .lenSub woken waker =>
      match waker with
      | some waker => some (s.setQueue b q.lenSub, .invoke woken waker)
      | none => some (s.setQueue b q.lenSub, .unlock woken)
  | .invoke woken waker => some (s.wake waker, .wakeOne (woken + 1))
  | .unlock woken => some (s.setLocked b false, .done woken)
  | .done _ => none

/-- The waiter. -/
def waiter (expected : BitVec 32) (waker : Waker) (fuel : Nat) :
    ThreadProgram (Memory Waker) WaiterPc Unit where
  start := .readWord
  step := fun s p _ => waiterStep virtToPhys addr expected waker fuel s p

/-- The waking task. -/
def wakingTask (value : BitVec 32) (count : Nat) :
    ThreadProgram (Memory Waker) (WakerPc Waker) Unit where
  start := .store
  step := fun s r _ => wakerStep virtToPhys addr value count s r

/-- The two tasks. -/
abbrev Tasks (Waker : Type*) := Pair (Memory Waker) WaiterPc (WakerPc Waker)

/-- All interleavings of the waiter and the waking task, on an empty table and a
    word with the contents `word`. -/
def compareAndSleep (word expected value : BitVec 32) (waker : Waker) (count fuel : Nat) :
    Machine (Tasks Waker) (Unit ⊕ Unit) :=
  pair (waiter virtToPhys addr expected waker fuel) (wakingTask virtToPhys addr value count)
    { word := word, buckets := fun _ => ⟨false, WaitQueue.new⟩, invoked := [] }

end Programs

-- ============================================================================
-- The invariant
-- ============================================================================

/-- The waiter holds the lock of the bucket. -/
def WaiterPc.holds : WaiterPc → Bool
  | .enqueue | .lenAdd | .unlock => true
  | _ => false

/-- The waking task holds the lock of the bucket. -/
def WakerPc.holds : WakerPc Waker → Bool
  | .wakeOne _ | .lenSub _ _ | .invoke _ _ | .unlock _ => true
  | _ => false

/-- `wake` has dequeued a node and not invoked its waker yet. -/
def WakerPc.waking : WakerPc Waker → Bool
  | .lenSub _ _ | .invoke _ _ => true
  | _ => false

/-- The waker of the waiter, once its node is enqueued: in the queue, with `wake`,
    or invoked. -/
def Handed (q : WaitQueue Unit Waker) (invoked : List Waker) (waker : Waker) :
    WakerPc Waker → Prop
  | .lenSub _ taken => taken = some waker ∧ Parked q []
  | .invoke _ taken => taken = waker ∧ Parked q []
  | _ => Parked q [()] ∧ (q.nodes ()).waker = some waker ∧ invoked = [] ∨
      Parked q [] ∧ waker ∈ invoked

/-- The queue of the bucket, by what the waiter has done. -/
def Queued (q : WaitQueue Unit Waker) (invoked : List Waker) (waker : Waker) (r : WakerPc Waker) :
    WaiterPc → Prop
  | .readWord | .prepare | .skipped => Parked q [] ∧ invoked = [] ∧ r.waking = false
  | .lock | .enqueue =>
      Parked q [] ∧ (q.nodes ()).waker = some waker ∧ invoked = [] ∧ r.waking = false
  | .lenAdd | .unlock =>
      Parked q [()] ∧ (q.nodes ()).waker = some waker ∧ invoked = [] ∧ r.waking = false
  | .polled result => result = none ∧ Handed q invoked waker r

/-- The invariant of the two tasks, on bucket `b`. -/
structure Inv (b : Bucket) (waker : Waker) (s : Memory Waker) (p : WaiterPc) (r : WakerPc Waker) :
    Prop where
  locked : (s.buckets b).locked = (p.holds || r.holds)
  exclusive : p.holds = true → r.holds = false
  queued : Queued (s.buckets b).queue s.invoked waker r p

variable {virtToPhys : Usize → Usize} {addr : Usize} {word expected value : BitVec 32}
  {waker : Waker} {count fuel : Nat} {s s' : Memory Waker} {p p' : WaiterPc} {r r' : WakerPc Waker}
  {b : Bucket}

@[simp] theorem Memory.setLocked_locked (s : Memory Waker) (b : Bucket) (locked : Bool) :
    ((s.setLocked b locked).buckets b).locked = locked := by
  simp [Memory.setLocked]

@[simp] theorem Memory.setLocked_queue (s : Memory Waker) (b : Bucket) (locked : Bool) :
    ((s.setLocked b locked).buckets b).queue = (s.buckets b).queue := by
  simp [Memory.setLocked]

@[simp] theorem Memory.setQueue_locked (s : Memory Waker) (b : Bucket) (q : WaitQueue Unit Waker) :
    ((s.setQueue b q).buckets b).locked = (s.buckets b).locked := by
  simp [Memory.setQueue]

@[simp] theorem Memory.setQueue_queue (s : Memory Waker) (b : Bucket) (q : WaitQueue Unit Waker) :
    ((s.setQueue b q).buckets b).queue = q := by
  simp [Memory.setQueue]

theorem inv_init (b : Bucket) (word : BitVec 32) (waker : Waker) :
    Inv b waker { word := word, buckets := fun _ => ⟨false, WaitQueue.new⟩, invoked := [] }
      .readWord .store where
  locked := rfl
  exclusive := fun h => nomatch h
  queued := ⟨Parked.new, rfl, rfl⟩

/-- A step of the waiter keeps the invariant. -/
theorem Inv.waiterStep (h : Inv (bucketFor virtToPhys addr) waker s p r)
    (h_step : waiterStep virtToPhys addr expected waker fuel s p = some (s', p')) :
    Inv (bucketFor virtToPhys addr) waker s' p' r := by
  obtain ⟨h_locked, h_exclusive, h_queued⟩ := h
  cases p with
  | readWord =>
      simp only [Futex.waiterStep] at h_step
      split at h_step <;> obtain ⟨rfl, rfl⟩ : _ = s' ∧ _ = p' := by simpa using h_step
      · exact ⟨h_locked, h_exclusive, h_queued⟩
      · exact ⟨h_locked, h_exclusive, h_queued⟩
  | prepare =>
      obtain ⟨rfl, rfl⟩ : _ = s' ∧ _ = p' := by simpa [Futex.waiterStep] using h_step
      obtain ⟨h_parked, h_invoked, h_waking⟩ := h_queued
      refine ⟨(Memory.setQueue_locked ..).trans h_locked, h_exclusive, ?_⟩
      rw [Memory.setQueue_queue]
      refine ⟨(h_parked.setWaker () waker).setPriority (), ?_, h_invoked, h_waking⟩
      simp [WaitQueue.setWaker, WaitQueue.setPriority, modify_nodes]
  | lock =>
      simp only [Futex.waiterStep] at h_step
      split at h_step
      · exact absurd h_step (by simp)
      · next h_free =>
          obtain ⟨rfl, rfl⟩ : _ = s' ∧ _ = p' := by simpa using h_step
          have h_r : r.holds = false := by
            simpa [h_locked, WaiterPc.holds] using h_free
          refine ⟨by simp [WaiterPc.holds], fun _ => h_r, ?_⟩
          rw [Memory.setLocked_queue]
          exact h_queued
  | enqueue =>
      obtain ⟨h_parked, h_waker, h_invoked, h_waking⟩ := h_queued
      have h_some : (((s.buckets (bucketFor virtToPhys addr)).queue.nodes ()).waker).isSome := by
        rw [h_waker]
        rfl
      have h_section := (h_parked.priorities.enqueueSection fuel ()).1
      have h_link := h_parked.link List.not_mem_nil h_some
      obtain ⟨rfl, rfl⟩ : _ = s' ∧ _ = p' := by simpa [Futex.waiterStep, h_section] using h_step
      refine ⟨(Memory.setQueue_locked ..).trans h_locked, h_exclusive, ?_⟩
      rw [Memory.setQueue_queue]
      refine ⟨h_link, ?_, h_invoked, h_waking⟩
      rw [link_waker]
      exact h_waker
  | lenAdd =>
      obtain ⟨rfl, rfl⟩ : _ = s' ∧ _ = p' := by simpa [Futex.waiterStep] using h_step
      obtain ⟨h_parked, h_waker, h_invoked, h_waking⟩ := h_queued
      refine ⟨(Memory.setQueue_locked ..).trans h_locked, h_exclusive, ?_⟩
      rw [Memory.setQueue_queue]
      exact ⟨h_parked.lenAdd, h_waker, h_invoked, h_waking⟩
  | unlock =>
      obtain ⟨rfl, rfl⟩ : _ = s' ∧ _ = p' := by simpa [Futex.waiterStep] using h_step
      obtain ⟨h_parked, h_waker, h_invoked, h_waking⟩ := h_queued
      have h_r := h_exclusive rfl
      refine ⟨by simp [WaiterPc.holds, h_r], fun h => absurd h Bool.false_ne_true, ?_⟩
      rw [Memory.setLocked_queue]
      refine ⟨rfl, ?_⟩
      cases r <;> first
        | exact .inl ⟨h_parked, h_waker, h_invoked⟩
        | exact absurd h_waking.symm Bool.false_ne_true
  | polled result | skipped => simp [Futex.waiterStep] at h_step

/-- The waking task moves while the queue and the wakers stay as they are. -/
theorem Queued.move {q : WaitQueue Unit Waker} {invoked : List Waker}
    (h : Queued q invoked waker r p) (h_r : r.waking = false) (h_r' : r'.waking = false) :
    Queued q invoked waker r' p := by
  cases p with
  | readWord | prepare | skipped => exact ⟨h.1, h.2.1, h_r'⟩
  | lock | enqueue | lenAdd | unlock => exact ⟨h.1, h.2.1, h.2.2.1, h_r'⟩
  | polled result =>
      obtain ⟨h_result, h_handed⟩ := h
      refine ⟨h_result, ?_⟩
      have h_default : Parked q [()] ∧ (q.nodes ()).waker = some waker ∧ invoked = [] ∨
          Parked q [] ∧ waker ∈ invoked := by
        cases r <;> first | exact h_handed | exact nomatch h_r
      cases r' <;> first | exact h_default | exact nomatch h_r'

/-- While `wake` looks at the queue, the waiter is not in its critical section. -/
theorem Inv.not_holds (h : Inv b waker s p r) (h_r : r.holds = true) : p.holds = false := by
  cases h_p : p.holds with
  | false => rfl
  | true => exact nomatch h_r.symm.trans (h.exclusive h_p)

/-- A waiter that is not in its critical section has not parked, or has been
    left to `wake`. -/
theorem Inv.queue_cases (h : Inv b waker s p r) (h_p : p.holds = false) (h_r : r.waking = false) :
    Parked (s.buckets b).queue [] ∨
    p = .polled none ∧ Parked (s.buckets b).queue [()] ∧
      ((s.buckets b).queue.nodes ()).waker = some waker ∧ s.invoked = [] := by
  obtain ⟨-, -, h_queued⟩ := h
  cases p with
  | readWord | prepare | skipped | lock => exact .inl h_queued.1
  | enqueue | lenAdd | unlock => exact nomatch h_p
  | polled result =>
      obtain ⟨rfl, h_handed⟩ := h_queued
      have h_default : Parked (s.buckets b).queue [()] ∧
          ((s.buckets b).queue.nodes ()).waker = some waker ∧ s.invoked = [] ∨
          Parked (s.buckets b).queue [] ∧ waker ∈ s.invoked := by
        cases r <;> first | exact h_handed | exact nomatch h_r
      rcases h_default with h_waits | h_woken
      · exact .inr ⟨rfl, h_waits⟩
      · exact .inl h_woken.1

/-- `wake_one` on the queue of one task. -/
theorem wakeOneSection_single {q : WaitQueue Unit Waker} (h : Parked q [()])
    (h_waker : (q.nodes ()).waker = some waker) :
    ∃ q', q.wakeOneSection = (some ((), some waker), q') ∧ Parked q' [] := by
  obtain ⟨taken, q', h_section, h_q', -⟩ := h.wakeOne_cons
  rw [h.rep.wakeOneSection_cons, h_waker] at h_section
  exact ⟨_, by rw [h.rep.wakeOneSection_cons, h_waker], h.takeFirst⟩

/-- A step of the waking task keeps the invariant. -/
theorem Inv.wakerStep (h : Inv (bucketFor virtToPhys addr) waker s p r)
    (h_step : wakerStep virtToPhys addr value count s r = some (s', r')) :
    Inv (bucketFor virtToPhys addr) waker s' p r' := by
  cases r with
  | store =>
      obtain ⟨rfl, rfl⟩ : _ = s' ∧ _ = r' := by simpa [Futex.wakerStep] using h_step
      exact ⟨h.locked, fun _ => rfl, h.queued.move rfl rfl⟩
  | lock =>
      simp only [Futex.wakerStep] at h_step
      split at h_step
      · exact absurd h_step (by simp)
      · next h_free =>
          obtain ⟨rfl, rfl⟩ : _ = s' ∧ _ = r' := by simpa using h_step
          have h_p : p.holds = false := by
            simpa [h.locked, WakerPc.holds] using h_free
          refine ⟨by simp [WakerPc.holds],
            fun h_holds => absurd (h_p.symm.trans h_holds) Bool.false_ne_true, ?_⟩
          rw [Memory.setLocked_queue]
          exact h.queued.move rfl rfl
  | wakeOne woken =>
      have h_p := h.not_holds rfl
      simp only [Futex.wakerStep] at h_step
      split at h_step
      · rcases h.queue_cases h_p rfl with h_empty | ⟨rfl, h_single, h_waker, h_invoked⟩
        · -- nobody waits: `wake_one` returns `false`
          rw [h_empty.wakeOne_nil] at h_step
          obtain ⟨rfl, rfl⟩ : _ = s' ∧ _ = r' := by simpa using h_step
          refine ⟨(Memory.setQueue_locked ..).trans h.locked,
            fun h_holds => absurd (h_p.symm.trans h_holds) Bool.false_ne_true, ?_⟩
          rw [Memory.setQueue_queue]
          exact h.queued.move rfl rfl
        · obtain ⟨q', h_section, h_q'⟩ := wakeOneSection_single h_single h_waker
          rw [h_section] at h_step
          obtain ⟨rfl, rfl⟩ : _ = s' ∧ _ = r' := by simpa using h_step
          refine ⟨(Memory.setQueue_locked ..).trans h.locked,
            fun h_holds => absurd h_holds Bool.false_ne_true, ?_⟩
          rw [Memory.setQueue_queue]
          exact ⟨rfl, rfl, h_q'⟩
      · obtain ⟨rfl, rfl⟩ : _ = s' ∧ _ = r' := by simpa using h_step
        exact ⟨h.locked, fun h_holds => absurd (h_p.symm.trans h_holds) Bool.false_ne_true,
          h.queued.move rfl rfl⟩
  | lenSub woken taken =>
      have h_p := h.not_holds rfl
      have h_queued := h.queued
      cases p with
      | polled result =>
          obtain ⟨h_result, rfl, h_parked⟩ := h_queued
          obtain ⟨rfl, rfl⟩ : _ = s' ∧ _ = r' := by simpa [Futex.wakerStep] using h_step
          refine ⟨(Memory.setQueue_locked ..).trans h.locked,
            fun h_holds => absurd h_holds Bool.false_ne_true, ?_⟩
          rw [Memory.setQueue_queue]
          exact ⟨h_result, rfl, h_parked.lenSub⟩
      | readWord | prepare | skipped => exact absurd h_queued.2.2.symm Bool.false_ne_true
      | lock | enqueue | lenAdd | unlock =>
          exact absurd h_queued.2.2.2.symm Bool.false_ne_true
  | invoke woken taken =>
      have h_queued := h.queued
      obtain ⟨rfl, rfl⟩ : _ = s' ∧ _ = r' := by simpa [Futex.wakerStep] using h_step
      cases p with
      | polled result =>
          obtain ⟨h_result, rfl, h_parked⟩ := h_queued
          exact ⟨h.locked, fun h_holds => absurd h_holds Bool.false_ne_true, h_result,
            .inr ⟨h_parked, List.mem_append_right _ (List.mem_singleton_self _)⟩⟩
      | readWord | prepare | skipped => exact absurd h_queued.2.2.symm Bool.false_ne_true
      | lock | enqueue | lenAdd | unlock =>
          exact absurd h_queued.2.2.2.symm Bool.false_ne_true
  | unlock woken =>
      have h_p := h.not_holds rfl
      obtain ⟨rfl, rfl⟩ : _ = s' ∧ _ = r' := by simpa [Futex.wakerStep] using h_step
      refine ⟨by simp [WakerPc.holds, h_p], fun _ => rfl, ?_⟩
      rw [Memory.setLocked_queue]
      exact h.queued.move rfl rfl
  | done woken => simp [Futex.wakerStep] at h_step

-- ============================================================================
-- The wake-up that is still to come
-- ============================================================================

/-- `wake` has not looked at the queue yet. -/
def WakerPc.ahead : WakerPc Waker → Bool
  | .store | .lock => true
  | .wakeOne woken => woken = 0
  | _ => false

/-- `wake` has returned. -/
def WakerPc.finished : WakerPc Waker → Bool
  | .done _ => true
  | _ => false

theorem WakerPc.exists_of_finished (h : r.finished = true) : ∃ woken, r = .done woken := by
  cases r with
  | done woken => exact ⟨woken, rfl⟩
  | store | lock | wakeOne _ | lenSub _ _ | invoke _ _ | unlock _ => exact nomatch h

/-- A waiter that is in its critical section, or in the queue, has `wake` ahead of
    it. -/
def Awaited (b : Bucket) (s : Memory Waker) (p : WaiterPc) (r : WakerPc Waker) : Prop :=
  p.holds = true ∨ ((s.buckets b).queue.nodes ()).linked = true → r.ahead = true

theorem not_linked {q : WaitQueue Unit Waker} (h : Parked q []) : (q.nodes ()).linked ≠ true :=
  fun h_linked => nomatch (h.linked_iff ()).mp h_linked

/-- The lock of the bucket is free for the waiter when `wake` has not taken it, or
    has returned. -/
theorem Inv.ahead_of_free (h : Inv b waker s p r) (h_free : (s.buckets b).locked = false)
    (h_first : r.finished = false) : r.ahead = true := by
  have h_r : r.holds = false := by
    have h_locked := h.locked
    rw [h_free] at h_locked
    exact (Bool.or_eq_false_iff.mp h_locked.symm).2
  cases r with
  | store | lock => rfl
  | wakeOne _ | lenSub _ _ | invoke _ _ | unlock _ => exact nomatch h_r
  | done _ => exact nomatch h_first

theorem Awaited.waiterStep (h : Awaited (bucketFor virtToPhys addr) s p r)
    (h_inv : Inv (bucketFor virtToPhys addr) waker s p r)
    (h_first : p = .lock → r.finished = false)
    (h_step : Futex.waiterStep virtToPhys addr expected waker fuel s p = some (s', p')) :
    Awaited (bucketFor virtToPhys addr) s' p' r := by
  have h_inv' := h_inv.waiterStep h_step
  intro h_or
  cases p with
  | enqueue | lenAdd | unlock => exact h (.inl rfl)
  | readWord =>
      simp only [Futex.waiterStep] at h_step
      split at h_step <;> obtain ⟨rfl, rfl⟩ : _ = s' ∧ _ = p' := by simpa using h_step
      · exact h (.inr (h_or.resolve_left (by decide)))
      · exact h (.inr (h_or.resolve_left (by decide)))
  | prepare =>
      obtain ⟨rfl, rfl⟩ : _ = s' ∧ _ = p' := by simpa [Futex.waiterStep] using h_step
      exact absurd (h_or.resolve_left (by decide)) (not_linked h_inv'.queued.1)
  | lock =>
      simp only [Futex.waiterStep] at h_step
      split at h_step
      · exact nomatch h_step
      · next h_free => exact h_inv.ahead_of_free (by simpa using h_free) (h_first rfl)
  | polled result | skipped => exact nomatch h_step

theorem Awaited.wakerStep (h : Awaited (bucketFor virtToPhys addr) s p r)
    (h_inv : Inv (bucketFor virtToPhys addr) waker s p r) (h_count : 0 < count)
    (h_step : Futex.wakerStep virtToPhys addr value count s r = some (s', r')) :
    Awaited (bucketFor virtToPhys addr) s' p r' := by
  intro h_or
  cases r with
  | store =>
      obtain ⟨rfl, rfl⟩ : _ = s' ∧ _ = r' := by simpa [Futex.wakerStep] using h_step
      rfl
  | lock =>
      simp only [Futex.wakerStep] at h_step
      split at h_step
      · exact absurd h_step (by simp)
      · obtain ⟨rfl, rfl⟩ : _ = s' ∧ _ = r' := by simpa using h_step
        rfl
  | wakeOne woken =>
      -- the queue is empty after the first round
      have h_p := h_inv.not_holds rfl
      have h_linked := h_or.resolve_left (by simp [h_p])
      simp only [Futex.wakerStep] at h_step
      rcases h_inv.queue_cases h_p rfl with h_empty | ⟨rfl, h_single, h_waker, -⟩
      · split at h_step
        · rw [h_empty.wakeOne_nil] at h_step
          obtain ⟨rfl, rfl⟩ : _ = s' ∧ _ = r' := by simpa using h_step
          rw [Memory.setQueue_queue] at h_linked
          exact absurd h_linked (not_linked h_empty)
        · obtain ⟨rfl, rfl⟩ : _ = s' ∧ _ = r' := by simpa using h_step
          exact absurd h_linked (not_linked h_empty)
      · have h_zero : woken = 0 :=
          of_decide_eq_true (h (.inr ((h_single.linked_iff ()).mpr List.mem_cons_self)))
        obtain ⟨q', h_section, h_q'⟩ := wakeOneSection_single h_single h_waker
        rw [if_pos (h_zero ▸ h_count), h_section] at h_step
        obtain ⟨rfl, rfl⟩ : _ = s' ∧ _ = r' := by simpa using h_step
        rw [Memory.setQueue_queue] at h_linked
        exact absurd h_linked (not_linked h_q')
  | lenSub woken taken =>
      have h_same : ((s'.buckets (bucketFor virtToPhys addr)).queue.nodes ()).linked =
          ((s.buckets (bucketFor virtToPhys addr)).queue.nodes ()).linked := by
        cases taken <;> obtain ⟨rfl, rfl⟩ : _ = s' ∧ _ = r' := by
          simpa [Futex.wakerStep] using h_step
        · rw [Memory.setQueue_queue]
          rfl
        · rw [Memory.setQueue_queue]
          rfl
      rw [h_same] at h_or
      exact absurd (h h_or) Bool.false_ne_true
  | invoke woken taken =>
      obtain ⟨rfl, rfl⟩ : _ = s' ∧ _ = r' := by simpa [Futex.wakerStep] using h_step
      exact absurd (h h_or) Bool.false_ne_true
  | unlock woken =>
      obtain ⟨rfl, rfl⟩ : _ = s' ∧ _ = r' := by simpa [Futex.wakerStep] using h_step
      rw [Memory.setLocked_queue] at h_or
      exact absurd (h h_or) Bool.false_ne_true
  | done woken => simp [Futex.wakerStep] at h_step

-- ============================================================================
-- The wake-up that is over
-- ============================================================================

/-- The waiter has taken the lock of the bucket, and its poll will return
    `Pending` if it has not yet. -/
def WaiterPc.parking : WaiterPc → Bool
  | .enqueue | .lenAdd | .unlock | .polled none => true
  | _ => false

/-- The waiter has taken the lock of the bucket after `wake` has returned. -/
structure Missed (s : Memory Waker) (p : WaiterPc) (r : WakerPc Waker) : Prop where
  parking : p.parking = true
  finished : r.finished = true
  invoked : s.invoked = []

theorem Missed.waiterStep (h : Missed s p r)
    (h_step : Futex.waiterStep virtToPhys addr expected waker fuel s p = some (s', p')) :
    Missed s' p' r := by
  obtain ⟨h_parking, h_finished, h_invoked⟩ := h
  cases p with
  | enqueue =>
      simp only [Futex.waiterStep] at h_step
      split at h_step
      · obtain ⟨rfl, rfl⟩ : _ = s' ∧ _ = p' := by simpa using h_step
        exact ⟨rfl, h_finished, h_invoked⟩
      · exact nomatch h_step
  | lenAdd | unlock =>
      obtain ⟨rfl, rfl⟩ : _ = s' ∧ _ = p' := by simpa [Futex.waiterStep] using h_step
      exact ⟨rfl, h_finished, h_invoked⟩
  | readWord | prepare | lock => exact nomatch h_parking
  | polled result | skipped => exact nomatch h_step

-- ============================================================================
-- Runs
-- ============================================================================

/-- The waiter has finished: it does not wait, or its poll has returned. -/
def WaiterPc.finished : WaiterPc → Bool
  | .polled _ | .skipped => true
  | _ => false

/-- The waiter is not left parked: the word was not the expected one, or its node
    has been dequeued and its waker invoked. -/
def NotLeftParked (b : Bucket) (waker : Waker) (m : Tasks Waker) : Prop :=
  m.left = .skipped ∨ m.left = .polled (some .wouldBlock) ∨
    ((m.shared.buckets b).queue.nodes ()).linked = false ∧ waker ∈ m.shared.invoked

/-- When the poll takes the lock of the bucket, `wake` has not returned. -/
def LocksFirst (m : Tasks Waker) : Unit ⊕ Unit → Prop
  | .inl _ => m.left = .lock → m.right.finished = false
  | .inr _ => True

instance (m : Tasks Waker) : (a : Unit ⊕ Unit) → Decidable (LocksFirst m a)
  | .inl _ => inferInstanceAs (Decidable (m.left = .lock → m.right.finished = false))
  | .inr _ => .isTrue trivial

variable {m m' : Tasks Waker} {a : Unit ⊕ Unit}

theorem inv_step
    (h : Inv (bucketFor virtToPhys addr) waker m.shared m.left m.right)
    (h_step : (compareAndSleep virtToPhys addr word expected value waker count fuel).step m a =
      some m') : Inv (bucketFor virtToPhys addr) waker m'.shared m'.left m'.right := by
  cases a with
  | inl _ =>
      obtain ⟨s, p, h_waiter, rfl⟩ := Pair.step_left_eq_some h_step
      exact h.waiterStep h_waiter
  | inr _ =>
      obtain ⟨s, r, h_waker, rfl⟩ := Pair.step_right_eq_some h_step
      exact h.wakerStep h_waker

theorem awaited_step (h_count : 0 < count)
    (h_inv : Inv (bucketFor virtToPhys addr) waker m.shared m.left m.right)
    (h : Awaited (bucketFor virtToPhys addr) m.shared m.left m.right) (h_first : LocksFirst m a)
    (h_step : (compareAndSleep virtToPhys addr word expected value waker count fuel).step m a =
      some m') : Awaited (bucketFor virtToPhys addr) m'.shared m'.left m'.right := by
  cases a with
  | inl _ =>
      obtain ⟨s, p, h_waiter, rfl⟩ := Pair.step_left_eq_some h_step
      exact h.waiterStep h_inv h_first h_waiter
  | inr _ =>
      obtain ⟨s, r, h_waker, rfl⟩ := Pair.step_right_eq_some h_step
      exact h.wakerStep h_inv h_count h_waker

theorem missed_step (h : Missed m.shared m.left m.right)
    (h_step : (compareAndSleep virtToPhys addr word expected value waker count fuel).step m a =
      some m') : Missed m'.shared m'.left m'.right := by
  cases a with
  | inl _ =>
      obtain ⟨s, p, h_waiter, rfl⟩ := Pair.step_left_eq_some h_step
      exact h.waiterStep h_waiter
  | inr _ =>
      obtain ⟨s, r, h_waker, rfl⟩ := Pair.step_right_eq_some h_step
      obtain ⟨woken, h_r⟩ := WakerPc.exists_of_finished h.finished
      change wakerStep virtToPhys addr value count m.shared m.right = _ at h_waker
      rw [h_r] at h_waker
      exact nomatch h_waker

/-- A waiter that comes after `wake` misses it. -/
theorem missed_of_not_first
    (h : Inv (bucketFor virtToPhys addr) waker m.shared m.left m.right)
    (h_first : ¬ LocksFirst m a)
    (h_step : (compareAndSleep virtToPhys addr word expected value waker count fuel).step m a =
      some m') : Missed m'.shared m'.left m'.right := by
  cases a with
  | inl _ =>
      obtain ⟨h_left, h_right⟩ := Classical.not_imp.mp h_first
      obtain ⟨s, p, h_waiter, rfl⟩ := Pair.step_left_eq_some h_step
      change waiterStep virtToPhys addr expected waker fuel m.shared m.left = _ at h_waiter
      rw [h_left] at h h_waiter
      simp only [waiterStep] at h_waiter
      split at h_waiter
      · exact nomatch h_waiter
      · obtain ⟨rfl, rfl⟩ : _ = s ∧ _ = p := by simpa using h_waiter
        exact ⟨rfl, by simpa using h_right, h.queued.2.2.1⟩
  | inr _ => exact absurd trivial h_first

/-- Once both tasks have finished, the waiter is not left parked exactly when its
    poll has taken the lock of the bucket before `wake` returned. -/
theorem notLeftParked_iff (h_count : 0 < count) {tr : List (Unit ⊕ Unit)}
    (h_run : (compareAndSleep virtToPhys addr word expected value waker count fuel).exec
      (compareAndSleep virtToPhys addr word expected value waker count fuel).init tr = some m)
    (h_left : m.left.finished = true) (h_right : m.right.finished = true) :
    NotLeftParked (bucketFor virtToPhys addr) waker m ↔
      (compareAndSleep virtToPhys addr word expected value waker count fuel).StepsMeet LocksFirst
        (compareAndSleep virtToPhys addr word expected value waker count fuel).init tr := by
  have h_init := inv_init (bucketFor virtToPhys addr) word waker
  constructor
  · intro h_parked
    refine Machine.stepsMeet_iff.mpr fun pre a post m₁ h_tr h_pre => ?_
    by_contra h_first
    rw [h_tr] at h_run
    obtain ⟨m₁', h_pre', h_post⟩ := Machine.exec_append_eq_some.mp h_run
    obtain rfl : m₁ = m₁' := Option.some.inj (h_pre.symm.trans h_pre')
    obtain ⟨m₂, h_step, h_post⟩ := Machine.exec_cons_eq_some.mp h_post
    have h_inv : Inv (bucketFor virtToPhys addr) waker m₁.shared m₁.left m₁.right :=
      Machine.exec_invariant (P := fun m : Tasks Waker => Inv _ waker m.shared m.left m.right)
        (fun _ _ _ h _ h_step => inv_step h h_step) h_init (Machine.stepsMeet_true _ _) h_pre
    have h_missed : Missed m.shared m.left m.right :=
      Machine.exec_invariant (P := fun m : Tasks Waker => Missed m.shared m.left m.right)
        (fun _ _ _ h _ h_step => missed_step h h_step) (missed_of_not_first h_inv h_first h_step)
        (Machine.stepsMeet_true _ _) h_post
    have h_parking := h_missed.parking
    rcases h_parked with h_skipped | h_reported | ⟨-, h_invoked⟩
    · exact nomatch (congrArg WaiterPc.parking h_skipped).symm.trans h_parking
    · exact nomatch (congrArg WaiterPc.parking h_reported).symm.trans h_parking
    · rw [h_missed.invoked] at h_invoked
      exact nomatch h_invoked
  · intro h_meet
    obtain ⟨h_inv, h_awaited⟩ := Machine.exec_invariant
      (P := fun m : Tasks Waker =>
        Inv (bucketFor virtToPhys addr) waker m.shared m.left m.right ∧
          Awaited (bucketFor virtToPhys addr) m.shared m.left m.right)
      (fun _ _ _ h h_first h_step =>
        ⟨inv_step h.1 h_step, awaited_step h_count h.1 h.2 h_first h_step⟩)
      ⟨h_init, fun _ => rfl⟩ h_meet h_run
    obtain ⟨woken, h_r⟩ := WakerPc.exists_of_finished h_right
    have h_linked : ((m.shared.buckets (bucketFor virtToPhys addr)).queue.nodes ()).linked ≠
        true := by
      intro h_linked
      have h_ahead := h_awaited (.inr h_linked)
      rw [h_r] at h_ahead
      exact nomatch h_ahead
    have h_queued := h_inv.queued
    cases h_p : m.left with
    | skipped => exact .inl h_p
    | polled result =>
        rw [h_p, h_r] at h_queued
        refine .inr (.inr ⟨by simpa using h_linked, ?_⟩)
        rcases h_queued.2 with ⟨h_single, -⟩ | ⟨-, h_invoked⟩
        · exact absurd ((h_single.linked_iff ()).mpr List.mem_cons_self) h_linked
        · exact h_invoked
    | readWord | prepare | lock | enqueue | lenAdd | unlock =>
        exact nomatch (congrArg WaiterPc.finished h_p).symm.trans h_left

/-- The poll comes between the read and the store. -/
def pollFirst : List (Unit ⊕ Unit) :=
  List.replicate 6 (.inl ()) ++ List.replicate 7 (.inr ())

theorem notLeftParked_pollFirst :
    ∃ m, (compareAndSleep id 0x1000 7 7 8 'w' 2 0).exec
        (compareAndSleep id 0x1000 7 7 8 'w' 2 0).init pollFirst = some m ∧
      NotLeftParked (bucketFor id 0x1000) 'w' m := by
  have h_replay : ((compareAndSleep id 0x1000 7 7 8 'w' 2 0).exec
      (compareAndSleep id 0x1000 7 7 8 'w' 2 0).init pollFirst).any
      (fun m => decide (m.left.finished = true ∧ m.right.finished = true)) = true := by
    decide +kernel
  obtain ⟨m, h_run, h_left, h_right⟩ := Machine.exec_of_decide h_replay
  exact ⟨m, h_run, (notLeftParked_iff (by decide) h_run h_left h_right).mpr (by decide +kernel)⟩

/-- The store and the wake-up come between the read and the poll. -/
def wakeFirst : List (Unit ⊕ Unit) :=
  [.inl ()] ++ List.replicate 4 (.inr ()) ++ List.replicate 5 (.inl ())

theorem leftParked_wakeFirst :
    ∃ m, (compareAndSleep id 0x1000 7 7 8 'w' 2 0).exec
        (compareAndSleep id 0x1000 7 7 8 'w' 2 0).init wakeFirst = some m ∧
      m.left.finished = true ∧ m.right.finished = true ∧
      ¬ NotLeftParked (bucketFor id 0x1000) 'w' m := by
  have h_replay : ((compareAndSleep id 0x1000 7 7 8 'w' 2 0).exec
      (compareAndSleep id 0x1000 7 7 8 'w' 2 0).init wakeFirst).any
      (fun m => decide (m.left = .polled none ∧ m.right.finished = true ∧
        m.shared.invoked = [])) = true := by
    decide +kernel
  obtain ⟨m, h_run, h_left, h_right, h_invoked⟩ := Machine.exec_of_decide h_replay
  refine ⟨m, h_run, by rw [h_left]; rfl, h_right, ?_⟩
  rintro (h_skipped | h_reported | ⟨-, h_mem⟩)
  · exact nomatch h_left.symm.trans h_skipped
  · exact nomatch h_left.symm.trans h_reported
  · rw [h_invoked] at h_mem
    exact nomatch h_mem

end Futex
end Zydon
