/-
  Zydon.Primitives.AsyncMutex.Basic

  The async mutex of `primitives/async_mutex.rs`, one atomic operation at a
  time: the operations on `state` and `holder_priority`, the critical sections
  of the wait queue, and the updates of the queue's `len`.

  A task calls `try_lock`, polls or drops a lock future, or drops a guard; any
  task may drop any guard, and a future is only used by one task at a time.
  The calls of one task are the program `program`; `machine` interleaves any
  number of tasks, and `callAlone` runs one call without interruption.
-/

import Zydon.Lib.Interleaving
import Zydon.Primitives.WaitQueue.Basic

namespace Zydon
namespace AsyncMutex

open Lib

-- ============================================================================
-- The mutex and its futures
-- ============================================================================

/-- `UNLOCKED`. -/
def unlocked : BitVec 32 := 0

/-- `LOCKED_NO_WAITERS`. -/
def lockedNoWaiters : BitVec 32 := 1

/-- `LOCKED_HAS_WAITERS`. -/
def lockedHasWaiters : BitVec 32 := 2

/-- `MutexLockFuture`; its `wait_node` is the node of the queue at its address.
    `woken` records that the waker in that node has been invoked since the start
    of the last poll. -/
structure LockFuture where
  registered : Bool
  status : FutureStatus
  woken : Bool
  deriving DecidableEq, Repr

/-- `AsyncMutex`, with the futures of its `lock` and the number of guards that
    callers hold. -/
structure Mutex (Fut Waker : Type*) where
  state : BitVec 32
  waiters : WaitQueue Fut Waker
  holderPriority : Int
  futures : Fut → LockFuture
  guards : Nat

variable {Fut Waker : Type*}

/-- `AsyncMutex::new`. -/
def new : Mutex Fut Waker where
  state := unlocked
  waiters := WaitQueue.new
  holderPriority := 0
  futures := fun _ => { registered := false, status := .fresh, woken := false }
  guards := 0

/-- `compare_exchange(UNLOCKED, word)`: the new state if it succeeds. -/
def compareExchange (state word : BitVec 32) : Option (BitVec 32) :=
  if state = unlocked then some word else none

theorem lockedNoWaiters_ne : lockedNoWaiters ≠ unlocked := by decide

theorem lockedHasWaiters_ne : lockedHasWaiters ≠ unlocked := by decide

theorem compareExchange_eq_some {state word new : BitVec 32}
    (h : compareExchange state word = some new) : state = unlocked ∧ new = word := by
  simp only [compareExchange] at h
  split at h
  · next h_old => exact ⟨h_old, (Option.some.inj h).symm⟩
  · exact absurd h (by simp)

theorem compareExchange_of_locked {state : BitVec 32} (word : BitVec 32) (h : state ≠ unlocked) :
    compareExchange state word = none := by
  rw [compareExchange, if_neg h]

/-- Write to the future `f`. -/
def Mutex.setFuture [DecidableEq Fut] (m : Mutex Fut Waker) (f : Fut)
    (g : LockFuture → LockFuture) : Mutex Fut Waker :=
  { m with futures := Function.update m.futures f (g (m.futures f)) }

/-- A poll of `f` ends: `Ready` with a guard. -/
def Mutex.ready [DecidableEq Fut] (m : Mutex Fut Waker) (f : Fut) : Mutex Fut Waker :=
  { m.setFuture f fun x => { x with status := .ready } with guards := m.guards + 1 }

-- ============================================================================
-- One task
-- ============================================================================

/-- Where a task is: outside the mutex, or before the operation named. -/
inductive Pc (Fut : Type*) where
  | idle
  /-- In `poll`: the store of `LOCKED_HAS_WAITERS`. -/
  | pollStore (f : Fut)
  /-- In `poll`: the critical section of `enqueue`. -/
  | pollEnqueue (f : Fut)
  /-- In `poll`: the `fetch_add` of `enqueue`. -/
  | pollLenAdd (f : Fut)
  /-- In `apply_priority_inheritance`: the load of `holder_priority`. -/
  | boostLoad (f : Fut)
  /-- In `apply_priority_inheritance`: the exchange of `holder_priority`. -/
  | boostExchange (f : Fut) (current : Int)
  /-- In `poll`: the exchange after enqueuing. -/
  | pollRetry (f : Fut)
  /-- In `poll`, which has got the lock: the critical section of `remove`. -/
  | pollRemove (f : Fut)
  /-- In `poll`, which has got the lock: the `fetch_sub` of `remove`. -/
  | pollLenSub (f : Fut)
  /-- In `unlock_inner`: the load of `waiters.is_empty`. -/
  | unlockIsEmpty
  /-- In `unlock_inner`, without waiters: the swap. -/
  | unlockSwap
  /-- In `unlock_inner`, with waiters: the store. -/
  | unlockStore
  /-- In `unlock_inner`: the critical section of `wake_one`. -/
  | wakeOne
  /-- In `wake_one`, which has dequeued the node of `f`: the `fetch_sub`. -/
  | wakeLenSub (f : Fut) (hasWaker : Bool)
  /-- In `wake_one`: `wake` of the waker taken from the node of `f`. -/
  | wakeCall (f : Fut)
  /-- In the drop of `f`: the `fetch_sub` of `remove`. -/
  | dropLenSub (f : Fut)
  deriving DecidableEq, Repr

/-- The labels of the steps of a task: the start of a call, together with its
    first atomic operation, and every later operation. -/
inductive Action (Fut Waker : Type*) where
  | tryLock
  | poll (f : Fut) (waker : Waker)
  | dropGuard
  | dropFuture (f : Fut)
  | run
  /-- The operation is a `compare_exchange_weak` that fails spuriously. -/
  | spurious
  deriving DecidableEq, Repr

variable [DecidableEq Fut]

/-- `AsyncMutex::try_lock`. -/
def tryLock (m : Mutex Fut Waker) : Mutex Fut Waker :=
  match compareExchange m.state lockedNoWaiters with
  | some state => { m with state := state, guards := m.guards + 1 }
  | none => m

/-- `poll` up to its first exchange and, when that fails, to the next operation
    on shared memory. -/
def pollStart (m : Mutex Fut Waker) (f : Fut) (waker : Waker) : Mutex Fut Waker × Pc Fut :=
  match compareExchange m.state lockedNoWaiters with
  | some state => ({ m with state := state }.ready f, .idle)
  | none =>
      let m := m.setFuture f fun x => { x with status := .polling, woken := false }
      if (m.futures f).registered then (m, .pollRetry f)
      else ({ m with waiters := (m.waiters.setWaker f waker).setPriority f 0 }, .pollStore f)

/-- The exchange after enqueuing. -/
def pollRetry (m : Mutex Fut Waker) (f : Fut) : Mutex Fut Waker × Pc Fut :=
  match compareExchange m.state lockedHasWaiters with
  | some state =>
      if (m.futures f).registered then ({ m with state := state }, .pollRemove f)
      else ({ m with state := state }.ready f, .idle)
  | none => (m.setFuture f fun x => { x with status := .pending }, .idle)

/-- The end of a poll that has got the lock after `remove`. -/
def pollRemoved (m : Mutex Fut Waker) (f : Fut) : Mutex Fut Waker × Pc Fut :=
  ((m.setFuture f fun x => { x with registered := false }).ready f, .idle)

/-- `MutexLockFuture::drop`, up to the critical section of `remove`. -/
def dropFuture (m : Mutex Fut Waker) (f : Fut) : Mutex Fut Waker × Pc Fut :=
  let m' := m.setFuture f fun x => { x with status := .dropped }
  if (m.futures f).registered then
    let (unlinked, waiters) := m.waiters.removeSection f
    ({ m' with waiters := waiters }, if unlinked then .dropLenSub f else .idle)
  else (m', .idle)

/-- The start of a call, in the states in which it can be made. -/
def startCall (m : Mutex Fut Waker) : Action Fut Waker → Option (Mutex Fut Waker × Pc Fut)
  | .tryLock => some (tryLock m, .idle)
  | .poll f waker =>
      if (m.futures f).status = .fresh ∨ (m.futures f).status = .pending then
        some (pollStart m f waker)
      else none
  | .dropGuard =>
      -- `holder_priority.store(0)`; the base priority is loaded and not used
      if 0 < m.guards then
        some ({ m with guards := m.guards - 1, holderPriority := 0 }, .unlockIsEmpty)
      else none
  | .dropFuture f =>
      match (m.futures f).status with
      | .fresh | .pending | .ready => some (dropFuture m f)
      | .polling | .dropped => none
  | .run | .spurious => none

/-- One operation inside a call.  All nodes of the queue have priority `0`, so
    that `enqueue` needs no fuel (`run_enabled`). -/
def runCall (m : Mutex Fut Waker) : Pc Fut → Option (Mutex Fut Waker × Pc Fut)
  | .idle => none
  | .pollStore f => some ({ m with state := lockedHasWaiters }, .pollEnqueue f)
  | .pollEnqueue f =>
      match m.waiters.enqueueSection 0 f with
      | some waiters => some ({ m with waiters := waiters }, .pollLenAdd f)
      | none => none
  | .pollLenAdd f =>
      some ({ m with waiters := m.waiters.lenAdd }.setFuture f fun x =>
        { x with registered := true }, .boostLoad f)
  | .boostLoad f =>
      if m.holderPriority ≥ (m.waiters.nodes f).priority then some (m, .pollRetry f)
      else some (m, .boostExchange f m.holderPriority)
  | .boostExchange f current =>
      if m.holderPriority = current then
        some ({ m with holderPriority := (m.waiters.nodes f).priority }, .pollRetry f)
      else some (m, .boostLoad f)
  | .pollRetry f => some (pollRetry m f)
  | .pollRemove f =>
      let (unlinked, waiters) := m.waiters.removeSection f
      if unlinked then some ({ m with waiters := waiters }, .pollLenSub f)
      else some (pollRemoved { m with waiters := waiters } f)
  | .pollLenSub f => some (pollRemoved { m with waiters := m.waiters.lenSub } f)
  | .unlockIsEmpty => some (m, if m.waiters.isEmpty then .unlockSwap else .unlockStore)
  | .unlockSwap => some ({ m with state := unlocked }, .idle)
  | .unlockStore => some ({ m with state := unlocked }, .wakeOne)
  | .wakeOne =>
      match m.waiters.wakeOneSection with
      | (none, waiters) => some ({ m with waiters := waiters }, .idle)
      | (some (f, waker), waiters) =>
          some ({ m with waiters := waiters }, .wakeLenSub f waker.isSome)
  | .wakeLenSub f hasWaker =>
      some ({ m with waiters := m.waiters.lenSub }, if hasWaker then .wakeCall f else .idle)
  | .wakeCall f => some (m.setFuture f fun x => { x with woken := true }, .idle)
  | .dropLenSub _ => some ({ m with waiters := m.waiters.lenSub }, .idle)

/-- The atomic steps of a task. -/
def step (m : Mutex Fut Waker) : Pc Fut → Action Fut Waker → Option (Mutex Fut Waker × Pc Fut)
  | .idle, a => startCall m a
  | p, .run => runCall m p
  | .boostExchange f _, .spurious => some (m, .boostLoad f)
  | _, _ => none

/-- A task that uses the mutex. -/
def program (Fut Waker : Type*) [DecidableEq Fut] :
    ThreadProgram (Mutex Fut Waker) (Pc Fut) (Action Fut Waker) where
  start := .idle
  step := step

/-- Any number of tasks that use one mutex, interleaved. -/
def machine (Task Fut Waker : Type*) [DecidableEq Task] [DecidableEq Fut] :
    Machine (Threads Task (Mutex Fut Waker) (Pc Fut)) (Task × Action Fut Waker) :=
  (program Fut Waker).interleave Task new

-- ============================================================================
-- Uninterrupted calls
-- ============================================================================

def Pc.isIdle : Pc Fut → Bool
  | .idle => true
  | _ => false

/-- A call from its start to its return; the longest one takes seven operations
    after the first. -/
def callAlone (m : Mutex Fut Waker) (a : Action Fut Waker) : Option (Mutex Fut Waker) :=
  match startCall m a with
  | some (m, p) => ((program Fut Waker).soloUntil Pc.isIdle .run 7 m p).map Prod.fst
  | none => none

/-- The mutex under calls that are never interrupted. -/
def aloneMachine (Fut Waker : Type*) [DecidableEq Fut] :
    Machine (Mutex Fut Waker) (Action Fut Waker) where
  init := new
  step := callAlone

/-- Uninterrupted calls are a run of the interleaving, by a single task. -/
theorem reachable_of_aloneMachine {m : Mutex Fut Waker} (h : (aloneMachine Fut Waker).Reachable m) :
    (machine Unit Fut Waker).Reachable { shared := m, pc := fun _ => .idle } := by
  have h_move : ∀ (pc : Unit → Pc Fut) (p : Pc Fut), Function.update pc () p = fun _ => p :=
    fun pc p => funext fun _ => Function.update_self ..
  refine h.invariant
    (P := fun m => (machine Unit Fut Waker).Reachable { shared := m, pc := fun _ => .idle })
    ⟨[], rfl⟩ ?_
  rintro m a m' ⟨tr, h_run⟩ h_call
  simp only [aloneMachine, callAlone] at h_call
  split at h_call
  · next m₁ p₁ h_start =>
      obtain ⟨⟨m₂, p₂⟩, h_solo, rfl⟩ := Option.map_eq_some_iff.mp h_call
      have h_first : (machine Unit Fut Waker).step { shared := m, pc := fun _ => .idle } ((), a) =
          some { shared := m₁, pc := fun _ => p₁ } := by
        simp only [machine, ThreadProgram.interleave, program, step, h_start, h_move]
      obtain ⟨h_idle, n, h_rest⟩ : p₂.isIdle = true ∧ ∃ n, (machine Unit Fut Waker).exec
          { shared := m₁, pc := fun _ => p₁ } (List.replicate n ((), .run)) =
            some { shared := m₂, pc := Function.update (fun _ => p₁) () p₂ } :=
        ThreadProgram.exec_of_soloUntil h_solo () rfl
      have h_p₂ : p₂ = .idle := by
        cases p₂ <;> simp [Pc.isIdle] at h_idle
        rfl
      rw [h_move, h_p₂] at h_rest
      exact ⟨tr ++ ((), a) :: List.replicate n ((), .run), Machine.exec_append_eq_some.mpr
        ⟨_, h_run, Machine.exec_cons_eq_some.mpr ⟨_, h_first, h_rest⟩⟩⟩
  · exact absurd h_call (by simp)

end AsyncMutex
end Zydon
