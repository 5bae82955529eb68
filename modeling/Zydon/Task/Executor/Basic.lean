/-
  Zydon.Task.Executor.Basic

  The executors of `task/executor.rs`, with the wakers and the callers of
  `enqueue_task`: any number of each, one atomic operation on a task control
  block at a time.

  An operation of a run queue or of a deque is one step here, on the list of the
  tasks it holds; their own steps are those of `RunQueue` and `Stealer`.  What a
  future does inside `poll` is left open: it may park its task at any time, and
  return what it likes.  `runner` records the executor that has made the last
  transition of a task to `Running`, and `queued` the tasks that are in a run
  queue, which a caller may not enqueue again.
-/

import Zydon.Task.RunQueue.Basic
import Zydon.Task.Stealer.Basic
import Zydon.Task.TaskControlBlock

namespace Zydon

-- ============================================================================
-- Executors
-- ============================================================================

/-- `Executor`.  The deque is the list of its tasks, the oldest first. -/
structure Executor (Core Task : Type*) where
  coreId : BitVec 32
  worker : List Task
  stealers : List Core
  runQueue : RunQueue.Level → List Task
  defaultQuantum : BitVec 32
  pollsExecuted : BitVec 64

namespace Executor

open Lib RunQueue

variable {Core Task Waker : Type*}

/-- What the executors are created with. -/
structure Setup (Core : Type*) where
  coreId : Core → BitVec 32
  stealers : Core → List Core
  defaultQuantum : Core → BitVec 32

/-- The executors and the tasks. -/
structure System (Core Task : Type*) where
  executor : Core → Executor Core Task
  tcb : Task → TaskControlBlock
  queued : Task → Bool
  runner : Task → Option Core

/-- `Executor::new` on each core, and tasks that have not run yet. -/
def System.new (setup : Setup Core) : System Core Task where
  executor := fun c =>
    { coreId := setup.coreId c
      worker := []
      stealers := setup.stealers c
      runQueue := fun _ => []
      defaultQuantum := setup.defaultQuantum c
      pollsExecuted := 0 }
  tcb := fun _ => .new
  queued := fun _ => false
  runner := fun _ => none

/-- The highest level that holds a task. -/
def highest (q : Level → List Task) : Option Level :=
  (List.finRange 32).reverse.find? fun L => !(q L).isEmpty

/-- `pick_victim`: an index into `n` stealers. -/
def pickVictim (pollsExecuted : BitVec 64) (n : Nat) : Nat :=
  let seed := pollsExecuted.setWidth 32 * 1664525 + 1013904223
  let seed := seed ^^^ (seed <<< 13)
  let seed := seed ^^^ (seed >>> 17)
  let seed := seed ^^^ (seed <<< 5)
  seed.toNat % n

/-- The length of the array that `try_steal` hands to `steal_batch`. -/
def batchLen : Nat := 64

namespace System

variable [DecidableEq Core] [DecidableEq Task]

/-- Write to the executor of a core. -/
def setExecutor (s : System Core Task) (c : Core)
    (f : Executor Core Task → Executor Core Task) : System Core Task :=
  { s with executor := Function.update s.executor c (f (s.executor c)) }

/-- Write to a task control block. -/
def setTcb (s : System Core Task) (task : Task) (f : TaskControlBlock → TaskControlBlock) :
    System Core Task :=
  { s with tcb := Function.update s.tcb task (f (s.tcb task)) }

/-- Store a state. -/
def setState (s : System Core Task) (task : Task) (state : TaskState) : System Core Task :=
  s.setTcb task fun t => { t with state := state }

/-- `worker.push`. -/
def push (s : System Core Task) (c : Core) (task : Task) : System Core Task :=
  s.setExecutor c fun e => { e with worker := e.worker ++ [task] }

/-- `worker.pop`, as one step. -/
def pop (s : System Core Task) (c : Core) : Option (Task × System Core Task) :=
  match (s.executor c).worker.getLast? with
  | none => none
  | some task => some (task, s.setExecutor c fun e => { e with worker := e.worker.dropLast })

/-- `run_queue.dequeue`. -/
def dequeue (s : System Core Task) (c : Core) : Option (Task × System Core Task) :=
  match highest (s.executor c).runQueue with
  | none => none
  | some L =>
      match (s.executor c).runQueue L with
      | [] => none
      | task :: rest =>
          let s := s.setExecutor c fun e =>
            { e with runQueue := Function.update e.runQueue L rest }
          some (task, { s with queued := Function.update s.queued task false })

/-- `enqueue_task`, of a task that is in no run queue. -/
def enqueueTask (s : System Core Task) (c : Core) (task : Task) : Option (System Core Task) :=
  if s.queued task then none
  else
    let L := priorityToLevel (s.tcb task).effectivePriority.toInt
    let s := s.setExecutor c fun e =>
      { e with runQueue := Function.update e.runQueue L (e.runQueue L ++ [task]) }
    some { s with queued := Function.update s.queued task true }

/-- The victim's `steal_batch` of `try_steal`, as one step: the oldest tasks of its
    deque. -/
def stealBatch (s : System Core Task) (c : Core) : List Task × System Core Task :=
  let stealers := (s.executor c).stealers
  match stealers[pickVictim (s.executor c).pollsExecuted stealers.length]? with
  | none => ([], s)
  | some victim =>
      let n := min batchLen Stealer.maxStealBatch
      ((s.executor victim).worker.take n,
        s.setExecutor victim fun e => { e with worker := e.worker.drop n })

end System

-- ============================================================================
-- The steps of an executor
-- ============================================================================

/-- Where an executor is: between two operations of its main loop, or before
    the step named. -/
inductive ExecutorPc (Task : Type*) where
  | idle
  /-- `drain_run_queue`: the next `dequeue`. -/
  | dequeue
  /-- `drain_run_queue`: the push of the task it has dequeued. -/
  | drained (task : Task)
  /-- `try_steal`: the pushes of what is left of the batch. -/
  | stolen (task : Task) (rest : List Task)
  /-- `poll_task`: the transition from `Ready` to `Running`. -/
  | claim (task : Task)
  /-- The store to `current_core`. -/
  | storeCore (task : Task)
  /-- `reset_quantum`. -/
  | resetQuantum (task : Task)
  /-- The call of `future.poll`. -/
  | callPoll (task : Task)
  /-- Inside `future.poll`. -/
  | inPoll (task : Task)
  /-- The transition from `Running` to `Dying`. -/
  | dying (task : Task)
  /-- The store of `Dead`. -/
  | dead (task : Task)
  /-- The store to `current_core` of a task that has finished. -/
  | finished (task : Task)
  /-- `consume_tick`. -/
  | tick (task : Task)
  /-- The look at the state of a task whose quantum has expired. -/
  | getState (task : Task)
  /-- The transition from `Running` to `Ready`. -/
  | expire (task : Task)
  /-- The store to `current_core` of a task that is put back, or has parked. -/
  | release (task : Task) (requeue : Bool)
  /-- `worker.push` of the task that is put back. -/
  | requeue (task : Task)
  /-- The `fetch_add` on `decay_counter`. -/
  | decay (task : Task)
  /-- The load of `effective_priority`. -/
  | loadEffective (task : Task)
  /-- The load of `base_priority`. -/
  | loadBase (task : Task) (eff : BitVec 32)
  /-- The `fetch_sub` on `effective_priority`. -/
  | decrement (task : Task)
  /-- A transition that the code `expect`s to succeed has failed. -/
  | panicked
  deriving DecidableEq

/-- The labels of an executor: the operations of its main loop, what a future
    does inside `poll`, and every other step. -/
inductive ExecutorAction where
  | drain
  | pop
  | trySteal
  | park
  | returnReady
  | returnPending
  | run
  deriving DecidableEq

variable [DecidableEq Core] [DecidableEq Task]

/-- The operations of the main loop: `drain_run_queue`, `poll_task` of the task
    `worker.pop` returns, and `try_steal`. -/
def startStep (c : Core) (s : System Core Task) :
    ExecutorAction → Option (System Core Task × ExecutorPc Task)
  | .drain => some (s, .dequeue)
  | .pop =>
      match s.pop c with
      | some (task, s) => some (s, .claim task)
      | none => some (s, .idle)
  | .trySteal =>
      match s.stealBatch c with
      | (task :: rest, s) => some (s, .stolen task rest)
      | ([], s) => some (s, .idle)
  | .park | .returnReady | .returnPending | .run => none

/-- What a future does inside `poll`, up to the next step of `poll_task`. -/
def futureStep (c : Core) (s : System Core Task) (task : Task) :
    ExecutorAction → Option (System Core Task × ExecutorPc Task)
  | .park =>
      match (s.tcb task).state.transition .running .blocked with
      | .ok state => some (s.setState task state, .inPoll task)
      | .error _ => some (s, .inPoll task)
  | .returnReady => some (s, .dying task)
  | .returnPending =>
      some (s.setExecutor c fun e => { e with pollsExecuted := e.pollsExecuted + 1 }, .tick task)
  | .drain | .pop | .trySteal | .run => none

/-- The steps of `drain_run_queue`, `try_steal` and `poll_task`. -/
def runStep (c : Core) (s : System Core Task) :
    ExecutorPc Task → Option (System Core Task × ExecutorPc Task)
  | .dequeue =>
      match s.dequeue c with
      | some (task, s) => some (s, .drained task)
      | none => some (s, .idle)
  | .drained task => some (s.push c task, .dequeue)
  | .stolen task [] => some (s.push c task, .idle)
  | .stolen task (next :: rest) => some (s.push c task, .stolen next rest)
  | .claim task =>
      match (s.tcb task).state.transition .ready .running with
      | .ok state =>
          some ({ s.setState task state with runner := Function.update s.runner task (some c) },
            .storeCore task)
      -- moved by a concurrent wake: skipped
      | .error _ => some (s, .idle)
  | .storeCore task =>
      some (s.setTcb task fun t => { t with currentCore := (s.executor c).coreId },
        .resetQuantum task)
  | .resetQuantum task =>
      some (s.setTcb task fun t => t.resetQuantum (s.executor c).defaultQuantum, .callPoll task)
  | .callPoll task => some (s, .inPoll task)
  | .dying task =>
      match (s.tcb task).state.transition .running .dying with
      | .ok state => some (s.setState task state, .dead task)
      | .error _ => some (s, .panicked)
  | .dead task => some (s.setState task .dead, .finished task)
  | .finished task =>
      let s := s.setTcb task fun t => { t with currentCore := TaskControlBlock.noCore }
      some (s.setExecutor c fun e => { e with pollsExecuted := e.pollsExecuted + 1 }, .idle)
  | .tick task =>
      some (s.setTcb task .consumeTick,
        if (s.tcb task).tickExpires then .getState task else .callPoll task)
  | .getState task =>
      if (s.tcb task).state = .running then some (s, .expire task)
      else some (s, .release task false)
  | .expire task =>
      match (s.tcb task).state.transition .running .ready with
      | .ok state => some (s.setState task state, .release task true)
      | .error _ => some (s, .panicked)
  | .release task requeue =>
      some (s.setTcb task fun t => { t with currentCore := TaskControlBlock.noCore },
        if requeue then .requeue task else .decay task)
  | .requeue task => some (s.push c task, .decay task)
  | .decay task =>
      let decay := (s.tcb task).decayCounter + 1
      some (s.setTcb task fun t => { t with decayCounter := decay },
        if decay % 4 = 0 then .loadEffective task else .idle)
  | .loadEffective task => some (s, .loadBase task (s.tcb task).effectivePriority)
  | .loadBase task eff =>
      some (s, if TaskControlBlock.mayDecay eff (s.tcb task).basePriority then .decrement task
        else .idle)
  | .decrement task =>
      some (s.setTcb task fun t => { t with effectivePriority := t.effectivePriority - 1 }, .idle)
  | .idle | .inPoll _ | .panicked => none

/-- One step of the executor of core `c`. -/
def executorStep (c : Core) (s : System Core Task) (pc : ExecutorPc Task) (a : ExecutorAction) :
    Option (System Core Task × ExecutorPc Task) :=
  match pc with
  | .idle => startStep c s a
  | .inPoll task => futureStep c s task a
  | pc => if a = .run then runStep c s pc else none

-- ============================================================================
-- Wakers and the system
-- ============================================================================

/-- Where a caller of `wake` is. -/
inductive WakerPc (Task : Type*) where
  | idle
  /-- The load of the state. -/
  | get (task : Task)
  /-- The transition from `Blocked` to `Ready`. -/
  | fromBlocked (task : Task)
  /-- The transition from `Created` to `Ready`. -/
  | fromCreated (task : Task)
  deriving DecidableEq

/-- The labels of the kernel around the executors: a call of `wake`, as every
    waker makes it, an `enqueue_task`, a store to the priorities of a task, and
    the steps of `wake`. -/
inductive WakerAction (Core Task : Type*) where
  | wake (task : Task)
  | enqueueTask (c : Core) (task : Task)
  | storePriority (task : Task) (effective base : BitVec 32)
  | run

/-- `TaskControlBlock::wake`, and the other calls. -/
def wakerStep (s : System Core Task) :
    WakerPc Task → WakerAction Core Task → Option (System Core Task × WakerPc Task)
  | .idle, .wake task => some (s, .get task)
  | .idle, .enqueueTask c task => (s.enqueueTask c task).map fun s => (s, .idle)
  | .idle, .storePriority task effective base =>
      some (s.setTcb task fun t =>
        { t with effectivePriority := effective, basePriority := base }, .idle)
  | .get task, .run =>
      match (s.tcb task).state with
      | .blocked => some (s, .fromBlocked task)
      | .created => some (s, .fromCreated task)
      | .ready | .running | .dying | .dead => some (s, .idle)
  | .fromBlocked task, .run =>
      match (s.tcb task).state.transition .blocked .ready with
      | .ok state => some (s.setState task state, .idle)
      | .error _ => some (s, .get task)
  | .fromCreated task, .run =>
      match (s.tcb task).state.transition .created .ready with
      | .ok state => some (s.setState task state, .idle)
      | .error _ => some (s, .get task)
  | _, _ => none

/-- The executor of a core. -/
def executor (Task : Type*) [DecidableEq Task] (c : Core) :
    ThreadProgram (System Core Task) (ExecutorPc Task) ExecutorAction where
  start := .idle
  step := executorStep c

/-- A caller of `wake`, `enqueue_task` and the like. -/
def waker (Core Task : Type*) [DecidableEq Core] [DecidableEq Task] :
    ThreadProgram (System Core Task) (WakerPc Task) (WakerAction Core Task) where
  start := .idle
  step := wakerStep

/-- The system with its executors and the callers around them. -/
abbrev State (Core Task Waker : Type*) :=
  Families Core Waker (System Core Task) (ExecutorPc Task) (WakerPc Task)

/-- The labels of the system. -/
abbrev Label (Core Task Waker : Type*) :=
  Core × ExecutorAction ⊕ Waker × WakerAction Core Task

/-- The executors and the callers around them, interleaved. -/
def machine (Task Waker : Type*) [DecidableEq Task] [DecidableEq Waker] (setup : Setup Core) :
    Machine (State Core Task Waker) (Label Core Task Waker) :=
  families (executor Task) (fun _ => waker Core Task) (System.new setup)

end Executor
end Zydon
