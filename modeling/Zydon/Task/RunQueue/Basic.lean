/-
  Zydon.Task.RunQueue.Basic

  The multilevel run queue of `task/run_queue.rs`: any number of cores in
  `enqueue` and one core in `dequeue`, one atomic operation or one section under
  a level's spinlock at a time.

  A task is named by its address.  `queued` records the tasks a caller may not
  enqueue again: those whose `enqueue` has begun and that no `dequeue` has
  popped since.
-/

import Mathlib.Data.BitVec
import Zydon.Lib.Interleaving

namespace Zydon
namespace RunQueue

open Lib

-- ============================================================================
-- Levels
-- ============================================================================

/-- An index of `levels`, below `NUM_LEVELS`. -/
abbrev Level := Fin 32

/-- `LevelQueue`, of tasks at addresses `Task`. -/
structure LevelQueue (Task : Type*) where
  head : Option Task
  tail : Option Task
  count : BitVec 32
  deriving DecidableEq

/-- `LevelQueue::is_empty`. -/
def LevelQueue.isEmpty {Task : Type*} (q : LevelQueue Task) : Bool := q.count == 0

/-- `RunQueue`, with the `run_queue_next` fields of the tasks. -/
structure Queue (Task : Type*) where
  runQueueNext : Task → Option Task
  levels : Level → LevelQueue Task
  occupancy : BitVec 32
  len : BitVec 32
  queued : Task → Bool

/-- `priority_to_level`. -/
def priorityToLevel (priority : Int) : Level :=
  ⟨(min (max priority (-16)) 15 + 16).toNat, by omega⟩

/-- The highest bit set: `31 - bitmap.leading_zeros()`. -/
def highestLevel (bitmap : BitVec 32) : Level := ⟨31 - bitmap.clz.toNat, by omega⟩

/-- The bit of a level: `1u32 << level`. -/
def levelBit (level : Level) : BitVec 32 := 1#32 <<< level.val

namespace Queue

variable {Task : Type*}

/-- `RunQueue::new`. -/
def new : Queue Task where
  runQueueNext := fun _ => none
  levels := fun _ => ⟨none, none, 0⟩
  occupancy := 0
  len := 0
  queued := fun _ => false

variable [DecidableEq Task]

/-- `*(*task).run_queue_next.get() = next`. -/
def setNext (q : Queue Task) (task : Task) (next : Option Task) : Queue Task :=
  { q with runQueueNext := Function.update q.runQueueNext task next }

/-- Replace a level. -/
def setLevel (q : Queue Task) (level : Level) (x : LevelQueue Task) : Queue Task :=
  { q with levels := Function.update q.levels level x }

/-- Record whether a task is queued. -/
def setQueued (q : Queue Task) (task : Task) (b : Bool) : Queue Task :=
  { q with queued := Function.update q.queued task b }

/-- `LevelQueue::push`, under the spinlock of the level. -/
def push (q : Queue Task) (level : Level) (task : Task) : Queue Task :=
  let q := q.setNext task none
  let x := q.levels level
  match x.tail with
  | none => q.setLevel level { x with head := some task, tail := some task, count := x.count + 1 }
  | some last =>
      (q.setNext last (some task)).setLevel level
        { x with tail := some task, count := x.count + 1 }

/-- `LevelQueue::pop`, under the spinlock of the level. -/
def pop (q : Queue Task) (level : Level) : Option (Task × Queue Task) :=
  let x := q.levels level
  match x.head with
  | none => none
  | some task =>
      let next := q.runQueueNext task
      let tail := if next.isNone then none else x.tail
      some (task, (q.setNext task none).setLevel level
        { x with head := next, tail := tail, count := x.count - 1 })

end Queue

-- ============================================================================
-- `enqueue`
-- ============================================================================

variable {Core Task : Type*}

/-- Where a core is in `enqueue`: outside, or before the operation named. -/
inductive EnqueuePc (Task : Type*) where
  | idle
  /-- The section with the push. -/
  | push (task : Task) (level : Level)
  /-- The `fetch_or` on `occupancy`. -/
  | fetchOr (level : Level)
  /-- The `fetch_add` on `len`. -/
  | lenAdd
  deriving DecidableEq

/-- The labels of an enqueuing core: the start of a call, with the priority its
    load of `effective_priority` finds, and every later operation. -/
inductive EnqueueAction (Task : Type*) where
  | enqueue (task : Task) (priority : Int)
  | run

/-- Where the dequeuing core is: outside, with what its last call has returned,
    or before the operation named. -/
inductive DequeuePc (Task : Type*) where
  | idle (result : Option (Option Task))
  /-- The load of `occupancy`, in the call or in a retry. -/
  | loadOccupancy
  /-- The section with the pop. -/
  | pop (level : Level)
  /-- The section with the second look at the level. -/
  | isEmpty (level : Level) (task : Task)
  /-- The `fetch_and` on `occupancy`. -/
  | fetchAnd (level : Level) (task : Task)
  /-- The `fetch_sub` on `len`. -/
  | lenSub (task : Task)
  deriving DecidableEq

/-- The labels of the dequeuing core. -/
inductive DequeueAction where
  | dequeue
  | run
  deriving DecidableEq

variable [DecidableEq Task]

/-- `RunQueue::enqueue`, of a task that is not queued. -/
def enqueueStep (q : Queue Task) :
    EnqueuePc Task → EnqueueAction Task → Option (Queue Task × EnqueuePc Task)
  | .idle, .enqueue task priority =>
      if q.queued task then none
      else some (q.setQueued task true, .push task (priorityToLevel priority))
  | .push task level, .run => some (q.push level task, .fetchOr level)
  | .fetchOr level, .run =>
      some ({ q with occupancy := q.occupancy ||| levelBit level }, .lenAdd)
  | .lenAdd, .run => some ({ q with len := q.len + 1 }, .idle)
  | _, _ => none

/-- `RunQueue::dequeue`. -/
def dequeueStep (q : Queue Task) :
    DequeuePc Task → DequeueAction → Option (Queue Task × DequeuePc Task)
  | .idle _, .dequeue => some (q, .loadOccupancy)
  | .loadOccupancy, .run =>
      if q.occupancy = 0 then some (q, .idle (some none))
      else some (q, .pop (highestLevel q.occupancy))
  | .pop level, .run =>
      match q.pop level with
      | some (task, q) => some (q.setQueued task false, .isEmpty level task)
      -- drained between the load and the lock: the call starts again
      | none => some (q, .loadOccupancy)
  | .isEmpty level task, .run =>
      if (q.levels level).isEmpty then some (q, .fetchAnd level task) else some (q, .lenSub task)
  | .fetchAnd level task, .run =>
      some ({ q with occupancy := q.occupancy &&& ~~~(levelBit level) }, .lenSub task)
  | .lenSub task, .run => some ({ q with len := q.len - 1 }, .idle (some (some task)))
  | _, _ => none

/-- A core that enqueues. -/
def enqueuer (Task : Type*) [DecidableEq Task] :
    ThreadProgram (Queue Task) (EnqueuePc Task) (EnqueueAction Task) where
  start := .idle
  step := enqueueStep

/-- The core that dequeues. -/
def dequeuer (Task : Type*) [DecidableEq Task] :
    ThreadProgram (Queue Task) (DequeuePc Task) DequeueAction where
  start := .idle none
  step := dequeueStep

/-- The queue with its cores. -/
abbrev State (Core Task : Type*) :=
  OwnerAndThreads Core (Queue Task) (DequeuePc Task) (EnqueuePc Task)

/-- The cores `Core` that enqueue and the one that dequeues, interleaved. -/
def machine (Core Task : Type*) [DecidableEq Core] [DecidableEq Task] :
    Machine (State Core Task) (DequeueAction ⊕ Core × EnqueueAction Task) :=
  ownerAndThreads Core (dequeuer Task) (enqueuer Task) Queue.new

/-- The dequeuing core is in no call. -/
def DequeuePc.isIdle : DequeuePc Task → Bool
  | .idle _ => true
  | _ => false

/-- No call is in progress. -/
def State.Quiet (s : State Core Task) : Prop :=
  s.owner.isIdle = true ∧ ∀ c, s.thread c = .idle

end RunQueue
end Zydon
