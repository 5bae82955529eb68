/-
  Zydon.Task.TaskControlBlock

  The task states of `task/task_state.rs` and the hot fields of the task control
  block of `task/task_control_block.rs`.

  The state word holds one of six values, each written by the code itself; it
  is the value.  The 32-bit fields wrap as in a release build.
-/

import Mathlib.Data.BitVec

namespace Zydon

/-- `TaskState`. -/
inductive TaskState where
  | created
  | ready
  | running
  /-- Parked on I/O, IPC and so on. -/
  | blocked
  /-- The future has returned `Ready`. -/
  | dying
  | dead
  deriving DecidableEq, Repr

/-- `AtomicTaskState::transition`, a compare-and-exchange: the new state, or the
    current one if it is not the one expected. -/
def TaskState.transition (state expected new : TaskState) : Except TaskState TaskState :=
  if state = expected then .ok new else .error state

/-- `TaskControlBlock`. -/
structure TaskControlBlock where
  state : TaskState
  effectivePriority : BitVec 32
  basePriority : BitVec 32
  quantumRemaining : BitVec 32
  currentCore : BitVec 32
  decayCounter : BitVec 32
  deriving DecidableEq

namespace TaskControlBlock

/-- `u32::MAX`, the `current_core` of a task that is not running. -/
def noCore : BitVec 32 := BitVec.allOnes 32

/-- `TaskControlBlock::new`. -/
def new : TaskControlBlock where
  state := .created
  effectivePriority := 0
  basePriority := 0
  quantumRemaining := 0
  currentCore := noCore
  decayCounter := 0

/-- `set_priority`. -/
def setPriority (t : TaskControlBlock) (priority : BitVec 32) : TaskControlBlock :=
  let t := { t with basePriority := priority }
  let effective := t.effectivePriority
  if effective.sle priority || effective == t.basePriority then
    { t with effectivePriority := priority }
  else t

/-- `boost_priority`; where the weak exchange fails without cause, the loop does
    the same once more. -/
def boostPriority (t : TaskControlBlock) (boostTo : BitVec 32) : TaskControlBlock :=
  let current := t.effectivePriority
  if boostTo.sle current then t else { t with effectivePriority := boostTo }

/-- `unboost_priority`. -/
def unboostPriority (t : TaskControlBlock) : TaskControlBlock :=
  let base := t.basePriority
  { t with effectivePriority := base }

/-- `reset_quantum`. -/
def resetQuantum (t : TaskControlBlock) (quantum : BitVec 32) : TaskControlBlock :=
  { t with quantumRemaining := quantum }

/-- What is left of the quantum after a tick: the result of `consume_tick`. -/
def remainingAfterTick (t : TaskControlBlock) : BitVec 32 := t.quantumRemaining - 1

/-- `consume_tick`. -/
def consumeTick (t : TaskControlBlock) : TaskControlBlock :=
  { t with quantumRemaining := t.remainingAfterTick }

/-- A tick that expires the quantum: `remaining <= 0`. -/
def tickExpires (t : TaskControlBlock) : Bool := decide (t.remainingAfterTick.toInt ≤ 0)

/-- The test of the decay: `eff > base - 8`. -/
def mayDecay (eff base : BitVec 32) : Bool := (base - 8).slt eff

/-- The decay of the priority after a quantum has expired, in `poll_task`. -/
def decayPriority (t : TaskControlBlock) : TaskControlBlock :=
  let decay := t.decayCounter + 1
  let t := { t with decayCounter := decay }
  if decay % 4 = 0 then
    let eff := t.effectivePriority
    let base := t.basePriority
    if mayDecay eff base then { t with effectivePriority := t.effectivePriority - 1 } else t
  else t

end TaskControlBlock
end Zydon
