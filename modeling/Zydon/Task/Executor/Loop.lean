/-
  Zydon.Task.Executor.Loop

  The main loop of an executor on its own, `Executor::run`: drain the run queue,
  poll the task that `worker.pop` returns, and try to steal if there is none.

  A task whose quantum expires is pushed to the end of the deque that the loop
  pops from.  The loop polls it again at once (`Expired.polls_again`), whatever
  else waits in the deque.
-/

import Zydon.Lib.History
import Zydon.Task.Executor.Exclusive

namespace Zydon
namespace Executor

open Lib RunQueue

variable {Core Task : Type*}

-- ============================================================================
-- The loop
-- ============================================================================

/-- The operation with which the loop goes on. -/
inductive LoopPc where
  | drain
  | pop
  | steal
  deriving DecidableEq, Repr

/-- The operation's label. -/
def LoopPc.action : LoopPc → ExecutorAction
  | .drain => .drain
  | .pop => .pop
  | .steal => .trySteal

/-- The operation after the one that has taken the executor to `p`: the loop starts
    again after a task that it has popped, and after `try_steal`, since
    `run_pending_work` and `idle_enter` do nothing to the tasks. -/
def LoopPc.after (p : ExecutorPc Task) : LoopPc → LoopPc
  | .drain => .pop
  | .pop =>
      match p with
      | .idle => .steal
      | _ => .drain
  | .steal => .drain

/-- The system, with the executor of one core in its loop. -/
structure LoopState (Core Task : Type*) where
  system : System Core Task
  pc : ExecutorPc Task
  next : LoopPc

variable [DecidableEq Core] [DecidableEq Task]

/-- A step of the loop: of an operation in progress, or the next operation. -/
def loopStep (c : Core) (s : LoopState Core Task) (a : ExecutorAction) :
    Option (LoopState Core Task) :=
  match s.pc with
  | .idle =>
      if a = s.next.action then
        (executorStep c s.system .idle a).map fun (system, p) =>
          { system := system, pc := p, next := s.next.after p }
      else none
  | pc =>
      (executorStep c s.system pc a).map fun (system, p) => { s with system := system, pc := p }

/-- The tasks that have been polled, in order. -/
def notePoll (s : LoopState Core Task) (_ : ExecutorAction) (_ : LoopState Core Task)
    (polled : List Task) : List Task :=
  match s.pc with
  | .callPoll task => polled ++ [task]
  | _ => polled

/-- The loop of core `c` on its own, from `system` on, with the tasks it polls. -/
def loopMachine (c : Core) (system : System Core Task) :
    Machine (Recorded (LoopState Core Task) (List Task)) ExecutorAction :=
  Machine.recorded { init := { system := system, pc := .idle, next := .drain }, step := loopStep c }
    notePoll []

-- ============================================================================
-- After a quantum
-- ============================================================================

/-- The quantum of `task` has expired, which is still `Running`: the loop of core
    `c` is about to put it back.  The run queue is empty, and another task of
    the deque is `Ready`. -/
structure Expired (c : Core) (task : Task) (s : LoopState Core Task) : Prop where
  pc_eq : s.pc = .expire task
  next_eq : s.next = .drain
  running : s.system.stateOf task = .running
  runQueue : ∀ L, (s.system.executor c).runQueue L = []
  waiting : ∃ t ∈ (s.system.executor c).worker, t ≠ task ∧ s.system.stateOf t = .ready

/-- The loop polls every other `Ready` task of the deque before it polls `task`
    again. -/
def YieldsTo (init : System Core Task) (c : Core) (task : Task) (s : LoopState Core Task) : Prop :=
  ∀ tr s', (loopMachine c init).exec { state := s, record := [] } tr = some s' →
    s'.state.pc = .callPoll task →
      ∀ t ∈ (s.system.executor c).worker, t ≠ task → s.system.stateOf t = .ready → t ∈ s'.record

variable {init m : System Core Task} {c : Core} {task : Task} {s s' s₁ : LoopState Core Task}

/-- A way through the loop on which no task is polled. -/
def Passes (init : System Core Task) (c : Core) (s s' : LoopState Core Task) : Prop :=
  ∃ tr, (loopMachine c init).exec { state := s, record := [] } tr =
    some { state := s', record := [] }

theorem Passes.refl : Passes init c s s := ⟨[], rfl⟩

theorem Passes.step {a : ExecutorAction} (h_pc : ∀ t, s.pc ≠ .callPoll t)
    (h_step : loopStep c s a = some s₁) (h_rest : Passes init c s₁ s') : Passes init c s s' := by
  obtain ⟨tr, h_run⟩ := h_rest
  refine ⟨a :: tr, Machine.exec_cons_eq_some.mpr ⟨{ state := s₁, record := [] }, ?_, h_run⟩⟩
  refine Machine.recorded_step_eq_some.mpr ⟨h_step, ?_⟩
  simp only [notePoll]

theorem Passes.trans (h : Passes init c s s₁) (h' : Passes init c s₁ s') : Passes init c s s' := by
  obtain ⟨tr, h_run⟩ := h
  obtain ⟨tr', h_run'⟩ := h'
  exact ⟨tr ++ tr', Machine.exec_append_eq_some.mpr ⟨_, h_run, h_run'⟩⟩

/-- The decay of the priority, with which `poll_task` ends. -/
theorem passes_decay (init m : System Core Task) (c : Core) (task : Task) (next : LoopPc) :
    ∃ m', Passes init c { system := m, pc := .decay task, next := next }
        { system := m', pc := .idle, next := next } ∧
      SameStates m m' ∧ m'.executor = m.executor := by
  let count := (m.tcb task).decayCounter + 1
  let m₁ := m.setTcb task fun t => { t with decayCounter := count }
  have h_same₁ : SameStates m m₁ := m.sameStates_setTcb task fun _ => rfl
  by_cases h_count : count % 4 = 0
  · let eff := (m₁.tcb task).effectivePriority
    have h_decay : loopStep c { system := m, pc := .decay task, next := next } .run =
        some { system := m₁, pc := .loadEffective task, next := next } := by
      simp only [loopStep, executorStep, runStep, if_true, Option.map_some]
      rw [if_pos h_count]
    have h_effective : loopStep c { system := m₁, pc := .loadEffective task, next := next } .run =
        some { system := m₁, pc := .loadBase task eff, next := next } := rfl
    by_cases h_may : TaskControlBlock.mayDecay eff (m₁.tcb task).basePriority = true
    · let m₂ := m₁.setTcb task fun t => { t with effectivePriority := t.effectivePriority - 1 }
      have h_same₂ : SameStates m₁ m₂ := m₁.sameStates_setTcb task fun _ => rfl
      have h_base : loopStep c { system := m₁, pc := .loadBase task eff, next := next } .run =
          some { system := m₁, pc := .decrement task, next := next } := by
        simp only [loopStep, executorStep, runStep, if_true, Option.map_some]
        rw [if_pos h_may]
      have h_decrement : loopStep c { system := m₁, pc := .decrement task, next := next } .run =
          some { system := m₂, pc := .idle, next := next } := rfl
      refine ⟨m₂, ?_, ⟨fun t => (h_same₂.1 t).trans (h_same₁.1 t), rfl⟩, rfl⟩
      exact .step (by simp) h_decay (.step (by simp) h_effective (.step (by simp) h_base
        (.step (by simp) h_decrement .refl)))
    · have h_base : loopStep c { system := m₁, pc := .loadBase task eff, next := next } .run =
          some { system := m₁, pc := .idle, next := next } := by
        simp only [loopStep, executorStep, runStep, if_true, Option.map_some]
        rw [if_neg h_may]
      refine ⟨m₁, ?_, h_same₁, rfl⟩
      exact .step (by simp) h_decay (.step (by simp) h_effective (.step (by simp) h_base .refl))
  · have h_decay : loopStep c { system := m, pc := .decay task, next := next } .run =
        some { system := m₁, pc := .idle, next := next } := by
      simp only [loopStep, executorStep, runStep, if_true, Option.map_some]
      rw [if_neg h_count]
    exact ⟨m₁, .step (by simp) h_decay .refl, h_same₁, rfl⟩

omit [DecidableEq Core] [DecidableEq Task] in
theorem highest_eq_none {q : Level → List Task} (h : ∀ L, q L = []) : highest q = none :=
  List.find?_eq_none.mpr fun L _ => by simp [h L]

/-- The loop polls the task at the end of the deque if it is `Ready` and the run
    queue is empty. -/
theorem passes_poll {others : List Task} (init : System Core Task)
    (h_worker : (m.executor c).worker = others ++ [task])
    (h_queue : ∀ L, (m.executor c).runQueue L = []) (h_ready : m.stateOf task = .ready) :
    ∃ m', Passes init c { system := m, pc := .idle, next := .drain }
      { system := m', pc := .callPoll task, next := .drain } := by
  let m₁ := m.setExecutor c fun e => { e with worker := e.worker.dropLast }
  have h_drain : loopStep c { system := m, pc := .idle, next := .drain } .drain =
      some { system := m, pc := .dequeue, next := .pop } := rfl
  have h_dequeue : loopStep c { system := m, pc := .dequeue, next := .pop } .run =
      some { system := m, pc := .idle, next := .pop } := by
    have h_none : m.dequeue c = none := by
      rw [System.dequeue, highest_eq_none h_queue]
    simp only [loopStep, executorStep, runStep, h_none, if_true, Option.map_some]
  have h_pop : loopStep c { system := m, pc := .idle, next := .pop } .pop =
      some { system := m₁, pc := .claim task, next := .drain } := by
    have h_last : m.pop c = some (task, m₁) := by
      rw [System.pop, h_worker, List.getLast?_append_of_ne_nil _ (by simp),
        List.getLast?_singleton]
    simp only [loopStep, LoopPc.action, executorStep, startStep, h_last, if_true, Option.map_some,
      LoopPc.after]
  obtain ⟨m₂, h_claim⟩ : ∃ m₂, loopStep c { system := m₁, pc := .claim task, next := .drain } .run =
      some { system := m₂, pc := .storeCore task, next := .drain } := by
    have h_ok : (m₁.tcb task).state.transition .ready .running = .ok .running := if_pos h_ready
    simp only [loopStep, executorStep, runStep, h_ok, if_true, Option.map_some]
    exact ⟨_, rfl⟩
  obtain ⟨m₃, h_core⟩ : ∃ m₃, loopStep c { system := m₂, pc := .storeCore task, next := .drain }
      .run = some { system := m₃, pc := .resetQuantum task, next := .drain } := ⟨_, rfl⟩
  obtain ⟨m₄, h_quantum⟩ : ∃ m₄, loopStep c
      { system := m₃, pc := .resetQuantum task, next := .drain } .run =
        some { system := m₄, pc := .callPoll task, next := .drain } := ⟨_, rfl⟩
  refine ⟨m₄, ?_⟩
  exact .step (by simp) h_drain (.step (by simp) h_dequeue (.step (by simp) h_pop
    (.step (by simp) h_claim (.step (by simp) h_core (.step (by simp) h_quantum .refl)))))

/-- The task whose quantum has expired is the next one that the loop polls. -/
theorem Expired.polls_again (h : Expired c task s) (init : System Core Task) :
    ∃ m', Passes init c s { system := m', pc := .callPoll task, next := .drain } := by
  obtain ⟨m, pc, next⟩ := s
  obtain ⟨rfl, rfl, h_running, h_queue, -⟩ := h
  let m₁ := m.setState task .ready
  let m₂ := m₁.setTcb task fun t => { t with currentCore := TaskControlBlock.noCore }
  let m₃ := m₂.push c task
  have h_expire : loopStep c { system := m, pc := .expire task, next := .drain } .run =
      some { system := m₁, pc := .release task true, next := .drain } := by
    have h_ok : (m.tcb task).state.transition .running .ready = .ok .ready := if_pos h_running
    simp only [loopStep, executorStep, runStep, h_ok, if_true, Option.map_some]
    rfl
  have h_release : loopStep c { system := m₁, pc := .release task true, next := .drain } .run =
      some { system := m₂, pc := .requeue task, next := .drain } := rfl
  have h_push : loopStep c { system := m₂, pc := .requeue task, next := .drain } .run =
      some { system := m₃, pc := .decay task, next := .drain } := rfl
  obtain ⟨m₄, h_decay, h_same, h_executor⟩ := passes_decay init m₃ c task .drain
  have h_worker : (m₄.executor c).worker = (m.executor c).worker ++ [task] := by
    rw [h_executor]
    show (Function.update m.executor c _ c).worker = _
    rw [Function.update_self]
    rfl
  have h_empty : ∀ L, (m₄.executor c).runQueue L = [] := by
    intro L
    rw [h_executor]
    show (Function.update m.executor c _ c).runQueue L = _
    rw [Function.update_self]
    exact h_queue L
  have h_ready : m₄.stateOf task = .ready := by
    have h_set : m₁.stateOf task = .ready := by
      rw [m.stateOf_setState, Function.update_self]
    have h_same₂ : SameStates m₁ m₂ := m₁.sameStates_setTcb task fun _ => rfl
    rw [h_same.1]
    exact (h_same₂.1 task).trans h_set
  obtain ⟨m', h_poll⟩ := passes_poll init h_worker h_empty h_ready
  refine ⟨m', .step (by simp) h_expire (.step (by simp) h_release (.step (by simp) h_push ?_))⟩
  exact h_decay.trans h_poll

/-- No task whose quantum expires yields the core. -/
theorem Expired.not_yieldsTo (h : Expired c task s) (init : System Core Task) :
    ¬ YieldsTo init c task s := by
  intro h_yields
  obtain ⟨m', tr, h_run⟩ := h.polls_again init
  obtain ⟨t, h_t, h_ne, h_ready⟩ := h.waiting
  exact absurd (h_yields tr _ h_run rfl t h_t h_ne h_ready) List.not_mem_nil

/-! ## Two tasks on one core -/

/-- One executor, with the shortest quantum. -/
def oneCore : Setup Unit where
  coreId := fun _ => 0
  stealers := fun _ => []
  defaultQuantum := fun _ => 1

/-- Two `Ready` tasks in the deque. -/
def twoReady : System Unit Nat :=
  ((((System.new oneCore).setState 0 .ready).setState 1 .ready).push () 0).push () 1

/-- The loop polls the task at the end of the deque, which returns `Pending`, up to
    the end of its quantum. -/
def expireRun : List ExecutorAction :=
  [.drain, .run, .pop, .run, .run, .run, .run, .returnPending, .run, .run]

theorem not_yieldsTo_expireRun :
    ∃ s, (loopMachine () twoReady).exec (loopMachine () twoReady).init expireRun = some s ∧
      Expired () 1 s.state ∧ ¬ YieldsTo twoReady () 1 s.state := by
  obtain ⟨s, h_run, h_pc, h_next, h_running, h_queue, h_waiting⟩ : ∃ s,
      (loopMachine () twoReady).exec (loopMachine () twoReady).init expireRun = some s ∧
        s.state.pc = .expire 1 ∧ s.state.next = .drain ∧ s.state.system.stateOf 1 = .running ∧
        (∀ L, (s.state.system.executor ()).runQueue L = []) ∧
        ∃ t ∈ (s.state.system.executor ()).worker, t ≠ 1 ∧ s.state.system.stateOf t = .ready :=
    Machine.exec_of_decide (by decide +kernel)
  have h_expired : Expired () 1 s.state := ⟨h_pc, h_next, h_running, h_queue, h_waiting⟩
  exact ⟨s, h_run, h_expired, h_expired.not_yieldsTo twoReady⟩

/-- The loop puts the task back, and polls it again while the other one waits. -/
theorem expireRun_polls_again :
    ∃ s, (loopMachine () twoReady).exec (loopMachine () twoReady).init expireRun = some s ∧
      s.state.pc = .expire 1 ∧ (s.state.system.executor ()).worker = [0] ∧
      s.state.system.stateOf 0 = .ready ∧ ¬ YieldsTo twoReady () 1 s.state := by
  obtain ⟨s, h_run, h_pc, h_worker, h_ready, h_again⟩ : ∃ s,
      (loopMachine () twoReady).exec (loopMachine () twoReady).init expireRun = some s ∧
        s.state.pc = .expire 1 ∧ (s.state.system.executor ()).worker = [0] ∧
        s.state.system.stateOf 0 = .ready ∧
        ((loopMachine () twoReady).exec { state := s.state, record := [] }
          [.run, .run, .run, .run, .drain, .run, .pop, .run, .run, .run]).any
            (fun s' => decide (s'.state.pc = .callPoll 1 ∧ s'.record = [])) = true :=
    Machine.exec_of_decide (by decide +kernel)
  obtain ⟨s', h_run', h_pc', h_record⟩ := Machine.exec_of_decide h_again
  refine ⟨s, h_run, h_pc, h_worker, h_ready, fun h_yields => ?_⟩
  have h_polled := h_yields _ s' h_run' h_pc' 0 (by simp [h_worker]) (by simp) h_ready
  simp [h_record] at h_polled

end Executor
end Zydon
