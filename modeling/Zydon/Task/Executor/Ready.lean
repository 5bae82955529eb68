/-
  Zydon.Task.Executor.Ready

  Where the `Ready` tasks are.

  A `Ready` task is in a run queue or a deque, or in the hands of an executor
  that is about to poll it or to push it.  Every operation of the queues hands
  its tasks on, and a quantum that expires puts its task back; `wake` is the one
  operation that makes a task `Ready` without looking where it is
  (`WakesHeld`).
-/

import Zydon.Task.Executor.Exclusive

namespace Zydon
namespace Executor

open Lib RunQueue

variable {Core Task Waker : Type*}

-- ============================================================================
-- Queues
-- ============================================================================

/-- The task is in the run queue or the deque of the executor. -/
def Holds (e : Executor Core Task) (task : Task) : Prop :=
  (∃ L, task ∈ e.runQueue L) ∨ task ∈ e.worker

/-- The task is in a run queue or a deque. -/
def System.holds (s : System Core Task) (task : Task) : Prop := ∃ c, Holds (s.executor c) task

/-- The tasks an executor has taken from a queue, or is putting back, to poll or
    to push them. -/
def ExecutorPc.carries : ExecutorPc Task → List Task
  | .drained task | .claim task | .release task true | .requeue task => [task]
  | .stolen task rest => task :: rest
  | _ => []

/-- The task is in a queue or in the hands of an executor. -/
def Held (s : System Core Task) (pc : Core → ExecutorPc Task) (task : Task) : Prop :=
  s.holds task ∨ ∃ c, task ∈ (pc c).carries

variable [DecidableEq Core]

namespace System

variable {s s' : System Core Task} {task t : Task} {c : Core}

/-- One executor changes and hands its tasks on. -/
theorem holds_of_update {e : Executor Core Task} {P : Prop}
    (h_executor : s'.executor = Function.update s.executor c e)
    (h_e : Holds (s.executor c) t → Holds e t ∨ P) (h : s.holds t) : s'.holds t ∨ P := by
  obtain ⟨c', h_holds⟩ := h
  by_cases h_eq : c' = c
  · subst h_eq
    refine (h_e h_holds).imp_left fun h_e => ⟨c', ?_⟩
    rw [h_executor, Function.update_self]
    exact h_e
  · refine .inl ⟨c', ?_⟩
    rw [h_executor, Function.update_of_ne h_eq]
    exact h_holds

/-- A push adds its task. -/
theorem holds_push (h : s.holds t ∨ t = task) : (s.push c task).holds t := by
  rcases h with h | rfl
  · refine (holds_of_update (P := False) rfl ?_ h).resolve_right id
    exact fun h_holds => .inl (h_holds.imp_right (List.mem_append_left _))
  · refine ⟨c, .inr ?_⟩
    show t ∈ (Function.update s.executor c _ c).worker
    rw [Function.update_self]
    simp

/-- A pop takes one task. -/
theorem holds_pop (h_pop : s.pop c = some (task, s')) (h : s.holds t) :
    s'.holds t ∨ t = task := by
  simp only [pop] at h_pop
  split at h_pop <;> cases h_pop
  next h_last =>
  refine holds_of_update rfl ?_ h
  rintro (h_queue | h_worker)
  · exact .inl (.inl h_queue)
  · rw [← List.dropLast_append_getLast? _ h_last] at h_worker
    rcases List.mem_append.mp h_worker with h_worker | h_worker
    · exact .inl (.inr h_worker)
    · exact .inr (List.mem_singleton.mp h_worker)

variable [DecidableEq Task]

/-- A dequeue takes one task. -/
theorem holds_dequeue (h_dequeue : s.dequeue c = some (task, s')) (h : s.holds t) :
    s'.holds t ∨ t = task := by
  simp only [dequeue] at h_dequeue
  split at h_dequeue
  · exact absurd h_dequeue (by simp)
  · next L _ =>
    split at h_dequeue <;> cases h_dequeue
    next rest h_cons =>
    refine holds_of_update (s := s) (c := c) rfl ?_ h
    rintro (⟨L', h_queue⟩ | h_worker)
    · by_cases h_L : L' = L
      · subst h_L
        rw [h_cons] at h_queue
        rcases List.mem_cons.mp h_queue with h_eq | h_rest
        · exact .inr h_eq
        · refine .inl (.inl ⟨L', ?_⟩)
          show t ∈ Function.update (s.executor c).runQueue L' rest L'
          rwa [Function.update_self]
      · refine .inl (.inl ⟨L', ?_⟩)
        show t ∈ Function.update (s.executor c).runQueue L rest L'
        rwa [Function.update_of_ne h_L]
    · exact .inl (.inr h_worker)

omit [DecidableEq Task] in
/-- A batch takes the tasks it returns. -/
theorem holds_stealBatch (h : s.holds t) :
    (s.stealBatch c).2.holds t ∨ t ∈ (s.stealBatch c).1 := by
  simp only [stealBatch]
  split
  · exact .inl h
  · next victim _ =>
    refine holds_of_update (s := s) (c := victim) rfl ?_ h
    rintro (h_queue | h_worker)
    · exact .inl (.inl h_queue)
    · rw [← List.take_append_drop (min batchLen Stealer.maxStealBatch)
        (s.executor victim).worker] at h_worker
      rcases List.mem_append.mp h_worker with h_taken | h_left
      · exact .inr h_taken
      · exact .inl (.inr h_left)

/-- `enqueue_task` adds its task. -/
theorem holds_enqueueTask (h_enqueue : s.enqueueTask c task = some s') (h : s.holds t) :
    s'.holds t := by
  simp only [enqueueTask] at h_enqueue
  split at h_enqueue <;> cases h_enqueue
  refine (holds_of_update (s := s) (c := c) (P := False) rfl ?_ h).resolve_right id
  rintro (⟨L', h_queue⟩ | h_worker)
  · refine .inl (.inl ⟨L', ?_⟩)
    show t ∈ Function.update (s.executor c).runQueue _ _ L'
    rw [Function.update_apply]
    split
    · next h_L => exact List.mem_append_left _ (h_L ▸ h_queue)
    · exact h_queue
  · exact .inl (.inr h_worker)

end System

-- ============================================================================
-- Steps
-- ============================================================================

variable [DecidableEq Task] {s s' : System Core Task} {pc : Core → ExecutorPc Task} {c : Core}
  {p p' : ExecutorPc Task} {task : Task}

omit [DecidableEq Core] [DecidableEq Task] in
/-- The queues only depend on the executors. -/
theorem holds_congr (h_executor : s'.executor = s.executor) (h : s.holds task) : s'.holds task := by
  rw [System.holds, h_executor]
  exact h

omit [DecidableEq Task] in
/-- A write to an executor that keeps its queues. -/
theorem holds_setExecutor {f : Executor Core Task → Executor Core Task}
    (h_f : ∀ e, Holds e task → Holds (f e) task) (h : s.holds task) :
    (s.setExecutor c f).holds task :=
  (System.holds_of_update (P := False) rfl (fun h_e => .inl (h_f _ h_e)) h).resolve_right id

omit [DecidableEq Task] in
theorem startStep_held {a : ExecutorAction} (h_step : startStep c s a = some (s', p'))
    (h : s.holds task) : s'.holds task ∨ task ∈ p'.carries := by
  cases a with
  | drain =>
      cases h_step
      exact .inl h
  | pop =>
      simp only [startStep] at h_step
      split at h_step <;> cases h_step
      · next h_pop =>
          exact (System.holds_pop h_pop h).imp_right fun h_eq => List.mem_singleton.mpr h_eq
      · exact .inl h
  | trySteal =>
      have h_batch := System.holds_stealBatch (c := c) h
      simp only [startStep] at h_step
      split at h_step <;> cases h_step <;> next h_steal =>
        rw [h_steal] at h_batch
        exact h_batch
  | park | returnReady | returnPending | run => exact absurd h_step (by simp [startStep])

theorem futureStep_held {t : Task} {a : ExecutorAction}
    (h_step : futureStep c s t a = some (s', p')) (h : s.holds task) : s'.holds task := by
  cases a with
  | park =>
      simp only [futureStep] at h_step
      split at h_step <;> cases h_step <;> exact holds_congr rfl h
  | returnReady =>
      cases h_step
      exact h
  | returnPending =>
      cases h_step
      exact holds_setExecutor (fun _ h_e => h_e) h
  | drain | pop | trySteal | run => exact absurd h_step (by simp [futureStep])

theorem runStep_held (h_step : runStep c s p = some (s', p')) (h_claim : p ≠ .claim task)
    (h : s.holds task ∨ task ∈ p.carries) : s'.holds task ∨ task ∈ p'.carries := by
  cases p with
  | idle | inPoll t | panicked => exact absurd h_step (by simp [runStep])
  | dequeue =>
      have h_queue : s.holds task := by simpa [ExecutorPc.carries] using h
      simp only [runStep] at h_step
      split at h_step <;> cases h_step
      · next h_dequeue =>
          exact (System.holds_dequeue h_dequeue h_queue).imp_right fun h_eq =>
            List.mem_singleton.mpr h_eq
      · exact .inl h_queue
  | drained t | requeue t =>
      cases h_step
      exact .inl (System.holds_push (h.imp_right List.mem_singleton.mp))
  | stolen t rest =>
      have h_cases : (s.holds task ∨ task = t) ∨ task ∈ rest := by
        simpa [ExecutorPc.carries, or_assoc] using h
      cases rest <;> cases h_step
      · exact .inl (System.holds_push (h_cases.resolve_right (by simp)))
      · exact h_cases.imp_left System.holds_push
  | claim t =>
      have h_queue : s.holds task := by
        refine h.resolve_right fun h_mem => h_claim ?_
        rw [List.mem_singleton.mp h_mem]
      simp only [runStep] at h_step
      split at h_step <;> cases h_step <;> exact .inl (holds_congr rfl h_queue)
  | release t again =>
      cases again <;> cases h_step
      · have h_queue : s.holds task := by simpa [ExecutorPc.carries] using h
        exact .inl (holds_congr rfl h_queue)
      · exact h.imp_left (holds_congr rfl)
  | finished t =>
      cases h_step
      have h_queue : s.holds task := by simpa [ExecutorPc.carries] using h
      exact .inl (holds_setExecutor (fun _ h_e => h_e) (holds_congr (s := s) rfl h_queue))
  | storeCore t | resetQuantum t | callPoll t | dead t | tick t | decay t | loadEffective t
  | loadBase t eff | decrement t =>
      have h_queue : s.holds task := by simpa [ExecutorPc.carries] using h
      cases h_step
      exact .inl (holds_congr rfl h_queue)
  | dying t | getState t | expire t =>
      have h_queue : s.holds task := by simpa [ExecutorPc.carries] using h
      simp only [runStep] at h_step
      split at h_step <;> cases h_step <;> exact .inl (holds_congr rfl h_queue)

/-- What an executor does with the tasks of the queues and with the ones in its
    hands: it hands them on, except for the one it claims. -/
theorem executorStep_held {a : ExecutorAction} (h_step : executorStep c s p a = some (s', p'))
    (h_claim : p ≠ .claim task) (h : s.holds task ∨ task ∈ p.carries) :
    s'.holds task ∨ task ∈ p'.carries := by
  simp only [executorStep] at h_step
  split at h_step
  · exact startStep_held h_step (by simpa [ExecutorPc.carries] using h)
  · exact .inl (futureStep_held h_step (by simpa [ExecutorPc.carries] using h))
  · split at h_step
    · exact runStep_held h_step h_claim h
    · exact absurd h_step (by simp)

/-- A task that an executor has tried to claim is not `Ready`. -/
theorem claim_not_ready {a : ExecutorAction}
    (h_step : executorStep c s (.claim task) a = some (s', p')) : s'.stateOf task ≠ .ready := by
  simp only [executorStep, runStep] at h_step
  split at h_step
  · split at h_step <;> cases h_step
    · next h_ok =>
        obtain ⟨-, rfl⟩ := transition_eq_ok h_ok
        have h_state := congrFun (s.stateOf_setState task .running) task
        rw [Function.update_self] at h_state
        exact fun h_ready => absurd (h_state.symm.trans h_ready) (by simp)
    · next h_error =>
        intro h_ready
        replace h_ready : (s.tcb task).state = .ready := h_ready
        simp [TaskState.transition, h_ready] at h_error
  · exact absurd h_step (by simp)

omit [DecidableEq Core] in
/-- A step of an executor only makes a task `Ready` that it has in its hands. -/
theorem ready_of_effect (h : Effect c s p s' p') (h_ready : s'.stateOf task = .ready) :
    s.stateOf task = .ready ∨ task ∈ p'.carries := by
  have h_set : ∀ {t : Task} {state : TaskState},
      (s.setState t state).stateOf task = .ready → s.stateOf task = .ready ∨
        task = t ∧ state = .ready := by
    intro t state h_t
    rw [System.stateOf_setState, Function.update_apply] at h_t
    split at h_t
    · next h_eq => exact .inr ⟨h_eq, h_t⟩
    · exact .inl h_t
  cases h with
  | stay h_same | leave h_same | again h_same => exact .inl ((h_same.1 task).symm.trans h_ready)
  | enter | found => exact .inl h_ready
  | claim | park | die | bury => exact (h_set h_ready).imp_right fun h_eq => by simp at h_eq
  | expire => exact (h_set h_ready).imp_right fun h_eq => List.mem_singleton.mpr h_eq.1

/-- Every `Ready` task is in a queue or in the hands of an executor. -/
def ReadyHeld (s : System Core Task) (pc : Core → ExecutorPc Task) : Prop :=
  ∀ task, s.stateOf task = .ready → Held s pc task

/-- One step of an executor. -/
theorem ReadyHeld.executor_step {a : ExecutorAction} (h : ReadyHeld s pc)
    (h_step : executorStep c s (pc c) a = some (s', p')) :
    ReadyHeld s' (Function.update pc c p') := by
  intro task h_ready
  rw [Held, Function.exists_update_iff pc fun _ p => task ∈ p.carries]
  have h_claim : pc c ≠ .claim task := by
    intro h_pc
    rw [h_pc] at h_step
    exact claim_not_ready h_step h_ready
  rcases ready_of_effect (executorStep_effect h_step) h_ready with h_before | h_self
  · -- wherever it was, the executor that moves hands it on
    have h_on : s.holds task ∨ task ∈ (pc c).carries →
        s'.holds task ∨ task ∈ p'.carries ∨ ∃ c', c' ≠ c ∧ task ∈ (pc c').carries :=
      fun h_here => (executorStep_held h_step h_claim h_here).imp_right .inl
    rcases h task h_before with h_queue | ⟨c', h_hands⟩
    · exact h_on (.inl h_queue)
    · by_cases h_c : c' = c
      · exact h_on (.inr (h_c ▸ h_hands))
      · exact .inr (.inr ⟨c', h_c, h_hands⟩)
  · exact .inr (.inl h_self)

/-- A step of a waker leaves the queues' tasks where they are. -/
theorem wakerStep_held {w w' : WakerPc Task} {b : WakerAction Core Task}
    (h_step : wakerStep s w b = some (s', w')) (h : s.holds task) : s'.holds task := by
  rcases wakerStep_executor h_step with h_executor | ⟨c, t, -, h_enqueue⟩
  · exact holds_congr h_executor h
  · exact System.holds_enqueueTask h_enqueue h

/-- A `wake` makes a task `Ready` only while the task is in a queue or in the
    hands of an executor. -/
def WakesHeld (s : State Core Task Waker) : Label Core Task Waker → Prop
  | .inl _ => True
  | .inr (u, _) => ∀ x ∈ (s.right u).wakes,
      s.shared.stateOf x.1 = x.2 → Held s.shared s.left x.1

instance Holds.decidable (e : Executor Core Task) (task : Task) : Decidable (Holds e task) :=
  inferInstanceAs (Decidable (_ ∨ _))

instance [Fintype Core] (s : System Core Task) (task : Task) : Decidable (s.holds task) :=
  inferInstanceAs (Decidable (∃ c, Holds (s.executor c) task))

instance Held.decidable [Fintype Core] (s : System Core Task) (pc : Core → ExecutorPc Task)
    (task : Task) : Decidable (Held s pc task) :=
  inferInstanceAs (Decidable (_ ∨ _))

instance WakesHeld.decidable [Fintype Core] (s : State Core Task Waker) :
    ∀ a, Decidable (WakesHeld s a)
  | .inl _ => inferInstanceAs (Decidable True)
  | .inr (u, _) => inferInstanceAs (Decidable (∀ x ∈ (s.right u).wakes, _))

/-- One step of a waker. -/
theorem ReadyHeld.waker_step {w w' : WakerPc Task} {b : WakerAction Core Task}
    (h : ReadyHeld s pc)
    (h_held : ∀ x ∈ w.wakes, s.stateOf x.1 = x.2 → Held s pc x.1)
    (h_step : wakerStep s w b = some (s', w')) : ReadyHeld s' pc := by
  intro task h_ready
  suffices h_before : Held s pc task from h_before.imp_left (wakerStep_held h_step)
  rcases wakerStep_effect h_step with h_same | ⟨t, h_wakes, rfl⟩
  · exact h task ((h_same.1 task).symm.trans h_ready)
  · rw [System.stateOf_setState, Function.update_apply] at h_ready
    split at h_ready
    · next h_eq =>
        subst h_eq
        exact h_held (task, _) h_wakes rfl
    · exact h task h_ready

-- ============================================================================
-- Runs
-- ============================================================================

/-- No operation of an executor and no `wake` is in progress. -/
def Quiet (s : State Core Task Waker) : Prop :=
  (∀ c, s.left c = .idle ∨ s.left c = .panicked) ∧ ∀ u, s.right u = .idle

instance [Fintype Core] [Fintype Waker] (s : State Core Task Waker) : Decidable (Quiet s) :=
  inferInstanceAs (Decidable (_ ∧ _))

omit [DecidableEq Core] [DecidableEq Task] in
/-- Between operations the executors have no task in their hands. -/
theorem Quiet.carries {s : State Core Task Waker} (h : Quiet s) (c : Core) :
    (s.left c).carries = [] := by
  rcases h.1 c with h_pc | h_pc <;> rw [h_pc] <;> rfl

variable [DecidableEq Waker]

/-- In every run whose `wake`s meet the condition, between operations every
    `Ready` task is in a run queue or a deque. -/
theorem readyQueued_of_wakesHeld {setup : Setup Core} {s : State Core Task Waker}
    {tr : List (Label Core Task Waker)}
    (h_run : (machine Task Waker setup).exec (machine Task Waker setup).init tr = some s)
    (h_meet : (machine Task Waker setup).StepsMeet WakesHeld (machine Task Waker setup).init tr)
    (h_quiet : Quiet s) (task : Task) (h_ready : (s.shared.tcb task).state = .ready) :
    s.shared.holds task := by
  have h_held : ReadyHeld s.shared s.left := by
    refine Machine.exec_invariant (P := fun s => ReadyHeld s.shared s.left) ?_ ?_ h_meet h_run
    · intro s a s' hs h_ok h_step
      match a with
      | .inl (c, a) =>
          obtain ⟨m, p, h_left, rfl⟩ := Families.step_left_eq_some h_step
          exact hs.executor_step h_left
      | .inr (u, b) =>
          obtain ⟨m, q, h_right, rfl⟩ := Families.step_right_eq_some h_step
          exact hs.waker_step h_ok h_right
    · intro task h_new
      exact absurd h_new (by simp [machine, families, System.new, System.stateOf,
        TaskControlBlock.new])
  refine (h_held task h_ready).resolve_right ?_
  rintro ⟨c, h_mem⟩
  rw [h_quiet.carries c] at h_mem
  exact absurd h_mem (by simp)

/-- A `poll` that returns `Pending` and is called again. -/
def againRun : List (Label Bool Nat Unit) :=
  [.inl (false, .returnPending), .inl (false, .run), .inl (false, .run)]

/-- The executor of the first core polls task 0 ten times, and its future does `a`
    in the last one, up to the look at its state. -/
def expiredRun (a : List (Label Bool Nat Unit)) : List (Label Bool Nat Unit) :=
  enqueueOn false ++ wakeRun ++ pollRun false ++ (List.replicate 9 againRun).flatten ++ a ++
    [.inl (false, .returnPending), .inl (false, .run), .inl (false, .run)]

/-- The quantum of task 0 expires, and the task is put back. -/
def putBackRun : List (Label Bool Nat Unit) :=
  expiredRun [] ++
    [.inl (false, .run), .inl (false, .run), .inl (false, .run), .inl (false, .run)]

theorem readyQueued_putBackRun :
    ∃ s, (machine Nat Unit twoCores).exec (machine Nat Unit twoCores).init putBackRun = some s ∧
      (s.shared.tcb 0).state = .ready ∧ s.shared.holds 0 := by
  obtain ⟨s, h_run, h_quiet, h_ready⟩ : ∃ s, (machine Nat Unit twoCores).exec
      (machine Nat Unit twoCores).init putBackRun = some s ∧ Quiet s ∧
      (s.shared.tcb 0).state = .ready :=
    Machine.exec_of_decide (by decide +kernel)
  exact ⟨s, h_run, h_ready, readyQueued_of_wakesHeld h_run (by decide +kernel) h_quiet 0 h_ready⟩

/-- The future parks its task in the poll with which the quantum expires, and its
    waker is invoked afterwards: the task is `Ready` and in no queue. -/
theorem wokenTask_is_lost :
    ∃ s, (machine Nat Unit twoCores).exec (machine Nat Unit twoCores).init
        (expiredRun [.inl (false, .park)] ++ [.inl (false, .run), .inl (false, .run)] ++ wakeRun) =
          some s ∧
      Quiet s ∧ (s.shared.tcb 0).state = .ready ∧ ¬ s.shared.holds 0 :=
  Machine.exec_of_decide (by decide +kernel)

end Executor
end Zydon
