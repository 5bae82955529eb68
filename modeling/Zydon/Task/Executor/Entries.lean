/-
  Zydon.Task.Executor.Entries

  Where the entries of the queues go, over every interleaving of the executors
  and the wakers whose steps are those of `Executor.Basic`: a dequeue, a push, a
  pop and a batch are one step each, on the list of the tasks.  What a `pop` and a
  `steal_batch` that race inside a deque do to its entries is not part of it
  (`Stealer.Batch`), and a task is only enqueued while no run queue holds it.

  A task comes in by `enqueue_task`.  Dequeues, pushes, pops and batches move its
  entry from a run queue to a deque and from a deque to another, and only
  `poll_task` takes it out of the system: a task that is not `Ready` is skipped, one
  that has returned `Ready` is dead, one that has parked waits for its waker.
-/

import Mathlib.Algebra.Order.BigOperators.Group.Finset
import Zydon.Lib.History
import Zydon.Lib.Tally
import Zydon.Task.Executor.Ready

namespace Zydon
namespace Executor

open Lib RunQueue

variable {Core Task Waker : Type*}

-- ============================================================================
-- Entries
-- ============================================================================

/-- How an entry leaves the system. -/
inductive Exit where
  /-- `poll_task` has found its task in another state than `Ready`. -/
  | skipped
  /-- The future has returned `Ready`. -/
  | finished
  /-- The quantum has expired and the task was not `Running` any more. -/
  | parked
  /-- A transition that the code `expect`s to succeed has failed. -/
  | panicked
  deriving DecidableEq

/-- The tasks that have been enqueued, and the entries that have left. -/
structure Entries (Task : Type*) where
  entered : List Task
  left : List (Task × Exit)

/-- The entry that a step of an executor takes out of the system. -/
def ExecutorPc.exit : ExecutorPc Task → ExecutorPc Task → Option (Task × Exit)
  | .claim task, .idle => some (task, .skipped)
  | .dying task, .dead _ => some (task, .finished)
  | .getState task, .release _ false => some (task, .parked)
  | .dying task, .panicked | .expire task, .panicked => some (task, .panicked)
  | _, _ => none

/-- The entries an executor has in its hands. -/
def ExecutorPc.hands : ExecutorPc Task → List Task
  | .drained task | .claim task | .storeCore task | .resetQuantum task | .callPoll task
  | .inPoll task | .dying task | .tick task | .getState task | .expire task | .release task true
  | .requeue task => [task]
  | .stolen task rest => task :: rest
  | .idle | .dequeue | .dead _ | .finished _ | .release _ false | .decay _ | .loadEffective _
  | .loadBase _ _ | .decrement _ | .panicked => []

/-- The calls of `enqueue_task` and the exits are noted. -/
def Entries.note (s : State Core Task Waker) (a : Label Core Task Waker)
    (s' : State Core Task Waker) (r : Entries Task) : Entries Task :=
  match a with
  | .inl (c, _) => { r with left := r.left ++ ((s.left c).exit (s'.left c)).toList }
  | .inr (_, .enqueueTask _ task) => { r with entered := r.entered ++ [task] }
  | .inr _ => r

section Model

variable [DecidableEq Core] [DecidableEq Task] [DecidableEq Waker]

/-- The system with the entries it has taken in and let go. -/
def entriesMachine (Task Waker : Type*) [DecidableEq Task] [DecidableEq Waker]
    (setup : Setup Core) :
    Machine (Recorded (State Core Task Waker) (Entries Task)) (Label Core Task Waker) :=
  (machine Task Waker setup).recorded Entries.note ⟨[], []⟩

end Model

/-- How many entries of the task are in the run queue and the deque of an executor. -/
def entries [DecidableEq Task] (task : Task) (e : Executor Core Task) : Nat :=
  ∑ L, (e.runQueue L).count task + e.worker.count task

/-- Every entry is in one place. -/
structure EntriesConserved [Fintype Core] [DecidableEq Task]
    (s : Recorded (State Core Task Waker) (Entries Task)) : Prop where
  conserved : ∀ task, s.record.entered.count task =
    ∑ c, entries task (s.state.shared.executor c) + ∑ c, (s.state.left c).hands.count task +
      (s.record.left.map Prod.fst).count task
  /-- A task that is enqueued once is in the hands of one executor at most, and in
      no queue then. -/
  alone : ∀ task c, s.record.entered.count task ≤ 1 → task ∈ (s.state.left c).hands →
    (∀ c', task ∈ (s.state.left c').hands → c' = c) ∧
      ∀ c', task ∉ (s.state.shared.executor c').worker ∧
        ∀ L, task ∉ (s.state.shared.executor c').runQueue L

-- ============================================================================
-- The queues
-- ============================================================================

variable [DecidableEq Task] {s s' : System Core Task} {c : Core} {p p' : ExecutorPc Task}
  {task t : Task}

/-- The entries in all queues. -/
def System.entries [Fintype Core] (s : System Core Task) (task : Task) : Nat :=
  ∑ c, Executor.entries task (s.executor c)

variable [Fintype Core] [DecidableEq Core]

namespace System

/-- One executor changes. -/
theorem entries_of_update {e : Executor Core Task}
    (h : s'.executor = Function.update s.executor c e) :
    s'.entries t + Executor.entries t (s.executor c) = s.entries t + Executor.entries t e := by
  rw [System.entries, h]
  exact sum_update_add (Executor.entries t) s.executor c e

/-- The deque of one executor becomes `l`. -/
theorem entries_of_worker (l : List Task)
    (h : s'.executor = Function.update s.executor c { s.executor c with worker := l }) :
    s'.entries t + (s.executor c).worker.count t = s.entries t + l.count t := by
  have h_update := entries_of_update (t := t) h
  simp only [Executor.entries] at h_update
  omega

/-- One level of the run queue of one executor becomes `l`. -/
theorem entries_of_runQueue (L : Level) (l : List Task)
    (h : s'.executor = Function.update s.executor c
      { s.executor c with runQueue := Function.update (s.executor c).runQueue L l }) :
    s'.entries t + ((s.executor c).runQueue L).count t = s.entries t + l.count t := by
  have h_update := entries_of_update (t := t) h
  have h_level := sum_update_add (fun l => l.count t) (s.executor c).runQueue L l
  simp only [Executor.entries] at h_update
  omega

omit [DecidableEq Core] in
/-- The entries only depend on the executors. -/
theorem entries_congr (h : s'.executor = s.executor) : s'.entries t = s.entries t := by
  rw [System.entries, h]
  rfl

/-- The count of the polls has nothing to do with them. -/
theorem entries_setPolls (s : System Core Task) (c : Core) (polls : BitVec 64) :
    (s.setExecutor c fun e => { e with pollsExecuted := polls }).entries t = s.entries t := by
  have h_worker : (s.setExecutor c fun e => { e with pollsExecuted := polls }).entries t +
      Executor.entries t (s.executor c) = _ :=
    entries_of_update (e := { s.executor c with pollsExecuted := polls }) rfl
  exact Nat.add_right_cancel h_worker

theorem entries_push (s : System Core Task) (c : Core) (task : Task) :
    (s.push c task).entries t = s.entries t + [task].count t := by
  have h_worker : (s.push c task).entries t + _ = _ :=
    entries_of_worker ((s.executor c).worker ++ [task]) rfl
  rw [List.count_append] at h_worker
  omega

theorem entries_pop (h : s.pop c = some (task, s')) :
    s'.entries t + [task].count t = s.entries t := by
  simp only [pop] at h
  split at h
  · exact absurd h (by simp)
  · next h_last =>
    obtain ⟨rfl, h_s'⟩ := Prod.mk.inj (Option.some.inj h)
    have h_worker := entries_of_worker (t := t) (s.executor c).worker.dropLast
      (congrArg System.executor h_s'.symm)
    have h_count := congrArg (List.count t) (List.dropLast_append_getLast? _ h_last)
    rw [List.count_append] at h_count
    omega

theorem entries_dequeue (h : s.dequeue c = some (task, s')) :
    s'.entries t + [task].count t = s.entries t := by
  simp only [dequeue] at h
  split at h
  · exact absurd h (by simp)
  · next L _ =>
    split at h
    · exact absurd h (by simp)
    · next rest h_cons =>
      obtain ⟨rfl, h_s'⟩ := Prod.mk.inj (Option.some.inj h)
      have h_level := entries_of_runQueue (t := t) L rest (congrArg System.executor h_s'.symm)
      rw [h_cons, ← List.singleton_append, List.count_append] at h_level
      omega

theorem entries_stealBatch (s : System Core Task) (c : Core) :
    (s.stealBatch c).2.entries t + (s.stealBatch c).1.count t = s.entries t := by
  simp only [stealBatch]
  split
  · rfl
  · next victim _ =>
    set n := min batchLen Stealer.maxStealBatch
    have h_worker : (s.setExecutor victim fun e => { e with worker := e.worker.drop n }).entries t +
        _ = _ := entries_of_worker ((s.executor victim).worker.drop n) rfl
    have h_count := congrArg (List.count t)
      (List.take_append_drop n (s.executor victim).worker)
    rw [List.count_append] at h_count
    dsimp only
    omega

theorem entries_enqueueTask (h : s.enqueueTask c task = some s') :
    s'.entries t = s.entries t + [task].count t := by
  simp only [enqueueTask] at h
  split at h
  · exact absurd h (by simp)
  · have h_level := entries_of_runQueue (t := t) _ _
      (congrArg System.executor (Option.some.inj h).symm)
    rw [List.count_append] at h_level
    omega

end System

-- ============================================================================
-- Steps
-- ============================================================================

/-- The entry of `t` that a step takes out of the system. -/
def ExecutorPc.leaves (t : Task) (p p' : ExecutorPc Task) : Nat :=
  ((p.exit p').toList.map Prod.fst).count t

/-- A step of an executor keeps the entries of `t`: in the queues, in its hands, or
    out of the system. -/
def Keeps (t : Task) (s s' : System Core Task) (p p' : ExecutorPc Task) : Prop :=
  s'.entries t + p'.hands.count t + p.leaves t p' = s.entries t + p.hands.count t

omit [DecidableEq Core] in
/-- A step that moves no entry. -/
theorem Keeps.of_executor_eq (h : s'.executor = s.executor)
    (h_hands : p'.hands.count t + p.leaves t p' = p.hands.count t) : Keeps t s s' p p' := by
  rw [Keeps, System.entries_congr h, Nat.add_assoc, h_hands]

omit [DecidableEq Core] in
/-- One that moves entries between the queues and the hands of the executor. -/
theorem Keeps.of_moves (h_leaves : p.leaves t p' = 0)
    (h : s'.entries t + p'.hands.count t = s.entries t + p.hands.count t) : Keeps t s s' p p' := by
  rw [Keeps, h_leaves, Nat.add_zero, h]

theorem startStep_keeps {a : ExecutorAction} (h_step : startStep c s a = some (s', p')) :
    Keeps t s s' .idle p' := by
  cases a with
  | drain =>
      cases h_step
      exact .of_moves rfl rfl
  | pop =>
      simp only [startStep] at h_step
      split at h_step <;> cases h_step
      · next h_pop => exact .of_moves rfl (System.entries_pop h_pop)
      · exact .of_moves rfl rfl
  | trySteal =>
      have h_batch := s.entries_stealBatch c (t := t)
      simp only [startStep] at h_step
      split at h_step <;> cases h_step <;> next h_steal =>
        rw [h_steal] at h_batch
        exact .of_moves rfl h_batch
  | park | returnReady | returnPending | run => exact absurd h_step (by simp [startStep])

theorem futureStep_keeps {a : ExecutorAction} (h_step : futureStep c s task a = some (s', p')) :
    Keeps t s s' (.inPoll task) p' := by
  cases a with
  | park =>
      simp only [futureStep] at h_step
      split at h_step <;> cases h_step <;> exact .of_executor_eq rfl rfl
  | returnReady =>
      cases h_step
      exact .of_moves rfl rfl
  | returnPending =>
      cases h_step
      exact .of_moves rfl (congrArg (· + _) (s.entries_setPolls c _))
  | drain | pop | trySteal | run => exact absurd h_step (by simp [futureStep])

theorem runStep_keeps (h_step : runStep c s p = some (s', p')) : Keeps t s s' p p' := by
  cases p with
  | idle | inPoll task | panicked => exact absurd h_step (by simp [runStep])
  | dequeue =>
      simp only [runStep] at h_step
      split at h_step <;> cases h_step
      · next h_dequeue => exact .of_moves rfl (System.entries_dequeue h_dequeue)
      · exact .of_moves rfl rfl
  | drained task | requeue task =>
      cases h_step
      exact .of_moves rfl (s.entries_push c task)
  | stolen task rest =>
      cases rest with
      | nil =>
          cases h_step
          exact .of_moves rfl (s.entries_push c task)
      | cons next rest =>
          cases h_step
          refine .of_moves rfl ?_
          have h_push := s.entries_push c task (t := t)
          show (s.push c task).entries t + (next :: rest).count t =
            s.entries t + (task :: next :: rest).count t
          rw [h_push, ← List.singleton_append (l := next :: rest), List.count_append]
          omega
  | finished task =>
      cases h_step
      exact .of_moves rfl ((s.setTcb task _).entries_setPolls c _)
  | tick task =>
      cases h_step
      refine .of_executor_eq rfl ?_
      split <;> rfl
  | release task again =>
      cases again <;> cases h_step <;> exact .of_executor_eq rfl rfl
  | decay task =>
      cases h_step
      refine .of_executor_eq rfl ?_
      split <;> rfl
  | loadBase task eff =>
      cases h_step
      refine .of_executor_eq rfl ?_
      split <;> rfl
  | storeCore task | resetQuantum task | callPoll task | dead task | loadEffective task
  | decrement task =>
      cases h_step
      exact .of_executor_eq rfl rfl
  | claim task | dying task | getState task | expire task =>
      simp only [runStep] at h_step
      split at h_step <;> cases h_step <;> refine .of_executor_eq rfl ?_ <;>
        simp [ExecutorPc.hands, ExecutorPc.leaves, ExecutorPc.exit]

/-- No step of an executor loses an entry or makes one. -/
theorem executorStep_keeps {a : ExecutorAction} (h_step : executorStep c s p a = some (s', p')) :
    Keeps t s s' p p' := by
  simp only [executorStep] at h_step
  split at h_step
  · exact startStep_keeps h_step
  · exact futureStep_keeps h_step
  · split at h_step
    · exact runStep_keeps h_step
    · exact absurd h_step (by simp)

omit [Fintype Core] in
/-- A step of a waker moves no entry. -/
theorem executor_eq_of_wakerStep {w w' : WakerPc Task}
    {b : WakerAction Core Task} (h_step : wakerStep s w b = some (s', w'))
    (h_b : ∀ c task, b ≠ .enqueueTask c task) : s'.executor = s.executor := by
  cases w <;> cases b <;> simp only [wakerStep, reduceCtorEq] at h_step
  case idle.enqueueTask c task => exact absurd rfl (h_b c task)
  case idle.wake | idle.storePriority =>
    cases h_step
    rfl
  case get.run | fromBlocked.run | fromCreated.run =>
    split at h_step <;> cases h_step <;> rfl

-- ============================================================================
-- Runs
-- ============================================================================

variable [DecidableEq Waker] {setup : Setup Core}

/-- What has been taken in is in a queue, in the hands of an executor, or out. -/
def Balanced (s : Recorded (State Core Task Waker) (Entries Task)) : Prop :=
  ∀ task, s.record.entered.count task =
    s.state.shared.entries task + ∑ c, (s.state.left c).hands.count task +
      (s.record.left.map Prod.fst).count task

omit [DecidableEq Core] [DecidableEq Waker] in
theorem entries_new (setup : Setup Core) : (System.new setup : System Core Task).entries t = 0 := by
  simp [System.entries, Executor.entries, System.new]

theorem balanced_of_reachable {s : Recorded (State Core Task Waker) (Entries Task)}
    (h : (entriesMachine Task Waker setup).Reachable s) : Balanced s := by
  refine h.invariant (fun task => ?_) ?_
  · show 0 = (System.new setup : System Core Task).entries task + ∑ _c : Core, 0 + 0
    simp [entries_new]
  · intro s a s' hs h_step task
    obtain ⟨h_machine, h_record⟩ := Machine.recorded_step_eq_some.mp h_step
    have h_before := hs task
    rcases a with ⟨c, a⟩ | ⟨u, b⟩
    · obtain ⟨m, p, h_executor, h_state⟩ := Families.step_left_eq_some h_machine
      have h_keeps : m.entries task + _ + _ = _ := executorStep_keeps h_executor
      have h_hands := sum_update_add (fun p => p.hands.count task) s.state.left c p
      have h_p : Function.update s.state.left c p c = p := Function.update_self ..
      rw [h_record, h_state]
      simp only [Entries.note, List.map_append, List.count_append, h_p]
      simp only [ExecutorPc.leaves] at h_keeps
      omega
    · obtain ⟨m, w, h_waker, h_state⟩ := Families.step_right_eq_some h_machine
      rw [h_record, h_state]
      cases b with
      | enqueueTask c new =>
          obtain ⟨-, h_enqueue⟩ : s.state.right u = .idle ∧
              s.state.shared.enqueueTask c new = some m := by
            cases h_pc : s.state.right u <;> simp [waker, wakerStep, h_pc] at h_waker
            exact ⟨rfl, h_waker.1⟩
          have h_entries := System.entries_enqueueTask (t := task) h_enqueue
          simp only [Entries.note, List.count_append]
          omega
      | wake | storePriority | run =>
          have h_entries := System.entries_congr (t := task)
            (executor_eq_of_wakerStep h_waker (by simp))
          simp only [Entries.note]
          omega

omit [DecidableEq Core] [DecidableEq Waker] in
/-- The hands of two executors are counted apart. -/
theorem hands_add_le (pc : Core → ExecutorPc Task) {c c' : Core} (h_ne : c' ≠ c) :
    (pc c).hands.count t + (pc c').hands.count t ≤ ∑ c, (pc c).hands.count t := by
  classical
  rw [← Finset.sum_pair (f := fun c => (pc c).hands.count t) h_ne.symm]
  exact Finset.sum_le_sum_of_subset (Finset.subset_univ _)

omit [DecidableEq Core] [DecidableEq Waker] in
/-- A task that is in a queue has an entry. -/
theorem entries_pos (h : Holds (s.executor c) t) : 0 < s.entries t := by
  refine Nat.lt_of_lt_of_le ?_ (Finset.single_le_sum
    (f := fun c => Executor.entries t (s.executor c)) (fun _ _ => Nat.zero_le _)
    (Finset.mem_univ c))
  rcases h with ⟨L, h_level⟩ | h_worker
  · refine Nat.lt_of_lt_of_le (List.count_pos_iff.mpr h_level)
      (Nat.le_trans ?_ (Nat.le_add_right _ _))
    exact Finset.single_le_sum (f := fun L => ((s.executor c).runQueue L).count t)
      (fun _ _ => Nat.zero_le _) (Finset.mem_univ L)
  · exact Nat.lt_of_lt_of_le (List.count_pos_iff.mpr h_worker) (Nat.le_add_left _ _)

/-- For any number of executors and wakers. -/
theorem entriesConserved_of_reachable {s : Recorded (State Core Task Waker) (Entries Task)}
    (h : (entriesMachine Task Waker setup).Reachable s) : EntriesConserved s := by
  have h_balanced := balanced_of_reachable h
  refine ⟨h_balanced, fun task c h_once h_c => ?_⟩
  have h_task := h_balanced task
  have h_count := List.count_pos_iff.mpr h_c
  constructor
  · intro c' h_c'
    by_contra h_ne
    have h_two := hands_add_le (t := task) s.state.left h_ne
    have h_count' := List.count_pos_iff.mpr h_c'
    omega
  · have h_one : (s.state.left c).hands.count task ≤ ∑ c, (s.state.left c).hands.count task :=
      Finset.single_le_sum (f := fun c => (s.state.left c).hands.count task)
        (fun _ _ => Nat.zero_le _) (Finset.mem_univ c)
    have h_queues : ∀ c', ¬ Holds (s.state.shared.executor c') task := by
      intro c' h_holds
      have h_pos := entries_pos h_holds
      omega
    exact fun c' => ⟨fun h_worker => h_queues c' (.inr h_worker),
      fun L h_level => h_queues c' (.inl ⟨L, h_level⟩)⟩

/-- Two executors that steal from each other. -/
def stealingCores : Setup Bool where
  coreId := fun c => if c then 1 else 0
  stealers := fun c => [!c]
  defaultQuantum := fun _ => 10

/-- One executor drains its run queue; the other steals both tasks, skips the second,
    which nobody has woken, and polls the first. -/
def stolenBatch : List (Label Bool Nat Unit) :=
  enqueueOn false ++ [.inr ((), .enqueueTask false 1)] ++ wakeRun ++
    .inl (false, .drain) :: List.replicate 5 (.inl (false, .run)) ++
    [.inl (true, .trySteal), .inl (true, .run), .inl (true, .run), .inl (true, .pop),
      .inl (true, .run), .inl (true, .pop)] ++ List.replicate 4 (.inl (true, .run))

theorem entriesConserved_stolenBatch :
    ∃ s, (entriesMachine Nat Unit stealingCores).exec (entriesMachine Nat Unit stealingCores).init
        stolenBatch = some s ∧
      (s.record.entered = [0, 1] ∧ s.record.left = [(1, .skipped)] ∧
        s.state.left true = .inPoll 0) ∧ EntriesConserved s := by
  have h_replay : ((entriesMachine Nat Unit stealingCores).exec
      (entriesMachine Nat Unit stealingCores).init stolenBatch).any
      (fun s => decide (s.record.entered = [0, 1] ∧ s.record.left = [(1, .skipped)] ∧
        s.state.left true = .inPoll 0)) = true := by
    decide +kernel
  obtain ⟨s, h_run, h_record⟩ := Machine.exec_of_decide h_replay
  exact ⟨s, h_run, h_record, entriesConserved_of_reachable ⟨_, h_run⟩⟩

end Executor
end Zydon
