/-
  Zydon.Task.Executor.Affinity

  The affinity masks of `task/task_control_block.rs`, and where the tasks are
  polled.

  Nothing asks `can_run_on`.  A core polls a task that was enqueued on it or that
  it has stolen, so that a mask is honoured as long as those who enqueue, steal
  and store masks honour it (`RespectsAffinity`).
-/

import Zydon.Task.Executor.Ready

namespace Zydon
namespace Executor

open Lib RunQueue

variable {Core Task Waker : Type*}

-- ============================================================================
-- Masks
-- ============================================================================

/-- `can_run_on`, for a core id below 64. -/
def canRunOn (affinity : BitVec 64) (coreId : BitVec 32) : Bool :=
  affinity &&& (1 <<< coreId.toNat) != 0

/-- The system and the affinity masks of the tasks. -/
structure Masked (Core Task Waker : Type*) where
  state : State Core Task Waker
  affinity : Task → BitVec 64

/-- The labels of the system, and a store to the mask of a task. -/
inductive MaskedLabel (Core Task Waker : Type*) where
  | run (l : Label Core Task Waker)
  | storeAffinity (task : Task) (mask : BitVec 64)

/-- The system with masks, which allow every core at first. -/
def maskedMachine [DecidableEq Core] (Task Waker : Type*) [DecidableEq Task] [DecidableEq Waker]
    (setup : Setup Core) : Machine (Masked Core Task Waker) (MaskedLabel Core Task Waker) where
  init := { state := (machine Task Waker setup).init, affinity := fun _ => BitVec.allOnes 64 }
  step := fun s a =>
    match a with
    | .run l =>
        match (machine Task Waker setup).step s.state l with
        | some state => some { s with state := state }
        | none => none
    | .storeAffinity task mask =>
        some { s with affinity := Function.update s.affinity task mask }

-- ============================================================================
-- The tasks of a core
-- ============================================================================

/-- The tasks an executor has in its hands that it may poll or put in its deque. -/
def ExecutorPc.mayPoll : ExecutorPc Task → List Task
  | .drained task | .claim task | .storeCore task | .resetQuantum task | .callPoll task
  | .inPoll task | .tick task | .getState task | .expire task | .release task true
  | .requeue task => [task]
  | .stolen task rest => task :: rest
  | _ => []

/-- The task is in the queues or in the hands of the executor. -/
def Has (e : Executor Core Task) (p : ExecutorPc Task) (task : Task) : Prop :=
  Holds e task ∨ task ∈ p.mayPoll

variable [DecidableEq Core] {s s' : System Core Task} {c c' : Core} {task t : Task}
  {p p' : ExecutorPc Task}

/-- No core comes to hold a task. -/
def Shrinks (s s' : System Core Task) : Prop :=
  ∀ c task, Holds (s'.executor c) task → Holds (s.executor c) task

omit [DecidableEq Core] in
theorem shrinks_of_executor_eq (h : s'.executor = s.executor) : Shrinks s s' := by
  intro c task h_holds
  rwa [h] at h_holds

theorem shrinks_of_update {e : Executor Core Task}
    (h_executor : s'.executor = Function.update s.executor c e)
    (h_e : ∀ t, Holds e t → Holds (s.executor c) t) : Shrinks s s' := by
  intro c' t h
  rw [h_executor] at h
  by_cases h_c : c' = c
  · subst h_c
    rw [Function.update_self] at h
    exact h_e t h
  · rwa [Function.update_of_ne h_c] at h

/-- A push puts its task in the deque of its core. -/
theorem holds_of_push (h : Holds ((s.push c task).executor c') t) :
    Holds (s.executor c') t ∨ c' = c ∧ t = task := by
  by_cases h_c : c' = c
  · subst h_c
    simp only [System.push, System.setExecutor, Function.update_self] at h
    rcases h with h_queue | h_worker
    · exact .inl (.inl h_queue)
    · rcases List.mem_append.mp h_worker with h_worker | h_worker
      · exact .inl (.inr h_worker)
      · exact .inr ⟨rfl, List.mem_singleton.mp h_worker⟩
  · simp only [System.push, System.setExecutor, Function.update_of_ne h_c] at h
    exact .inl h

/-- A pop takes a task the core holds. -/
theorem shrinks_pop (h : s.pop c = some (task, s')) :
    Shrinks s s' ∧ Holds (s.executor c) task := by
  simp only [System.pop] at h
  split at h <;> cases h
  next h_last =>
  refine ⟨shrinks_of_update rfl ?_, .inr (List.mem_of_getLast? h_last)⟩
  exact fun t h_t => h_t.imp_right List.mem_of_mem_dropLast

theorem shrinks_stealBatch (s : System Core Task) (c : Core) : Shrinks s (s.stealBatch c).2 := by
  simp only [System.stealBatch]
  split
  · exact shrinks_of_executor_eq rfl
  · next victim _ =>
      apply shrinks_of_update (c := victim) rfl
      exact fun t h_t => h_t.imp_right List.mem_of_mem_drop

variable [DecidableEq Task]

/-- A dequeue takes a task the core holds. -/
theorem shrinks_dequeue (h : s.dequeue c = some (task, s')) :
    Shrinks s s' ∧ Holds (s.executor c) task := by
  simp only [System.dequeue] at h
  split at h
  · exact absurd h (by simp)
  · next L _ =>
    split at h <;> cases h
    next rest h_cons =>
    refine ⟨shrinks_of_update (s := s) (c := c) rfl ?_, .inl ⟨L, by simp [h_cons]⟩⟩
    rintro t (⟨L', h_queue⟩ | h_worker)
    · refine .inl ⟨L', ?_⟩
      replace h_queue : t ∈ Function.update (s.executor c).runQueue L rest L' := h_queue
      rw [Function.update_apply] at h_queue
      split at h_queue
      · next h_L =>
          rw [h_L, h_cons]
          exact List.mem_cons_of_mem _ h_queue
      · exact h_queue
    · exact .inr h_worker

/-- `enqueue_task` puts its task in the run queue of its core. -/
theorem holds_of_enqueueTask (h_enqueue : s.enqueueTask c task = some s')
    (h : Holds (s'.executor c') t) : Holds (s.executor c') t ∨ c' = c ∧ t = task := by
  simp only [System.enqueueTask] at h_enqueue
  split at h_enqueue <;> cases h_enqueue
  by_cases h_c : c' = c
  · subst h_c
    simp only [System.setExecutor, Function.update_self] at h
    rcases h with ⟨L, h_queue⟩ | h_worker
    · replace h_queue : t ∈ Function.update (s.executor c').runQueue _ _ L := h_queue
      rw [Function.update_apply] at h_queue
      split at h_queue
      · next h_L =>
          rcases List.mem_append.mp h_queue with h_queue | h_queue
          · exact .inl (.inl ⟨_, h_queue⟩)
          · exact .inr ⟨rfl, List.mem_singleton.mp h_queue⟩
      · exact .inl (.inl ⟨L, h_queue⟩)
    · exact .inl (.inr h_worker)
  · simp only [System.setExecutor, Function.update_of_ne h_c] at h
    exact .inl h

-- ============================================================================
-- Steps
-- ============================================================================

/-- The tasks that a step of the executor takes from other cores. -/
def takes (s : System Core Task) (c : Core) : ExecutorPc Task → ExecutorAction → List Task
  | .idle, .trySteal => (s.stealBatch c).1
  | _, _ => []

/-- A core only comes to have the tasks that it takes from others. -/
structure Gains (s : System Core Task) (c : Core) (p : ExecutorPc Task) (new : List Task)
    (s' : System Core Task) (p' : ExecutorPc Task) : Prop where
  holds : ∀ c' t, Holds (s'.executor c') t → Holds (s.executor c') t ∨ c' = c ∧ t ∈ p.mayPoll
  mayPoll : ∀ t ∈ p'.mayPoll, Has (s.executor c) p t ∨ t ∈ new

omit [DecidableEq Task] in
theorem startStep_gains {a : ExecutorAction} (h : startStep c s a = some (s', p')) :
    Gains s c .idle (takes s c .idle a) s' p' := by
  cases a with
  | drain =>
      cases h
      exact ⟨fun _ _ h_t => .inl h_t, by simp [ExecutorPc.mayPoll]⟩
  | pop =>
      simp only [startStep] at h
      split at h <;> cases h
      · next task h_pop =>
          obtain ⟨h_shrinks, h_task⟩ := shrinks_pop h_pop
          refine ⟨fun c' t h_t => .inl (h_shrinks c' t h_t), fun t h_t => ?_⟩
          rw [List.mem_singleton.mp h_t]
          exact .inl (.inl h_task)
      · exact ⟨fun _ _ h_t => .inl h_t, by simp [ExecutorPc.mayPoll]⟩
  | trySteal =>
      have h_shrinks := shrinks_stealBatch s c
      simp only [startStep] at h
      split at h
      · next task rest m h_steal =>
          cases h
          rw [h_steal] at h_shrinks
          refine ⟨fun c' t h_t => .inl (h_shrinks c' t h_t), fun t h_t => .inr ?_⟩
          simpa [takes, h_steal, ExecutorPc.mayPoll] using h_t
      · next h_steal =>
          cases h
          rw [h_steal] at h_shrinks
          exact ⟨fun c' t h_t => .inl (h_shrinks c' t h_t), by simp [ExecutorPc.mayPoll]⟩
  | park | returnReady | returnPending | run => exact absurd h (by simp [startStep])

omit [DecidableEq Core] [DecidableEq Task] in
/-- The queues lose tasks at most, and the executor has no new one. -/
theorem Gains.of_shrinks {new : List Task} (h : Shrinks s s')
    (h_p' : ∀ t ∈ p'.mayPoll, t ∈ p.mayPoll) : Gains s c p new s' p' where
  holds := fun c' t h_t => .inl (h c' t h_t)
  mayPoll := fun t h_t => .inl (.inr (h_p' t h_t))

theorem futureStep_gains {a : ExecutorAction} (h : futureStep c s task a = some (s', p')) :
    Gains s c (.inPoll task) [] s' p' := by
  cases a with
  | park =>
      simp only [futureStep] at h
      split at h <;> cases h <;> exact .of_shrinks (shrinks_of_executor_eq rfl) fun _ h_t => h_t
  | returnReady =>
      cases h
      exact .of_shrinks (shrinks_of_executor_eq rfl) (by simp [ExecutorPc.mayPoll])
  | returnPending =>
      cases h
      exact .of_shrinks (shrinks_of_update (c := c) rfl fun _ h_t => h_t) fun _ h_t => h_t
  | drain | pop | trySteal | run => exact absurd h (by simp [futureStep])

omit [DecidableEq Task] in
theorem Gains.of_push {rest new : List Task} (h_p : p.mayPoll = task :: rest)
    (h_p' : p'.mayPoll = rest) : Gains s c p new (s.push c task) p' where
  holds := by
    intro c' t h_t
    refine (holds_of_push h_t).imp_right fun h_eq => ⟨h_eq.1, ?_⟩
    rw [h_p, h_eq.2]
    exact List.mem_cons_self
  mayPoll := by
    intro t h_t
    refine .inl (.inr ?_)
    rw [h_p, ← h_p']
    exact List.mem_cons_of_mem _ h_t

theorem runStep_gains (h : runStep c s p = some (s', p')) : Gains s c p [] s' p' := by
  cases p with
  | idle | inPoll task | panicked => exact absurd h (by simp [runStep])
  | dequeue =>
      simp only [runStep] at h
      split at h <;> cases h
      · next h_dequeue =>
          obtain ⟨h_shrinks, h_task⟩ := shrinks_dequeue h_dequeue
          refine ⟨fun c' t h_t => .inl (h_shrinks c' t h_t), fun t h_t => ?_⟩
          rw [List.mem_singleton.mp h_t]
          exact .inl (.inl h_task)
      · exact .of_shrinks (shrinks_of_executor_eq rfl) (by simp [ExecutorPc.mayPoll])
  | drained task | requeue task =>
      cases h
      exact .of_push rfl rfl
  | stolen task rest =>
      cases rest <;> cases h <;> exact .of_push rfl rfl
  | finished task =>
      cases h
      exact .of_shrinks (shrinks_of_update (c := c) rfl fun _ h_t => h_t)
        (by simp [ExecutorPc.mayPoll])
  | release task again =>
      cases again <;> cases h
      · exact .of_shrinks (shrinks_of_executor_eq rfl) (by simp [ExecutorPc.mayPoll])
      · exact .of_shrinks (shrinks_of_executor_eq rfl) fun _ h_t => h_t
  | claim task | dying task | getState task | expire task | loadBase task eff | decay task =>
      simp only [runStep] at h
      split at h <;> cases h <;>
        exact .of_shrinks (shrinks_of_executor_eq rfl) (by simp [ExecutorPc.mayPoll])
  | tick task =>
      simp only [runStep] at h
      split at h <;> cases h <;> exact .of_shrinks (shrinks_of_executor_eq rfl) fun _ h_t => h_t
  | storeCore task | resetQuantum task | callPoll task | dead task | loadEffective task
  | decrement task =>
      cases h
      exact .of_shrinks (shrinks_of_executor_eq rfl) (by simp [ExecutorPc.mayPoll])

theorem executorStep_gains {a : ExecutorAction} (h : executorStep c s p a = some (s', p')) :
    Gains s c p (takes s c p a) s' p' := by
  simp only [executorStep] at h
  split at h
  · exact startStep_gains h
  · exact futureStep_gains h
  · next h_idle _ =>
      have h_takes : takes s c p a = [] := by
        cases p <;> first | rfl | exact absurd rfl h_idle
      rw [h_takes]
      split at h
      · exact runStep_gains h
      · exact absurd h (by simp)

/-- A step of a waker only gives a core the task that it enqueues. -/
theorem wakerStep_holds {w w' : WakerPc Task} {b : WakerAction Core Task}
    (h : wakerStep s w b = some (s', w')) (h_t : Holds (s'.executor c) t) :
    Holds (s.executor c) t ∨ b = .enqueueTask c t := by
  rcases wakerStep_executor h with h_executor | ⟨c', task, rfl, h_enqueue⟩
  · rw [h_executor] at h_t
    exact .inl h_t
  · refine (holds_of_enqueueTask h_enqueue h_t).imp_right ?_
    rintro ⟨rfl, rfl⟩
    rfl

-- ============================================================================
-- Runs
-- ============================================================================

/-- The cores may run the tasks they have. -/
def AffinityInv (setup : Setup Core) (s : Masked Core Task Waker) : Prop :=
  ∀ c task, Has (s.state.shared.executor c) (s.state.left c) task →
    canRunOn (s.affinity task) (setup.coreId c) = true

/-- A task is enqueued on a core that may run it, a batch is stolen by a core that
    may run its tasks, and a store to a mask leaves the task to the core that
    has it. -/
def RespectsAffinity (setup : Setup Core) (s : Masked Core Task Waker) :
    MaskedLabel Core Task Waker → Prop
  | .run (.inl (c, a)) =>
      ∀ task ∈ takes s.state.shared c (s.state.left c) a,
        canRunOn (s.affinity task) (setup.coreId c) = true
  | .run (.inr (_, .enqueueTask c task)) => canRunOn (s.affinity task) (setup.coreId c) = true
  | .run (.inr _) => True
  | .storeAffinity task mask =>
      ∀ c, Has (s.state.shared.executor c) (s.state.left c) task →
        canRunOn mask (setup.coreId c) = true

instance Has.decidable (e : Executor Core Task) (p : ExecutorPc Task) (task : Task) :
    Decidable (Has e p task) :=
  inferInstanceAs (Decidable (_ ∨ _))

instance RespectsAffinity.decidable [Fintype Core] (setup : Setup Core)
    (s : Masked Core Task Waker) : ∀ l, Decidable (RespectsAffinity setup s l)
  | .run (.inl (c, a)) =>
      inferInstanceAs (Decidable (∀ task ∈ takes s.state.shared c (s.state.left c) a, _ = true))
  | .run (.inr (_, .enqueueTask ..)) => inferInstanceAs (Decidable (_ = true))
  | .run (.inr (_, .wake _)) => .isTrue trivial
  | .run (.inr (_, .storePriority ..)) => .isTrue trivial
  | .run (.inr (_, .run)) => .isTrue trivial
  | .storeAffinity task mask =>
      inferInstanceAs (Decidable (∀ c, Has (s.state.shared.executor c) (s.state.left c) task →
        canRunOn mask (setup.coreId c) = true))

/-- A call of `future.poll` on a core is about a task that may run there. -/
def PollsWhereAllowed (setup : Setup Core) (s : Masked Core Task Waker) : Prop :=
  ∀ c task, s.state.left c = .callPoll task →
    canRunOn (s.affinity task) (setup.coreId c) = true

variable [DecidableEq Waker] {setup : Setup Core} {σ σ' : Masked Core Task Waker}
  {l : MaskedLabel Core Task Waker}

/-- One step of the system. -/
theorem maskedMachine_run_eq_some {a : Label Core Task Waker}
    (h : (maskedMachine Task Waker setup).step σ (.run a) = some σ') :
    ∃ m, (machine Task Waker setup).step σ.state a = some m ∧ σ' = { σ with state := m } := by
  simp only [maskedMachine] at h
  split at h
  · next m h_step => exact ⟨m, h_step, (Option.some.inj h).symm⟩
  · exact absurd h (by simp)

theorem AffinityInv.step (h : AffinityInv setup σ) (h_ok : RespectsAffinity setup σ l)
    (h_step : (maskedMachine Task Waker setup).step σ l = some σ') : AffinityInv setup σ' := by
  match l with
  | .run (.inl (c, a)) =>
      obtain ⟨m, h_run, rfl⟩ := maskedMachine_run_eq_some h_step
      obtain ⟨m, p, h_left, rfl⟩ := Families.step_left_eq_some h_run
      have h_gains := executorStep_gains h_left
      rintro c' t (h_holds | h_t)
      · rcases h_gains.holds c' t h_holds with h_before | ⟨rfl, h_hands⟩
        · exact h c' t (.inl h_before)
        · exact h c' t (.inr h_hands)
      · by_cases h_c : c' = c
        · subst h_c
          simp only [Function.update_self] at h_t
          rcases h_gains.mayPoll t h_t with h_before | h_new
          · exact h c' t h_before
          · exact h_ok t h_new
        · simp only [Function.update_of_ne h_c] at h_t
          exact h c' t (.inr h_t)
  | .run (.inr (u, b)) =>
      obtain ⟨m, h_run, rfl⟩ := maskedMachine_run_eq_some h_step
      obtain ⟨m, q, h_right, rfl⟩ := Families.step_right_eq_some h_run
      rintro c t (h_holds | h_t)
      · rcases wakerStep_holds h_right h_holds with h_before | rfl
        · exact h c t (.inl h_before)
        · exact h_ok
      · exact h c t (.inr h_t)
  | .storeAffinity task mask =>
      obtain rfl : { σ with affinity := Function.update σ.affinity task mask } = σ' := by
        simpa [maskedMachine] using h_step
      intro c t h_has
      show canRunOn (Function.update σ.affinity task mask t) _ = true
      rw [Function.update_apply]
      split
      · next h_eq => exact h_ok c (h_eq ▸ h_has)
      · exact h c t h_has

/-- In every run whose steps meet the condition, tasks are polled where their masks
    allow it. -/
theorem pollsWhereAllowed_of_respectsAffinity {tr : List (MaskedLabel Core Task Waker)}
    (h_run : (maskedMachine Task Waker setup).exec (maskedMachine Task Waker setup).init tr =
      some σ)
    (h_meet : (maskedMachine Task Waker setup).StepsMeet (RespectsAffinity setup)
      (maskedMachine Task Waker setup).init tr) : PollsWhereAllowed setup σ := by
  have h_init : AffinityInv setup (maskedMachine Task Waker setup).init := by
    intro c t h_has
    exact absurd h_has (by simp [maskedMachine, machine, families, executor, System.new, Has, Holds,
      ExecutorPc.mayPoll])
  have h_inv : AffinityInv setup σ :=
    Machine.exec_invariant (fun _ _ _ hs h_ok h => hs.step h_ok h) h_init h_meet h_run
  intro c task h_pc
  exact h_inv c task (.inr (by rw [h_pc]; exact List.mem_cons_self))

/-- Task 0 may only run on core 1; it is enqueued on core `c`, which polls it. -/
def maskedRun (c : Bool) : List (MaskedLabel Bool Nat Unit) :=
  .storeAffinity 0 2 :: (enqueueOn c ++ wakeRun ++ (pollRun c).dropLast).map .run

theorem pollsWhereAllowed_maskedRun :
    ∃ s, (maskedMachine Nat Unit twoCores).exec (maskedMachine Nat Unit twoCores).init
        (maskedRun true) = some s ∧
      s.state.left true = .callPoll 0 ∧ PollsWhereAllowed twoCores s := by
  obtain ⟨s, h_run, h_pc⟩ : ∃ s, (maskedMachine Nat Unit twoCores).exec
      (maskedMachine Nat Unit twoCores).init (maskedRun true) = some s ∧
      s.state.left true = .callPoll 0 :=
    Machine.exec_of_decide (by decide +kernel)
  exact ⟨s, h_run, h_pc, pollsWhereAllowed_of_respectsAffinity h_run (by decide +kernel)⟩

/-- Core 0 polls the task that is enqueued on it, whatever its mask says. -/
theorem maskedRun_breaks_affinity :
    ∃ s, (maskedMachine Nat Unit twoCores).exec (maskedMachine Nat Unit twoCores).init
        (maskedRun false) = some s ∧
      s.state.left false = .callPoll 0 ∧ s.affinity 0 = 2 ∧
      canRunOn (s.affinity 0) (twoCores.coreId false) = false :=
  Machine.exec_of_decide (by decide +kernel)

end Executor
end Zydon
