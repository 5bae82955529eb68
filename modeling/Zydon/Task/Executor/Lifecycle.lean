/-
  Zydon.Task.Executor.Lifecycle

  The life of a task, over every interleaving of executors and wakers: its state
  word only moves along the arrows of the state diagram, and it dies once.

  The executor that has taken a task from `Running` to `Dying` is the only one
  that can store `Dead`, and the only one that counts the task in its
  `tasks_completed`: no other transition leaves `Dying` or `Dead`.
-/

import Zydon.Lib.History
import Zydon.Lib.Tally
import Zydon.Task.Executor.Exclusive

namespace Zydon
namespace Executor

open Lib

variable {Core Task Waker : Type*}

-- ============================================================================
-- The state diagram
-- ============================================================================

/-- The arrows of the state diagram. -/
inductive NextState : TaskState → TaskState → Prop
  | start : NextState .created .ready
  | claim : NextState .ready .running
  | expire : NextState .running .ready
  | park : NextState .running .blocked
  | die : NextState .running .dying
  | wake : NextState .blocked .ready
  | bury : NextState .dying .dead

theorem NextState.ne_dead {x x' : TaskState} (h : NextState x x') : x ≠ .dead := by
  cases h <;> simp

/-- Every state word stays as it is or moves along an arrow. -/
def FollowsDiagram (s s' : System Core Task) : Prop :=
  ∀ task, s'.stateOf task = s.stateOf task ∨ NextState (s.stateOf task) (s'.stateOf task)

theorem SameStates.followsDiagram {s s' : System Core Task} (h : SameStates s s') :
    FollowsDiagram s s' := fun task => .inl (h.1 task)

theorem followsDiagram_setState [DecidableEq Task] {s : System Core Task} {task : Task}
    {state : TaskState} (h : NextState (s.stateOf task) state) :
    FollowsDiagram s (s.setState task state) := by
  intro t
  rw [System.stateOf_setState, Function.update_apply]
  split
  · next h_eq => exact .inr (h_eq ▸ h)
  · exact .inl rfl

-- ============================================================================
-- The statistics
-- ============================================================================

/-- `tasks_completed` of the executors, with the tasks it was incremented for, and
    how often each state word has gone from `Running` to `Dying`. -/
structure Lifetimes (Core Task : Type*) where
  tasksCompleted : Core → BitVec 64
  completed : List Task
  deaths : Task → Nat

/-- The task that the step counts in the `tasks_completed` of a core. -/
def counts (s : State Core Task Waker) : Label Core Task Waker → Option (Core × Task)
  | .inl (c, _) =>
      match s.left c with
      | .finished task => some (c, task)
      | _ => none
  | .inr _ => none

variable [DecidableEq Core]

/-- `tasks_completed += 1`. -/
def Lifetimes.count (r : Lifetimes Core Task) (c : Core) (task : Task) : Lifetimes Core Task :=
  { r with
    tasksCompleted := Function.update r.tasksCompleted c (r.tasksCompleted c + 1)
    completed := task :: r.completed }

/-- What a step adds to the record. -/
def Lifetimes.note (s : State Core Task Waker) (a : Label Core Task Waker)
    (s' : State Core Task Waker) (r : Lifetimes Core Task) : Lifetimes Core Task :=
  let counted :=
    match counts s a with
    | some (c, task) => r.count c task
    | none => r
  { counted with
    deaths := fun task =>
      if s.shared.stateOf task = .running ∧ s'.shared.stateOf task = .dying then r.deaths task + 1
      else r.deaths task }

/-- The system and its statistics. -/
def countingMachine (Task Waker : Type*) [DecidableEq Task] [DecidableEq Waker]
    (setup : Setup Core) :
    Machine (Recorded (State Core Task Waker) (Lifetimes Core Task)) (Label Core Task Waker) :=
  (machine Task Waker setup).recorded Lifetimes.note
    { tasksCompleted := fun _ => 0, completed := [], deaths := fun _ => 0 }

-- ============================================================================
-- The end of a task
-- ============================================================================

/-- The task that the executor has taken to `Dying` and has not counted yet, and
    the state it is in. -/
def ExecutorPc.ends : ExecutorPc Task → Option (Task × TaskState)
  | .dead task => some (task, .dying)
  | .finished task => some (task, .dead)
  | _ => none

/-- What a step of an executor does to the tasks that end. -/
inductive LifeStep [DecidableEq Task] (s : System Core Task) :
    ExecutorPc Task → System Core Task → ExecutorPc Task → Prop
  | live {p p' : ExecutorPc Task} {s' : System Core Task} (h_ends : p.ends = none)
      (h_ends' : p'.ends = none)
      (h_live : ∀ task, s'.stateOf task = s.stateOf task ∨
        NextState (s.stateOf task) (s'.stateOf task) ∧ s.stateOf task ≠ .dying ∧
          s'.stateOf task ≠ .dying) : LifeStep s p s' p'
  | die {task : Task} (h_running : s.stateOf task = .running) :
      LifeStep s (.dying task) (s.setState task .dying) (.dead task)
  | bury {task : Task} : LifeStep s (.dead task) (s.setState task .dead) (.finished task)
  | count {task : Task} {s' : System Core Task} (h_same : SameStates s s') :
      LifeStep s (.finished task) s' .idle

variable [DecidableEq Task] {s s' : System Core Task} {c : Core} {p p' : ExecutorPc Task}
  {a : ExecutorAction}

omit [DecidableEq Core] in
/-- One state word is stored. -/
theorem live_setState {task : Task} {state : TaskState}
    (h_next : NextState (s.stateOf task) state) (h_before : s.stateOf task ≠ .dying)
    (h_after : state ≠ .dying) (t : Task) :
    (s.setState task state).stateOf t = s.stateOf t ∨
      NextState (s.stateOf t) ((s.setState task state).stateOf t) ∧ s.stateOf t ≠ .dying ∧
        (s.setState task state).stateOf t ≠ .dying := by
  rw [System.stateOf_setState, Function.update_apply]
  split
  · next h_eq => exact .inr ⟨h_eq ▸ h_next, h_eq ▸ h_before, h_after⟩
  · exact .inl rfl

theorem step_of_dead {task : Task} (h : executorStep c s (.dead task) a = some (s', p')) :
    s' = s.setState task .dead ∧ p' = .finished task := by
  simp only [executorStep, runStep] at h
  split at h
  · cases h
    exact ⟨rfl, rfl⟩
  · exact absurd h (by simp)

theorem step_of_finished {task : Task}
    (h : executorStep c s (.finished task) a = some (s', p')) :
    SameStates s s' ∧ p' = .idle := by
  have h_same := s.sameStates_setTcb task
    (f := fun t => { t with currentCore := TaskControlBlock.noCore }) fun _ => rfl
  simp only [executorStep, runStep] at h
  split at h
  · cases h
    exact ⟨h_same, rfl⟩
  · exact absurd h (by simp)

/-- Only an executor that has taken a task to `Dying` comes to bury or to count
    it. -/
theorem ends_of_step (h : executorStep c s p a = some (s', p')) (h_ends : p.ends = none) :
    p'.ends = none ∨ ∃ task, p = .dying task ∧ p' = .dead task := by
  simp only [executorStep] at h
  split at h
  · rcases startStep_pc h with rfl | rfl | ⟨task, rfl⟩ | ⟨task, rest, rfl⟩ <;> exact .inl rfl
  · rcases futureStep_pc h with rfl | rfl | rfl <;> exact .inl rfl
  · split at h
    · cases p <;> simp only [runStep] at h <;> grind [ExecutorPc.ends]
    · exact absurd h (by simp)

theorem executorStep_lifeStep (h : executorStep c s p a = some (s', p')) :
    LifeStep s p s' p' := by
  cases h_p : p.ends with
  | some x =>
      have h_pc : p = .dead x.1 ∨ p = .finished x.1 := by
        cases p <;> simp [ExecutorPc.ends] at h_p <;> simp [← h_p]
      rcases h_pc with rfl | rfl
      · obtain ⟨rfl, rfl⟩ := step_of_dead h
        exact .bury
      · obtain ⟨h_same, rfl⟩ := step_of_finished h
        exact .count h_same
  | none =>
      have h_effect := executorStep_effect h
      rcases ends_of_step h h_p with h_ends | ⟨task, rfl, rfl⟩
      · refine .live h_p h_ends ?_
        cases h_effect with
        | stay h_same | leave h_same | again h_same => exact fun t => .inl (h_same.1 t)
        | enter | found => exact fun t => .inl rfl
        | claim h_ready => exact live_setState (h_ready ▸ .claim) (by simp [h_ready]) (by simp)
        | park h_running => exact live_setState (h_running ▸ .park) (by simp [h_running]) (by simp)
        | expire h_running =>
            exact live_setState (h_running ▸ .expire) (by simp [h_running]) (by simp)
        | die | bury => exact absurd h_ends (by simp [ExecutorPc.ends])
      · cases h_effect with
        | stay h_same h_owns h_inside h_buries =>
            exact absurd h_buries (by simp [ExecutorPc.buries])
        | leave h_same h_free => exact absurd h_free.2.2 (by simp [ExecutorPc.buries])
        | die h_running => exact .die h_running

/-- A waker only makes a task `Ready` that is parked or new. -/
theorem wakerStep_live {w w' : WakerPc Task} {b : WakerAction Core Task}
    (h : wakerStep s w b = some (s', w')) (task : Task) :
    s'.stateOf task = s.stateOf task ∨
      NextState (s.stateOf task) (s'.stateOf task) ∧ s.stateOf task ≠ .dying ∧
        s'.stateOf task ≠ .dying := by
  rcases wakerStep_effect h with h_same | ⟨t, h_wakes, rfl⟩
  · exact .inl (h_same.1 task)
  · rcases WakerPc.state_of_wakes h_wakes with h_t | h_t
    · exact live_setState (h_t ▸ .wake) (by simp [h_t]) (by simp) task
    · exact live_setState (h_t ▸ .start) (by simp [h_t]) (by simp) task

-- ============================================================================
-- The invariant
-- ============================================================================

/-- The tasks that end, the ones that have been counted, and their state words. -/
structure Ended [Fintype Core] (s : System Core Task) (pc : Core → ExecutorPc Task)
    (r : Lifetimes Core Task) : Prop where
  knows : ∀ c task state, (pc c).ends = some (task, state) →
    s.stateOf task = state ∧ task ∉ r.completed
  unique : ∀ c c' task state state', (pc c).ends = some (task, state) →
    (pc c').ends = some (task, state') → c = c'
  completed : ∀ task ∈ r.completed, s.stateOf task = .dead
  nodup : r.completed.Nodup
  sum : ∑ c, r.tasksCompleted c = r.completed.length
  deaths : ∀ task, r.deaths task =
    if s.stateOf task = .dying ∨ s.stateOf task = .dead then 1 else 0

variable {pc pc' : Core → ExecutorPc Task} {r r' : Lifetimes Core Task} {task : Task}

omit [DecidableEq Core] [DecidableEq Task] in
/-- A task that lives stays out of the states in which it ends. -/
theorem ended_iff_of_live {x x' : TaskState}
    (h : x' = x ∨ NextState x x' ∧ x ≠ .dying ∧ x' ≠ .dying) :
    (x' = .dying ↔ x = .dying) ∧ (x' = .dead ↔ x = .dead) := by
  rcases h with rfl | ⟨h_next, h_x, h_x'⟩
  · exact ⟨Iff.rfl, Iff.rfl⟩
  · cases h_next <;> simp at h_x h_x' ⊢

omit [DecidableEq Core] [DecidableEq Task] in
theorem not_dies_of_live {x x' : TaskState}
    (h : x' = x ∨ NextState x x' ∧ x ≠ .dying ∧ x' ≠ .dying) (h_x : x = .running) :
    x' ≠ .dying := by
  rcases h with rfl | ⟨-, -, h_ne⟩
  · simp [h_x]
  · exact h_ne

omit [DecidableEq Core] [DecidableEq Task] in
theorem ExecutorPc.state_of_ends {state : TaskState} (h : p.ends = some (task, state)) :
    state = .dying ∨ state = .dead := by
  cases p <;> simp [ExecutorPc.ends] at h
  · exact .inl h.2.symm
  · exact .inr h.2.symm

omit [DecidableEq Task] in
/-- An executor that has no task that ends leaves those of the others. -/
theorem ends_of_update {x : Task × TaskState} {c' : Core} (h : p'.ends = none)
    (h_x : (Function.update pc c p' c').ends = some x) : c' ≠ c ∧ (pc c').ends = some x := by
  by_cases h_c' : c' = c
  · rw [h_c', Function.update_self, h] at h_x
    exact absurd h_x (by simp)
  · rw [Function.update_of_ne h_c'] at h_x
    exact ⟨h_c', h_x⟩

namespace Ended

variable [Fintype Core]

omit [DecidableEq Task] in
/-- The executor of core `c` moves, and nothing is counted. -/
theorem move (h : Ended s pc r)
    (h_others : ∀ c' task state, c' ≠ c → (pc c').ends = some (task, state) →
      s'.stateOf task = state)
    (h_self : ∀ task state, p'.ends = some (task, state) → s'.stateOf task = state ∧
      task ∉ r.completed ∧ ∀ c' state', c' ≠ c → (pc c').ends ≠ some (task, state'))
    (h_dead : ∀ task, s.stateOf task = .dead → s'.stateOf task = .dead)
    (h_deaths : ∀ task, r'.deaths task =
      if s'.stateOf task = .dying ∨ s'.stateOf task = .dead then 1 else 0)
    (h_tasksCompleted : r'.tasksCompleted = r.tasksCompleted)
    (h_completed : r'.completed = r.completed) : Ended s' (Function.update pc c p') r' where
  knows := by
    rw [Function.forall_update_iff pc fun c p => ∀ task state, p.ends = some (task, state) →
      s'.stateOf task = state ∧ task ∉ r'.completed, h_completed]
    refine ⟨fun t x h_t => ⟨(h_self t x h_t).1, (h_self t x h_t).2.1⟩, fun c' h_ne t x h_t => ?_⟩
    exact ⟨h_others c' t x h_ne h_t, (h.knows c' t x h_t).2⟩
  unique := by
    intro c₁ c₂ t x₁ x₂ h₁ h₂
    by_cases h_c₁ : c₁ = c <;> by_cases h_c₂ : c₂ = c
    · rw [h_c₁, h_c₂]
    · rw [h_c₁, Function.update_self] at h₁
      rw [Function.update_of_ne h_c₂] at h₂
      exact absurd h₂ ((h_self t x₁ h₁).2.2 c₂ x₂ h_c₂)
    · rw [h_c₂, Function.update_self] at h₂
      rw [Function.update_of_ne h_c₁] at h₁
      exact absurd h₁ ((h_self t x₂ h₂).2.2 c₁ x₁ h_c₁)
    · rw [Function.update_of_ne h_c₁] at h₁
      rw [Function.update_of_ne h_c₂] at h₂
      exact h.unique c₁ c₂ t x₁ x₂ h₁ h₂
  completed := by
    rw [h_completed]
    exact fun t h_t => h_dead t (h.completed t h_t)
  nodup := by rw [h_completed]; exact h.nodup
  sum := by rw [h_tasksCompleted, h_completed]; exact h.sum
  deaths := h_deaths

omit [DecidableEq Core] [DecidableEq Task] in
/-- Nobody is about to bury or to count a task that lives. -/
theorem ends_ne (h : Ended s pc r) (h_running : s.stateOf task = .running) (c : Core)
    (state : TaskState) : (pc c).ends ≠ some (task, state) := by
  intro h_ends
  obtain ⟨rfl, -⟩ := h.knows c task state h_ends
  have h_state := ExecutorPc.state_of_ends h_ends
  simp [h_running] at h_state

omit [DecidableEq Core] [DecidableEq Task] in
/-- The tasks that live change their states. -/
theorem live (h : Ended s pc r)
    (h_live : ∀ task, s'.stateOf task = s.stateOf task ∨
      NextState (s.stateOf task) (s'.stateOf task) ∧ s.stateOf task ≠ .dying ∧
        s'.stateOf task ≠ .dying) : Ended s' pc r where
  knows := by
    intro c t x h_t
    obtain ⟨h_x, h_mem⟩ := h.knows c t x h_t
    obtain ⟨h_dying, h_dead⟩ := ended_iff_of_live (h_live t)
    rcases ExecutorPc.state_of_ends h_t with rfl | rfl
    · exact ⟨h_dying.mpr h_x, h_mem⟩
    · exact ⟨h_dead.mpr h_x, h_mem⟩
  unique := h.unique
  completed := fun t h_t => (ended_iff_of_live (h_live t)).2.mpr (h.completed t h_t)
  nodup := h.nodup
  sum := h.sum
  deaths := fun t => by simp only [h.deaths, ended_iff_of_live (h_live t)]

omit [DecidableEq Task] in
/-- An executor comes to have no task that ends. -/
theorem free (h : Ended s pc r) (h_ends : p'.ends = none) :
    Ended s (Function.update pc c p') r where
  knows := fun c' t x h_t => h.knows c' t x (ends_of_update h_ends h_t).2
  unique := fun c₁ c₂ t x₁ x₂ h₁ h₂ =>
    h.unique c₁ c₂ t x₁ x₂ (ends_of_update h_ends h₁).2 (ends_of_update h_ends h₂).2
  completed := h.completed
  nodup := h.nodup
  sum := h.sum
  deaths := h.deaths

/-- A task dies. -/
theorem die (h : Ended s pc r) (h_running : s.stateOf task = .running)
    (h_deaths : r'.deaths = Function.update r.deaths task (r.deaths task + 1))
    (h_tasksCompleted : r'.tasksCompleted = r.tasksCompleted)
    (h_completed : r'.completed = r.completed) :
    Ended (s.setState task .dying) (Function.update pc c (.dead task)) r' := by
  have h_state := s.stateOf_setState task .dying
  refine h.move ?_ ?_ ?_ ?_ h_tasksCompleted h_completed
  case refine_1 =>
    intro c' t x h_ne h_t
    have h_ne : t ≠ task := by
      rintro rfl
      exact h.ends_ne h_running c' x h_t
    rw [h_state, Function.update_of_ne h_ne]
    exact (h.knows c' t x h_t).1
  case refine_2 =>
    intro t x h_t
    obtain ⟨rfl, rfl⟩ : task = t ∧ .dying = x := by simpa [ExecutorPc.ends] using h_t
    refine ⟨by rw [h_state, Function.update_self], fun h_mem => ?_, fun c' x h_ne => ?_⟩
    · simp [h.completed task h_mem] at h_running
    · exact h.ends_ne h_running c' x
  case refine_3 =>
    intro t h_dead
    have h_ne : t ≠ task := by
      rintro rfl
      simp [h_dead] at h_running
    rw [h_state, Function.update_of_ne h_ne]
    exact h_dead
  case refine_4 =>
    intro t
    rw [h_deaths, h_state, Function.update_apply, Function.update_apply]
    split
    · next h_eq => simp [h.deaths, h_running]
    · exact h.deaths t

/-- A task is buried. -/
theorem bury (h : Ended s pc r) (h_pc : pc c = .dead task) :
    Ended (s.setState task .dead) (Function.update pc c (.finished task)) r := by
  have h_state := s.stateOf_setState task .dead
  have h_self : (pc c).ends = some (task, .dying) := by rw [h_pc]; rfl
  obtain ⟨h_dying, h_uncounted⟩ := h.knows c task .dying h_self
  refine h.move ?_ ?_ ?_ ?_ rfl rfl
  case refine_1 =>
    intro c' t x h_ne h_t
    have h_ne : t ≠ task := by
      rintro rfl
      exact h_ne (h.unique c' c t x .dying h_t h_self)
    rw [h_state, Function.update_of_ne h_ne]
    exact (h.knows c' t x h_t).1
  case refine_2 =>
    intro t x h_t
    obtain ⟨rfl, rfl⟩ : task = t ∧ .dead = x := by simpa [ExecutorPc.ends] using h_t
    refine ⟨by rw [h_state, Function.update_self], h_uncounted, fun c' x h_ne h_c' => ?_⟩
    exact h_ne (h.unique c' c task x .dying h_c' h_self)
  case refine_3 =>
    intro t h_dead
    rw [h_state, Function.update_apply]
    split
    · rfl
    · exact h_dead
  case refine_4 =>
    intro t
    rw [h.deaths, h_state]
    by_cases h_eq : t = task
    · rw [h_eq, h_dying, Function.update_self]
      simp
    · rw [Function.update_of_ne h_eq]

omit [DecidableEq Task] in
/-- A task is counted. -/
theorem count (h : Ended s pc r) (h_pc : pc c = .finished task) (h_same : SameStates s s') :
    Ended s' (Function.update pc c .idle) (r.count c task) := by
  have h_self : (pc c).ends = some (task, .dead) := by rw [h_pc]; rfl
  obtain ⟨h_dead, h_uncounted⟩ := h.knows c task .dead h_self
  have h_other : ∀ c' t x, (Function.update pc c .idle c').ends = some (t, x) →
      (pc c').ends = some (t, x) ∧ t ≠ task := by
    intro c' t x h_t
    obtain ⟨h_ne, h_c'⟩ := ends_of_update rfl h_t
    refine ⟨h_c', ?_⟩
    rintro rfl
    exact h_ne (h.unique c' c t x .dead h_c' h_self)
  constructor
  case knows =>
    intro c' t x h_t
    obtain ⟨h_c', h_ne⟩ := h_other c' t x h_t
    obtain ⟨h_x, h_mem⟩ := h.knows c' t x h_c'
    exact ⟨(h_same.1 t).trans h_x, List.not_mem_cons_of_ne_of_not_mem h_ne h_mem⟩
  case unique =>
    intro c₁ c₂ t x₁ x₂ h₁ h₂
    exact h.unique c₁ c₂ t x₁ x₂ (h_other c₁ t x₁ h₁).1 (h_other c₂ t x₂ h₂).1
  case completed =>
    intro t h_t
    rw [h_same.1]
    rcases List.mem_cons.mp h_t with rfl | h_t
    · exact h_dead
    · exact h.completed t h_t
  case nodup => exact List.nodup_cons.mpr ⟨h_uncounted, h.nodup⟩
  case sum =>
    have h_sum := sum_update_add id r.tasksCompleted c (r.tasksCompleted c + 1)
    simp only [id] at h_sum
    rw [h.sum, ← add_assoc, add_right_comm, add_right_cancel_iff] at h_sum
    simp only [Lifetimes.count, List.length_cons, Nat.cast_succ]
    exact h_sum
  case deaths =>
    intro t
    rw [h_same.1]
    exact h.deaths t

end Ended

-- ============================================================================
-- Steps
-- ============================================================================

variable {σ σ' : State Core Task Waker} {l : Label Core Task Waker}

omit [DecidableEq Task] in
theorem note_deaths (task : Task) :
    (Lifetimes.note σ l σ' r).deaths task =
      if σ.shared.stateOf task = .running ∧ σ'.shared.stateOf task = .dying then r.deaths task + 1
      else r.deaths task := rfl

omit [DecidableEq Task] in
/-- A step with which no task dies is recorded if it counts one. -/
theorem note_eq (h_live : ∀ task, ¬ (σ.shared.stateOf task = .running ∧
    σ'.shared.stateOf task = .dying)) :
    Lifetimes.note σ l σ' r =
      match counts σ l with
      | some (c, task) => r.count c task
      | none => r := by
  simp only [Lifetimes.note, h_live, if_false]
  split <;> rfl

variable [Fintype Core]

/-- One step of an executor. -/
theorem Ended.executor_step {m : System Core Task} (h : Ended σ.shared σ.left r)
    (h_step : executorStep c σ.shared (σ.left c) a = some (m, p')) (h_shared : σ'.shared = m)
    (h_left : σ'.left = Function.update σ.left c p') :
    Ended σ'.shared σ'.left (Lifetimes.note σ (.inl (c, a)) σ' r) := by
  have h_life := executorStep_lifeStep h_step
  have h_counts : counts σ (.inl (c, a)) =
      match σ.left c with
      | .finished task => some (c, task)
      | _ => none := rfl
  rw [h_left]
  generalize h_pc : σ.left c = p at h_life h_counts
  cases h_life with
  | live h_ends h_ends' h_live =>
      rw [note_eq]
      · have h_none : counts σ (.inl (c, a)) = none := by
          rw [h_counts]
          cases p <;> simp_all [ExecutorPc.ends]
        rw [h_none, h_shared]
        exact (h.live h_live).free h_ends'
      · rintro t ⟨h_t, h_t'⟩
        rw [h_shared] at h_t'
        exact not_dies_of_live (h_live t) h_t h_t'
  | @die task h_running =>
      rw [h_shared]
      apply h.die h_running
      case h_deaths =>
        funext t
        have h_state := congrFun (σ.shared.stateOf_setState task .dying) t
        rw [← h_shared] at h_state
        rw [note_deaths]
        by_cases h_eq : t = task
        · rw [h_eq, Function.update_self] at h_state ⊢
          rw [if_pos ⟨h_running, h_state⟩]
        · rw [Function.update_of_ne h_eq] at h_state ⊢
          rw [if_neg (by rw [h_state]; rintro ⟨h_t, h_t'⟩; simp [h_t] at h_t')]
      case h_tasksCompleted => rw [Lifetimes.note, h_counts]
      case h_completed => rw [Lifetimes.note, h_counts]
  | @bury task =>
      rw [note_eq, h_counts, h_shared]
      · exact h.bury h_pc
      · rintro t ⟨h_t, h_t'⟩
        rw [h_shared, System.stateOf_setState, Function.update_apply] at h_t'
        split at h_t'
        · exact absurd h_t' (by simp)
        · simp [h_t] at h_t'
  | @count task s' h_same =>
      rw [note_eq, h_counts, h_shared]
      · exact h.count h_pc h_same
      · rintro t ⟨h_t, h_t'⟩
        rw [h_shared, h_same.1, h_t] at h_t'
        exact absurd h_t' (by simp)

/-- One step of a waker. -/
theorem Ended.waker_step {w w' : WakerPc Task} {b : WakerAction Core Task} {u : Waker}
    {m : System Core Task} (h : Ended σ.shared σ.left r)
    (h_step : wakerStep σ.shared w b = some (m, w')) (h_shared : σ'.shared = m)
    (h_left : σ'.left = σ.left) :
    Ended σ'.shared σ'.left (Lifetimes.note σ (.inr (u, b)) σ' r) := by
  have h_live := wakerStep_live h_step
  rw [note_eq, h_left, h_shared]
  · exact h.live h_live
  · rintro t ⟨h_t, h_t'⟩
    rw [h_shared] at h_t'
    exact not_dies_of_live (h_live t) h_t h_t'

-- ============================================================================
-- Runs
-- ============================================================================

/-- `Ended`, of the system and its statistics. -/
def LifeInv (s : Recorded (State Core Task Waker) (Lifetimes Core Task)) : Prop :=
  Ended s.state.shared s.state.left s.record

variable [DecidableEq Waker] {setup : Setup Core}
  {s s' : Recorded (State Core Task Waker) (Lifetimes Core Task)} {l : Label Core Task Waker}

theorem lifeInv_init (Task Waker : Type*) [DecidableEq Task] [DecidableEq Waker]
    (setup : Setup Core) : LifeInv (countingMachine Task Waker setup).init where
  knows := by
    intro c t x h_t
    exact absurd h_t (by simp [countingMachine, Machine.recorded, machine, families, executor,
      ExecutorPc.ends])
  unique := by
    intro c c' t x x' h_t
    exact absurd h_t (by simp [countingMachine, Machine.recorded, machine, families, executor,
      ExecutorPc.ends])
  completed := fun t h_t => absurd h_t List.not_mem_nil
  nodup := List.nodup_nil
  sum := Finset.sum_const_zero
  deaths := fun t => rfl

theorem LifeInv.step (hs : LifeInv s)
    (h : (countingMachine Task Waker setup).step s l = some s') : LifeInv s' := by
  obtain ⟨h_step, h_record⟩ := Machine.recorded_step_eq_some.mp h
  rw [LifeInv, h_record]
  match l with
  | .inl (c, a) =>
      obtain ⟨m, p, h_left, h_eq⟩ := Families.step_left_eq_some h_step
      exact hs.executor_step h_left (by rw [h_eq]) (by rw [h_eq])
  | .inr (u, b) =>
      obtain ⟨m, q, h_right, h_eq⟩ := Families.step_right_eq_some h_step
      exact hs.waker_step h_right (by rw [h_eq]) (by rw [h_eq])

/-- Every change of a state word is an arrow of the diagram. -/
theorem LifeInv.followsDiagram {s' : State Core Task Waker} (hs : LifeInv s)
    (h : (machine Task Waker setup).step s.state l = some s') :
    FollowsDiagram s.state.shared s'.shared := by
  match l with
  | .inl (c, a) =>
      obtain ⟨m, p, h_left, rfl⟩ := Families.step_left_eq_some h
      have h_life := executorStep_lifeStep h_left
      generalize h_pc : s.state.left c = pc at h_life
      cases h_life with
      | live h_ends h_ends' h_live => exact fun task => (h_live task).imp_right And.left
      | @die task h_running => exact followsDiagram_setState (h_running ▸ .die)
      | @bury task =>
          have h_dying := (hs.knows c task .dying (by rw [h_pc]; rfl)).1
          exact followsDiagram_setState (h_dying ▸ .bury)
      | count h_same => exact h_same.followsDiagram
  | .inr (u, b) =>
      obtain ⟨m, q, h_right, rfl⟩ := Families.step_right_eq_some h
      exact fun task => (wakerStep_live h_right task).imp_right And.left

/-- The life of the tasks in a run that ends in `s` with the statistics `r`. -/
structure FollowsLifecycle (setup : Setup Core) (s : State Core Task Waker)
    (r : Lifetimes Core Task) : Prop where
  next : ∀ l s', (machine Task Waker setup).step s l = some s' → FollowsDiagram s.shared s'.shared
  dead_final : ∀ tr s' task, (machine Task Waker setup).exec s tr = some s' →
    s.shared.stateOf task = .dead → s'.shared.stateOf task = .dead
  dies_once : ∀ task, r.deaths task ≤ 1
  counted : ∑ c, r.tasksCompleted c = r.completed.length
  counted_once : r.completed.Nodup
  counted_dead : ∀ task ∈ r.completed, s.shared.stateOf task = .dead

/-- In every run the tasks follow the state diagram, die once, and are counted at
    most once, when they are `Dead`. -/
theorem followsLifecycle {tr : List (Label Core Task Waker)} {s : State Core Task Waker}
    (h_run : (machine Task Waker setup).exec (machine Task Waker setup).init tr = some s) :
    ∃ r, (countingMachine Task Waker setup).exec (countingMachine Task Waker setup).init tr =
      some { state := s, record := r } ∧ FollowsLifecycle setup s r := by
  obtain ⟨r, h_recorded⟩ := Machine.recorded_exec h_run _
  have h_inv : LifeInv { state := s, record := r } :=
    Machine.Reachable.invariant (lifeInv_init Task Waker setup) (fun _ _ _ hs h => hs.step h)
      ⟨tr, h_recorded⟩
  refine ⟨r, h_recorded, ?_⟩
  constructor
  case next => exact fun l s' h => h_inv.followsDiagram h
  case dead_final =>
    intro tr' s' task h_run' h_dead
    obtain ⟨r', h_recorded'⟩ : ∃ r', (countingMachine Task Waker setup).exec
        { state := s, record := r } tr' = some { state := s', record := r' } :=
      Machine.recorded_exec h_run' r
    refine (Machine.exec_invariant (P := fun s => LifeInv s ∧ s.state.shared.stateOf task = .dead)
      ?_ ⟨h_inv, h_dead⟩ (Machine.stepsMeet_true _ tr') h_recorded').2
    rintro s₁ l s₂ ⟨h_s₁, h_before⟩ - h_step
    refine ⟨h_s₁.step h_step, ?_⟩
    rcases h_s₁.followsDiagram (Machine.recorded_step_eq_some.mp h_step).1 task with h_same | h_next
    · exact h_same.trans h_before
    · exact absurd h_before h_next.ne_dead
  case dies_once =>
    intro task
    rw [h_inv.deaths]
    split <;> omega
  case counted => exact h_inv.sum
  case counted_once => exact h_inv.nodup
  case counted_dead => exact h_inv.completed

/-- The future of task 0 returns `Ready`. -/
def finishRun : List (Label Bool Nat Unit) :=
  enqueueOn false ++ wakeRun ++ pollRun false ++
    [.inl (false, .returnReady), .inl (false, .run), .inl (false, .run), .inl (false, .run)]

theorem followsLifecycle_finishRun :
    ∃ s r, (machine Nat Unit twoCores).exec (machine Nat Unit twoCores).init finishRun = some s ∧
      r.completed = [0] ∧ FollowsLifecycle twoCores s r := by
  obtain ⟨s, h_run, -⟩ : ∃ s, (machine Nat Unit twoCores).exec
      (machine Nat Unit twoCores).init finishRun = some s ∧ s.shared.stateOf 0 = .dead :=
    Machine.exec_of_decide (by decide +kernel)
  obtain ⟨r, h_recorded, h_life⟩ := followsLifecycle h_run
  obtain ⟨m, h_replay, h_completed⟩ : ∃ m, (countingMachine Nat Unit twoCores).exec
      (countingMachine Nat Unit twoCores).init finishRun = some m ∧ m.record.completed = [0] :=
    Machine.exec_of_decide (by decide +kernel)
  obtain rfl : { state := s, record := r } = m := Option.some.inj (h_recorded.symm.trans h_replay)
  exact ⟨s, r, h_run, h_completed, h_life⟩

end Executor
end Zydon
