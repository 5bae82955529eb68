/-
  Zydon.Task.Executor.Panic

  When `poll_task` panics, over every interleaving in which one executor polls a
  task.

  The state word of a task that is being polled is `Running` until its future
  parks it, and not `Running` again before that call of `poll_task` is over,
  whatever the wakers do (`PollInv`).  The code looks at the state word before it
  expects `Running` of a task whose quantum has expired; it does not before it
  expects `Running` of a task whose future has returned `Ready`.
-/

import Zydon.Lib.History
import Zydon.Task.Executor.Exclusive

namespace Zydon
namespace Executor

open Lib

variable {Core Task Waker : Type*}

-- ============================================================================
-- Parking
-- ============================================================================

/-- Whether the future has parked its task in the call of `poll_task` of an
    executor at `p`, before and after a step from `s` to `s'`. -/
def noteParked [DecidableEq Task] (s s' : System Core Task) (p : ExecutorPc Task)
    (parked : Bool) : Bool :=
  match p with
  | .claim _ => false
  | .inPoll task =>
      if s.stateOf task = .running ∧ s'.stateOf task = .blocked then true else parked
  | _ => parked

variable [DecidableEq Core]

/-- The system, with a record of the cores on which the future has parked its task in
    the call of `poll_task`. -/
def parkingMachine (Task Waker : Type*) [DecidableEq Task] [DecidableEq Waker]
    (setup : Setup Core) :
    Machine (Recorded (State Core Task Waker) (Core → Bool)) (Label Core Task Waker) :=
  (machine Task Waker setup).recorded
    (fun s a s' parked =>
      match a with
      | .inl (c, _) =>
          Function.update parked c (noteParked s.shared s'.shared (s.left c) (parked c))
      | .inr _ => parked)
    fun _ => false

/-- The task whose future has just returned `Ready`. -/
def ExecutorPc.returned : ExecutorPc Task → Option Task
  | .dying task => some task
  | _ => none

/-- A task is polled by the executor it belongs to. -/
def OneExecutor (owner : Task → Core) (s : Recorded (State Core Task Waker) (Core → Bool)) :
    Label Core Task Waker → Prop
  | .inl (c, _) => ∀ task ∈ (s.state.left c).claims, owner task = c
  | .inr _ => True

/-- A future that has parked its task does not return `Ready` in the same call of
    `poll_task`. -/
def ReadyUnparked (s : Recorded (State Core Task Waker) (Core → Bool)) :
    Label Core Task Waker → Prop
  | .inl (c, _) => ∀ task ∈ (s.state.left c).returned, s.record c = false
  | .inr _ => True

instance OneExecutor.decidable (owner : Task → Core)
    (s : Recorded (State Core Task Waker) (Core → Bool)) : ∀ l, Decidable (OneExecutor owner s l)
  | .inl (c, _) => inferInstanceAs (Decidable (∀ task ∈ (s.state.left c).claims, owner task = c))
  | .inr _ => .isTrue trivial

instance ReadyUnparked.decidable (s : Recorded (State Core Task Waker) (Core → Bool)) :
    ∀ l, Decidable (ReadyUnparked s l)
  | .inl (c, _) =>
      inferInstanceAs (Decidable (∀ task ∈ (s.state.left c).returned, s.record c = false))
  | .inr _ => .isTrue trivial

-- ============================================================================
-- Steps
-- ============================================================================

theorem ExecutorPc.eq_of_returned {p : ExecutorPc Task} {task : Task}
    (h : p.returned = some task) : p = .dying task := by
  cases p <;> simp [ExecutorPc.returned] at h
  rw [h]

/-- The executor has set the task to `Running`, and its `poll_task` goes on. -/
def ExecutorPc.Polls (p : ExecutorPc Task) (task : Task) : Prop :=
  p.owns = some task ∨ p.inside = some task

variable [DecidableEq Task] {s s' : System Core Task} {c : Core} {p p' : ExecutorPc Task}
  {task t : Task} {b : Bool} {a : ExecutorAction}

omit [DecidableEq Core] in
theorem noteParked_of_same (h : SameStates s s') (h_p : p.Polls task) :
    noteParked s s' p b = b := by
  cases p with
  | claim x => simp [ExecutorPc.Polls, ExecutorPc.owns, ExecutorPc.inside] at h_p
  | inPoll x =>
      apply if_neg
      rintro ⟨h_running, h_blocked⟩
      rw [h.1, h_running] at h_blocked
      exact absurd h_blocked (by simp)
  | _ => rfl

omit [DecidableEq Core] in
/-- An executor only changes the state words of the tasks it works on. -/
theorem Effect.stateOf_eq (h : Effect c s p s' p') (h_polls : ¬ p.Polls t)
    (h_buries : p.buries ≠ some t) (h_claims : p ≠ .claim t) : s'.stateOf t = s.stateOf t := by
  have h_set : ∀ {x : Task} {state : TaskState}, x ≠ t →
      (s.setState x state).stateOf t = s.stateOf t := by
    intro x state h_x
    rw [System.stateOf_setState, Function.update_of_ne h_x.symm]
  cases h with
  | stay h_same | leave h_same | again h_same => exact h_same.1 t
  | enter | found => rfl
  | claim => exact h_set fun h_eq => h_claims (h_eq ▸ rfl)
  | park | die => exact h_set fun h_eq => h_polls (.inr (h_eq ▸ rfl))
  | expire => exact h_set fun h_eq => h_polls (.inl (h_eq ▸ rfl))
  | bury => exact h_set fun h_eq => h_buries (h_eq ▸ rfl)

omit [DecidableEq Core] in
/-- An executor goes on with the tasks it works on, or with one that it claims. -/
theorem Effect.works (h : Effect c s p s' p') (h_t : p'.Polls t ∨ p'.buries = some t) :
    (p.Polls t ∨ p.buries = some t) ∨ p = .claim t := by
  cases h with
  | stay h_same h_owns h_inside h_buries =>
      rw [ExecutorPc.Polls, h_owns, h_inside, h_buries] at h_t
      exact .inl h_t
  | leave h_same h_free => simp [ExecutorPc.Polls, h_free.1, h_free.2.1, h_free.2.2] at h_t
  | claim =>
      simp only [ExecutorPc.Polls, ExecutorPc.owns, ExecutorPc.inside, ExecutorPc.buries,
        reduceCtorEq, or_false, Option.some.injEq] at h_t
      exact .inr (h_t ▸ rfl)
  | enter | park | again | found | die =>
      left
      simpa [ExecutorPc.Polls, ExecutorPc.owns, ExecutorPc.inside, ExecutorPc.buries] using h_t
  | expire | bury =>
      simp [ExecutorPc.Polls, ExecutorPc.owns, ExecutorPc.inside, ExecutorPc.buries] at h_t

omit [DecidableEq Core] in
/-- A task that is being polled is `Running` until its future parks it. -/
theorem Effect.running_iff (h : Effect c s p s' p')
    (h_p : ∀ t, p.Polls t → (s.stateOf t = .running ↔ b = false)) :
    ∀ t, p'.Polls t → (s'.stateOf t = .running ↔ noteParked s s' p b = false) := by
  cases h with
  | stay h_same h_owns h_inside h_buries =>
      intro t h_t
      have h_before : p.Polls t := by
        rw [ExecutorPc.Polls, ← h_owns, ← h_inside]
        exact h_t
      rw [noteParked_of_same h_same h_before, h_same.1]
      exact h_p t h_before
  | leave h_same h_free =>
      intro t h_t
      simp [ExecutorPc.Polls, h_free.1, h_free.2.1] at h_t
  | @claim task h_ready =>
      intro t h_t
      obtain rfl : task = t := by
        simpa [ExecutorPc.Polls, ExecutorPc.owns, ExecutorPc.inside] using h_t
      have h_state := congrFun (s.stateOf_setState task .running) task
      rw [Function.update_self] at h_state
      exact iff_of_true h_state rfl
  | @enter task =>
      intro t h_t
      obtain rfl : task = t := by
        simpa [ExecutorPc.Polls, ExecutorPc.owns, ExecutorPc.inside] using h_t
      exact h_p task (.inl rfl)
  | @park task h_running =>
      intro t h_t
      obtain rfl : task = t := by
        simpa [ExecutorPc.Polls, ExecutorPc.owns, ExecutorPc.inside] using h_t
      have h_state := congrFun (s.stateOf_setState task .blocked) task
      rw [Function.update_self] at h_state
      rw [h_state, noteParked, if_pos ⟨h_running, h_state⟩]
      simp
  | @again task s' h_same h_tick =>
      intro t h_t
      obtain rfl : task = t := by
        simpa [ExecutorPc.Polls, ExecutorPc.owns, ExecutorPc.inside] using h_t
      rw [h_same.1]
      exact h_p task (.inr rfl)
  | @found task h_running =>
      intro t h_t
      obtain rfl : task = t := by
        simpa [ExecutorPc.Polls, ExecutorPc.owns, ExecutorPc.inside] using h_t
      exact h_p task (.inr rfl)
  | expire | die | bury =>
      intro t h_t
      simp [ExecutorPc.Polls, ExecutorPc.owns, ExecutorPc.inside] at h_t

/-- A transition fails from another state. -/
theorem transition_eq_error {state expected new state' : TaskState}
    (h : state.transition expected new = .error state') : state ≠ expected := by
  simp only [TaskState.transition] at h
  split at h
  · exact absurd h (by simp)
  · next h_ne => exact h_ne

/-- The transition to `Dying` panics if the task is not `Running`. -/
theorem step_of_dying (h : executorStep c s (.dying task) a = some (s', p'))
    (h_state : s.stateOf task ≠ .running) : p' = .panicked := by
  simp only [executorStep, runStep] at h
  split at h
  · split at h <;> cases h
    · next h_ok => exact absurd (transition_eq_ok h_ok).1 h_state
    · rfl
  · exact absurd h (by simp)

/-- Only an operation of `poll_task` itself panics, or comes to put a task back. -/
theorem runStep_of_executorStep (h : executorStep c s p a = some (s', p'))
    (h_p' : p' = .panicked ∨ ∃ task, p' = .expire task) : runStep c s p = some (s', p') := by
  simp only [executorStep] at h
  split at h
  · rcases startStep_pc h with rfl | rfl | ⟨t, rfl⟩ | ⟨t, rest, rfl⟩ <;>
      exact absurd h_p' (by simp)
  · rcases futureStep_pc h with rfl | rfl | rfl <;> exact absurd h_p' (by simp)
  · split at h
    · exact h
    · exact absurd h (by simp)

/-- An executor expects `Running` of a task that has returned `Ready`, and of one
    whose quantum has expired. -/
theorem panicked_of_step (h : executorStep c s p a = some (s', .panicked)) :
    ∃ task, (p = .dying task ∨ p = .expire task) ∧ s.stateOf task ≠ .running := by
  have h_run := runStep_of_executorStep h (.inl rfl)
  cases p with
  | dying task | expire task =>
      simp only [runStep] at h_run
      split at h_run <;> cases h_run
      next h_error => exact ⟨task, by simp, transition_eq_error h_error⟩
  | _ =>
      simp only [runStep] at h_run
      grind

/-- An executor that is about to put a task back has found it `Running`. -/
theorem expire_of_step (h : executorStep c s p a = some (s', .expire task)) :
    s'.stateOf task = .running := by
  have h_run := runStep_of_executorStep h (.inr ⟨task, rfl⟩)
  cases p with
  | getState x =>
      simp only [runStep] at h_run
      split at h_run <;> cases h_run
      next h_running => exact h_running
  | _ =>
      simp only [runStep] at h_run
      grind

-- ============================================================================
-- The invariant
-- ============================================================================

/-- The executors work on tasks of their own, a task that is being polled is
    `Running` until its future parks it, and one that is about to be put back is
    `Running`. -/
structure PollInv (owner : Task → Core) (s : System Core Task) (pc : Core → ExecutorPc Task)
    (parked : Core → Bool) : Prop where
  mine : ∀ c task, (pc c).Polls task ∨ (pc c).buries = some task → owner task = c
  running_iff : ∀ c task, (pc c).Polls task → (s.stateOf task = .running ↔ parked c = false)
  expire : ∀ c task, pc c = .expire task → s.stateOf task = .running

variable {owner : Task → Core} {pc : Core → ExecutorPc Task} {parked : Core → Bool}

theorem PollInv.executor_step (h : PollInv owner s pc parked)
    (h_step : executorStep c s (pc c) a = some (s', p'))
    (h_owner : ∀ task ∈ (pc c).claims, owner task = c) :
    PollInv owner s' (Function.update pc c p')
      (Function.update parked c (noteParked s s' (pc c) (parked c))) := by
  have h_effect := executorStep_effect h_step
  -- the tasks of the other executors keep their states
  have h_other : ∀ c' t, c' ≠ c → (pc c').Polls t → s'.stateOf t = s.stateOf t := by
    intro c' t h_ne h_t
    have h_owns : owner t ≠ c := by
      rw [h.mine c' t (.inl h_t)]
      exact h_ne
    apply h_effect.stateOf_eq
    · exact fun h_polls => h_owns (h.mine c t (.inl h_polls))
    · exact fun h_buries => h_owns (h.mine c t (.inr h_buries))
    · exact fun h_claims => h_owns (h_owner t (by rw [h_claims]; rfl))
  constructor
  case mine =>
    intro c' t h_t
    by_cases h_c : c' = c
    · subst h_c
      rw [Function.update_self] at h_t
      rcases h_effect.works h_t with h_before | h_claims
      · exact h.mine c' t h_before
      · exact h_owner t (by rw [h_claims]; rfl)
    · rw [Function.update_of_ne h_c] at h_t
      exact h.mine c' t h_t
  case running_iff =>
    intro c' t h_t
    by_cases h_c : c' = c
    · subst h_c
      rw [Function.update_self] at h_t ⊢
      exact h_effect.running_iff (h.running_iff c') t h_t
    · rw [Function.update_of_ne h_c] at h_t ⊢
      rw [h_other c' t h_c h_t]
      exact h.running_iff c' t h_t
  case expire =>
    intro c' t h_t
    by_cases h_c : c' = c
    · subst h_c
      rw [Function.update_self] at h_t
      exact expire_of_step (h_t ▸ h_step)
    · rw [Function.update_of_ne h_c] at h_t
      rw [h_other c' t h_c (.inl (by rw [h_t]; rfl))]
      exact h.expire c' t h_t

theorem PollInv.waker_step {w w' : WakerPc Task} {l : WakerAction Core Task}
    (h : PollInv owner s pc parked) (h_step : wakerStep s w l = some (s', w')) :
    PollInv owner s' pc parked := by
  have h_running : ∀ t, s'.stateOf t = .running ↔ s.stateOf t = .running := by
    intro t
    rcases wakerStep_effect h_step with h_same | ⟨x, h_wakes, rfl⟩
    · rw [h_same.1]
    · rw [System.stateOf_setState, Function.update_apply]
      split
      · next h_eq =>
          rw [h_eq]
          rcases WakerPc.state_of_wakes h_wakes with h_x | h_x <;> simp [h_x]
      · exact Iff.rfl
  constructor
  case mine => exact h.mine
  case running_iff => exact fun c t h_t => (h_running t).trans (h.running_iff c t h_t)
  case expire => exact fun c t h_t => (h_running t).mpr (h.expire c t h_t)

-- ============================================================================
-- Runs
-- ============================================================================

variable [DecidableEq Waker] {setup : Setup Core}
  {σ σ' : Recorded (State Core Task Waker) (Core → Bool)} {l : Label Core Task Waker}
  {tr : List (Label Core Task Waker)}

theorem pollInv_init (owner : Task → Core) :
    PollInv owner (machine Task Waker setup).init.shared (machine Task Waker setup).init.left
      fun _ => false where
  mine := by
    intro c t h_t
    exact absurd h_t (by simp [machine, families, executor, ExecutorPc.Polls, ExecutorPc.owns,
      ExecutorPc.inside, ExecutorPc.buries])
  running_iff := by
    intro c t h_t
    exact absurd h_t (by simp [machine, families, executor, ExecutorPc.Polls, ExecutorPc.owns,
      ExecutorPc.inside])
  expire := by
    intro c t h_t
    exact absurd h_t (by simp [machine, families, executor])

/-- One step of the system. -/
theorem PollInv.step (h : PollInv owner σ.state.shared σ.state.left σ.record)
    (h_owner : OneExecutor owner σ l)
    (h_step : (parkingMachine Task Waker setup).step σ l = some σ') :
    PollInv owner σ'.state.shared σ'.state.left σ'.record := by
  obtain ⟨h_run, h_record⟩ := Machine.recorded_step_eq_some.mp h_step
  match l with
  | .inl (c, a) =>
      obtain ⟨m, p, h_left, h_eq⟩ := Families.step_left_eq_some h_run
      rw [h_record, h_eq]
      exact h.executor_step h_left h_owner
  | .inr (u, b) =>
      obtain ⟨m, q, h_right, h_eq⟩ := Families.step_right_eq_some h_run
      rw [h_record, h_eq]
      exact h.waker_step h_right

/-- The invariant, in every run in which each task has one executor. -/
theorem pollInv_of_run
    (h_owner : (parkingMachine Task Waker setup).StepsMeet (OneExecutor owner)
      (parkingMachine Task Waker setup).init tr)
    (h_run : (parkingMachine Task Waker setup).exec (parkingMachine Task Waker setup).init tr =
      some σ) : PollInv owner σ.state.shared σ.state.left σ.record := by
  refine Machine.exec_invariant
    (P := fun σ => PollInv owner σ.state.shared σ.state.left σ.record) ?_ (pollInv_init owner)
    h_owner h_run
  exact fun σ l σ' h h_ok h_step => h.step h_ok h_step

/-- An executor that has panicked takes no more steps. -/
theorem panicked_of_exec
    (h_run : (parkingMachine Task Waker setup).exec σ tr = some σ')
    (h_panicked : σ.state.left c = .panicked) : σ'.state.left c = .panicked := by
  refine Machine.exec_invariant (P := fun σ => σ.state.left c = .panicked) ?_ h_panicked
    (Machine.stepsMeet_true σ tr) h_run
  rintro σ l σ' h_before - h_step
  obtain ⟨h_run, -⟩ := Machine.recorded_step_eq_some.mp h_step
  match l with
  | .inl (c', a) =>
      obtain ⟨m, p, h_left, h_eq⟩ := Families.step_left_eq_some h_run
      have h_ne : c ≠ c' := by
        rintro rfl
        have h_stuck : executorStep c σ.state.shared .panicked a = none := ite_self none
        exact absurd (h_before ▸ h_left) (by simp [executor, h_stuck])
      rw [h_eq]
      exact (Function.update_of_ne h_ne ..).trans h_before
  | .inr (u, b) =>
      obtain ⟨m, q, h_right, h_eq⟩ := Families.step_right_eq_some h_run
      rw [h_eq]
      exact h_before

/-- A step that meets the condition does not panic. -/
theorem PollInv.not_panicked (h : PollInv owner σ.state.shared σ.state.left σ.record)
    (h_ok : ReadyUnparked σ l) (h_step : (parkingMachine Task Waker setup).step σ l = some σ')
    (h_before : ∀ c, σ.state.left c ≠ .panicked) : ∀ c, σ'.state.left c ≠ .panicked := by
  obtain ⟨h_machine, -⟩ := Machine.recorded_step_eq_some.mp h_step
  cases l with
  | inl l =>
      obtain ⟨m, p, h_left, h_eq⟩ := Families.step_left_eq_some h_machine
      rw [h_eq, Function.forall_update_iff σ.state.left fun _ p => p ≠ .panicked]
      refine ⟨?_, fun c' _ => h_before c'⟩
      rintro rfl
      obtain ⟨task, h_pc | h_pc, h_state⟩ := panicked_of_step h_left
      · have h_running := h.running_iff l.1 task (.inr (by rw [h_pc]; rfl))
        exact h_state (h_running.mpr (h_ok task (by rw [h_pc]; rfl)))
      · exact h_state (h.expire l.1 task h_pc)
  | inr l =>
      obtain ⟨m, q, h_right, h_eq⟩ := Families.step_right_eq_some h_machine
      rw [h_eq]
      exact h_before

/-- A step that does not meet it panics. -/
theorem PollInv.panicked (h : PollInv owner σ.state.shared σ.state.left σ.record)
    (h_not : ¬ ReadyUnparked σ l)
    (h_step : (parkingMachine Task Waker setup).step σ l = some σ') :
    ∃ c, σ'.state.left c = .panicked := by
  obtain ⟨h_machine, -⟩ := Machine.recorded_step_eq_some.mp h_step
  cases l with
  | inl l =>
      obtain ⟨m, p, h_left, h_eq⟩ := Families.step_left_eq_some h_machine
      simp only [ReadyUnparked, not_forall] at h_not
      obtain ⟨task, h_returned, h_parked⟩ := h_not
      have h_pc : σ.state.left l.1 = .dying task := ExecutorPc.eq_of_returned h_returned
      have h_state : σ.state.shared.stateOf task ≠ .running := by
        rw [Ne, h.running_iff l.1 task (.inr (by rw [h_pc]; rfl))]
        exact h_parked
      have h_panicked : p = .panicked := step_of_dying (h_pc ▸ h_left) h_state
      refine ⟨l.1, ?_⟩
      rw [h_eq, h_panicked]
      exact Function.update_self ..
  | inr l => exact absurd trivial h_not

/-- In every run in which each task has one executor, no `poll_task` panics exactly
    if no future that has parked its task returns `Ready` in the same call. -/
theorem neverPanics_iff
    (h_owner : (parkingMachine Task Waker setup).StepsMeet (OneExecutor owner)
      (parkingMachine Task Waker setup).init tr)
    (h_run : (parkingMachine Task Waker setup).exec (parkingMachine Task Waker setup).init tr =
      some σ) :
    (∀ c, σ.state.left c ≠ .panicked) ↔
      (parkingMachine Task Waker setup).StepsMeet ReadyUnparked
        (parkingMachine Task Waker setup).init tr := by
  constructor
  · intro h_never
    refine Machine.stepsMeet_iff.mpr fun pre l post m h_tr h_pre => ?_
    rw [h_tr] at h_owner h_run
    have h_inv := pollInv_of_run h_owner.of_append h_pre
    obtain ⟨m', h_pre', h_rest⟩ := Machine.exec_append_eq_some.mp h_run
    obtain rfl : m = m' := Option.some.inj (h_pre.symm.trans h_pre')
    obtain ⟨m₁, h_step, h_post⟩ := Machine.exec_cons_eq_some.mp h_rest
    by_contra h_not
    obtain ⟨c, h_panicked⟩ := h_inv.panicked h_not h_step
    exact h_never c (panicked_of_exec h_post h_panicked)
  · intro h_unparked
    have h_idle : ∀ c, (parkingMachine Task Waker setup).init.state.left c ≠ .panicked := by
      simp [parkingMachine, Machine.recorded, machine, families, executor]
    refine (Machine.exec_invariant (P := fun σ => PollInv owner σ.state.shared σ.state.left
      σ.record ∧ ∀ c, σ.state.left c ≠ .panicked) ?_ ⟨pollInv_init owner, h_idle⟩
      (Machine.stepsMeet_and h_owner h_unparked) h_run).2
    rintro σ l σ' ⟨h_inv, h_before⟩ ⟨h_own, h_ok⟩ h_step
    exact ⟨h_inv.step h_own h_step, h_inv.not_panicked h_ok h_step h_before⟩

/-- The future of task 0 parks it and returns `Pending`, twice. -/
def parkedRun : List (Label Bool Nat Unit) :=
  enqueueOn false ++ wakeRun ++ pollRun false ++
    [.inl (false, .park), .inl (false, .returnPending), .inl (false, .run), .inl (false, .run),
      .inl (false, .returnPending), .inl (false, .run)]

theorem neverPanics_parkedRun :
    ∃ s, (parkingMachine Nat Unit twoCores).exec (parkingMachine Nat Unit twoCores).init
        parkedRun = some s ∧
      s.record false = true ∧ ∀ c, s.state.left c ≠ .panicked := by
  obtain ⟨s, h_run, h_parked⟩ : ∃ s, (parkingMachine Nat Unit twoCores).exec
      (parkingMachine Nat Unit twoCores).init parkedRun = some s ∧ s.record false = true :=
    Machine.exec_of_decide (by decide +kernel)
  have h_owner : (parkingMachine Nat Unit twoCores).StepsMeet (OneExecutor fun _ => false)
      (parkingMachine Nat Unit twoCores).init parkedRun := by decide +kernel
  exact ⟨s, h_run, h_parked, (neverPanics_iff h_owner h_run).mpr (by decide +kernel)⟩

/-- A future that parks its task and returns `Ready` after all. -/
theorem readyAfterPark_panics :
    ∃ s, (machine Nat Unit twoCores).exec (machine Nat Unit twoCores).init
        (enqueueOn false ++ wakeRun ++ pollRun false ++
          [.inl (false, .park), .inl (false, .returnReady), .inl (false, .run)]) = some s ∧
      s.left false = .panicked :=
  Machine.exec_of_decide (by decide +kernel)

end Executor
end Zydon
