/-
  Zydon.Task.Executor.Exclusive

  Who polls a task, over every interleaving.

  An executor that has made the transition of a task to `Running` owns the task
  until its `poll` begins, and is inside the task from then on until it looks at
  the state word.  `Effect` says what a step of an executor does to the state
  words; the invariant is proved over it.  It carries over a `poll` that parks
  its task as long as nobody takes the task up meanwhile, and the loop ends with
  that `poll` (`KeepsExclusive`).
-/

import Mathlib.Data.Fintype.Basic
import Zydon.Task.Executor.Basic

namespace Zydon
namespace Executor

open Lib

variable {Core Task Waker : Type*}

-- ============================================================================
-- What a step does to the state words
-- ============================================================================

/-- The state word of a task. -/
def System.stateOf (s : System Core Task) (task : Task) : TaskState := (s.tcb task).state

namespace ExecutorPc

/-- The task that the executor has set to `Running` and is not polling. -/
def owns : ExecutorPc Task → Option Task
  | .storeCore task | .resetQuantum task | .callPoll task | .expire task => some task
  | _ => none

/-- The task that the executor polls, or has polled and not looked at since. -/
def inside : ExecutorPc Task → Option Task
  | .inPoll task | .dying task | .tick task | .getState task => some task
  | _ => none

/-- The task that the executor has found to be finished. -/
def buries : ExecutorPc Task → Option Task
  | .dead task => some task
  | _ => none

/-- The executor has no task in any of these ways. -/
def IsFree (p : ExecutorPc Task) : Prop :=
  p.owns = none ∧ p.inside = none ∧ p.buries = none

end ExecutorPc

/-- The state words and their runners are unchanged. -/
def SameStates (s s' : System Core Task) : Prop :=
  (∀ task, s'.stateOf task = s.stateOf task) ∧ s'.runner = s.runner

theorem sameStates_refl (s : System Core Task) : SameStates s s := ⟨fun _ => rfl, rfl⟩

variable [DecidableEq Core] [DecidableEq Task]

namespace System

omit [DecidableEq Core] in
theorem stateOf_setState (s : System Core Task) (task : Task) (state : TaskState) :
    (s.setState task state).stateOf = Function.update s.stateOf task state := by
  funext t
  show (Function.update s.tcb task _ t).state = _
  rw [Function.update_apply, Function.update_apply]
  split <;> rfl

omit [DecidableEq Core] in
/-- A write to a task control block that keeps the state word. -/
theorem sameStates_setTcb (s : System Core Task) (task : Task)
    {f : TaskControlBlock → TaskControlBlock} (h_keep : ∀ t, (f t).state = t.state) :
    SameStates s (s.setTcb task f) := by
  refine ⟨fun t => ?_, rfl⟩
  show (Function.update s.tcb task _ t).state = (s.tcb t).state
  rw [Function.update_apply]
  split
  · next h => rw [h_keep, h]
  · rfl

omit [DecidableEq Task] in
theorem sameStates_setExecutor (s : System Core Task) (c : Core)
    (f : Executor Core Task → Executor Core Task) : SameStates s (s.setExecutor c f) :=
  ⟨fun _ => rfl, rfl⟩

omit [DecidableEq Task] in
/-- The operations of the queues leave the state words as they are. -/
theorem sameStates_pop {s s' : System Core Task} {c : Core} {task : Task}
    (h : s.pop c = some (task, s')) : SameStates s s' := by
  simp only [pop] at h
  split at h <;> cases h
  exact s.sameStates_setExecutor c _

theorem sameStates_dequeue {s s' : System Core Task} {c : Core} {task : Task}
    (h : s.dequeue c = some (task, s')) : SameStates s s' := by
  simp only [dequeue] at h
  split at h
  · exact absurd h (by simp)
  · split at h <;> cases h
    exact ⟨fun _ => rfl, rfl⟩

omit [DecidableEq Task] in
theorem sameStates_stealBatch (s : System Core Task) (c : Core) :
    SameStates s (s.stealBatch c).2 := by
  simp only [stealBatch]
  split
  · exact ⟨fun _ => rfl, rfl⟩
  · exact s.sameStates_setExecutor _ _

theorem sameStates_enqueueTask {s s' : System Core Task} {c : Core} {task : Task}
    (h : s.enqueueTask c task = some s') : SameStates s s' := by
  simp only [enqueueTask] at h
  split at h <;> cases h
  exact ⟨fun _ => rfl, rfl⟩

end System

/-- What a step of the executor of core `c` does to the state words: nothing, or
    one of the changes named after the places where they happen. -/
inductive Effect (c : Core) (s : System Core Task) :
    ExecutorPc Task → System Core Task → ExecutorPc Task → Prop
  | stay {p p' : ExecutorPc Task} {s' : System Core Task} (h_same : SameStates s s')
      (h_owns : p'.owns = p.owns) (h_inside : p'.inside = p.inside)
      (h_buries : p'.buries = p.buries) : Effect c s p s' p'
  | leave {p p' : ExecutorPc Task} {s' : System Core Task} (h_same : SameStates s s')
      (h_free : p'.IsFree) : Effect c s p s' p'
  | claim {task : Task} (h_ready : s.stateOf task = .ready) :
      Effect c s (.claim task)
        { s.setState task .running with runner := Function.update s.runner task (some c) }
        (.storeCore task)
  | enter {task : Task} : Effect c s (.callPoll task) s (.inPoll task)
  | park {task : Task} (h_running : s.stateOf task = .running) :
      Effect c s (.inPoll task) (s.setState task .blocked) (.inPoll task)
  | again {task : Task} {s' : System Core Task} (h_same : SameStates s s')
      (h_tick : (s.tcb task).tickExpires = false) : Effect c s (.tick task) s' (.callPoll task)
  | found {task : Task} (h_running : s.stateOf task = .running) :
      Effect c s (.getState task) s (.expire task)
  | expire {task : Task} (h_running : s.stateOf task = .running) :
      Effect c s (.expire task) (s.setState task .ready) (.release task true)
  | die {task : Task} (h_running : s.stateOf task = .running) :
      Effect c s (.dying task) (s.setState task .dying) (.dead task)
  | bury {task : Task} : Effect c s (.dead task) (s.setState task .dead) (.finished task)

theorem startStep_effect {c : Core} {s s' : System Core Task} {p' : ExecutorPc Task}
    {a : ExecutorAction} (h : startStep c s a = some (s', p')) : Effect c s .idle s' p' := by
  cases a with
  | drain =>
      cases h
      exact .leave (sameStates_refl s) ⟨rfl, rfl, rfl⟩
  | pop =>
      simp only [startStep] at h
      split at h <;> cases h
      · next h_pop => exact .leave (System.sameStates_pop h_pop) ⟨rfl, rfl, rfl⟩
      · exact .leave (sameStates_refl s) ⟨rfl, rfl, rfl⟩
  | trySteal =>
      have h_same := s.sameStates_stealBatch c
      simp only [startStep] at h
      split at h
      · next h_steal =>
          cases h
          rw [h_steal] at h_same
          exact .leave h_same ⟨rfl, rfl, rfl⟩
      · next h_steal =>
          cases h
          rw [h_steal] at h_same
          exact .leave h_same ⟨rfl, rfl, rfl⟩
  | park | returnReady | returnPending | run => exact absurd h (by simp [startStep])

/-- A transition succeeds from the state expected. -/
theorem transition_eq_ok {state expected new state' : TaskState}
    (h : state.transition expected new = .ok state') : state = expected ∧ state' = new := by
  simp only [TaskState.transition] at h
  split at h
  · next h_eq => exact ⟨h_eq, (Except.ok.inj h).symm⟩
  · exact absurd h (by simp)

theorem futureStep_effect {c : Core} {s s' : System Core Task} {task : Task}
    {p' : ExecutorPc Task} {a : ExecutorAction} (h : futureStep c s task a = some (s', p')) :
    Effect c s (.inPoll task) s' p' := by
  cases a with
  | park =>
      simp only [futureStep] at h
      split at h <;> cases h
      · next h_ok =>
          obtain ⟨h_running, rfl⟩ := transition_eq_ok h_ok
          exact .park h_running
      · exact .stay (sameStates_refl s) rfl rfl rfl
  | returnReady =>
      cases h
      exact .stay (sameStates_refl s) rfl rfl rfl
  | returnPending =>
      cases h
      exact .stay (s.sameStates_setExecutor c _) rfl rfl rfl
  | drain | pop | trySteal | run => exact absurd h (by simp [futureStep])

theorem runStep_effect {c : Core} {s s' : System Core Task} {p p' : ExecutorPc Task}
    (h : runStep c s p = some (s', p')) : Effect c s p s' p' := by
  cases p with
  | idle | inPoll task | panicked => exact absurd h (by simp [runStep])
  | dequeue =>
      simp only [runStep] at h
      split at h <;> cases h
      · next h_dequeue => exact .leave (System.sameStates_dequeue h_dequeue) ⟨rfl, rfl, rfl⟩
      · exact .leave (sameStates_refl s) ⟨rfl, rfl, rfl⟩
  | drained task | requeue task =>
      cases h
      exact .leave (s.sameStates_setExecutor c _) ⟨rfl, rfl, rfl⟩
  | stolen task rest =>
      cases rest <;> cases h <;> exact .leave (s.sameStates_setExecutor c _) ⟨rfl, rfl, rfl⟩
  | claim task =>
      simp only [runStep] at h
      split at h <;> cases h
      · next h_ok =>
          obtain ⟨h_ready, rfl⟩ := transition_eq_ok h_ok
          exact .claim h_ready
      · exact .leave (sameStates_refl s) ⟨rfl, rfl, rfl⟩
  | storeCore task | resetQuantum task =>
      cases h
      exact .stay (s.sameStates_setTcb task fun _ => rfl) rfl rfl rfl
  | callPoll task =>
      cases h
      exact .enter
  | dying task =>
      simp only [runStep] at h
      split at h <;> cases h
      · next h_ok =>
          obtain ⟨h_running, rfl⟩ := transition_eq_ok h_ok
          exact .die h_running
      · exact .leave (sameStates_refl s) ⟨rfl, rfl, rfl⟩
  | dead task =>
      cases h
      exact .bury
  | finished task =>
      have h_same := s.sameStates_setTcb task
        (f := fun t => { t with currentCore := TaskControlBlock.noCore }) fun _ => rfl
      cases h
      exact .leave h_same ⟨rfl, rfl, rfl⟩
  | tick task =>
      cases h_tick : (s.tcb task).tickExpires with
      | true =>
          simp only [runStep, h_tick, if_true] at h
          cases h
          exact .stay (s.sameStates_setTcb task fun _ => rfl) rfl rfl rfl
      | false =>
          simp only [runStep, h_tick, Bool.false_eq_true, if_false] at h
          cases h
          exact .again (s.sameStates_setTcb task fun _ => rfl) h_tick
  | getState task =>
      simp only [runStep] at h
      split at h <;> cases h
      · next h_running => exact .found h_running
      · exact .leave (sameStates_refl s) ⟨rfl, rfl, rfl⟩
  | expire task =>
      simp only [runStep] at h
      split at h <;> cases h
      · next h_ok =>
          obtain ⟨h_running, rfl⟩ := transition_eq_ok h_ok
          exact .expire h_running
      · exact .leave (sameStates_refl s) ⟨rfl, rfl, rfl⟩
  | release task again =>
      cases again <;> cases h <;>
        exact .leave (s.sameStates_setTcb task fun _ => rfl) ⟨rfl, rfl, rfl⟩
  | decay task =>
      simp only [runStep] at h
      split at h <;> cases h <;>
        exact .leave (s.sameStates_setTcb task fun _ => rfl) ⟨rfl, rfl, rfl⟩
  | loadEffective task =>
      cases h
      exact .leave (sameStates_refl s) ⟨rfl, rfl, rfl⟩
  | loadBase task eff =>
      simp only [runStep] at h
      split at h <;> cases h <;> exact .leave (sameStates_refl s) ⟨rfl, rfl, rfl⟩
  | decrement task =>
      cases h
      exact .leave (s.sameStates_setTcb task fun _ => rfl) ⟨rfl, rfl, rfl⟩

omit [DecidableEq Task] in
/-- Where an operation of the main loop starts. -/
theorem startStep_pc {c : Core} {s s' : System Core Task} {p' : ExecutorPc Task}
    {a : ExecutorAction} (h : startStep c s a = some (s', p')) :
    p' = .idle ∨ p' = .dequeue ∨ (∃ task, p' = .claim task) ∨
      ∃ task rest, p' = .stolen task rest := by
  cases a <;> simp only [startStep] at h <;> grind

/-- Where a future goes on. -/
theorem futureStep_pc {c : Core} {s s' : System Core Task} {task : Task} {p' : ExecutorPc Task}
    {a : ExecutorAction} (h : futureStep c s task a = some (s', p')) :
    p' = .inPoll task ∨ p' = .dying task ∨ p' = .tick task := by
  cases a <;> simp only [futureStep] at h <;> grind

/-- The effect of a step of an executor. -/
theorem executorStep_effect {c : Core} {s s' : System Core Task} {p p' : ExecutorPc Task}
    {a : ExecutorAction} (h : executorStep c s p a = some (s', p')) : Effect c s p s' p' := by
  simp only [executorStep] at h
  split at h
  · exact startStep_effect h
  · exact futureStep_effect h
  · split at h
    · exact runStep_effect h
    · exact absurd h (by simp)

-- ============================================================================
-- The invariant
-- ============================================================================

/-- What the executor of core `c` at `p` knows of the state words: a task it
    owns is running for it, and one it is inside is not running for another. -/
structure PcInv (s : System Core Task) (c : Core) (p : ExecutorPc Task) : Prop where
  owns : ∀ task, p.owns = some task → s.stateOf task = .running ∧ s.runner task = some c
  inside : ∀ task, p.inside = some task → s.stateOf task = .running → s.runner task = some c
  buries : ∀ task, p.buries = some task → s.stateOf task = .dying ∨ s.stateOf task = .dead

/-- The invariant: one executor at most is inside a task. -/
structure Inv (s : System Core Task) (pc : Core → ExecutorPc Task) : Prop where
  knows : ∀ c, PcInv s c (pc c)
  unique : ∀ c c' task, (pc c).inside = some task → (pc c').inside = some task → c = c'

variable {s s' : System Core Task} {pc : Core → ExecutorPc Task} {c : Core}
  {p p' : ExecutorPc Task} {task : Task}

omit [DecidableEq Core] [DecidableEq Task] in
theorem PcInv.of_isFree (h : p.IsFree) : PcInv s c p where
  owns := by simp [h.1]
  inside := by simp [h.2.1]
  buries := by simp [h.2.2]

omit [DecidableEq Core] [DecidableEq Task] in
/-- What is known only depends on the state words. -/
theorem PcInv.congr (h : PcInv s c p) (h_same : SameStates s s') : PcInv s' c p where
  owns := by
    intro task h_owns
    rw [h_same.1, h_same.2]
    exact h.owns task h_owns
  inside := by
    intro task h_inside
    rw [h_same.1, h_same.2]
    exact h.inside task h_inside
  buries := by
    intro task h_buries
    rw [h_same.1]
    exact h.buries task h_buries

omit [DecidableEq Core] in
/-- A task that the executor does not own, nor has found to be finished, leaves a
    state and is not `Running` afterwards. -/
theorem PcInv.setState {state : TaskState} (h : PcInv s c p) (h_owns : p.owns ≠ some task)
    (h_buries : p.buries = some task → state = .dying ∨ state = .dead)
    (h_state : state ≠ .running) : PcInv (s.setState task state) c p where
  owns := by
    intro t h_t
    have h_ne : t ≠ task := fun h_eq => h_owns (h_eq ▸ h_t)
    rw [System.stateOf_setState, Function.update_of_ne h_ne]
    exact h.owns t h_t
  inside := by
    intro t h_t h_running
    by_cases h_eq : t = task
    · rw [System.stateOf_setState, h_eq, Function.update_self] at h_running
      exact absurd h_running h_state
    · rw [System.stateOf_setState, Function.update_of_ne h_eq] at h_running
      exact h.inside t h_t h_running
  buries := by
    intro t h_t
    rw [System.stateOf_setState]
    by_cases h_eq : t = task
    · rw [h_eq, Function.update_self]
      exact h_buries (h_eq ▸ h_t)
    · rw [Function.update_of_ne h_eq]
      exact h.buries t h_t

omit [DecidableEq Core] [DecidableEq Task] in
/-- An executor that has taken its task to be running and its own. -/
theorem PcInv.of_owner (h_owns : p.owns = some task) (h_free : p.inside = none ∧ p.buries = none)
    (h_running : s.stateOf task = .running) (h_runner : s.runner task = some c) :
    PcInv s c p where
  owns := by
    intro t h_t
    rw [h_owns] at h_t
    obtain rfl : task = t := Option.some.inj h_t
    exact ⟨h_running, h_runner⟩
  inside := by simp [h_free.1]
  buries := by simp [h_free.2]

omit [DecidableEq Core] in
/-- Another executor sets a task to `Running` that is not in any of these ways. -/
theorem PcInv.claim {c' : Core} (h : PcInv s c p) (h_owns : p.owns ≠ some task)
    (h_inside : p.inside ≠ some task) (h_buries : p.buries ≠ some task) :
    PcInv { s.setState task .running with runner := Function.update s.runner task (some c') } c
      p := by
  have h_state : ∀ t, t ≠ task → (s.setState task .running).stateOf t = s.stateOf t := by
    intro t h_ne
    rw [System.stateOf_setState, Function.update_of_ne h_ne]
  have h_runner : ∀ t, t ≠ task → Function.update s.runner task (some c') t = s.runner t :=
    fun t h_ne => Function.update_of_ne h_ne ..
  constructor
  case owns =>
    intro t h_t
    have h_ne : t ≠ task := fun h_eq => h_owns (h_eq ▸ h_t)
    obtain ⟨h_running, h_self⟩ := h.owns t h_t
    exact ⟨(h_state t h_ne).trans h_running, (h_runner t h_ne).trans h_self⟩
  case inside =>
    intro t h_t h_running
    have h_ne : t ≠ task := fun h_eq => h_inside (h_eq ▸ h_t)
    exact (h_runner t h_ne).trans (h.inside t h_t ((h_state t h_ne).symm.trans h_running))
  case buries =>
    intro t h_t
    have h_ne : t ≠ task := fun h_eq => h_buries (h_eq ▸ h_t)
    have h_over := h.buries t h_t
    rw [← h_state t h_ne] at h_over
    exact h_over

omit [DecidableEq Task] in
/-- One executor moves: what the others know, and that it comes to be inside a
    task nobody else is inside. -/
theorem Inv.move (h : Inv s pc) (h_others : ∀ c', c' ≠ c → PcInv s' c' (pc c'))
    (h_self : PcInv s' c p')
    (h_inside : ∀ task, p'.inside = some task → ∀ c', c' ≠ c → (pc c').inside ≠ some task) :
    Inv s' (Function.update pc c p') where
  knows := by
    rw [Function.forall_update_iff pc fun c p => PcInv s' c p]
    exact ⟨h_self, h_others⟩
  unique := by
    intro c₁ c₂ t h₁ h₂
    by_cases h_c₁ : c₁ = c <;> by_cases h_c₂ : c₂ = c
    · rw [h_c₁, h_c₂]
    · rw [h_c₁, Function.update_self] at h₁
      rw [Function.update_of_ne h_c₂] at h₂
      exact absurd h₂ (h_inside t h₁ c₂ h_c₂)
    · rw [h_c₂, Function.update_self] at h₂
      rw [Function.update_of_ne h_c₁] at h₁
      exact absurd h₁ (h_inside t h₂ c₁ h_c₁)
    · rw [Function.update_of_ne h_c₁] at h₁
      rw [Function.update_of_ne h_c₂] at h₂
      exact h.unique c₁ c₂ t h₁ h₂

omit [DecidableEq Core] [DecidableEq Task] in
/-- A task that is running for one executor is not owned by another. -/
theorem Inv.owns_ne (h : Inv s pc) (h_runner : s.runner task = some c) {c' : Core}
    (h_ne : c' ≠ c) : (pc c').owns ≠ some task := by
  intro h_owns
  have h_runner' := ((h.knows c').owns task h_owns).2
  rw [h_runner] at h_runner'
  exact h_ne (Option.some.inj h_runner').symm

omit [DecidableEq Core] [DecidableEq Task] in
/-- A task that is not running is owned by nobody. -/
theorem Inv.owns_ne_of_state (h : Inv s pc) (h_state : s.stateOf task ≠ .running) (c' : Core) :
    (pc c').owns ≠ some task :=
  fun h_owns => h_state ((h.knows c').owns task h_owns).1

omit [DecidableEq Core] [DecidableEq Task] in
/-- Nobody has found a running task to be finished. -/
theorem Inv.buries_ne (h : Inv s pc)
    (h_state : s.stateOf task ≠ .dying ∧ s.stateOf task ≠ .dead) (c' : Core) :
    (pc c').buries ≠ some task := by
  intro h_buries
  rcases (h.knows c').buries task h_buries with h_eq | h_eq
  · exact h_state.1 h_eq
  · exact h_state.2 h_eq

omit [DecidableEq Core] in
/-- A task that is running for `c` leaves that state: what the others know. -/
theorem Inv.leaveRunning (h : Inv s pc) (h_running : s.stateOf task = .running)
    (h_runner : s.runner task = some c) {state : TaskState} (h_state : state ≠ .running) :
    ∀ c', c' ≠ c → PcInv (s.setState task state) c' (pc c') := by
  intro c' h_ne
  refine (h.knows c').setState (h.owns_ne h_runner h_ne) (fun h_buries => ?_) h_state
  exact absurd h_buries (h.buries_ne (by simp [h_running]) c')

-- ============================================================================
-- Steps
-- ============================================================================

/-- The task whose quantum the next step of the executor ticks. -/
def ExecutorPc.ticks : ExecutorPc Task → Option Task
  | .tick task => some task
  | _ => none

/-- The task that the next step of the executor tries to set to `Running`. -/
def ExecutorPc.claims : ExecutorPc Task → Option Task
  | .claim task => some task
  | _ => none

/-- The tick after a `poll` that has parked its task expires the quantum, and a
    task is taken from `Ready` to `Running` only while no executor is inside
    it. -/
def KeepsExclusive (s : State Core Task Waker) : Label Core Task Waker → Prop
  | .inl (c, _) =>
      (∀ task ∈ (s.left c).ticks, s.shared.stateOf task ≠ .running →
        (s.shared.tcb task).tickExpires = true) ∧
      ∀ task ∈ (s.left c).claims, s.shared.stateOf task = .ready →
        ∀ c', (s.left c').inside ≠ some task
  | .inr _ => True

instance KeepsExclusive.decidable [Fintype Core] (s : State Core Task Waker) :
    ∀ a, Decidable (KeepsExclusive s a)
  | .inl _ => inferInstanceAs (Decidable (_ ∧ _))
  | .inr _ => inferInstanceAs (Decidable True)

omit [DecidableEq Core] [DecidableEq Task] in
theorem inv_new (setup : Setup Core) :
    Inv (System.new setup : System Core Task) fun _ => .idle where
  knows := fun _ => .of_isFree ⟨rfl, rfl, rfl⟩
  unique := by
    intro c c' task h
    exact absurd h (by simp [ExecutorPc.inside])

/-- One step of an executor. -/
theorem Inv.executor_step (h : Inv s pc) (h_effect : Effect c s (pc c) s' p')
    (h_tick : ∀ task ∈ (pc c).ticks, s.stateOf task ≠ .running → (s.tcb task).tickExpires = true)
    (h_claim : ∀ task ∈ (pc c).claims, s.stateOf task = .ready → ∀ c', (pc c').inside ≠ some task) :
    Inv s' (Function.update pc c p') := by
  have h_self := h.knows c
  generalize h_pc : pc c = p at h_effect h_self h_tick h_claim
  -- the others inside a task that `c` was inside already
  have h_unique : ∀ task, p.inside = some task → ∀ c', c' ≠ c → (pc c').inside ≠ some task :=
    fun task h_inside c' h_ne h_inside' =>
      h_ne (h.unique c' c task h_inside' (h_pc ▸ h_inside))
  cases h_effect with
  | stay h_same h_owns h_inside h_buries =>
      refine h.move (fun c' _ => (h.knows c').congr h_same) ?_ (by rwa [h_inside])
      constructor
      case owns => rw [h_owns]; exact (h_self.congr h_same).owns
      case inside => rw [h_inside]; exact (h_self.congr h_same).inside
      case buries => rw [h_buries]; exact (h_self.congr h_same).buries
  | leave h_same h_free =>
      refine h.move (fun c' _ => (h.knows c').congr h_same) (.of_isFree h_free) ?_
      simp [h_free.2.1]
  | @claim task h_ready =>
      refine h.move (fun c' _ => ?_) ?_ (by simp [ExecutorPc.inside])
      · apply (h.knows c').claim
        · exact h.owns_ne_of_state (by simp [h_ready]) c'
        · exact h_claim task rfl h_ready c'
        · exact h.buries_ne (by simp [h_ready]) c'
      · constructor
        case owns =>
          rintro t h_t
          obtain rfl : task = t := Option.some.inj h_t
          exact ⟨(congrFun (s.stateOf_setState task .running) task).trans (Function.update_self ..),
            Function.update_self ..⟩
        case inside => simp [ExecutorPc.inside]
        case buries => simp [ExecutorPc.buries]
  | @enter task =>
      obtain ⟨h_running, h_runner⟩ := h_self.owns task rfl
      refine h.move (fun c' _ => h.knows c') ?_ ?_
      · constructor
        case owns => simp [ExecutorPc.owns]
        case inside =>
          rintro t h_t -
          obtain rfl : task = t := Option.some.inj h_t
          exact h_runner
        case buries => simp [ExecutorPc.buries]
      · rintro t h_t c' h_ne h_inside
        obtain rfl : task = t := Option.some.inj h_t
        have h_runner' := (h.knows c').inside task h_inside h_running
        rw [h_runner] at h_runner'
        exact h_ne (Option.some.inj h_runner').symm
  | @park task h_running =>
      have h_runner := h_self.inside task rfl h_running
      refine h.move (h.leaveRunning h_running h_runner (by simp)) ?_ h_unique
      exact h_self.setState (by simp [ExecutorPc.owns]) (by simp [ExecutorPc.buries]) (by simp)
  | @again task s' h_same h_ends =>
      have h_running : s.stateOf task = .running := by
        by_contra h_not
        rw [h_tick task rfl h_not] at h_ends
        exact absurd h_ends (by simp)
      have h_runner := h_self.inside task rfl h_running
      refine h.move (fun c' _ => (h.knows c').congr h_same) ?_ (by simp [ExecutorPc.inside])
      exact .of_owner rfl ⟨rfl, rfl⟩ (by rw [h_same.1]; exact h_running)
        (by rw [h_same.2]; exact h_runner)
  | @found task h_running =>
      have h_runner := h_self.inside task rfl h_running
      refine h.move (fun c' _ => h.knows c') ?_ (by simp [ExecutorPc.inside])
      exact .of_owner rfl ⟨rfl, rfl⟩ h_running h_runner
  | @expire task h_running =>
      have h_runner := (h_self.owns task rfl).2
      exact h.move (h.leaveRunning h_running h_runner (by simp)) (.of_isFree ⟨rfl, rfl, rfl⟩)
        (by simp [ExecutorPc.inside])
  | @die task h_running =>
      have h_runner := h_self.inside task rfl h_running
      refine h.move (h.leaveRunning h_running h_runner (by simp)) ?_ (by simp [ExecutorPc.inside])
      constructor
      case owns => simp [ExecutorPc.owns]
      case inside => simp [ExecutorPc.inside]
      case buries =>
        rintro t h_t
        obtain rfl : task = t := Option.some.inj h_t
        rw [System.stateOf_setState, Function.update_self]
        exact .inl rfl
  | @bury task =>
      have h_over := h_self.buries task rfl
      refine h.move (fun c' _ => ?_) (.of_isFree ⟨rfl, rfl, rfl⟩) (by simp [ExecutorPc.inside])
      apply (h.knows c').setState _ (fun _ => .inr rfl) (by simp)
      apply h.owns_ne_of_state
      rcases h_over with h_eq | h_eq <;> simp [h_eq]

/-- The task that the next step of the waker makes `Ready`, from the state it must
    have. -/
def WakerPc.wakes : WakerPc Task → Option (Task × TaskState)
  | .fromBlocked task => some (task, .blocked)
  | .fromCreated task => some (task, .created)
  | .idle | .get _ => none

omit [DecidableEq Core] [DecidableEq Task] in
/-- A waker only makes a task `Ready` that was parked or new. -/
theorem WakerPc.state_of_wakes {w : WakerPc Task} {state : TaskState}
    (h : w.wakes = some (task, state)) : state = .blocked ∨ state = .created := by
  cases w <;> cases h
  · exact .inl rfl
  · exact .inr rfl

/-- A step of a waker leaves the state words as they are, or makes its task
    `Ready`. -/
theorem wakerStep_effect {w w' : WakerPc Task} {b : WakerAction Core Task}
    (h : wakerStep s w b = some (s', w')) :
    SameStates s s' ∨
      ∃ task, w.wakes = some (task, s.stateOf task) ∧ s' = s.setState task .ready := by
  cases w with
  | idle =>
      cases b with
      | wake task =>
          cases h
          exact .inl (sameStates_refl s)
      | enqueueTask c task =>
          obtain ⟨s₁, h_enqueue, h_eq⟩ := Option.map_eq_some_iff.mp h
          cases h_eq
          exact .inl (System.sameStates_enqueueTask h_enqueue)
      | storePriority task effective base =>
          cases h
          exact .inl (s.sameStates_setTcb task fun _ => rfl)
      | run => exact absurd h (by simp [wakerStep])
  | get task =>
      cases b with
      | run =>
          simp only [wakerStep] at h
          split at h <;> cases h <;> exact .inl (sameStates_refl s)
      | wake task | enqueueTask c task | storePriority task effective base =>
          exact absurd h (by simp [wakerStep])
  | fromBlocked task =>
      cases b with
      | run =>
          simp only [wakerStep] at h
          split at h <;> cases h
          · next h_ok =>
              obtain ⟨h_blocked, rfl⟩ := transition_eq_ok h_ok
              exact .inr ⟨task, congrArg (fun x => some (task, x)) h_blocked.symm, rfl⟩
          · exact .inl (sameStates_refl s)
      | wake task | enqueueTask c task | storePriority task effective base =>
          exact absurd h (by simp [wakerStep])
  | fromCreated task =>
      cases b with
      | run =>
          simp only [wakerStep] at h
          split at h <;> cases h
          · next h_ok =>
              obtain ⟨h_created, rfl⟩ := transition_eq_ok h_ok
              exact .inr ⟨task, congrArg (fun x => some (task, x)) h_created.symm, rfl⟩
          · exact .inl (sameStates_refl s)
      | wake task | enqueueTask c task | storePriority task effective base =>
          exact absurd h (by simp [wakerStep])

/-- A step of a waker changes nothing of the executors, or enqueues a task. -/
theorem wakerStep_executor {w w' : WakerPc Task} {b : WakerAction Core Task}
    (h : wakerStep s w b = some (s', w')) :
    s'.executor = s.executor ∨
      ∃ c task, b = .enqueueTask c task ∧ s.enqueueTask c task = some s' := by
  cases w with
  | idle =>
      cases b with
      | wake task | storePriority task effective base =>
          cases h
          exact .inl rfl
      | enqueueTask c task =>
          obtain ⟨s₁, h_enqueue, h_eq⟩ := Option.map_eq_some_iff.mp h
          cases h_eq
          exact .inr ⟨c, task, rfl, h_enqueue⟩
      | run => exact absurd h (by simp [wakerStep])
  | get task | fromBlocked task | fromCreated task =>
      cases b with
      | run =>
          simp only [wakerStep] at h
          split at h <;> cases h <;> exact .inl rfl
      | wake task | enqueueTask c task | storePriority task effective base =>
          exact absurd h (by simp [wakerStep])

/-- One step of a waker. -/
theorem Inv.waker_step {w w' : WakerPc Task} {b : WakerAction Core Task} (h : Inv s pc)
    (h_step : wakerStep s w b = some (s', w')) : Inv s' pc := by
  refine ⟨fun c => ?_, h.unique⟩
  rcases wakerStep_effect h_step with h_same | ⟨task, h_wakes, rfl⟩
  · exact (h.knows c).congr h_same
  · have h_idle : s.stateOf task ≠ .running ∧ s.stateOf task ≠ .dying ∧
        s.stateOf task ≠ .dead := by
      rcases WakerPc.state_of_wakes h_wakes with h_eq | h_eq <;> simp [h_eq]
    apply (h.knows c).setState (h.owns_ne_of_state h_idle.1 c) _ (by simp)
    exact fun h_buries => absurd h_buries (h.buries_ne h_idle.2 c)

-- ============================================================================
-- Runs
-- ============================================================================

/-- A call of `future.poll` starts with the task `Running`, as that executor has
    set it, and no two executors are inside `poll` of one task. -/
structure PollsExclusively (s : State Core Task Waker) : Prop where
  starts_running : ∀ c task, s.left c = .callPoll task →
    (s.shared.tcb task).state = .running ∧ s.shared.runner task = some c
  one_inside : ∀ c c' task, s.left c = .inPoll task → s.left c' = .inPoll task → c = c'

variable [DecidableEq Waker]

/-- In every run whose steps meet the condition, a task is polled by one executor
    at a time, which has set it to `Running`. -/
theorem pollsExclusively_of_keepsExclusive {setup : Setup Core} {s : State Core Task Waker}
    {tr : List (Label Core Task Waker)}
    (h_run : (machine Task Waker setup).exec (machine Task Waker setup).init tr = some s)
    (h_meet : (machine Task Waker setup).StepsMeet KeepsExclusive (machine Task Waker setup).init
      tr) : PollsExclusively s := by
  have h_inv : Inv s.shared s.left := by
    refine Machine.exec_invariant (P := fun s => Inv s.shared s.left) ?_ (inv_new setup) h_meet
      h_run
    intro s a s' hs h_ok h_step
    match a with
    | .inl (c, a) =>
        obtain ⟨m, p, h_left, rfl⟩ := Families.step_left_eq_some h_step
        exact hs.executor_step (executorStep_effect h_left) h_ok.1 h_ok.2
    | .inr (u, b) =>
        obtain ⟨m, q, h_right, rfl⟩ := Families.step_right_eq_some h_step
        exact hs.waker_step h_right
  constructor
  case starts_running =>
    intro c task h_pc
    exact (h_inv.knows c).owns task (by rw [h_pc]; rfl)
  case one_inside =>
    intro c c' task h_pc h_pc'
    exact h_inv.unique c c' task (by rw [h_pc]; rfl) (by rw [h_pc']; rfl)

/-! ## Runs of two executors -/

/-- Two executors with the quantum of `bootstrap_executor`. -/
def twoCores : Setup Bool where
  coreId := fun c => if c then 1 else 0
  stealers := fun _ => []
  defaultQuantum := fun _ => 10

/-- Task 0 is enqueued on core `c`. -/
def enqueueOn (c : Bool) : List (Label Bool Nat Unit) := [.inr ((), .enqueueTask c 0)]

/-- A call of `wake` for task 0 that makes it `Ready`. -/
def wakeRun : List (Label Bool Nat Unit) :=
  [.inr ((), .wake 0), .inr ((), .run), .inr ((), .run)]

/-- The executor of core `c` drains its run queue, takes task 0 from its deque and
    goes on until it is inside its `poll`. -/
def pollRun (c : Bool) : List (Label Bool Nat Unit) :=
  [.inl (c, .drain), .inl (c, .run), .inl (c, .run), .inl (c, .run), .inl (c, .pop),
    .inl (c, .run), .inl (c, .run), .inl (c, .run), .inl (c, .run)]

/-- The same executors, with a quantum of two polls. -/
def twoPolls : Setup Bool := { twoCores with defaultQuantum := fun _ => 2 }

/-- Core 0 polls task 0 twice; the second poll parks it, and uses up the quantum.  The
    task is woken and enqueued on core 1, where its future returns `Ready`. -/
def handedOverRun : List (Label Bool Nat Unit) :=
  enqueueOn false ++ wakeRun ++ pollRun false ++
    [.inl (false, .returnPending), .inl (false, .run), .inl (false, .run), .inl (false, .park),
      .inl (false, .returnPending)] ++ List.replicate 4 (.inl (false, .run)) ++
    wakeRun ++ enqueueOn true ++ pollRun true ++
    [.inl (true, .returnReady), .inl (true, .run), .inl (true, .run), .inl (true, .run)]

theorem pollsExclusively_handedOverRun :
    ∃ s, (machine Nat Unit twoPolls).exec (machine Nat Unit twoPolls).init handedOverRun = some s ∧
      (s.shared.stateOf 0 = .dead ∧ s.shared.runner 0 = some true ∧ s.left true = .idle) ∧
      PollsExclusively s := by
  obtain ⟨s, h_run, h_end⟩ : ∃ s, (machine Nat Unit twoPolls).exec
      (machine Nat Unit twoPolls).init handedOverRun = some s ∧
      (s.shared.stateOf 0 = .dead ∧ s.shared.runner 0 = some true ∧ s.left true = .idle) :=
    Machine.exec_of_decide (by decide +kernel)
  exact ⟨s, h_run, h_end, pollsExclusively_of_keepsExclusive h_run (by decide +kernel)⟩

/-- A future that parks its task and returns `Pending` is polled again, and one
    that is woken before it has returned is polled by another executor at the
    same time. -/
theorem parkedRuns_break_exclusion :
    (∃ s, (machine Nat Unit twoCores).exec (machine Nat Unit twoCores).init
        (enqueueOn false ++ wakeRun ++ pollRun false ++
          [.inl (false, .park), .inl (false, .returnPending), .inl (false, .run)]) = some s ∧
      s.left false = .callPoll 0 ∧ (s.shared.tcb 0).state = .blocked) ∧
    ∃ s, (machine Nat Unit twoCores).exec (machine Nat Unit twoCores).init
        (enqueueOn false ++ wakeRun ++ pollRun false ++ [.inl (false, .park)] ++ wakeRun ++
          enqueueOn true ++ pollRun true) = some s ∧
      s.left false = .inPoll 0 ∧ s.left true = .inPoll 0 := by
  constructor
  · exact Machine.exec_of_decide (by decide +kernel)
  · exact Machine.exec_of_decide (by decide +kernel)

end Executor
end Zydon
