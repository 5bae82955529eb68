/-
  Zydon.Task.Executor.Victims

  The victims of an executor that finds nothing to do.

  The index of the victim is computed from `polls_executed` and the number of
  stealers alone.  An idle executor changes neither, and probes the same victim
  every time (`probes_same`).
-/

import Zydon.Lib.History
import Zydon.Task.Executor.Exclusive

namespace Zydon
namespace Executor

open Lib RunQueue

variable {Core Task Waker : Type*}

-- ============================================================================
-- Probes
-- ============================================================================

section Model

variable [DecidableEq Core] [DecidableEq Task]

/-- The indices that `pick_victim` has returned on core `c` since it has last polled
    a task or stolen one. -/
def noteProbe (c : Core) (s : State Core Task Waker) (a : Label Core Task Waker)
    (_ : State Core Task Waker) (probes : List Nat) : List Nat :=
  match a with
  | .inl (c', a) =>
      if c' = c then
        match s.left c, a with
        | .idle, .trySteal =>
            let e := s.shared.executor c
            if e.stealers.isEmpty then probes
            else if (s.shared.stealBatch c).1.isEmpty then
              probes ++ [pickVictim e.pollsExecuted e.stealers.length]
            else []
        | .callPoll _, _ => []
        | _, _ => probes
      else probes
  | .inr _ => probes

/-- The system, with the probes of core `c`. -/
def probingMachine (Task Waker : Type*) [DecidableEq Task] [DecidableEq Waker]
    (setup : Setup Core) (c : Core) :
    Machine (Recorded (State Core Task Waker) (List Nat)) (Label Core Task Waker) :=
  (machine Task Waker setup).recorded (noteProbe c) []

/-- Among enough probes of core `c` that find their victims empty, from a state with
    these stealers and this many polls on, there is one of each victim. -/
def EveryVictimProbed (Task Waker : Type*) [DecidableEq Task] [DecidableEq Waker]
    (setup : Setup Core) (c : Core) (victims : List Core) (polls : BitVec 64) : Prop :=
  ∃ K, ∀ (s : State Core Task Waker) tr s', (s.shared.executor c).stealers = victims →
    (s.shared.executor c).pollsExecuted = polls →
    (probingMachine Task Waker setup c).exec { state := s, record := [] } tr = some s' →
    K ≤ s'.record.length → ∀ i < victims.length, i ∈ s'.record

end Model

-- ============================================================================
-- What stays
-- ============================================================================

/-- What the executors were created with. -/
def System.setup (s : System Core Task) : Setup Core where
  coreId := fun c => (s.executor c).coreId
  stealers := fun c => (s.executor c).stealers
  defaultQuantum := fun c => (s.executor c).defaultQuantum

theorem setup_of_executor_eq {s s' : System Core Task} (h : s'.executor = s.executor) :
    s'.setup = s.setup := by
  simp only [System.setup, h]

variable [DecidableEq Core] {s s' : System Core Task} {c c' : Core} {task : Task}
  {p p' : ExecutorPc Task}

theorem setup_of_update {e : Executor Core Task}
    (h_executor : s'.executor = Function.update s.executor c e)
    (h_coreId : e.coreId = (s.executor c).coreId)
    (h_stealers : e.stealers = (s.executor c).stealers)
    (h_quantum : e.defaultQuantum = (s.executor c).defaultQuantum) : s'.setup = s.setup := by
  simp only [System.setup, h_executor, Setup.mk.injEq]
  refine ⟨?_, ?_, ?_⟩
  all_goals
    funext c'
    rw [Function.update_apply]
    split
  · next h_eq => rw [h_coreId, h_eq]
  · rfl
  · next h_eq => rw [h_stealers, h_eq]
  · rfl
  · next h_eq => rw [h_quantum, h_eq]
  · rfl

theorem setup_pop (h : s.pop c = some (task, s')) : s'.setup = s.setup := by
  simp only [System.pop] at h
  split at h <;> cases h
  exact setup_of_update rfl rfl rfl rfl

theorem setup_stealBatch (s : System Core Task) (c : Core) :
    (s.stealBatch c).2.setup = s.setup := by
  simp only [System.stealBatch]
  split
  · rfl
  · exact setup_of_update rfl rfl rfl rfl

variable [DecidableEq Task]

theorem setup_dequeue (h : s.dequeue c = some (task, s')) : s'.setup = s.setup := by
  simp only [System.dequeue] at h
  split at h
  · exact absurd h (by simp)
  · split at h <;> cases h
    exact setup_of_update (c := c) rfl rfl rfl rfl

theorem setup_enqueueTask (h : s.enqueueTask c task = some s') : s'.setup = s.setup := by
  simp only [System.enqueueTask] at h
  split at h <;> cases h
  exact setup_of_update (c := c) rfl rfl rfl rfl

/-- An executor keeps what it was created with. -/
theorem setup_executorStep {a : ExecutorAction} (h : executorStep c s p a = some (s', p')) :
    s'.setup = s.setup := by
  simp only [executorStep] at h
  split at h
  · cases a with
    | drain =>
        cases h
        rfl
    | pop =>
        simp only [startStep] at h
        split at h <;> cases h
        · next h_pop => exact setup_pop h_pop
        · rfl
    | trySteal =>
        have h_setup := setup_stealBatch s c
        simp only [startStep] at h
        split at h <;> cases h <;> next h_steal =>
          rw [h_steal] at h_setup
          exact h_setup
    | park | returnReady | returnPending | run => exact absurd h (by simp [startStep])
  · cases a with
    | park =>
        simp only [futureStep] at h
        split at h <;> cases h <;> exact setup_of_executor_eq rfl
    | returnReady =>
        cases h
        rfl
    | returnPending =>
        cases h
        exact setup_of_update rfl rfl rfl rfl
    | drain | pop | trySteal | run => exact absurd h (by simp [futureStep])
  · split at h
    · cases p with
      | idle | inPoll task | panicked => exact absurd h (by simp [runStep])
      | dequeue =>
          simp only [runStep] at h
          split at h <;> cases h
          · next h_dequeue => exact setup_dequeue h_dequeue
          · rfl
      | drained task | requeue task | finished task =>
          cases h
          exact setup_of_update (c := c) rfl rfl rfl rfl
      | stolen task rest =>
          cases rest <;> cases h <;> exact setup_of_update (c := c) rfl rfl rfl rfl
      | release task again => cases again <;> cases h <;> exact setup_of_executor_eq rfl
      | claim task | dying task | getState task | expire task | loadBase task eff | decay task
      | tick task =>
          simp only [runStep] at h
          split at h <;> cases h <;> exact setup_of_executor_eq rfl
      | storeCore task | resetQuantum task | callPoll task | dead task | loadEffective task
      | decrement task =>
          cases h
          exact setup_of_executor_eq rfl
    · exact absurd h (by simp)

theorem setup_wakerStep {w w' : WakerPc Task} {b : WakerAction Core Task}
    (h : wakerStep s w b = some (s', w')) : s'.setup = s.setup := by
  rcases wakerStep_executor h with h_executor | ⟨c, task, -, h_enqueue⟩
  · exact setup_of_executor_eq h_executor
  · exact setup_enqueueTask h_enqueue

-- ============================================================================
-- Runs
-- ============================================================================

variable [DecidableEq Waker] {setup : Setup Core}

theorem pickVictim_one (polls : BitVec 64) : pickVictim polls 1 = 0 := Nat.mod_one _

omit [DecidableEq Task] [DecidableEq Waker] in
theorem noteProbe_of_one {victim : Core} {s s' : State Core Task Waker}
    {l : Label Core Task Waker} {probes : List Nat}
    (h_victims : s.shared.setup.stealers c = [victim]) (h_zero : ∀ i ∈ probes, i = 0) :
    ∀ i ∈ noteProbe c s l s' probes, i = 0 := by
  replace h_victims : (s.shared.executor c).stealers = [victim] := h_victims
  have h_nil : ∀ i ∈ ([] : List Nat), i = 0 := by simp
  simp only [noteProbe, h_victims, List.length_singleton, pickVictim_one]
  split
  · split
    · split
      · split
        · exact h_zero
        · split
          · simpa [or_imp, forall_and] using h_zero
          · exact h_nil
      · exact h_nil
      · exact h_zero
    · exact h_zero
  · exact h_zero

/-- An executor with one stealer has one victim. -/
theorem probes_of_one {victim : Core} {σ σ' : Recorded (State Core Task Waker) (List Nat)}
    {tr : List (Label Core Task Waker)}
    (h_victims : σ.state.shared.setup.stealers c = [victim]) (h_zero : ∀ i ∈ σ.record, i = 0)
    (h_run : (probingMachine Task Waker setup c).exec σ tr = some σ') :
    ∀ i ∈ σ'.record, i = 0 := by
  refine (Machine.exec_invariant (P := fun σ => σ.state.shared.setup.stealers c = [victim] ∧
    ∀ i ∈ σ.record, i = 0) ?_ ⟨h_victims, h_zero⟩ (Machine.stepsMeet_true σ tr) h_run).2
  rintro σ l σ' ⟨h_victims, h_zero⟩ - h_step
  obtain ⟨h_machine, h_record⟩ := Machine.recorded_step_eq_some.mp h_step
  match l with
  | .inl (c', a) =>
      obtain ⟨m, p, h_left, h_eq⟩ := Families.step_left_eq_some h_machine
      refine ⟨?_, ?_⟩
      · rw [h_eq, setup_executorStep h_left]
        exact h_victims
      · rw [h_record]
        exact noteProbe_of_one h_victims h_zero
  | .inr (u, b) =>
      obtain ⟨m, q, h_right, h_eq⟩ := Families.step_right_eq_some h_machine
      refine ⟨?_, ?_⟩
      · rw [h_eq, setup_wakerStep h_right]
        exact h_victims
      · rw [h_record]
        exact h_zero

omit [DecidableEq Core] [DecidableEq Task] in
theorem drop_worker_of_empty {e : Executor Core Task} (h : e.worker = []) (n : Nat) :
    { e with worker := e.worker.drop n } = e := by
  cases e
  obtain rfl : _ = [] := h
  simp only [List.drop_nil]

omit [DecidableEq Task] in
/-- A batch of an empty deque changes nothing. -/
theorem stealBatch_of_empty (h_empty : ∀ c, (s.executor c).worker = []) :
    s.stealBatch c = ([], s) := by
  simp only [System.stealBatch]
  split
  · rfl
  · next victim _ =>
      rw [System.setExecutor, drop_worker_of_empty (h_empty victim), Function.update_eq_self,
        h_empty, List.take_nil]

/-- An executor whose victim has nothing probes it again and again. -/
theorem probes_same {s : State Core Task Waker} {e : Executor Core Task} (h_pc : s.left c = .idle)
    (h_e : s.shared.executor c = e) (h_victims : e.stealers ≠ [])
    (h_empty : ∀ c, (s.shared.executor c).worker = []) (K : Nat) (probes : List Nat) :
    (probingMachine Task Waker setup c).exec { state := s, record := probes }
      (List.replicate K (.inl (c, .trySteal))) =
        some { state := s, record :=
          probes ++ List.replicate K (pickVictim e.pollsExecuted e.stealers.length) } := by
  have h_steal : s.shared.stealBatch c = ([], s.shared) := stealBatch_of_empty h_empty
  have h_step : (machine Task Waker setup).step s (.inl (c, .trySteal)) = some s := by
    have h_left : executorStep c s.shared (s.left c) .trySteal = some (s.shared, .idle) := by
      rw [h_pc]
      simp only [executorStep, startStep, h_steal]
    have h_idle : Function.update s.left c .idle = s.left := by
      rw [← h_pc, Function.update_eq_self]
    simp only [machine, families, executor, h_left, h_idle]
  have h_note : ∀ probes, noteProbe c s (.inl (c, .trySteal)) s probes =
      probes ++ [pickVictim e.pollsExecuted e.stealers.length] := by
    intro probes
    simp only [noteProbe, h_pc, h_e, h_steal, if_true, List.isEmpty_nil, List.isEmpty_iff,
      h_victims, if_false]
  induction K generalizing probes with
  | zero => simp
  | succ K ih =>
      rw [List.replicate_succ]
      refine Machine.exec_cons_eq_some.mpr ⟨{ state := s, record := probes ++
        [pickVictim e.pollsExecuted e.stealers.length] }, ?_, ?_⟩
      · exact Machine.recorded_step_eq_some.mpr ⟨h_step, (h_note probes).symm⟩
      · rw [ih, List.append_assoc, List.singleton_append, ← List.replicate_succ]

/-- The state of a system that has just been set up, but for the polls that core `c`
    has executed and its stealers. -/
def idleState (Task Waker : Type*) [DecidableEq Task] [DecidableEq Waker] (setup : Setup Core)
    (c : Core) (victims : List Core) (polls : BitVec 64) : State Core Task Waker :=
  let s := (machine Task Waker setup).init
  { s with
    shared := s.shared.setExecutor c fun e =>
      { e with stealers := victims, pollsExecuted := polls } }

/-- From there on, no victim is probed but one. -/
theorem not_everyVictimProbed {victims : List Core} {polls : BitVec 64} {i : Nat}
    (h_i : i < victims.length) (h_ne : i ≠ pickVictim polls victims.length) :
    ¬ EveryVictimProbed Task Waker setup c victims polls := by
  rintro ⟨K, h_probed⟩
  let s := idleState Task Waker setup c victims polls
  obtain ⟨e, h_e, h_stealers, h_polls⟩ : ∃ e, s.shared.executor c = e ∧ e.stealers = victims ∧
      e.pollsExecuted = polls := by
    refine ⟨_, Function.update_self .., rfl, rfl⟩
  have h_empty : ∀ c', (s.shared.executor c').worker = [] := by
    intro c'
    show (Function.update (machine Task Waker setup).init.shared.executor c _ c').worker = []
    rw [Function.update_apply]
    split <;> rfl
  have h_ne_nil : e.stealers ≠ [] := by
    rw [h_stealers]
    exact List.ne_nil_of_length_pos (Nat.zero_lt_of_lt h_i)
  have h_run : (probingMachine Task Waker setup c).exec { state := s, record := [] }
      (List.replicate K (.inl (c, .trySteal))) = some _ :=
    probes_same rfl h_e h_ne_nil h_empty K []
  rw [List.nil_append, h_stealers, h_polls] at h_run
  have h_mem := h_probed s _ _ (by rw [h_e, h_stealers]) (by rw [h_e, h_polls]) h_run
    (by simp) i h_i
  exact h_ne (List.eq_of_mem_replicate h_mem)

/-- Every victim is probed sooner or later exactly if there is only one. -/
theorem everyVictimProbed_iff (setup : Setup Core) (c : Core) {victims : List Core}
    (h_victims : victims ≠ []) (polls : BitVec 64) :
    EveryVictimProbed Task Waker setup c victims polls ↔ victims.length = 1 := by
  constructor
  · intro h_probed
    by_contra h_length
    have h_pos := List.length_pos_of_ne_nil h_victims
    obtain ⟨i, h_i, h_ne⟩ : ∃ i < victims.length, i ≠ pickVictim polls victims.length := by
      by_cases h_pick : pickVictim polls victims.length = 0
      · exact ⟨1, by omega, by omega⟩
      · exact ⟨0, h_pos, by omega⟩
    exact not_everyVictimProbed h_i h_ne h_probed
  · intro h_one
    obtain ⟨victim, rfl⟩ := List.length_eq_one_iff.mp h_one
    refine ⟨1, fun s tr s' h_s _ h_run h_length i h_i => ?_⟩
    have h_setup : s.shared.setup.stealers c = [victim] := h_s
    have h_zero := probes_of_one h_setup (by simp) h_run
    obtain ⟨j, h_j⟩ := List.exists_mem_of_length_pos h_length
    have h_i : i = j := by
      rw [h_zero j h_j]
      simpa using h_i
    exact h_i ▸ h_j

/-- Executors with the quantum of `bootstrap_executor`. -/
def manyCores : Setup Nat where
  coreId := fun c => BitVec.ofNat 32 c
  stealers := fun _ => []
  defaultQuantum := fun _ => 10

theorem everyVictimProbed_one : EveryVictimProbed Nat Unit manyCores 0 [1] 0 :=
  (everyVictimProbed_iff manyCores 0 (by simp) 0).mpr rfl

/-- Of two victims, an executor that has not polled yet only ever probes the second. -/
theorem first_not_probed : ¬ EveryVictimProbed Nat Unit manyCores 0 [1, 2] 0 := by
  have h_pick : (0 : Nat) ≠ pickVictim 0 2 := by decide +kernel
  exact not_everyVictimProbed (by simp) h_pick

end Executor
end Zydon
