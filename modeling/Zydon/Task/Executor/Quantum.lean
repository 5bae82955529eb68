/-
  Zydon.Task.Executor.Quantum

  How often the executors poll a task, over every interleaving with each other and
  with the wakers.

  Two executors may be inside `poll_task` of one task, and then consume the ticks of
  one quantum word, which each of them sets anew.  The bound is on all of them: each
  call of `reset_quantum` pays for as many polls as the quantum it stores, and for one
  if that is zero, since `poll_task` polls before it consumes a tick.
-/

import Mathlib.Algebra.Order.BigOperators.Group.Finset
import Zydon.Lib.History
import Zydon.Lib.Tally
import Zydon.Task.Executor.Victims

namespace Zydon
namespace Executor

open Lib

variable {Core Task Waker : Type*}

-- ============================================================================
-- The polls of a run
-- ============================================================================

/-- How often each task has been polled, and how many polls its calls of
    `reset_quantum` pay for. -/
structure Polls (Task : Type*) where
  polled : Task → Nat
  granted : Task → Nat

/-- The polls that a `reset_quantum` to `quantum` pays for: `max(1, quantum)`, because
    the loop of `poll_task` polls once before it looks at the word. -/
def grant (quantum : BitVec 32) : Nat := max 1 quantum.toInt.toNat

section Model

variable [DecidableEq Task]

/-- What the next operation of an executor with the default quantum `quantum` adds. -/
def Polls.add (quantum : BitVec 32) (r : Polls Task) : ExecutorPc Task → Polls Task
  | .resetQuantum task =>
      { r with granted := Function.update r.granted task (r.granted task + grant quantum) }
  | .callPoll task => { r with polled := Function.update r.polled task (r.polled task + 1) }
  | _ => r

/-- The polls and the grants are counted. -/
def Polls.note (s : State Core Task Waker) (a : Label Core Task Waker)
    (_ : State Core Task Waker) (r : Polls Task) : Polls Task :=
  match a with
  | .inl (c, _) => r.add (s.shared.executor c).defaultQuantum (s.left c)
  | .inr _ => r

variable [DecidableEq Core] [DecidableEq Waker]

/-- The system with the count of its polls. -/
def pollsMachine (Task Waker : Type*) [DecidableEq Task] [DecidableEq Waker]
    (setup : Setup Core) :
    Machine (Recorded (State Core Task Waker) (Polls Task)) (Label Core Task Waker) :=
  (machine Task Waker setup).recorded Polls.note ⟨fun _ => 0, fun _ => 0⟩

end Model

/-- The executor polls the task now, or may do so before it sets the quantum again. -/
def ExecutorPc.polling : ExecutorPc Task → Option Task
  | .callPoll task | .inPoll task | .tick task => some task
  | _ => none

/-- The polls of every task are paid for. -/
structure PollsBounded [Fintype Core] [DecidableEq Task]
    (s : Recorded (State Core Task Waker) (Polls Task)) : Prop where
  /-- The polls that have been made or are about to be made are no more than the sum of
      `max(1, quantum)` over the calls of `reset_quantum`. -/
  bound : ∀ task, s.record.polled task + tally s.state.left (.callPoll task) ≤
    s.record.granted task
  /-- The quantum word does not wrap: it falls below zero once for each core at most. -/
  floor : ∀ task, -(Fintype.card Core : Int) ≤
    (s.state.shared.tcb task).quantumRemaining.toInt

-- ============================================================================
-- The steps
-- ============================================================================

/-- The quantum words. -/
def System.quantum (s : System Core Task) (task : Task) : BitVec 32 :=
  (s.tcb task).quantumRemaining

/-- What a step of the executor of core `c` does to the quantum words. -/
inductive QuantumEffect [DecidableEq Task] (c : Core) (s s' : System Core Task) :
    ExecutorPc Task → ExecutorPc Task → Prop
  | reset (task : Task) :
      s'.quantum = Function.update s.quantum task (s.executor c).defaultQuantum →
      QuantumEffect c s s' (.resetQuantum task) (.callPoll task)
  | poll (task : Task) : s'.quantum = s.quantum →
      QuantumEffect c s s' (.callPoll task) (.inPoll task)
  | again (task : Task) :
      s'.quantum = Function.update s.quantum task (s.quantum task - 1) →
      0 < (s.quantum task - 1).toInt → QuantumEffect c s s' (.tick task) (.callPoll task)
  | expired (task : Task) :
      s'.quantum = Function.update s.quantum task (s.quantum task - 1) →
      (s.quantum task - 1).toInt ≤ 0 → QuantumEffect c s s' (.tick task) (.getState task)
  | other {p p' : ExecutorPc Task} : s'.quantum = s.quantum →
      (∀ task, p ≠ .resetQuantum task ∧ p ≠ .callPoll task) → (∀ task, p' ≠ .callPoll task) →
      p'.polling = none ∨ p'.polling = p.polling → QuantumEffect c s s' p p'

variable [DecidableEq Task] {s s' : System Core Task} {c : Core} {p p' : ExecutorPc Task}
  {task : Task}

/-- A write to a task control block. -/
theorem quantum_setTcb (s : System Core Task) (task : Task)
    (f : TaskControlBlock → TaskControlBlock) :
    (s.setTcb task f).quantum =
      Function.update s.quantum task (f (s.tcb task)).quantumRemaining := by
  funext t
  show (Function.update s.tcb task _ t).quantumRemaining = _
  rw [Function.update_apply, Function.update_apply]
  split <;> rfl

/-- One that keeps the word. -/
theorem quantum_setTcb_of_keep (s : System Core Task) (task : Task)
    {f : TaskControlBlock → TaskControlBlock}
    (h_keep : ∀ t, (f t).quantumRemaining = t.quantumRemaining) :
    (s.setTcb task f).quantum = s.quantum := by
  rw [quantum_setTcb, h_keep]
  exact Function.update_eq_self task s.quantum

theorem quantum_setState (s : System Core Task) (task : Task) (state : TaskState) :
    (s.setState task state).quantum = s.quantum :=
  quantum_setTcb_of_keep s task fun _ => rfl

omit [DecidableEq Task] in
/-- A queue operation of an executor. -/
theorem quantum_of_tcb_eq (h : s'.tcb = s.tcb) : s'.quantum = s.quantum := by
  funext t
  rw [System.quantum, h]
  rfl

/-- A step that has nothing to do with the quantum. -/
theorem QuantumEffect.leave (h_same : s'.quantum = s.quantum)
    (h_p : ∀ task, p ≠ .resetQuantum task ∧ p ≠ .callPoll task) (h_p' : p'.polling = none) :
    QuantumEffect c s s' p p' := by
  refine .other h_same h_p (fun task h_eq => ?_) (.inl h_p')
  rw [h_eq] at h_p'
  exact absurd h_p' (by simp [ExecutorPc.polling])

variable [DecidableEq Core]

omit [DecidableEq Task] in
theorem tcb_pop (h : s.pop c = some (task, s')) : s'.tcb = s.tcb := by
  simp only [System.pop] at h
  split at h <;> cases h
  rfl

omit [DecidableEq Task] in
theorem tcb_stealBatch (s : System Core Task) (c : Core) : (s.stealBatch c).2.tcb = s.tcb := by
  simp only [System.stealBatch]
  split <;> rfl

theorem tcb_dequeue (h : s.dequeue c = some (task, s')) : s'.tcb = s.tcb := by
  simp only [System.dequeue] at h
  split at h
  · exact absurd h (by simp)
  · split at h <;> cases h
    rfl

theorem tcb_enqueueTask (h : s.enqueueTask c task = some s') : s'.tcb = s.tcb := by
  simp only [System.enqueueTask] at h
  split at h <;> cases h
  rfl

theorem executorStep_quantum {a : ExecutorAction} (h : executorStep c s p a = some (s', p')) :
    QuantumEffect c s s' p p' := by
  simp only [executorStep] at h
  split at h
  · cases a with
    | drain =>
        cases h
        exact .leave rfl (by simp) rfl
    | pop =>
        simp only [startStep] at h
        split at h <;> cases h
        · next h_pop => exact .leave (quantum_of_tcb_eq (tcb_pop h_pop)) (by simp) rfl
        · exact .leave rfl (by simp) rfl
    | trySteal =>
        have h_tcb := tcb_stealBatch s c
        simp only [startStep] at h
        split at h <;> cases h <;> next h_steal =>
          rw [h_steal] at h_tcb
          exact .leave (quantum_of_tcb_eq h_tcb) (by simp) rfl
    | park | returnReady | returnPending | run => exact absurd h (by simp [startStep])
  · cases a with
    | park =>
        simp only [futureStep] at h
        split at h <;> cases h
        · exact .other (quantum_setState s _ _) (by simp) (by simp) (.inr rfl)
        · exact .other rfl (by simp) (by simp) (.inr rfl)
    | returnReady =>
        cases h
        exact .leave rfl (by simp) rfl
    | returnPending =>
        cases h
        exact .other (quantum_of_tcb_eq rfl) (by simp) (by simp) (.inr rfl)
    | drain | pop | trySteal | run => exact absurd h (by simp [futureStep])
  · split at h
    · cases p with
      | idle | inPoll task | panicked => exact absurd h (by simp [runStep])
      | dequeue =>
          simp only [runStep] at h
          split at h <;> cases h
          · next h_dequeue => exact .leave (quantum_of_tcb_eq (tcb_dequeue h_dequeue)) (by simp) rfl
          · exact .leave rfl (by simp) rfl
      | drained task | requeue task =>
          cases h
          exact .leave (quantum_of_tcb_eq rfl) (by simp) rfl
      | stolen task rest =>
          cases rest <;> cases h <;> exact .leave (quantum_of_tcb_eq rfl) (by simp) rfl
      | claim task =>
          simp only [runStep] at h
          split at h <;> cases h
          · exact .leave (quantum_setState s task _) (by simp) rfl
          · exact .leave rfl (by simp) rfl
      | storeCore task =>
          cases h
          exact .leave (quantum_setTcb_of_keep s task fun _ => rfl) (by simp) rfl
      | resetQuantum task =>
          cases h
          exact .reset task (quantum_setTcb s task _)
      | callPoll task =>
          cases h
          exact .poll task rfl
      | dying task | expire task =>
          simp only [runStep] at h
          split at h <;> cases h
          · exact .leave (quantum_setState s task _) (by simp) rfl
          · exact .leave rfl (by simp) rfl
      | dead task =>
          cases h
          exact .leave (quantum_setState s task _) (by simp) rfl
      | finished task =>
          have h_keep := quantum_setTcb_of_keep s task
            (f := fun t => { t with currentCore := TaskControlBlock.noCore }) fun _ => rfl
          cases h
          exact .leave h_keep (by simp) rfl
      | tick task =>
          have h_word := quantum_setTcb s task .consumeTick
          simp only [runStep] at h
          split at h <;> cases h
          · next h_expires => exact .expired task h_word (of_decide_eq_true h_expires)
          · next h_lasts => exact .again task h_word (Int.not_le.mp fun h_le =>
              h_lasts (decide_eq_true h_le))
      | getState task | loadBase task eff =>
          simp only [runStep] at h
          split at h <;> cases h <;> exact .leave rfl (by simp) rfl
      | release task again =>
          cases again <;> cases h <;>
            exact .leave (quantum_setTcb_of_keep s task fun _ => rfl) (by simp) rfl
      | decay task =>
          simp only [runStep] at h
          split at h <;> cases h <;>
            exact .leave (quantum_setTcb_of_keep s task fun _ => rfl) (by simp) rfl
      | loadEffective task =>
          cases h
          exact .leave rfl (by simp) rfl
      | decrement task =>
          cases h
          exact .leave (quantum_setTcb_of_keep s task fun _ => rfl) (by simp) rfl
    · exact absurd h (by simp)

theorem wakerStep_quantum {w w' : WakerPc Task} {b : WakerAction Core Task}
    (h : wakerStep s w b = some (s', w')) : s'.quantum = s.quantum := by
  cases w with
  | idle =>
      cases b with
      | wake task =>
          cases h
          rfl
      | enqueueTask c task =>
          obtain ⟨s₁, h_enqueue, h_eq⟩ := Option.map_eq_some_iff.mp h
          cases h_eq
          exact quantum_of_tcb_eq (tcb_enqueueTask h_enqueue)
      | storePriority task effective base =>
          cases h
          exact quantum_setTcb_of_keep s task fun _ => rfl
      | run => exact absurd h (by simp [wakerStep])
  | get task =>
      cases b with
      | run =>
          simp only [wakerStep] at h
          split at h <;> cases h <;> rfl
      | wake | enqueueTask | storePriority => exact absurd h (by simp [wakerStep])
  | fromBlocked task | fromCreated task =>
      cases b with
      | run =>
          simp only [wakerStep] at h
          split at h <;> cases h
          · exact quantum_setState s task _
          · rfl
      | wake | enqueueTask | storePriority => exact absurd h (by simp [wakerStep])

-- ============================================================================
-- The invariant
-- ============================================================================

/-- One tick does not wrap. -/
theorem toInt_sub_one {x : BitVec 32} (h : -2147483648 < x.toInt) :
    (x - 1).toInt = x.toInt - 1 := by
  have h_lt : x.toInt < 2147483648 := x.toInt_lt
  have h_one : (1 : BitVec 32).toInt = 1 := rfl
  rw [BitVec.toInt_sub, h_one]
  exact Int.bmod_eq_of_le (by omega) (by omega)

/-- The executor may consume a tick of the task. -/
def ExecutorPc.mayTick (p : ExecutorPc Task) (task : Task) : Nat :=
  if p.polling = some task then 1 else 0

@[simp] theorem mayTick_callPoll (task : Task) : (ExecutorPc.callPoll task).mayTick task = 1 :=
  if_pos rfl

@[simp] theorem mayTick_inPoll (task : Task) : (ExecutorPc.inPoll task).mayTick task = 1 :=
  if_pos rfl

@[simp] theorem mayTick_tick (task : Task) : (ExecutorPc.tick task).mayTick task = 1 := if_pos rfl

theorem ExecutorPc.mayTick_of_ne (h : p.polling ≠ some task) : p.mayTick task = 0 := if_neg h

/-- What is left to pay for polls of `task`: a poll that is about to be made has been paid
    for, and the ticks that are left pay for more. -/
structure QuantumInv [Fintype Core] (s : System Core Task) (pc : Core → ExecutorPc Task)
    (r : Polls Task) (task : Task) : Prop where
  paid : r.polled task + tally pc (.callPoll task) + ((s.quantum task).toInt - 1).toNat ≤
    r.granted task
  floor : ((∑ c, (pc c).mayTick task : Nat) : Int) ≤ (s.quantum task).toInt + Fintype.card Core

section Invariant

variable [Fintype Core] {pc : Core → ExecutorPc Task} {r : Polls Task}

omit [DecidableEq Core] in
theorem quantumInv_new (setup : Setup Core) (task : Task) :
    QuantumInv (System.new setup : System Core Task) (fun _ => .idle) ⟨fun _ => 0, fun _ => 0⟩
      task where
  paid := by simp [tally, System.quantum, System.new, TaskControlBlock.new]
  floor := by simp [ExecutorPc.mayTick, ExecutorPc.polling, System.quantum, System.new,
    TaskControlBlock.new]

omit [DecidableEq Core] in
/-- The cores that may consume a tick. -/
theorem sum_mayTick_le (pc : Core → ExecutorPc Task) (task : Task) :
    ∑ c, (pc c).mayTick task ≤ Fintype.card Core := by
  have h_le : ∑ c, (pc c).mayTick task ≤ ∑ _c : Core, 1 := by
    refine Finset.sum_le_sum fun c _ => ?_
    rw [ExecutorPc.mayTick]
    split <;> decide
  simpa using h_le

/-- A step that has nothing to do with the word of `task`. -/
theorem QuantumInv.frame (h : QuantumInv s pc r task) {r' : Polls Task}
    (h_quantum : s'.quantum task = s.quantum task) (h_polled : r'.polled task = r.polled task)
    (h_granted : r'.granted task = r.granted task)
    (h_call : p' = .callPoll task → pc c = .callPoll task)
    (h_tick : p'.mayTick task ≤ (pc c).mayTick task) :
    QuantumInv s' (Function.update pc c p') r' task := by
  have h_calls := tally_update pc c p' (.callPoll task)
  have h_ticks := sum_update_add (fun p => p.mayTick task) pc c p'
  have h_paid := h.paid
  have h_floor := h.floor
  constructor
  · rw [h_polled, h_granted, h_quantum]
    split at h_calls <;> split at h_calls <;> grind
  · rw [h_quantum]
    omega

/-- An operation of an executor. -/
theorem QuantumInv.executor_step (h : QuantumInv s pc r task)
    (h_cores : Fintype.card Core < 2147483648)
    (h_setup : 0 ≤ (s.executor c).defaultQuantum.toInt)
    (h_effect : QuantumEffect c s s' (pc c) p') :
    QuantumInv s' (Function.update pc c p') (r.add (s.executor c).defaultQuantum (pc c)) task := by
  have h_calls := tally_update pc c p' (.callPoll task)
  have h_ticks := sum_update_add (fun p => p.mayTick task) pc c p'
  have h_le := sum_mayTick_le (Function.update pc c p') task
  have h_paid := h.paid
  have h_floor := h.floor
  generalize h_p : pc c = p at h_effect h_calls h_ticks
  cases h_effect with
  | reset t h_quantum =>
      by_cases h_t : t = task
      · subst h_t
        simp only [reduceCtorEq, if_false, if_true] at h_calls
        refine ⟨?_, ?_⟩
        · simp only [Polls.add, h_quantum, Function.update_self, grant]
          omega
        · rw [h_quantum, Function.update_self]
          omega
      · refine h.frame ?_ rfl ?_ ?_ ?_
        · rw [h_quantum, Function.update_of_ne (Ne.symm h_t)]
        · exact Function.update_of_ne (Ne.symm h_t) ..
        · exact fun h_eq => absurd (ExecutorPc.callPoll.inj h_eq) h_t
        · simp [ExecutorPc.mayTick, ExecutorPc.polling, h_t]
  | poll t h_quantum =>
      by_cases h_t : t = task
      · subst h_t
        simp only [reduceCtorEq, if_false, if_true] at h_calls
        simp only [mayTick_callPoll, mayTick_inPoll] at h_ticks
        refine ⟨?_, ?_⟩
        · simp only [Polls.add, h_quantum, Function.update_self]
          omega
        · rw [h_quantum]
          omega
      · refine h.frame (congrFun h_quantum task) ?_ rfl (by simp) ?_
        · exact Function.update_of_ne (Ne.symm h_t) ..
        · simp [ExecutorPc.mayTick, ExecutorPc.polling, h_t]
  | again t h_quantum h_pos =>
      by_cases h_t : t = task
      · subst h_t
        have h_word := toInt_sub_one (x := s.quantum t) (by omega)
        simp only [reduceCtorEq, if_false, if_true] at h_calls
        simp only [mayTick_callPoll, mayTick_tick] at h_ticks
        refine ⟨?_, ?_⟩
        · simp only [Polls.add, h_quantum, Function.update_self]
          omega
        · rw [h_quantum, Function.update_self]
          omega
      · refine h.frame ?_ rfl rfl ?_ ?_
        · rw [h_quantum, Function.update_of_ne (Ne.symm h_t)]
        · exact fun h_eq => absurd (ExecutorPc.callPoll.inj h_eq) h_t
        · simp [ExecutorPc.mayTick, ExecutorPc.polling, h_t]
  | expired t h_quantum h_neg =>
      by_cases h_t : t = task
      · subst h_t
        have h_word := toInt_sub_one (x := s.quantum t) (by omega)
        simp only [reduceCtorEq, if_false] at h_calls
        have h_left : (ExecutorPc.getState t).mayTick t = 0 :=
          ExecutorPc.mayTick_of_ne (by simp [ExecutorPc.polling])
        simp only [mayTick_tick, h_left] at h_ticks
        refine ⟨?_, ?_⟩
        · simp only [Polls.add, h_quantum, Function.update_self]
          omega
        · rw [h_quantum, Function.update_self]
          omega
      · refine h.frame ?_ rfl rfl (by simp) ?_
        · rw [h_quantum, Function.update_of_ne (Ne.symm h_t)]
        · simp [ExecutorPc.mayTick, ExecutorPc.polling]
  | other h_quantum h_free h_call h_polling =>
      have h_add : r.add (s.executor c).defaultQuantum p = r := by
        cases p with
        | resetQuantum t => exact absurd rfl (h_free t).1
        | callPoll t => exact absurd rfl (h_free t).2
        | _ => rfl
      rw [h_add]
      refine h.frame (congrFun h_quantum task) rfl rfl (fun h_eq => absurd h_eq (h_call task)) ?_
      rcases h_polling with h_none | h_same
      · rw [ExecutorPc.mayTick_of_ne (by simp [h_none])]
        exact Nat.zero_le _
      · rw [h_p, ExecutorPc.mayTick, ExecutorPc.mayTick, h_same]

end Invariant

-- ============================================================================
-- Runs
-- ============================================================================

variable [Fintype Core] [DecidableEq Waker] {setup : Setup Core}

theorem quantumInv_of_reachable {s : Recorded (State Core Task Waker) (Polls Task)}
    (h_cores : Fintype.card Core < 2147483648) (h_setup : ∀ c, 0 ≤ (setup.defaultQuantum c).toInt)
    (h : (pollsMachine Task Waker setup).Reachable s) :
    s.state.shared.setup = setup ∧
      ∀ task, QuantumInv s.state.shared s.state.left s.record task := by
  refine h.invariant (P := fun s => s.state.shared.setup = setup ∧
    ∀ task, QuantumInv s.state.shared s.state.left s.record task) ⟨rfl, quantumInv_new setup⟩ ?_
  rintro s a s' ⟨h_same, hs⟩ h_step
  obtain ⟨h_machine, h_record⟩ := Machine.recorded_step_eq_some.mp h_step
  rw [h_record]
  rcases a with ⟨c, a⟩ | ⟨u, b⟩
  · obtain ⟨m, p, h_executor, h_state⟩ := Families.step_left_eq_some h_machine
    have h_quantum : 0 ≤ (s.state.shared.executor c).defaultQuantum.toInt := by
      rw [← h_same] at h_setup
      exact h_setup c
    rw [h_state]
    exact ⟨(setup_executorStep h_executor).trans h_same, fun task =>
      (hs task).executor_step h_cores h_quantum (executorStep_quantum h_executor)⟩
  · obtain ⟨m, w, h_waker, h_state⟩ := Families.step_right_eq_some h_machine
    rw [h_state]
    refine ⟨(setup_wakerStep h_waker).trans h_same, fun task => ⟨?_, ?_⟩⟩
    · show _ + _ + ((m.quantum task).toInt - 1).toNat ≤ _
      rw [wakerStep_quantum h_waker]
      exact (hs task).paid
    · show _ ≤ (m.quantum task).toInt + _
      rw [wakerStep_quantum h_waker]
      exact (hs task).floor

/-- For any number of executors and wakers, each core with its own default quantum. -/
theorem pollsBounded_of_reachable {s : Recorded (State Core Task Waker) (Polls Task)}
    (h_cores : Fintype.card Core < 2147483648) (h_setup : ∀ c, 0 ≤ (setup.defaultQuantum c).toInt)
    (h : (pollsMachine Task Waker setup).Reachable s) : PollsBounded s := by
  obtain ⟨-, hs⟩ := quantumInv_of_reachable h_cores h_setup h
  refine ⟨fun task => ?_, fun task => ?_⟩
  · exact Nat.le_trans (Nat.le_add_right _ _) (hs task).paid
  · have h_floor := (hs task).floor
    simp only [System.quantum] at h_floor
    omega

/-- Two executors are inside one task, each with a quantum of its own. -/
theorem pollsBounded_twoInside :
    ∃ s, (pollsMachine Nat Unit twoCores).exec (pollsMachine Nat Unit twoCores).init
        (enqueueOn false ++ wakeRun ++ pollRun false ++ [.inl (false, .park)] ++ wakeRun ++
          enqueueOn true ++ pollRun true) = some s ∧
      (s.record.polled 0 = 2 ∧ s.record.granted 0 = 20) ∧ PollsBounded s := by
  have h_replay : ((pollsMachine Nat Unit twoCores).exec (pollsMachine Nat Unit twoCores).init
      (enqueueOn false ++ wakeRun ++ pollRun false ++ [.inl (false, .park)] ++ wakeRun ++
        enqueueOn true ++ pollRun true)).any
      (fun s => decide (s.record.polled 0 = 2 ∧ s.record.granted 0 = 20)) = true := by
    decide +kernel
  obtain ⟨s, h_run, h_counts⟩ := Machine.exec_of_decide h_replay
  exact ⟨s, h_run, h_counts, pollsBounded_of_reachable (by decide) (by decide) ⟨_, h_run⟩⟩

end Executor
end Zydon
