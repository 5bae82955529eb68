/-
  Zydon.Task.RunQueue.Dequeue

  A `dequeue` that runs alone.  It returns at once when no bit is set, returns
  the first task of the highest marked level when that level has one, and
  retries for ever when it has none (`dequeueReturns_iff`).

  With no call in progress the levels and their bits agree in the runs that
  meet the conditions of `Occupancy`, so that a `dequeue` finds a queued task
  (`findsQueued_of_clearsEmpty`) and returns (`dequeueReturns_of_marksNonempty`).
-/

import Zydon.Task.RunQueue.Occupancy

namespace Zydon
namespace RunQueue

open Lib

variable {Core Task : Type*} [DecidableEq Core] [DecidableEq Task]

-- ============================================================================
-- A call alone
-- ============================================================================

/-- A `dequeue` that starts in `s` and runs alone returns `result`. -/
def State.DequeueReturns (s : State Core Task) (result : Option Task) : Prop :=
  ∃ n s', (machine Core Task).exec s (.inl .dequeue :: List.replicate n (.inl .run)) = some s' ∧
    s'.owner = .idle (some result)

variable {s : State Core Task} {q q' : Queue Task} {pc pc' : DequeuePc Task}
  {thread : Core → EnqueuePc Task}

/-- One step of the call. -/
theorem exec_run (h : dequeueStep q pc .run = some (q', pc')) (n : Nat) :
    (machine Core Task).exec ⟨q, pc, thread⟩ (List.replicate (n + 1) (.inl .run)) =
      (machine Core Task).exec ⟨q', pc', thread⟩ (List.replicate n (.inl .run)) := by
  have h_step : (machine Core Task).step ⟨q, pc, thread⟩ (.inl .run) = some ⟨q', pc', thread⟩ := by
    simp only [machine, ownerAndThreads, dequeuer, h]
  rw [List.replicate_succ, Machine.exec, h_step]

/-- The start of the call. -/
theorem exec_dequeue (h : s.owner.isIdle = true) (n : Nat) :
    (machine Core Task).exec s (.inl .dequeue :: List.replicate n (.inl .run)) =
      (machine Core Task).exec ⟨s.shared, .loadOccupancy, s.thread⟩
        (List.replicate n (.inl .run)) := by
  obtain ⟨q, pc, thread⟩ := s
  cases pc with
  | idle result => rfl
  | loadOccupancy | pop L | isEmpty L task | fetchAnd L task | lenSub task =>
      exact absurd h (by simp [DequeuePc.isIdle])

/-- The rest of the call, from `pc` on, returns `result`. -/
def RestReturns (q : Queue Task) (pc : DequeuePc Task) (thread : Core → EnqueuePc Task)
    (result : Option Task) : Prop :=
  ∃ n s', (machine Core Task).exec ⟨q, pc, thread⟩ (List.replicate n (.inl .run)) = some s' ∧
    s'.owner = .idle (some result)

theorem restReturns_idle (q : Queue Task) (thread : Core → EnqueuePc Task)
    (result : Option Task) : RestReturns q (.idle (some result)) thread result :=
  ⟨0, _, rfl, rfl⟩

theorem RestReturns.of_step {result : Option Task} (h : dequeueStep q pc .run = some (q', pc'))
    (h_rest : RestReturns q' pc' thread result) : RestReturns q pc thread result := by
  obtain ⟨n, s', h_run, h_owner⟩ := h_rest
  exact ⟨n + 1, s', (exec_run h n).trans h_run, h_owner⟩

theorem dequeueReturns_of_rest (h_idle : s.owner.isIdle = true) {result : Option Task}
    (h_rest : RestReturns s.shared .loadOccupancy s.thread result) : s.DequeueReturns result := by
  obtain ⟨n, s', h_run, h_owner⟩ := h_rest
  exact ⟨n, s', (exec_dequeue h_idle n).trans h_run, h_owner⟩

/-- With no bit set the call returns nothing. -/
theorem dequeueReturns_none (h_idle : s.owner.isIdle = true) (h_zero : s.shared.occupancy = 0) :
    s.DequeueReturns none := by
  have h_load : dequeueStep s.shared .loadOccupancy .run = some (s.shared, .idle (some none)) := by
    simp only [dequeueStep, h_zero, if_true]
  exact dequeueReturns_of_rest h_idle (.of_step h_load (restReturns_idle _ _ _))

/-- With a task on the highest marked level the call returns it. -/
theorem dequeueReturns_some (h_idle : s.owner.isIdle = true) (h_bits : s.shared.occupancy ≠ 0)
    {task : Task}
    (h_head : (s.shared.levels (highestLevel s.shared.occupancy)).head = some task) :
    s.DequeueReturns (some task) := by
  set L := highestLevel s.shared.occupancy with h_L
  obtain ⟨q, h_q⟩ : ∃ q, s.shared.pop L = some (task, q) := by
    simp only [Queue.pop, h_head, Option.some.injEq, Prod.mk.injEq, true_and, exists_eq']
  have h_load : dequeueStep s.shared .loadOccupancy .run = some (s.shared, .pop L) := by
    simp only [dequeueStep, if_neg h_bits, h_L]
  have h_pop : dequeueStep s.shared (.pop L) .run =
      some (q.setQueued task false, .isEmpty L task) := by
    simp only [dequeueStep, h_q]
  refine dequeueReturns_of_rest h_idle (.of_step h_load (.of_step h_pop ?_))
  by_cases h_empty : ((q.setQueued task false).levels L).isEmpty = true
  · have h_check : dequeueStep (q.setQueued task false) (.isEmpty L task) .run =
        some (q.setQueued task false, .fetchAnd L task) := by
      simp only [dequeueStep, h_empty, if_true]
    exact .of_step h_check (.of_step rfl (.of_step rfl (restReturns_idle _ _ _)))
  · have h_check : dequeueStep (q.setQueued task false) (.isEmpty L task) .run =
        some (q.setQueued task false, .lenSub task) := by
      simp only [dequeueStep, if_neg h_empty]
    exact .of_step h_check (.of_step rfl (restReturns_idle _ _ _))

/-- With nothing on the highest marked level the call goes round between its
    load and its pop. -/
theorem exec_retries (h_bits : q.occupancy ≠ 0)
    (h_head : (q.levels (highestLevel q.occupancy)).head = none)
    (thread : Core → EnqueuePc Task) (n : Nat) :
    ∃ pc', (machine Core Task).exec ⟨q, .loadOccupancy, thread⟩ (List.replicate n (.inl .run)) =
        some ⟨q, pc', thread⟩ ∧ pc'.isIdle = false := by
  have h_load : dequeueStep q .loadOccupancy .run = some (q, .pop (highestLevel q.occupancy)) := by
    simp only [dequeueStep, if_neg h_bits]
  have h_none : q.pop (highestLevel q.occupancy) = none := by
    simp only [Queue.pop, h_head]
  have h_pop : dequeueStep q (.pop (highestLevel q.occupancy)) .run =
      some (q, .loadOccupancy) := by
    simp only [dequeueStep, h_none]
  induction n using Nat.twoStepInduction with
  | zero => exact ⟨_, rfl, rfl⟩
  | one => exact ⟨_, exec_run h_load 0, rfl⟩
  | more n ih _ =>
      obtain ⟨pc', h_run, h_idle⟩ := ih
      exact ⟨pc', by rw [exec_run h_load, exec_run h_pop, h_run], h_idle⟩

/-- A `dequeue` alone returns exactly when no bit is set or the highest marked
    level has a task. -/
theorem dequeueReturns_iff (h_idle : s.owner.isIdle = true) :
    (∃ result, s.DequeueReturns result) ↔
      s.shared.occupancy = 0 ∨
        (s.shared.levels (highestLevel s.shared.occupancy)).head.isSome := by
  constructor
  · rintro ⟨result, n, s', h_run, h_owner⟩
    by_contra h_not
    rw [not_or, Option.not_isSome_iff_eq_none] at h_not
    obtain ⟨pc', h_retry, h_pc'⟩ := exec_retries h_not.1 h_not.2 s.thread n
    rw [exec_dequeue h_idle, h_retry] at h_run
    cases h_run
    obtain rfl : pc' = _ := h_owner
    exact absurd h_pc' (by simp [DequeuePc.isIdle])
  · rintro (h_zero | h_head)
    · exact ⟨none, dequeueReturns_none h_idle h_zero⟩
    · by_cases h_bits : s.shared.occupancy = 0
      · exact ⟨none, dequeueReturns_none h_idle h_bits⟩
      · obtain ⟨task, h_task⟩ := Option.isSome_iff_exists.mp h_head
        exact ⟨some task, dequeueReturns_some h_idle h_bits h_task⟩

-- ============================================================================
-- Runs
-- ============================================================================

variable {tr : List (DequeueAction ⊕ Core × EnqueueAction Task)}

/-- In a run that only clears the bits of empty levels every task is covered. -/
theorem exists_covered (h_run : (machine Core Task).exec (machine Core Task).init tr = some s)
    (h_meet : (machine Core Task).StepsMeet ClearsEmptyLevel (machine Core Task).init tr) :
    ∃ l, Inv s.shared s.thread l ∧ Covered s.shared s.thread l := by
  have h_init : ∃ l, Inv (Queue.new : Queue Task) (fun _ : Core => EnqueuePc.idle) l ∧
      Covered (Queue.new : Queue Task) (fun _ : Core => EnqueuePc.idle) l :=
    ⟨_, inv_new, covered_new⟩
  refine Machine.exec_invariant
    (P := fun s => ∃ l, Inv s.shared s.thread l ∧ Covered s.shared s.thread l) ?_
    h_init h_meet h_run
  rintro s a s' ⟨l, h_inv, h_covered⟩ h_ok h_step
  obtain ⟨l', h_inv', h_covered', -⟩ := h_inv.step h_step
  exact ⟨l', h_inv', h_covered' h_ok h_covered⟩

/-- In a run that only sets the bits of levels with a task every bit is backed. -/
theorem exists_backed (h_run : (machine Core Task).exec (machine Core Task).init tr = some s)
    (h_meet : (machine Core Task).StepsMeet MarksNonemptyLevel (machine Core Task).init tr) :
    ∃ l, Inv s.shared s.thread l ∧ Backed s.shared s.owner s.thread l := by
  have h_init : ∃ l, Inv (Queue.new : Queue Task) (fun _ : Core => EnqueuePc.idle) l ∧
      Backed (Queue.new : Queue Task) (.idle none) (fun _ : Core => EnqueuePc.idle) l :=
    ⟨_, inv_new, backed_new⟩
  refine Machine.exec_invariant
    (P := fun s => ∃ l, Inv s.shared s.thread l ∧ Backed s.shared s.owner s.thread l) ?_
    h_init h_meet h_run
  rintro s a s' ⟨l, h_inv, h_backed⟩ h_ok h_step
  obtain ⟨l', h_inv', -, h_backed'⟩ := h_inv.step h_step
  exact ⟨l', h_inv', h_backed' h_ok h_backed⟩

omit [DecidableEq Core] [DecidableEq Task] in
/-- With no call in progress a covered level that is not empty has its bit. -/
theorem State.Quiet.isMarked {l : Level → List Task} {L : Level} (h : s.Quiet)
    (h_inv : Inv s.shared s.thread l) (h_covered : Covered s.shared s.thread l)
    (h_head : (s.shared.levels L).head.isSome) : s.shared.isMarked L = true := by
  rcases h_covered L ((h_inv.rep.head_isSome_iff L).mp h_head) with h_bit | ⟨c, h_marks⟩
  · exact h_bit
  · rw [h.2 c] at h_marks
    exact absurd h_marks (by simp [EnqueuePc.marks])

omit [DecidableEq Core] [DecidableEq Task] in
/-- With no call in progress a backed level whose bit is set is not empty. -/
theorem State.Quiet.head_isSome {l : Level → List Task} {L : Level} (h : s.Quiet)
    (h_inv : Inv s.shared s.thread l) (h_backed : Backed s.shared s.owner s.thread l)
    (h_bit : s.shared.isMarked L = true) : (s.shared.levels L).head.isSome := by
  rcases h_backed L h_bit with h_task | h_check | ⟨c, h_pushes⟩
  · exact (h_inv.rep.head_isSome_iff L).mpr h_task
  · have h_idle := h.1
    cases h_owner : s.owner <;> simp [h_owner, DequeuePc.checks, DequeuePc.isIdle] at h_check h_idle
  · rw [h.2 c] at h_pushes
    exact absurd h_pushes (by simp [EnqueuePc.pushes])

omit [DecidableEq Core] [DecidableEq Task] in
/-- With no call in progress a queued task is on some level. -/
theorem State.Quiet.exists_head {l : Level → List Task} {task : Task} (h : s.Quiet)
    (h_inv : Inv s.shared s.thread l) (h_task : s.shared.queued task = true) :
    ∃ L, (s.shared.levels L).head.isSome := by
  rcases (h_inv.queued_iff task).mp h_task with ⟨L, h_mem⟩ | ⟨c, L, h_push⟩
  · exact ⟨L, (h_inv.rep.head_isSome_iff L).mpr (List.ne_nil_of_mem h_mem)⟩
  · rw [h.2 c] at h_push
    exact absurd h_push (by simp)

omit [DecidableEq Core] [DecidableEq Task] in
/-- With no call in progress the highest marked level has a task. -/
theorem State.Quiet.head_highest {l : Level → List Task} (h : s.Quiet)
    (h_inv : Inv s.shared s.thread l) (h_backed : Backed s.shared s.owner s.thread l)
    (h_bits : s.shared.occupancy ≠ 0) :
    (s.shared.levels (highestLevel s.shared.occupancy)).head.isSome :=
  h.head_isSome h_inv h_backed (getLsbD_highestLevel h_bits)

-- ============================================================================
-- No queued task is hidden
-- ============================================================================

/-- In runs that only clear the bits of empty levels, with no call in progress
    every level that is not empty has its bit; where bits are only set for
    levels with a task, a `dequeue` returns one whenever any is queued. -/
theorem findsQueued_of_clearsEmpty
    (h_run : (machine Core Task).exec (machine Core Task).init tr = some s)
    (h_clears : (machine Core Task).StepsMeet ClearsEmptyLevel (machine Core Task).init tr)
    (h_quiet : s.Quiet) :
    (∀ L, (s.shared.levels L).head.isSome → s.shared.isMarked L = true) ∧
    ((machine Core Task).StepsMeet MarksNonemptyLevel (machine Core Task).init tr →
      (∃ task, s.shared.queued task = true) → ∃ task, s.DequeueReturns (some task)) := by
  obtain ⟨l, h_inv, h_covered⟩ := exists_covered h_run h_clears
  refine ⟨fun L => h_quiet.isMarked h_inv h_covered, ?_⟩
  rintro h_marks ⟨task, h_task⟩
  obtain ⟨L, h_L⟩ := h_quiet.exists_head h_inv h_task
  have h_bits : s.shared.occupancy ≠ 0 := by
    intro h_zero
    have h_bit := h_quiet.isMarked h_inv h_covered h_L
    rw [Queue.isMarked, h_zero] at h_bit
    exact absurd h_bit (by simp)
  obtain ⟨l', h_inv', h_backed⟩ := exists_backed h_run h_marks
  obtain ⟨first, h_first⟩ :=
    Option.isSome_iff_exists.mp (h_quiet.head_highest h_inv' h_backed h_bits)
  exact ⟨first, dequeueReturns_some h_quiet.1 h_bits h_first⟩

/-- A core enqueues the task `t`. -/
def enqueueRun (t : Nat) : List (DequeueAction ⊕ Unit × EnqueueAction Nat) :=
  [.inr ((), .enqueue t 0), .inr ((), .run), .inr ((), .run), .inr ((), .run)]

/-- Task 0 is dequeued, and the bit of its level is cleared by the `fetch_and`, after
    another core has enqueued task 1 at a level of its own. -/
def clearedRun : List (DequeueAction ⊕ Unit × EnqueueAction Nat) :=
  enqueueRun 0 ++ [.inl .dequeue, .inl .run, .inl .run, .inl .run] ++
    [.inr ((), .enqueue 1 5), .inr ((), .run), .inr ((), .run), .inr ((), .run)] ++
    [.inl .run, .inl .run]

theorem findsQueued_clearedRun :
    ∃ s : State Unit Nat, (machine Unit Nat).exec (machine Unit Nat).init clearedRun = some s ∧
      (s.shared.queued 1 = true ∧ s.shared.isMarked (priorityToLevel 0) = false) ∧
      (∀ L, (s.shared.levels L).head.isSome → s.shared.isMarked L = true) ∧
      ∃ task, s.DequeueReturns (some task) := by
  obtain ⟨s, h_run, h_queued, h_idle⟩ : ∃ s : State Unit Nat,
      (machine Unit Nat).exec (machine Unit Nat).init clearedRun = some s ∧
      (s.shared.queued 1 = true ∧ s.shared.isMarked (priorityToLevel 0) = false) ∧
      s.owner.isIdle = true ∧ s.thread () = .idle :=
    Machine.exec_of_decide (by decide +kernel)
  obtain ⟨h_bits, h_returns⟩ :=
    findsQueued_of_clearsEmpty h_run (by decide +kernel) ⟨h_idle.1, fun _ => h_idle.2⟩
  exact ⟨s, h_run, h_queued, h_bits, h_returns (by decide +kernel) ⟨1, h_queued.1⟩⟩

/-- Task 1 is pushed and marked between the second look at its level, after
    task 0 has been popped, and the `fetch_and`. -/
def hidingRun : List (DequeueAction ⊕ Unit × EnqueueAction Nat) :=
  enqueueRun 0 ++ [.inl .dequeue, .inl .run, .inl .run, .inl .run] ++ enqueueRun 1 ++
    [.inl .run, .inl .run]

/-- A queued task is hidden: its level has no bit, and a `dequeue` returns
    nothing. -/
theorem hidingRun_hides :
    ∃ s : State Unit Nat, (machine Unit Nat).exec (machine Unit Nat).init hidingRun = some s ∧
      s.Quiet ∧ s.shared.queued 1 = true ∧
      (∃ L, (s.shared.levels L).head = some 1 ∧ s.shared.isMarked L = false) ∧
      s.DequeueReturns none := by
  obtain ⟨s, h_run, ⟨h_idle, h_thread⟩, h_queued, h_head, h_zero⟩ : ∃ s : State Unit Nat,
      (machine Unit Nat).exec (machine Unit Nat).init hidingRun = some s ∧
      (s.owner.isIdle = true ∧ s.thread () = .idle) ∧ s.shared.queued 1 = true ∧
      (s.shared.levels (priorityToLevel 0)).head = some 1 ∧ s.shared.occupancy = 0 :=
    Machine.exec_of_decide (by decide +kernel)
  refine ⟨s, h_run, ⟨h_idle, fun _ => h_thread⟩, h_queued, ⟨priorityToLevel 0, h_head, ?_⟩,
    dequeueReturns_none h_idle h_zero⟩
  rw [Queue.isMarked, h_zero]
  exact BitVec.getLsbD_zero

-- ============================================================================
-- Every call returns
-- ============================================================================

/-- In runs that only set the bits of levels with a task, a `dequeue` that is
    started with no other call in progress returns. -/
theorem dequeueReturns_of_marksNonempty
    (h_run : (machine Core Task).exec (machine Core Task).init tr = some s)
    (h_marks : (machine Core Task).StepsMeet MarksNonemptyLevel (machine Core Task).init tr)
    (h_quiet : s.Quiet) : ∃ result, s.DequeueReturns result := by
  obtain ⟨l, h_inv, h_backed⟩ := exists_backed h_run h_marks
  rw [dequeueReturns_iff h_quiet.1]
  by_cases h_bits : s.shared.occupancy = 0
  · exact .inl h_bits
  · exact .inr (h_quiet.head_highest h_inv h_backed h_bits)

theorem dequeueReturns_clearedRun :
    ∃ s : State Unit Nat, (machine Unit Nat).exec (machine Unit Nat).init clearedRun = some s ∧
      s.shared.isMarked (priorityToLevel 0) = false ∧ ∃ result, s.DequeueReturns result := by
  obtain ⟨s, h_run, h_cleared, h_idle⟩ : ∃ s : State Unit Nat,
      (machine Unit Nat).exec (machine Unit Nat).init clearedRun = some s ∧
      s.shared.isMarked (priorityToLevel 0) = false ∧
      s.owner.isIdle = true ∧ s.thread () = .idle :=
    Machine.exec_of_decide (by decide +kernel)
  exact ⟨s, h_run, h_cleared, dequeueReturns_of_marksNonempty h_run (by decide +kernel)
    ⟨h_idle.1, fun _ => h_idle.2⟩⟩

/-- Task 1 is dequeued, and the bit of its level cleared, before its `fetch_or`. -/
def staleRun : List (DequeueAction ⊕ Unit × EnqueueAction Nat) :=
  enqueueRun 0 ++ [.inr ((), .enqueue 1 0), .inr ((), .run)] ++
    [.inl .dequeue, .inl .run, .inl .run, .inl .run, .inl .run] ++
    [.inl .dequeue, .inl .run, .inl .run, .inl .run, .inl .run, .inl .run] ++
    [.inr ((), .run), .inr ((), .run)]

/-- A `dequeue` of the empty queue never returns. -/
theorem staleRun_retries :
    ∃ s : State Unit Nat, (machine Unit Nat).exec (machine Unit Nat).init staleRun = some s ∧
      s.Quiet ∧ ∀ result, ¬ s.DequeueReturns result := by
  obtain ⟨s, h_run, ⟨h_idle, h_thread⟩, h_bits, h_head⟩ : ∃ s : State Unit Nat,
      (machine Unit Nat).exec (machine Unit Nat).init staleRun = some s ∧
      (s.owner.isIdle = true ∧ s.thread () = .idle) ∧ s.shared.occupancy ≠ 0 ∧
      (s.shared.levels (highestLevel s.shared.occupancy)).head = none :=
    Machine.exec_of_decide (by decide +kernel)
  refine ⟨s, h_run, ⟨h_idle, fun _ => h_thread⟩, ?_⟩
  intro result h_returns
  rcases (dequeueReturns_iff h_idle).mp ⟨result, h_returns⟩ with h_zero | h_some
  · exact h_bits h_zero
  · rw [h_head] at h_some
    exact absurd h_some (by simp)

end RunQueue
end Zydon
