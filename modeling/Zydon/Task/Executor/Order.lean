/-
  Zydon.Task.Executor.Order

  The order in which a core polls what is in its run queue: `drain_run_queue`
  dequeues the tasks by priority and pushes them to the deque of the core, and
  the main loop pops them from there.

  Both structures are the ones of the code, with complete calls.  The drain ends
  (`drainLoop_eq`), after as many rounds as the counts of the marked levels say,
  and the pops return what it has pushed in reverse.
-/

import Mathlib.Algebra.Order.BigOperators.Group.Finset
import Mathlib.Data.Fintype.BigOperators
import Zydon.Task.RunQueue.Sequential
import Zydon.Task.Stealer.Sequential

namespace Zydon
namespace Executor

open Lib PriorityFifo RunQueue

variable {Task : Type*}

-- ============================================================================
-- Draining and popping
-- ============================================================================

/-- The run queue and the deque of a core. -/
structure Queues (Task : Type*) where
  runQueue : RunQueue.Queue Task
  worker : Stealer.Deque Task

section Calls

variable [DecidableEq Task]

/-- The loop of `drain_run_queue`, of at most `fuel` rounds. -/
def drainLoop : Nat → Queues Task → Option (Queues Task)
  | 0, _ => none
  | fuel + 1, s =>
      match dequeueCall s.runQueue with
      | some (none, q) => some { s with runQueue := q }
      | some (some task, q) =>
          match Stealer.call Stealer.pointerSize s.worker (.push task) with
          | some (_, d) => drainLoop fuel { runQueue := q, worker := d }
          | none => none
      | none => none

/-- More rounds than the 32-bit counts of the 32 levels allow. -/
def drainFuel : Nat := 32 * 2 ^ 32 + 1

/-- `drain_run_queue`. -/
def drainRunQueue (s : Queues Task) : Option (Queues Task) := drainLoop drainFuel s

end Calls

/-- The tasks that successive calls of `worker.pop` return, of at most `fuel`
    calls. -/
def popLoop : Nat → Stealer.Deque Task → Option (List Task)
  | 0, _ => none
  | fuel + 1, d =>
      match Stealer.call Stealer.pointerSize d .pop with
      | some (.popped none, _) => some []
      | some (.popped (some (some task)), d) => (popLoop fuel d).map (task :: ·)
      | _ => none

/-- The tasks that successive calls of `worker.pop` return, until one returns
    `None`. -/
def popAll (d : Stealer.Deque Task) : Option (List Task) :=
  popLoop ((d.bottom - d.top).toNat + 1) d

/-- The levels from the highest down. -/
def levelsDown : List Level := (List.finRange 32).reverse

/-- After a drain the pops return the tasks `w` of the run queue by level, the
    highest first, and those of a level in the order of their enqueues. -/
def RunsInOrder [DecidableEq Task] (s : Queues Task) (w : Waiting Task) : Prop :=
  ∃ s', drainRunQueue s = some s' ∧ popAll s'.worker = some (byPriority levelsDown w)

-- ============================================================================
-- The pops
-- ============================================================================

variable {d : Stealer.Deque Task} {n : Nat} {l : List Task}

theorem popLoop_eq (h : Stealer.Holds n d l) (h_n : n < 2 ^ 62) {fuel : Nat}
    (h_fuel : l.length < fuel) : popLoop fuel d = some l.reverse := by
  induction l using List.reverseRecOn generalizing d fuel with
  | nil =>
      obtain ⟨fuel, rfl⟩ := Nat.exists_eq_add_of_lt h_fuel
      obtain ⟨d', h_call, -⟩ := h.pop h_n Stealer.pointerSize
      simp only [popLoop, h_call, List.getLast?_nil, Option.map_none, List.reverse_nil]
  | append_singleton l task ih =>
      obtain ⟨d', h_call, h'⟩ := h.pop h_n Stealer.pointerSize
      rw [List.getLast?_concat, Option.map_some] at h_call
      rw [List.dropLast_concat] at h'
      rw [List.length_append, List.length_singleton] at h_fuel
      obtain ⟨fuel, rfl⟩ : ∃ k, fuel = k + 1 := ⟨fuel - 1, by omega⟩
      have h_rest : popLoop fuel d' = some l.reverse := ih h' (by omega)
      simp only [popLoop, h_call, h_rest, Option.map_some, List.reverse_append,
        List.reverse_singleton, List.singleton_append]

/-- The pops return what the deque holds, the newest first. -/
theorem popAll_eq (h : Stealer.Holds n d l) (h_n : n < 2 ^ 62) : popAll d = some l.reverse := by
  apply popLoop_eq h h_n
  have h_bottom := h.bottom_eq
  omega

-- ============================================================================
-- The drain
-- ============================================================================

variable {q q' : RunQueue.Queue Task} {lanes : Level → List Task} {L : Level} {task : Task}
  {rest : List Task}

/-- How many tasks a drain takes from a level: as many as its count says. -/
def drainable (q : RunQueue.Queue Task) (lanes : Level → List Task) (L : Level) : Nat :=
  if q.isMarked L then ((lanes L).length - 1) % 2 ^ 32 + 1 else 0

theorem sum_drainable_le : ∑ L, drainable q lanes L ≤ 32 * 2 ^ 32 := by
  have h_level : ∀ L ∈ Finset.univ, drainable q lanes L ≤ 2 ^ 32 := by
    intro L _
    rw [drainable]
    split
    · have h_mod := Nat.mod_lt ((lanes L).length - 1) (Nat.two_pow_pos 32)
      omega
    · omega
  have h_sum := Finset.sum_le_card_nsmul Finset.univ _ _ h_level
  rwa [Finset.card_univ, Fintype.card_fin, nsmul_eq_mul] at h_sum

/-- A `dequeue` takes one of the tasks that a drain takes. -/
theorem sum_drainable_dequeue (h : Rep q' (Function.update lanes L rest))
    (h_bit : q.isMarked L = true) (h_cons : lanes L = task :: rest)
    (h_marked : ∀ L', q'.isMarked L' =
      if L' = L then !(q'.levels L).isEmpty else q.isMarked L') :
    ∑ K, drainable q lanes K = ∑ K, drainable q' (Function.update lanes L rest) K + 1 := by
  have h_rest : ∑ L' ∈ Finset.univ.erase L, drainable q lanes L' =
      ∑ L' ∈ Finset.univ.erase L, drainable q' (Function.update lanes L rest) L' := by
    apply Finset.sum_congr rfl
    intro L' h_L'
    have h_ne := Finset.ne_of_mem_erase h_L'
    rw [drainable, drainable, h_marked, if_neg h_ne, Function.update_of_ne h_ne]
  have h_self : drainable q lanes L = drainable q' (Function.update lanes L rest) L + 1 := by
    have h_empty := h.isEmpty_iff L
    rw [Function.update_self] at h_empty
    rw [drainable, if_pos h_bit, drainable, h_marked, if_pos rfl, h_cons, List.length_cons,
      Function.update_self]
    cases h_count : (q'.levels L).isEmpty with
    | true =>
        have h_mod := h_empty.mp h_count
        simp only [Bool.not_true, Bool.false_eq_true, if_false]
        omega
    | false =>
        have h_mod : rest.length % 2 ^ 32 ≠ 0 := fun h_zero => by
          rw [h_empty.mpr h_zero] at h_count
          exact absurd h_count (by simp)
        simp only [Bool.not_false, if_true]
        omega
  have h_split := Finset.add_sum_erase _ (drainable q lanes) (Finset.mem_univ L)
  have h_split' := Finset.add_sum_erase _ (drainable q' (Function.update lanes L rest))
    (Finset.mem_univ L)
  omega

variable [DecidableEq Task]

/-- The drain ends, with the tasks it has dequeued behind those of the deque;
    the first of them is the first of the highest marked level. -/
theorem drainLoop_eq {fuel : Nat} (h : Rep q lanes)
    (h_backed : ∀ L, q.isMarked L = true → lanes L ≠ [])
    (h_fuel : ∑ L, drainable q lanes L < fuel) (hd : Stealer.Holds n d l)
    (h_n : n + ∑ L, drainable q lanes L < 2 ^ 62)
    (h_layout : Stealer.DequeBuffer.LayoutFits Stealer.pointerSize
      (2 * (l.length + ∑ L, drainable q lanes L))) :
    ∃ s out, drainLoop fuel ⟨q, d⟩ = some s ∧ out.length = ∑ L, drainable q lanes L ∧
      Stealer.Holds (n + out.length) s.worker (l ++ out) ∧
      (q.occupancy ≠ 0 → out.head? = (lanes (highestLevel q.occupancy)).head?) := by
  induction fuel generalizing q lanes d n l with
  | zero => exact absurd h_fuel (Nat.not_lt_zero _)
  | succ fuel ih =>
      by_cases h_bits : q.occupancy = 0
      · have h_none : ∑ L, drainable q lanes L = 0 := by
          apply Finset.sum_eq_zero
          intro L _
          have h_bit : q.isMarked L = false := by
            rw [Queue.isMarked, h_bits]
            exact BitVec.getLsbD_zero
          rw [drainable, h_bit]
          rfl
        refine ⟨⟨q, d⟩, [], ?_, h_none.symm, ?_, fun h => absurd h_bits h⟩
        · simp only [drainLoop, dequeueCall_none h_bits]
        · rwa [List.append_nil]
      · have h_bit := getLsbD_highestLevel h_bits
        obtain ⟨task, rest, h_cons⟩ := List.exists_cons_of_ne_nil (h_backed _ h_bit)
        obtain ⟨q', h_call, h', -, -, h_marked⟩ := h.dequeue h_bits rfl h_cons
        obtain ⟨d', h_push, -, hd'⟩ := hd.push (by omega) (h_layout.mono (by omega)) task
        have h_sum := sum_drainable_dequeue h' h_bit h_cons h_marked
        have h_backed' : ∀ L, q'.isMarked L = true →
            Function.update lanes (highestLevel q.occupancy) rest L ≠ [] := by
          intro L h_L
          rw [h_marked] at h_L
          split at h_L
          · next h_eq =>
              rw [h_eq, Function.update_self]
              rintro rfl
              have h_empty := (h'.isEmpty_iff (highestLevel q.occupancy)).mpr (by simp)
              rw [h_empty] at h_L
              exact absurd h_L (by simp)
          · next h_ne =>
              rw [Function.update_of_ne h_ne]
              exact h_backed L h_L
        obtain ⟨s, out, h_loop, h_length, h_holds, -⟩ :=
          ih h' h_backed' (by omega) hd' (by omega)
            (h_layout.mono (by rw [List.length_append, List.length_singleton]; omega))
        refine ⟨s, task :: out, ?_, ?_, ?_, ?_⟩
        · simp only [drainLoop, h_call, h_push, h_loop]
        · rw [List.length_cons, h_length, h_sum]
        · rw [List.append_cons, List.length_cons, Nat.add_comm out.length, ← Nat.add_assoc]
          exact h_holds
        · intro _
          rw [h_cons]
          rfl

-- ============================================================================
-- The order
-- ============================================================================

variable {w : Waiting Task}

omit [DecidableEq Task] in
/-- With one task at most a drain takes all there is. -/
theorem sum_drainable_of_length_le_one (hq : RunQueue.Holds q w) (h_le : w.length ≤ 1) :
    ∑ K, drainable q (lane w) K = w.length := by
  match w, h_le with
  | [], _ =>
      apply Finset.sum_eq_zero
      intro K _
      have h_bit : ¬ q.isMarked K = true := fun h_marked => (hq.marked K).mp h_marked rfl
      exact if_neg h_bit
  | [e], _ =>
      have h_level : ∀ K, drainable q (lane [e]) K = if e.2 = K then 1 else 0 := by
        intro K
        have h_bit := hq.marked K
        by_cases h_eq : e.2 = K
        · have h_lane : lane [e] K = [e.1] := by simp [lane, h_eq]
          rw [h_lane] at h_bit
          rw [drainable, if_pos (h_bit.mpr (List.cons_ne_nil _ _)), h_lane, if_pos h_eq]
          rfl
        · have h_lane : lane [e] K = [] := by simp [lane, h_eq]
          rw [h_lane] at h_bit
          rw [drainable, if_neg fun h_marked => h_bit.mp h_marked rfl, if_neg h_eq]
      rw [Finset.sum_congr rfl fun K _ => h_level K, Finset.sum_ite_eq]
      simp

/-- A drain and the pops after it: the first task that is dequeued is popped
    last. -/
theorem popAll_drainRunQueue (hq : RunQueue.Holds q w) (hd : Stealer.Holds n d [])
    (h_n : n + 32 * 2 ^ 32 < 2 ^ 62) :
    ∃ s, ∃ out : List Task, drainRunQueue ⟨q, d⟩ = some s ∧
      popAll s.worker = some out.reverse ∧ out.length = ∑ K, drainable q (lane w) K ∧
      ∀ task k, next w = some (task, k) → out.head? = some task := by
  have h_le : ∑ K, drainable q (lane w) K ≤ 32 * 2 ^ 32 := sum_drainable_le
  have h_fuel : ∑ K, drainable q (lane w) K < drainFuel := Nat.lt_succ_of_le h_le
  have h_layout : Stealer.DequeBuffer.LayoutFits Stealer.pointerSize
      (2 * (([] : List Task).length + ∑ K, drainable q (lane w) K)) := by
    have h_all : Stealer.DequeBuffer.LayoutFits Stealer.pointerSize (2 * (32 * 2 ^ 32)) := by
      decide
    apply h_all.mono
    rw [List.length_nil]
    omega
  obtain ⟨s, out, h_loop, h_length, h_holds, h_head⟩ :=
    drainLoop_eq hq.rep (fun L => (hq.marked L).mp) h_fuel hd (by omega) h_layout
  refine ⟨s, out, h_loop, popAll_eq h_holds (by omega), h_length, ?_⟩
  intro task k h_next
  have h_bits : q.occupancy ≠ 0 := by
    rw [Ne, hq.occupancy_eq_zero_iff, ← next_eq_none_iff, h_next]
    exact Option.some_ne_none _
  obtain ⟨task', rest, h_lane, h_next'⟩ := hq.highest h_bits
  rw [h_head h_bits, h_lane, List.head?_cons]
  rw [h_next'] at h_next
  exact congrArg some (congrArg Prod.fst (Option.some.inj h_next))

omit [DecidableEq Task] in
/-- The tasks by level are the queued tasks. -/
theorem perm_levelsDown (hq : RunQueue.Holds q w) :
    (byPriority levelsDown w).Nodup ∧ (byPriority levelsDown w).Perm (w.map Prod.fst) :=
  perm_byPriority (List.nodup_reverse.mpr (List.nodup_finRange 32))
    (fun K => List.mem_reverse.mpr (List.mem_finRange K))
    (fun K => (hq.rep.level K).nodup) hq.rep.disjoint

omit [DecidableEq Task] in
/-- The first of the tasks by level is the next one. -/
theorem head?_levelsDown {k : Level} (h_next : next w = some (task, k)) :
    (byPriority levelsDown w).head? = some task := by
  obtain ⟨⟨rest, h_lane⟩, h_high⟩ := lane_of_next h_next
  exact head?_byPriority (List.pairwise_reverse.mpr (List.pairwise_lt_finRange 32))
    (List.mem_reverse.mpr (List.mem_finRange k)) h_lane h_high

omit [DecidableEq Task] in
theorem eq_singleton_of_length_le_one {t : Task} (h_le : l.length ≤ 1) (h_head : l.head? = some t) :
    l = [t] := by
  match l, h_le with
  | [], _ => exact absurd h_head (by simp)
  | [x], _ => simpa using h_head

omit [DecidableEq Task] in
/-- A list without duplicates that ends with its first element has no other. -/
theorem length_le_one_of_head_eq_last {t : Task} (h_nodup : l.Nodup) (h_head : l.head? = some t)
    (h_last : l.getLast? = some t) : l.length ≤ 1 := by
  cases l with
  | nil => exact Nat.zero_le 1
  | cons x l =>
      obtain rfl : x = t := by simpa using h_head
      rcases List.eq_nil_or_concat' l with rfl | ⟨init, y, rfl⟩
      · exact le_rfl
      · rw [← List.cons_append, List.getLast?_concat] at h_last
        obtain rfl : y = x := by simpa using h_last
        exact absurd (List.mem_append_right init List.mem_cons_self) (List.nodup_cons.mp h_nodup).1

/-- The tasks of a run queue are polled in order exactly when there is one at
    most: the deque reverses what the drain has put into it. -/
theorem runsInOrder_iff (hq : RunQueue.Holds q w) (hd : Stealer.Holds n d [])
    (h_n : n + 32 * 2 ^ 32 < 2 ^ 62) : RunsInOrder ⟨q, d⟩ w ↔ w.length ≤ 1 := by
  obtain ⟨s, out, h_drain, h_pop, h_length, h_head⟩ := popAll_drainRunQueue hq hd h_n
  obtain ⟨h_nodup, h_perm⟩ := perm_levelsDown hq
  have h_served : (byPriority levelsDown w).length = w.length := by
    rw [h_perm.length_eq, List.length_map]
  have h_iff : RunsInOrder ⟨q, d⟩ w ↔ out.reverse = byPriority levelsDown w := by
    constructor
    · rintro ⟨s', h_drain', h_pop'⟩
      obtain rfl : s = s' := by simpa [h_drain] using h_drain'
      simpa [h_pop] using h_pop'
    · intro h_eq
      exact ⟨s, h_drain, by rw [h_pop, h_eq]⟩
  rw [h_iff]
  constructor
  · intro h_eq
    cases h_next : next w with
    | none => simp [next_eq_none_iff.mp h_next]
    | some e =>
        have h_last : (byPriority levelsDown w).getLast? = some e.1 := by
          rw [← h_eq, List.getLast?_reverse, h_head e.1 e.2 h_next]
        rw [← h_served]
        exact length_le_one_of_head_eq_last h_nodup (head?_levelsDown h_next) h_last
  · intro h_le
    rw [sum_drainable_of_length_le_one hq h_le] at h_length
    cases h_next : next w with
    | none =>
        obtain rfl := next_eq_none_iff.mp h_next
        rw [List.eq_nil_of_length_eq_zero h_length, List.eq_nil_of_length_eq_zero h_served,
          List.reverse_nil]
    | some e =>
        have h_first := h_head e.1 e.2 h_next
        have h_first' : (byPriority levelsDown w).head? = some e.1 := head?_levelsDown h_next
        rw [eq_singleton_of_length_le_one (h_length.trans_le h_le) h_first,
          eq_singleton_of_length_le_one (h_served.trans_le h_le) h_first', List.reverse_singleton]

theorem runsInOrder_one_task :
    RunsInOrder ⟨Queue.new.afterEnqueue 7 (priorityToLevel 0), Stealer.deque Nat⟩
      [(7, priorityToLevel 0)] := by
  have h_new : RunQueue.Holds (Queue.new : RunQueue.Queue Nat) [] := holds_new
  have h_holds := h_new.afterEnqueue (show 7 ∉ [] by simp) (priorityToLevel 0)
  exact (runsInOrder_iff h_holds Stealer.holds_deque (by decide)).mpr (by decide)

/-- Task 2 is queued at a higher level than task 1. -/
def twoLevels : RunQueue.Queue Nat :=
  (Queue.new.afterEnqueue 1 (priorityToLevel 0)).afterEnqueue 2 (priorityToLevel 5)

/-- Task 1 is polled first. -/
theorem twoLevels_runs_lower_first :
    RunQueue.Holds twoLevels [(1, priorityToLevel 0), (2, priorityToLevel 5)] ∧
      Stealer.Holds 0 (Stealer.deque Nat) [] ∧
      (drainRunQueue ⟨twoLevels, Stealer.deque Nat⟩).bind (fun s => popAll s.worker) =
        some [1, 2] ∧
      ¬ RunsInOrder ⟨twoLevels, Stealer.deque Nat⟩
        [(1, priorityToLevel 0), (2, priorityToLevel 5)] := by
  have h_runs : (drainRunQueue ⟨twoLevels, Stealer.deque Nat⟩).bind (fun s => popAll s.worker) =
      some [1, 2] := by
    decide +kernel
  refine ⟨?_, Stealer.holds_deque, h_runs, ?_⟩
  · exact (holds_new.afterEnqueue (by simp) _).afterEnqueue (by simp) _
  · rintro ⟨s, h_drain, h_pop⟩
    rw [h_drain, Option.bind_some, h_pop] at h_runs
    exact absurd h_runs (by decide)

end Executor
end Zydon
