/-
  Zydon.Task.RunQueue.Sequential

  The run queue without interference: complete calls of `enqueue` and `dequeue`,
  one after the other, in any order.

  What the calls mean is a FIFO for each level: the queued tasks with their
  levels, in the order of their enqueues, of which `dequeue` takes the first one
  of the highest level (`fifoCall`).  The memory agrees with it after every call
  (`Holds`), the bits and the length included, so that the calls are answered as
  there (`refines_fifos`).
-/

import Zydon.Lib.PriorityFifo
import Zydon.Task.RunQueue.Occupancy

namespace Zydon
namespace RunQueue

open Lib PriorityFifo

variable {Task : Type*}

-- ============================================================================
-- Complete calls
-- ============================================================================

/-- The calls; an `enqueue` with the priority its load finds, whatever is stored
    there later. -/
inductive Call (Task : Type*) where
  | enqueue (task : Task) (priority : BitVec 32)
  | dequeue
  deriving DecidableEq

/-- What a call answers. -/
inductive Answer (Task : Type*) where
  | enqueued
  | dequeued (result : Option Task)
  deriving DecidableEq

/-- The enqueuing core is in no call. -/
def EnqueuePc.isIdle : EnqueuePc Task → Bool
  | .idle => true
  | _ => false

/-- As many steps as a call takes, other than a `dequeue` that starts again. -/
def callFuel : Nat := 5

variable [DecidableEq Task]

/-- A call of `enqueue`, uninterrupted. -/
def enqueueCall (q : Queue Task) (task : Task) (priority : BitVec 32) : Option (Queue Task) :=
  match enqueueStep q .idle (.enqueue task priority.toInt) with
  | some (q, pc) => ((enqueuer Task).soloUntil EnqueuePc.isIdle .run callFuel q pc).map Prod.fst
  | none => none

/-- A call of `dequeue`, uninterrupted, with what it returns. -/
def dequeueCall (q : Queue Task) : Option (Option Task × Queue Task) :=
  match (dequeuer Task).soloUntil DequeuePc.isIdle .run callFuel q .loadOccupancy with
  | some (q, .idle (some result)) => some (result, q)
  | _ => none

/-- One call, with its answer. -/
def call (q : Queue Task) : Call Task → Option (Answer Task × Queue Task)
  | .enqueue task priority => (enqueueCall q task priority).map fun q => (.enqueued, q)
  | .dequeue => (dequeueCall q).map fun (result, q) => (.dequeued result, q)

/-- The queue, with the answers so far. -/
structure Session (Task : Type*) where
  queue : Queue Task
  answers : List (Answer Task)

/-- Sequences of calls. -/
def sequential (Task : Type*) [DecidableEq Task] : Machine (Session Task) (Call Task) where
  init := { queue := Queue.new, answers := [] }
  step := fun s a =>
    match call s.queue a with
    | some (answer, q) => some { queue := q, answers := s.answers ++ [answer] }
    | none => none

-- ============================================================================
-- The FIFOs
-- ============================================================================

/-- The queued tasks with their levels, in the order of their enqueues. -/
abbrev Waiting (Task : Type*) := List (Task × Level)

/-- What a call answers, and what it leaves, of the queued tasks `w`. -/
def fifoCall (w : Waiting Task) : Call Task → Answer Task × Waiting Task
  | .enqueue task priority => (.enqueued, w ++ [(task, priorityToLevel priority.toInt)])
  | .dequeue =>
      match next w with
      | none => (.dequeued none, w)
      | some e => (.dequeued (some e.1), w.erase e)

/-- The answers to a sequence of calls, and the tasks queued after it. -/
def fifoRun (w : Waiting Task) : List (Call Task) → List (Answer Task) × Waiting Task
  | [] => ([], w)
  | a :: calls =>
      let (answer, w) := fifoCall w a
      let (answers, w) := fifoRun w calls
      (answer :: answers, w)

/-- A `dequeue` returns `None` when nothing is queued. -/
theorem dequeued_none_iff (w : Waiting Task) :
    (fifoCall w .dequeue).1 = .dequeued none ↔ w = [] := by
  rw [← next_eq_none_iff, fifoCall]
  split
  · next h_none => simp [h_none]
  · next e h_some => simp [h_some]

/-- No call enqueues a task that is queued, and fewer than `2 ^ 32` tasks are
    queued at any time. -/
def Admissible (w : Waiting Task) : List (Call Task) → Prop
  | [] => True
  | a :: calls =>
      (match a with
        | .enqueue task _ => task ∉ w.map Prod.fst ∧ w.length + 1 < 2 ^ 32
        | .dequeue => True) ∧
        Admissible (fifoCall w a).2 calls

-- ============================================================================
-- The steps of a call
-- ============================================================================

variable {q q' : Queue Task} {L : Level} {task : Task} {w : Waiting Task}

/-- The queue after an `enqueue`. -/
def Queue.afterEnqueue (q : Queue Task) (task : Task) (L : Level) : Queue Task :=
  let q := (q.setQueued task true).push L task
  { q with occupancy := q.occupancy ||| levelBit L, len := q.len + 1 }

/-- The queue after a `dequeue` that has popped `task` from level `L`. -/
def Queue.afterPop (q : Queue Task) (L : Level) (task : Task) : Queue Task :=
  let q := q.setQueued task false
  if (q.levels L).isEmpty then
    { q with occupancy := q.occupancy &&& ~~~(levelBit L), len := q.len - 1 }
  else { q with len := q.len - 1 }

theorem enqueueCall_eq {priority : BitVec 32} (h_task : q.queued task = false) :
    enqueueCall q task priority =
      some (q.afterEnqueue task (priorityToLevel priority.toInt)) := by
  have h_start : enqueueStep q .idle (.enqueue task priority.toInt) =
      some (q.setQueued task true, .push task (priorityToLevel priority.toInt)) := by
    simp only [enqueueStep, h_task, Bool.false_eq_true, if_false]
  have h_solo : (enqueuer Task).Solo EnqueuePc.isIdle .run 3 (q.setQueued task true)
      (.push task (priorityToLevel priority.toInt))
      (q.afterEnqueue task (priorityToLevel priority.toInt)) .idle :=
    .step rfl rfl (.step rfl rfl (.step rfl rfl (.refl _ _)))
  have h_fuel : 3 ≤ callFuel := by decide
  rw [enqueueCall, h_start]
  simp only [h_solo.soloUntil rfl h_fuel, Option.map_some]

theorem dequeueCall_of_solo {k : Nat} {result : Option Task}
    (h_solo : (dequeuer Task).Solo DequeuePc.isIdle .run k q .loadOccupancy q'
      (.idle (some result))) (h_k : k ≤ callFuel) : dequeueCall q = some (result, q') := by
  rw [dequeueCall, h_solo.soloUntil rfl h_k]

/-- Nothing is dequeued while no bit is set. -/
theorem dequeueCall_none (h_zero : q.occupancy = 0) : dequeueCall q = some (none, q) := by
  have h_load : dequeueStep q .loadOccupancy .run = some (q, .idle (some none)) := by
    simp only [dequeueStep, h_zero, if_true]
  exact dequeueCall_of_solo (.step rfl h_load (.refl _ _)) (by decide)

/-- A task that is popped from the highest marked level is dequeued. -/
theorem dequeueCall_some (h_bits : q.occupancy ≠ 0)
    (h_pop : q.pop (highestLevel q.occupancy) = some (task, q')) :
    dequeueCall q = some (some task, q'.afterPop (highestLevel q.occupancy) task) := by
  set L := highestLevel q.occupancy with h_L
  have h_load : dequeueStep q .loadOccupancy .run = some (q, .pop L) := by
    simp only [dequeueStep, if_neg h_bits, h_L]
  have h_popped : dequeueStep q (.pop L) .run =
      some (q'.setQueued task false, .isEmpty L task) := by
    simp only [dequeueStep, h_pop]
  by_cases h_empty : ((q'.setQueued task false).levels L).isEmpty = true
  · have h_check : dequeueStep (q'.setQueued task false) (.isEmpty L task) .run =
        some (q'.setQueued task false, .fetchAnd L task) := by
      simp only [dequeueStep, h_empty, if_true]
    rw [Queue.afterPop, if_pos h_empty]
    exact dequeueCall_of_solo (.step rfl h_load (.step rfl h_popped (.step rfl h_check
      (.step rfl rfl (.step rfl rfl (.refl _ _)))))) (by decide)
  · have h_check : dequeueStep (q'.setQueued task false) (.isEmpty L task) .run =
        some (q'.setQueued task false, .lenSub task) := by
      simp only [dequeueStep, if_neg h_empty]
    rw [Queue.afterPop, if_neg h_empty]
    exact dequeueCall_of_solo (.step rfl h_load (.step rfl h_popped (.step rfl h_check
      (.step rfl rfl (.refl _ _))))) (by decide)

-- ============================================================================
-- The memory and the FIFOs
-- ============================================================================

omit [DecidableEq Task] in
/-- The highest marked level is the highest. -/
theorem Queue.le_highestLevel {L : Level} (h : q.isMarked L = true) :
    L ≤ highestLevel q.occupancy := by
  have h_bit : 2 ^ L.val ≤ q.occupancy.toNat := Nat.ge_two_pow_of_testBit h
  have h_clz : q.occupancy.toNat < 2 ^ (32 - q.occupancy.clz.toNat) :=
    BitVec.toNat_lt_two_pow_sub_clz
  have h_lt := (Nat.pow_lt_pow_iff_right Nat.one_lt_two).mp (h_bit.trans_lt h_clz)
  rw [Fin.le_def, highestLevel]
  show L.val ≤ 31 - q.occupancy.clz.toNat
  omega

/-- The memory of `q` is the FIFOs of the queued tasks `w`. -/
structure Holds (q : Queue Task) (w : Waiting Task) : Prop where
  rep : Rep q (lane w)
  queued : ∀ t, q.queued t = true ↔ t ∈ w.map Prod.fst
  marked : ∀ L, q.isMarked L = true ↔ lane w L ≠ []
  len : q.len = BitVec.ofNat 32 w.length

omit [DecidableEq Task] in
theorem holds_new : Holds (Queue.new : Queue Task) [] where
  rep := rep_new
  queued := by simp [Queue.new]
  marked := by
    intro L
    simp [Queue.isMarked, Queue.new, lane]
  len := rfl

omit [DecidableEq Task] in
theorem Holds.occupancy_eq_zero_iff (h : Holds q w) : q.occupancy = 0 ↔ w = [] := by
  constructor
  · intro h_zero
    rw [List.eq_nil_iff_forall_not_mem]
    intro e h_e
    have h_lane : lane w e.2 ≠ [] := fun h_nil => lane_eq_nil_iff.mp h_nil e h_e rfl
    have h_bit := (h.marked e.2).mpr h_lane
    rw [Queue.isMarked, h_zero] at h_bit
    exact absurd h_bit (by simp)
  · rintro rfl
    by_contra h_bits
    exact (h.marked _).mp (getLsbD_highestLevel h_bits) rfl

/-- An `enqueue` puts its task at the end of its level. -/
theorem Holds.afterEnqueue (h : Holds q w) (h_task : task ∉ w.map Prod.fst) (L : Level) :
    Holds (q.afterEnqueue task L) (w ++ [(task, L)]) := by
  have h_not : ∀ L', task ∉ lane w L' :=
    fun L' h_mem => h_task (mem_map_fst_iff.mpr ⟨L', h_mem⟩)
  have h_lanes : Function.update (lane w) L (lane w L ++ [task]) = lane (w ++ [(task, L)]) := by
    funext L'
    by_cases h_eq : L' = L
    · subst h_eq
      rw [Function.update_self, lane_append_self]
    · rw [Function.update_of_ne h_eq, lane_append_of_ne h_eq]
  constructor
  case rep =>
    have h_rep : Rep (q.setQueued task true) (lane w) := h.rep.congr rfl rfl
    have h_push := h_rep.push (L := L) h_not
    rw [h_lanes] at h_push
    exact h_push.congr rfl rfl
  case queued =>
    intro t
    show ((q.setQueued task true).push L task).queued t = true ↔ _
    rw [Queue.push_queued, List.map_append, List.mem_append, List.map_singleton,
      List.mem_singleton, ← h.queued]
    show Function.update q.queued task true t = true ↔ _
    rw [Function.update_apply]
    split
    · next h_eq => exact ⟨fun _ => .inr h_eq, fun _ => rfl⟩
    · next h_ne => exact ⟨.inl, fun h => h.resolve_right h_ne⟩
  case marked =>
    intro L'
    show (((q.setQueued task true).push L task).occupancy ||| levelBit L).getLsbD L'.val =
      true ↔ _
    rw [Queue.push_occupancy, getLsbD_or_levelBit, Bool.or_eq_true, decide_eq_true_eq,
      ← h_lanes]
    by_cases h_eq : L' = L
    · subst h_eq
      simp
    · rw [Function.update_of_ne h_eq, ← h.marked]
      exact or_iff_left h_eq
  case len =>
    show ((q.setQueued task true).push L task).len + 1 = _
    have h_len : ((q.setQueued task true).push L task).len = q.len := by
      simp only [Queue.push]
      split <;> rfl
    rw [h_len, h.len, List.length_append, List.length_singleton, BitVec.ofNat_add]
    rfl

theorem Holds.enqueue (h : Holds q w) (priority : BitVec 32) (h_task : task ∉ w.map Prod.fst) :
    ∃ q', call q (.enqueue task priority) = some (.enqueued, q') ∧
      Holds q' (w ++ [(task, priorityToLevel priority.toInt)]) := by
  have h_free : q.queued task = false := by
    rw [← Bool.not_eq_true, h.queued]
    exact h_task
  refine ⟨_, ?_, h.afterEnqueue h_task _⟩
  rw [call, enqueueCall_eq h_free]
  rfl

omit [DecidableEq Task] in
/-- A level is found to be empty by its count, which wraps. -/
theorem Rep.isEmpty_iff {l : Level → List Task} (h : Rep q l) (L : Level) :
    (q.levels L).isEmpty = true ↔ (l L).length % 2 ^ 32 = 0 := by
  rw [LevelQueue.isEmpty, (h.level L).count_eq, beq_iff_eq, ← BitVec.toNat_inj,
    BitVec.toNat_ofNat]
  rfl

theorem Queue.pop_len (h : q.pop L = some (task, q')) : q'.len = q.len := by
  simp only [Queue.pop] at h
  split at h
  · exact absurd h (by simp)
  · cases h
    rfl

/-- A `dequeue` takes the first task of the highest marked level, and leaves the
    bit of that level unless its count says that it is empty. -/
theorem Rep.dequeue {l : Level → List Task} {rest : List Task} (h : Rep q l)
    (h_bits : q.occupancy ≠ 0) (h_L : L = highestLevel q.occupancy) (h_cons : l L = task :: rest) :
    ∃ q', dequeueCall q = some (some task, q') ∧ Rep q' (Function.update l L rest) ∧
      q'.queued = Function.update q.queued task false ∧ q'.len = q.len - 1 ∧
      ∀ L', q'.isMarked L' = if L' = L then !(q'.levels L).isEmpty else q.isMarked L' := by
  obtain ⟨q₁, h_pop, h_rep, h_occupancy, h_queued⟩ := h.pop_cons h_cons
  have h_len := Queue.pop_len h_pop
  have h_bit : q.isMarked L = true := by
    rw [h_L]
    exact getLsbD_highestLevel h_bits
  have h_marked : q₁.isMarked = q.isMarked := by
    funext L'
    rw [Queue.isMarked, h_occupancy, Queue.isMarked]
  rw [h_L] at h_pop
  refine ⟨_, dequeueCall_some h_bits h_pop, ?_⟩
  rw [← h_L, Queue.afterPop]
  by_cases h_empty : ((q₁.setQueued task false).levels L).isEmpty = true
  · rw [if_pos h_empty]
    refine ⟨h_rep.congr rfl rfl, ?_, ?_, ?_⟩
    · show Function.update q₁.queued task false = _
      rw [h_queued]
    · show q₁.len - 1 = _
      rw [h_len]
    · intro L'
      show (q₁.occupancy &&& ~~~(levelBit L)).getLsbD L'.val = if L' = L then
        !((q₁.setQueued task false).levels L).isEmpty else q.isMarked L'
      rw [getLsbD_and_not_levelBit, h_empty, h_occupancy]
      split
      · next h_eq => simp [h_eq]
      · next h_ne => simp [h_ne, Queue.isMarked]
  · rw [if_neg h_empty]
    refine ⟨h_rep.congr rfl rfl, ?_, ?_, ?_⟩
    · show Function.update q₁.queued task false = _
      rw [h_queued]
    · show q₁.len - 1 = _
      rw [h_len]
    · intro L'
      show q₁.isMarked L' = if L' = L then
        !((q₁.setQueued task false).levels L).isEmpty else q.isMarked L'
      rw [h_marked, Bool.eq_false_of_not_eq_true h_empty]
      split
      · next h_eq => rw [h_eq, h_bit, Bool.not_false]
      · rfl

omit [DecidableEq Task] in
/-- The highest marked level has the next task. -/
theorem Holds.highest (h : Holds q w) (h_bits : q.occupancy ≠ 0) :
    ∃ task rest, lane w (highestLevel q.occupancy) = task :: rest ∧
      next w = some (task, highestLevel q.occupancy) := by
  obtain ⟨task, rest, h_lane⟩ := List.exists_cons_of_ne_nil
    ((h.marked _).mp (getLsbD_highestLevel h_bits))
  refine ⟨task, rest, h_lane, next_of_lane h_lane ?_⟩
  intro e h_e
  have h_ne : lane w e.2 ≠ [] := fun h_nil => lane_eq_nil_iff.mp h_nil e h_e rfl
  exact Queue.le_highestLevel ((h.marked e.2).mpr h_ne)

/-- A `dequeue` takes the next task. -/
theorem Holds.dequeue (h : Holds q w) (h_len : w.length < 2 ^ 32) :
    ∃ q', call q .dequeue = some ((fifoCall w .dequeue).1, q') ∧
      Holds q' (fifoCall w .dequeue).2 := by
  by_cases h_bits : q.occupancy = 0
  · obtain rfl := h.occupancy_eq_zero_iff.mp h_bits
    refine ⟨q, ?_, h⟩
    rw [call, dequeueCall_none h_bits]
    rfl
  obtain ⟨task, rest, h_lane, h_next⟩ := h.highest h_bits
  set L := highestLevel q.occupancy with h_L
  obtain ⟨q', h_call, h_rep, h_queued, h_len', h_marked⟩ := h.rep.dequeue h_bits h_L h_lane
  have h_mem : (task, L) ∈ w := mem_lane.mp (by rw [h_lane]; exact List.mem_cons_self)
  have h_lanes : Function.update (lane w) L rest = lane (w.erase (task, L)) := by
    funext L'
    by_cases h_eq : L' = L
    · subst h_eq
      rw [Function.update_self, lane_erase_self h_lane]
    · rw [Function.update_of_ne h_eq, lane_erase_of_ne h_eq]
  have h_fifo : fifoCall w .dequeue = (.dequeued (some task), w.erase (task, L)) := by
    simp only [fifoCall, h_next]
  rw [h_fifo]
  rw [h_lanes] at h_rep
  refine ⟨q', ?_, ?_⟩
  · rw [call, h_call]
    rfl
  · constructor
    case rep => exact h_rep
    case queued =>
      intro t
      rw [h_queued, mem_map_fst_iff, ← h_lanes, Function.exists_update_iff _ fun _ x => t ∈ x]
      have h_nodup := (h.rep.level L).nodup
      rw [h_lane, List.nodup_cons] at h_nodup
      by_cases h_t : t = task
      · subst h_t
        rw [Function.update_self]
        refine ⟨fun h => absurd h Bool.false_ne_true, ?_⟩
        rintro (h_rest | ⟨L', h_ne, h_t⟩)
        · exact absurd h_rest h_nodup.1
        · exact absurd (h.rep.disjoint L' L t h_t (by rw [h_lane]; exact List.mem_cons_self)) h_ne
      · rw [Function.update_of_ne h_t, h.queued, mem_map_fst_iff]
        constructor
        · rintro ⟨L', h_mem'⟩
          by_cases h_eq : L' = L
          · subst h_eq
            rw [h_lane, List.mem_cons] at h_mem'
            exact .inl (h_mem'.resolve_left h_t)
          · exact .inr ⟨L', h_eq, h_mem'⟩
        · rintro (h_rest | ⟨L', -, h_mem'⟩)
          · exact ⟨L, by rw [h_lane]; exact List.mem_cons_of_mem task h_rest⟩
          · exact ⟨L', h_mem'⟩
    case marked =>
      intro L'
      rw [h_marked]
      split
      · next h_eq =>
          have h_lt : (lane (w.erase (task, L)) L).length < 2 ^ 32 := by
            have h_lane_le := List.length_filter_le (fun e => decide (e.2 = L)) (w.erase (task, L))
            have h_erase_le := List.length_erase_le (a := (task, L)) (l := w)
            rw [lane, List.length_map]
            omega
          rw [h_eq, Bool.not_eq_true', ← Bool.not_eq_true, h_rep.isEmpty_iff,
            Nat.mod_eq_of_lt h_lt, List.length_eq_zero_iff]
      · next h_ne => rw [h.marked, lane_erase_of_ne h_ne]
    case len =>
      have h_pos : w.length = (w.erase (task, L)).length + 1 :=
        (List.length_erase_add_one h_mem).symm
      rw [h_len', h.len, h_pos, BitVec.ofNat_add]
      exact BitVec.add_sub_cancel _ _

-- ============================================================================
-- Sequences of calls
-- ============================================================================

/-- A call does to the queue what it does to the FIFOs. -/
theorem Holds.call {a : Call Task} {calls : List (Call Task)} (h : Holds q w)
    (h_len : w.length < 2 ^ 32) (h_adm : Admissible w (a :: calls)) :
    ∃ q', RunQueue.call q a = some ((fifoCall w a).1, q') ∧ Holds q' (fifoCall w a).2 ∧
      (fifoCall w a).2.length < 2 ^ 32 := by
  cases a with
  | enqueue task priority =>
      obtain ⟨⟨h_task, h_room⟩, -⟩ := h_adm
      obtain ⟨q', h_call, h'⟩ := h.enqueue priority h_task
      refine ⟨q', h_call, h', ?_⟩
      show (w ++ [_]).length < 2 ^ 32
      rwa [List.length_append, List.length_singleton]
  | dequeue =>
      obtain ⟨q', h_call, h'⟩ := h.dequeue h_len
      refine ⟨q', h_call, h', ?_⟩
      have h_erase := fun e => List.length_erase_le (a := e) (l := w)
      simp only [fifoCall]
      split
      · exact h_len
      · exact (h_erase _).trans_lt h_len

/-- The calls of a session return, and answer what they do on the FIFOs. -/
theorem Holds.exec {calls : List (Call Task)} (h : Holds q w) (h_len : w.length < 2 ^ 32)
    (h_adm : Admissible w calls) (answers : List (Answer Task)) :
    ∃ s, (sequential Task).exec ⟨q, answers⟩ calls = some s ∧
      s.answers = answers ++ (fifoRun w calls).1 ∧ Holds s.queue (fifoRun w calls).2 ∧
      (fifoRun w calls).2.length < 2 ^ 32 := by
  induction calls generalizing q w answers with
  | nil => exact ⟨_, rfl, (List.append_nil _).symm, h, h_len⟩
  | cons a calls ih =>
      obtain ⟨q', h_call, h', h_len'⟩ := h.call h_len h_adm
      obtain ⟨s, h_run, h_answers, h_holds, h_bound⟩ :=
        ih h' h_len' h_adm.2 (answers ++ [(fifoCall w a).1])
      refine ⟨s, Machine.exec_cons_eq_some.mpr ⟨_, ?_, h_run⟩, ?_, h_holds, h_bound⟩
      · simp only [sequential, h_call]
      · rw [h_answers, List.append_assoc]
        rfl

/-- Every sequence of complete calls runs to its end and is answered as by a
    FIFO for each level; after it the next `dequeue` returns `None` when nothing
    is queued, the bits say which levels have a task, and `len` how many tasks
    are queued. -/
theorem refines_fifos {calls : List (Call Task)} (h_adm : Admissible [] calls) :
    ∃ s, (sequential Task).exec (sequential Task).init calls = some s ∧
      s.answers = (fifoRun [] calls).1 ∧
      ((fifoCall (fifoRun [] calls).2 .dequeue).1 = .dequeued none ↔ (fifoRun [] calls).2 = []) ∧
      (∀ L, s.queue.isMarked L = true ↔ (s.queue.levels L).head.isSome) ∧
      (∀ L, s.queue.isMarked L = true ↔ ∃ e ∈ (fifoRun [] calls).2, e.2 = L) ∧
      s.queue.len.toNat = (fifoRun [] calls).2.length := by
  have h_zero : ([] : Waiting Task).length < 2 ^ 32 := Nat.two_pow_pos 32
  obtain ⟨s, h_run, h_answers, h, h_len⟩ := holds_new.exec h_zero h_adm []
  refine ⟨s, h_run, h_answers, dequeued_none_iff _, fun L => ?_, fun L => ?_, ?_⟩
  · rw [h.marked, h.rep.head_isSome_iff]
  · rw [h.marked, Ne, lane_eq_nil_iff]
    simp only [ne_eq, not_forall, not_not, exists_prop]
  · rw [h.len, BitVec.toNat_ofNat, Nat.mod_eq_of_lt h_len]

/-- Three tasks, the second above the others, and one `dequeue` too many. -/
def mixedCalls : List (Call Nat) :=
  [.enqueue 1 0, .enqueue 2 5, .enqueue 3 0, .dequeue, .dequeue, .dequeue, .dequeue]

example : (fifoRun [] mixedCalls).1 = [.enqueued, .enqueued, .enqueued, .dequeued (some 2),
    .dequeued (some 1), .dequeued (some 3), .dequeued none] := by
  decide

theorem refines_mixedCalls :
    ∃ s, (sequential Nat).exec (sequential Nat).init mixedCalls = some s ∧
      s.answers = (fifoRun [] mixedCalls).1 := by
  have h_adm : Admissible [] mixedCalls := by
    simp [Admissible, mixedCalls, fifoCall]
  obtain ⟨s, h_run, h_answers, -⟩ := refines_fifos h_adm
  exact ⟨s, h_run, h_answers⟩

end RunQueue
end Zydon
