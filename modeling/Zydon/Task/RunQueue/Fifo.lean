/-
  Zydon.Task.RunQueue.Fifo

  What the run queue does to the tasks that go through it, over every interleaving of
  cores in `enqueue`, each with a task that is not queued, with the one in `dequeue`,
  whatever becomes of `occupancy`.

  The pushes and the pops of a run are recorded in their order.  Each level hands out
  its tasks in the order in which they were pushed, each push once, and `len` is the
  number of tasks that are queued, but for the calls that have not counted theirs yet.
-/

import Zydon.Lib.History
import Zydon.Lib.PriorityFifo
import Zydon.Lib.Tally
import Zydon.Task.RunQueue.Occupancy

namespace Zydon
namespace RunQueue

open Lib PriorityFifo

variable {Core Task : Type*}

-- ============================================================================
-- The record of a run
-- ============================================================================

/-- The pushes and the pops, with their levels, and what `dequeue` has returned. -/
structure Traffic (Task : Type*) where
  pushed : List (Task × Level)
  popped : List (Task × Level)
  returned : List Task

section Model

variable [DecidableEq Core] [DecidableEq Task]

/-- A push, a pop or the return of a call is recorded. -/
def note (s : State Core Task) (a : DequeueAction ⊕ Core × EnqueueAction Task)
    (s' : State Core Task) (r : Traffic Task) : Traffic Task :=
  match a with
  | .inl _ =>
      match s.owner, s'.owner with
      | .pop _, .isEmpty level task => { r with popped := r.popped ++ [(task, level)] }
      | .lenSub task, .idle _ => { r with returned := r.returned ++ [task] }
      | _, _ => r
  | .inr (c, _) =>
      match s.thread c with
      | .push task level => { r with pushed := r.pushed ++ [(task, level)] }
      | _ => r

end Model

/-- The core has pushed a task that it has not counted. -/
def EnqueuePc.uncounted : EnqueuePc Task → Nat
  | .fetchOr _ | .lenAdd => 1
  | .idle | .push _ _ => 0

/-- The task that the dequeuing core has popped, and is still counted. -/
def DequeuePc.popping : DequeuePc Task → Option Task
  | .isEmpty _ task | .fetchAnd _ task | .lenSub task => some task
  | .idle _ | .loadOccupancy | .pop _ => none

@[simp] theorem popping_pop (L : Level) : (DequeuePc.pop L : DequeuePc Task).popping = none := rfl

@[simp] theorem popping_isEmpty (L : Level) (task : Task) :
    (DequeuePc.isEmpty L task).popping = some task := rfl

@[simp] theorem popping_lenSub (task : Task) : (DequeuePc.lenSub task).popping = some task := rfl

@[simp] theorem popping_idle (result : Option (Option Task)) :
    (DequeuePc.idle result).popping = none := rfl

variable [DecidableEq Task] {q q' : Queue Task} {thread : Core → EnqueuePc Task}
  {owner owner' : DequeuePc Task} {l : Level → List Task} {c : Core} {pc : EnqueuePc Task}
  {r : Traffic Task}

/-- What an operation of an enqueuing core does to the lists and the count. -/
inductive EnqueueEffect (q : Queue Task) (l : Level → List Task) :
    EnqueuePc Task → Queue Task → (Level → List Task) → EnqueuePc Task → Prop
  | pushed (task : Task) (L : Level) (q' : Queue Task) : q'.len = q.len →
      EnqueueEffect q l (.push task L) q' (Function.update l L (l L ++ [task])) (.fetchOr L)
  | counted (q' : Queue Task) : q'.len = q.len + 1 → EnqueueEffect q l .lenAdd q' l .idle
  | other {pc pc' : EnqueuePc Task} (q' : Queue Task) : (∀ task L, pc ≠ .push task L) →
      pc'.uncounted = pc.uncounted → q'.len = q.len → EnqueueEffect q l pc q' l pc'

/-- What an operation of the dequeuing core does to them. -/
inductive DequeueEffect (q : Queue Task) (l : Level → List Task) :
    DequeuePc Task → Queue Task → (Level → List Task) → DequeuePc Task → Prop
  | popped (task : Task) (L : Level) (rest : List Task) (q' : Queue Task) : l L = task :: rest →
      q'.len = q.len →
      DequeueEffect q l (.pop L) q' (Function.update l L rest) (.isEmpty L task)
  | returned (task : Task) (q' : Queue Task) : q'.len = q.len - 1 →
      DequeueEffect q l (.lenSub task) q' l (.idle (some (some task)))
  | other {pc pc' : DequeuePc Task} (q' : Queue Task) :
      (∀ L L' task, ¬ (pc = .pop L ∧ pc' = .isEmpty L' task)) →
      (∀ task result, ¬ (pc = .lenSub task ∧ pc' = .idle result)) →
      pc'.popping = pc.popping → q'.len = q.len → DequeueEffect q l pc q' l pc'

theorem push_len (q : Queue Task) (L : Level) (task : Task) : (q.push L task).len = q.len := by
  rw [Queue.push]
  split <;> rfl

theorem pop_len {L : Level} {task : Task} {x : Queue Task} (h : q.pop L = some (task, x)) :
    x.len = q.len := by
  simp only [Queue.pop] at h
  split at h <;> cases h
  rfl

variable [DecidableEq Core]

theorem Inv.enqueue_effect {b : EnqueueAction Task} (h : Inv q thread l)
    (h_step : enqueueStep q (thread c) b = some (q', pc)) :
    ∃ l', Inv q' (Function.update thread c pc) l' ∧
      EnqueueEffect q l (thread c) q' l' pc := by
  cases h_pc : thread c <;> cases b <;>
    simp only [enqueueStep, h_pc, reduceCtorEq, Option.some.injEq] at h_step
  case idle.enqueue task priority =>
    split at h_step <;> cases h_step
    next h_task =>
    exact ⟨l, h.start h_pc h_task, .other _ (by simp) rfl rfl⟩
  case push.run task L =>
    cases h_step
    exact ⟨_, h.push h_pc, .pushed task L _ (push_len q L task)⟩
  case fetchOr.run L =>
    cases h_step
    exact ⟨l, h.setThread rfl rfl rfl (by simp [h_pc]) (by simp), .other _ (by simp) rfl rfl⟩
  case lenAdd.run =>
    cases h_step
    exact ⟨l, h.setThread rfl rfl rfl (by simp [h_pc]) (by simp), .counted _ rfl⟩

omit [DecidableEq Core] in
theorem Inv.dequeue_effect {a : DequeueAction} (h : Inv q thread l)
    (h_step : dequeueStep q owner a = some (q', owner')) :
    ∃ l', Inv q' thread l' ∧ DequeueEffect q l owner q' l' owner' := by
  cases owner <;> cases a <;>
    simp only [dequeueStep, reduceCtorEq, Option.some.injEq] at h_step
  case idle.dequeue result =>
    cases h_step
    exact ⟨l, h, .other _ (by simp) (by simp) rfl rfl⟩
  case loadOccupancy.run =>
    split at h_step <;> cases h_step <;> exact ⟨l, h, .other _ (by simp) (by simp) rfl rfl⟩
  case pop.run L =>
    cases h_l : l L with
    | nil =>
        rw [h.rep.pop_nil h_l] at h_step
        cases h_step
        exact ⟨l, h, .other _ (by simp) (by simp) rfl rfl⟩
    | cons task rest =>
        obtain ⟨q₁, h_pop, -, h_inv⟩ := h.pop h_l
        rw [h_pop] at h_step
        cases h_step
        exact ⟨_, h_inv, .popped task L rest (q₁.setQueued task false) h_l
          (pop_len (x := q₁) h_pop)⟩
  case isEmpty.run L task =>
    split at h_step <;> cases h_step <;> exact ⟨l, h, .other _ (by simp) (by simp) rfl rfl⟩
  case fetchAnd.run L task =>
    cases h_step
    exact ⟨l, h.congr rfl rfl rfl, .other _ (by simp) (by simp) rfl rfl⟩
  case lenSub.run task =>
    cases h_step
    exact ⟨l, h.congr rfl rfl rfl, .returned task _ rfl⟩

-- ============================================================================
-- The invariant
-- ============================================================================

section Lists

omit [DecidableEq Task] [DecidableEq Core]

variable {pushed popped : List (Task × Level)} {L : Level} {task : Task}

/-- A task is pushed to a level. -/
theorem levels_push (h : ∀ L, lane pushed L = lane popped L ++ l L) (L' : Level) :
    lane (pushed ++ [(task, L)]) L' =
      lane popped L' ++ Function.update l L (l L ++ [task]) L' := by
  by_cases h_L : L' = L
  · subst h_L
    rw [lane_append_self, Function.update_self, h L', List.append_assoc]
  · rw [lane_append_of_ne h_L, Function.update_of_ne h_L, h L']

/-- The first task of a level is popped. -/
theorem levels_pop {rest : List Task} (h : ∀ L, lane pushed L = lane popped L ++ l L)
    (h_l : l L = task :: rest) (L' : Level) :
    lane pushed L' = lane (popped ++ [(task, L)]) L' ++ Function.update l L rest L' := by
  by_cases h_L : L' = L
  · subst h_L
    rw [lane_append_self, Function.update_self, h L', h_l, List.append_assoc]
    rfl
  · rw [lane_append_of_ne h_L, Function.update_of_ne h_L, h L']

/-- The number of tasks when one level changes. -/
theorem sum_length_update (l : Level → List Task) (L : Level) (x : List Task) :
    ∑ L', (Function.update l L x L').length + (l L).length = ∑ L', (l L').length + x.length :=
  sum_update_add List.length l L x

end Lists

section Count

variable {x : BitVec 32} {n m : Nat}

theorem count_add (h : x + BitVec.ofNat 32 (n + 1) = BitVec.ofNat 32 m) :
    x + 1 + BitVec.ofNat 32 n = BitVec.ofNat 32 m := by
  rw [← h, BitVec.ofNat_add, BitVec.add_assoc, BitVec.add_comm (BitVec.ofNat 32 n)]
  rfl

theorem count_both (h : x + BitVec.ofNat 32 n = BitVec.ofNat 32 m) :
    x + BitVec.ofNat 32 (n + 1) = BitVec.ofNat 32 (m + 1) := by
  rw [BitVec.ofNat_add, BitVec.ofNat_add, ← h, BitVec.add_assoc]

theorem count_sub (h : x + BitVec.ofNat 32 n = BitVec.ofNat 32 (m + 1)) :
    x - 1 + BitVec.ofNat 32 n = BitVec.ofNat 32 m := by
  rw [BitVec.ofNat_add] at h
  bv_omega

end Count

/-- What the lists, the record and the counts have to do with each other. -/
structure TrafficInv [Fintype Core] (q : Queue Task) (owner : DequeuePc Task)
    (thread : Core → EnqueuePc Task) (r : Traffic Task) (l : Level → List Task) : Prop where
  inv : Inv q thread l
  levels : ∀ L, lane r.pushed L = lane r.popped L ++ l L
  returned : r.popped.map Prod.fst = r.returned ++ owner.popping.toList
  /-- Some tasks are on a level and not counted yet, and one is still counted and not
      on a level any more. -/
  len : q.len + BitVec.ofNat 32 (∑ c, (thread c).uncounted) =
    BitVec.ofNat 32 (∑ L, (l L).length + owner.popping.toList.length)

variable [Fintype Core]

/-- An operation of an enqueuing core. -/
theorem TrafficInv.enqueue {b : EnqueueAction Task} (h : TrafficInv q owner thread r l)
    (h_step : enqueueStep q (thread c) b = some (q', pc)) :
    ∃ l', TrafficInv q' owner (Function.update thread c pc)
      (note ⟨q, owner, thread⟩ (.inr (c, b)) ⟨q', owner, Function.update thread c pc⟩ r) l' := by
  obtain ⟨l', h_inv, h_effect⟩ := h.inv.enqueue_effect h_step
  refine ⟨l', ?_⟩
  have h_len := h.len
  have h_sum := sum_update_add EnqueuePc.uncounted thread c pc
  generalize h_pc : thread c = old at h_effect h_sum
  cases h_effect with
  | pushed task L x h_x =>
      have h_note : note ⟨q, owner, thread⟩ (.inr (c, b))
          ⟨q', owner, Function.update thread c (.fetchOr L)⟩ r =
            { r with pushed := r.pushed ++ [(task, L)] } := by
        simp only [note, h_pc]
      have h_total := sum_length_update l L (l L ++ [task])
      rw [List.length_append, List.length_singleton] at h_total
      replace h_total : ∑ L', (Function.update l L (l L ++ [task]) L').length =
          ∑ L', (l L').length + 1 := by omega
      replace h_sum : ∑ i, (Function.update thread c (.fetchOr L) i).uncounted =
          ∑ i, (thread i).uncounted + 1 := h_sum
      rw [h_note]
      refine ⟨h_inv, levels_push h.levels, h.returned, ?_⟩
      rw [h_total, h_sum, h_x, Nat.add_right_comm]
      exact count_both h_len
  | counted x h_x =>
      have h_note : note ⟨q, owner, thread⟩ (.inr (c, b))
          ⟨q', owner, Function.update thread c .idle⟩ r = r := by
        simp only [note, h_pc]
      replace h_sum : ∑ i, (Function.update thread c .idle i).uncounted + 1 =
          ∑ i, (thread i).uncounted := h_sum
      rw [h_note]
      refine ⟨h_inv, h.levels, h.returned, ?_⟩
      rw [← h_sum] at h_len
      rw [h_x]
      exact count_add h_len
  | other x h_not h_same h_x =>
      have h_note : note ⟨q, owner, thread⟩ (.inr (c, b))
          ⟨q', owner, Function.update thread c pc⟩ r = r := by
        simp only [note]
        split
        · next task L h_push => exact absurd (h_pc.symm.trans h_push) (h_not task L)
        · rfl
      rw [h_note]
      refine ⟨h_inv, h.levels, h.returned, ?_⟩
      rw [h_same] at h_sum
      rw [h_x, Nat.add_right_cancel h_sum]
      exact h_len

omit [DecidableEq Core] in
/-- An operation of the dequeuing core. -/
theorem TrafficInv.dequeue {a : DequeueAction}
    (h : TrafficInv q owner thread r l) (h_step : dequeueStep q owner a = some (q', owner')) :
    ∃ l', TrafficInv q' owner' thread
      (note ⟨q, owner, thread⟩ (.inl a) ⟨q', owner', thread⟩ r) l' := by
  obtain ⟨l', h_inv, h_effect⟩ := h.inv.dequeue_effect h_step
  refine ⟨l', ?_⟩
  have h_len := h.len
  have h_returned := h.returned
  cases h_effect with
  | popped task L rest x h_l h_x =>
      have h_total := sum_length_update l L rest
      rw [h_l, List.length_cons] at h_total
      replace h_total : ∑ L', (l L').length =
          ∑ L', (Function.update l L rest L').length + 1 := by omega
      refine ⟨h_inv, levels_pop h.levels h_l, ?_, ?_⟩
      · simpa [note, DequeuePc.popping] using h_returned
      · rw [popping_pop, Option.toList_none, List.length_nil, Nat.add_zero, h_total] at h_len
        rw [h_x, popping_isEmpty, Option.toList_some, List.length_singleton]
        exact h_len
  | returned task x h_x =>
      refine ⟨h_inv, h.levels, ?_, ?_⟩
      · simpa [note, DequeuePc.popping] using h_returned
      · rw [popping_lenSub, Option.toList_some, List.length_singleton] at h_len
        rw [h_x, popping_idle, Option.toList_none, List.length_nil, Nat.add_zero]
        exact count_sub h_len
  | other x h_pop h_return h_same h_x =>
      have h_note : note ⟨q, owner, thread⟩ (.inl a) ⟨q', owner', thread⟩ r = r := by
        simp only [note]
        split
        · exact absurd ⟨rfl, rfl⟩ (h_pop _ _ _)
        · exact absurd ⟨rfl, rfl⟩ (h_return _ _)
        · rfl
      rw [h_note]
      refine ⟨h_inv, h.levels, by rw [h_same]; exact h_returned, ?_⟩
      rw [h_x, h_same]
      exact h_len

-- ============================================================================
-- Runs
-- ============================================================================

end RunQueue
end Zydon
