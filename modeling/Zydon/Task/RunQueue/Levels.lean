/-
  Zydon.Task.RunQueue.Levels

  `Rep q l`: the memory of the run queue `q` is, for each level, the linked list
  `l level`, and no task is on two levels.

  A push appends a task to the list of one level and a pop takes the first one
  of it; each leaves the lists of the other levels, and the rest of the queue,
  as they are.
-/

import Zydon.Lib.PointerList
import Zydon.Task.RunQueue.Basic

namespace Zydon
namespace RunQueue

open Lib

variable {Task : Type*} {next next' : Task → Option Task} {x : LevelQueue Task}

-- ============================================================================
-- One level
-- ============================================================================

/-- The memory of the level `x` is the list `l`. -/
structure LevelQueue.Rep (next : Task → Option Task) (x : LevelQueue Task) (l : List Task) :
    Prop where
  forward : Seg next x.head l none
  tail_eq : x.tail = l.getLast?
  count_eq : x.count = BitVec.ofNat 32 l.length
  nodup : l.Nodup

namespace LevelQueue

variable {l : List Task}

/-- A level only reads the field of its own tasks. -/
theorem Rep.congr (h : Rep next x l) (h_eq : ∀ t ∈ l, next' t = next t) : Rep next' x l where
  forward := h.forward.congr h_eq
  tail_eq := h.tail_eq
  count_eq := h.count_eq
  nodup := h.nodup

theorem Rep.head_eq (h : Rep next x l) : x.head = l.head? := by
  simpa using h.forward.start_eq

/-- An empty level is found to be empty. -/
theorem Rep.isEmpty_of_nil (h : Rep next x []) : x.isEmpty = true := by
  rw [isEmpty, h.count_eq]
  rfl

/-- The only task of a level. -/
theorem Rep.singleton {task : Task} (h_next : next task = none) {n : BitVec 32} (h_n : n = 1) :
    Rep next ⟨some task, some task, n⟩ [task] where
  forward := ⟨rfl, h_next⟩
  tail_eq := rfl
  count_eq := h_n
  nodup := List.nodup_singleton task

/-- A task is linked behind the last one. -/
theorem Rep.concat {last task : Task} (h : Rep next x (l ++ [last])) (h_task : task ∉ l ++ [last])
    (h_last : next' last = some task) (h_end : next' task = none)
    (h_eq : ∀ t ∈ l, next' t = next t) :
    Rep next' { x with tail := some task, count := x.count + 1 } (l ++ [last] ++ [task]) where
  forward := by
    refine Seg.append_iff.mpr ⟨some task, ?_, rfl, h_end⟩
    rw [← h_last]
    exact h.forward.redirect_last h_eq
  tail_eq := by simp
  count_eq := by
    have h_length : (l ++ [last] ++ [task]).length = (l ++ [last]).length + 1 := by simp
    show x.count + 1 = _
    rw [h.count_eq, h_length, BitVec.ofNat_add]
    rfl
  nodup := by
    rw [List.nodup_append]
    refine ⟨h.nodup, List.nodup_singleton task, ?_⟩
    intro t h_t u h_u
    obtain rfl : u = task := by simpa using h_u
    rintro rfl
    exact h_task h_t

/-- The first task is unlinked. -/
theorem Rep.tail {task : Task} (h : Rep next x (task :: l)) (h_eq : ∀ t ∈ l, next' t = next t) :
    Rep next' ⟨next task, if (next task).isNone then none else x.tail, x.count - 1⟩ l where
  forward := h.forward.2.congr h_eq
  tail_eq := by
    have h_next : next task = l.head? := by simpa using h.forward.2.start_eq
    rw [h_next, h.tail_eq]
    cases l with
    | nil => rfl
    | cons t l => simp
  count_eq := by
    show x.count - 1 = _
    rw [h.count_eq, List.length_cons, BitVec.ofNat_add]
    exact BitVec.add_sub_cancel _ _
  nodup := (List.nodup_cons.mp h.nodup).2

end LevelQueue

-- ============================================================================
-- The levels of a queue
-- ============================================================================

variable {q : Queue Task} {l : Level → List Task}

/-- The memory of the levels of `q` is the lists `l`. -/
structure Rep (q : Queue Task) (l : Level → List Task) : Prop where
  level : ∀ L, (q.levels L).Rep q.runQueueNext (l L)
  disjoint : ∀ L L' t, t ∈ l L → t ∈ l L' → L = L'

theorem rep_new : Rep (Queue.new : Queue Task) fun _ => [] where
  level := fun _ => ⟨rfl, rfl, rfl, List.nodup_nil⟩
  disjoint := by simp

/-- The lists only depend on the levels and the links. -/
theorem Rep.congr {q' : Queue Task} (h : Rep q l) (h_levels : q'.levels = q.levels)
    (h_next : q'.runQueueNext = q.runQueueNext) : Rep q' l where
  level := by
    rw [h_levels, h_next]
    exact h.level
  disjoint := h.disjoint

/-- A level has a head when its list is not empty. -/
theorem Rep.head_isSome_iff (h : Rep q l) (L : Level) : (q.levels L).head.isSome ↔ l L ≠ [] := by
  rw [(h.level L).head_eq, List.isSome_head?]

theorem Rep.head_isNone_iff (h : Rep q l) (L : Level) : (q.levels L).head.isNone ↔ l L = [] := by
  rw [(h.level L).head_eq, Option.isNone_iff_eq_none, List.head?_eq_none_iff]

/-- The lists when one level changes, and of the links only some. -/
theorem Rep.update {q' : Queue Task} {L : Level} {l' : List Task} (h : Rep q l)
    (h_levels : ∀ L', L' ≠ L → q'.levels L' = q.levels L')
    (h_level : (q'.levels L).Rep q'.runQueueNext l')
    (h_next : ∀ L', L' ≠ L → ∀ t ∈ l L', q'.runQueueNext t = q.runQueueNext t)
    (h_new : ∀ L', L' ≠ L → ∀ t ∈ l', t ∉ l L') : Rep q' (Function.update l L l') where
  level := by
    rw [Function.forall_update_iff l fun L x => (q'.levels L).Rep q'.runQueueNext x]
    refine ⟨h_level, ?_⟩
    intro L' h_ne
    rw [h_levels L' h_ne]
    exact (h.level L').congr (h_next L' h_ne)
  disjoint := by
    intro L₁ L₂ t h₁ h₂
    by_cases h₁' : L₁ = L <;> by_cases h₂' : L₂ = L
    · rw [h₁', h₂']
    · subst h₁'
      rw [Function.update_self] at h₁
      rw [Function.update_of_ne h₂'] at h₂
      exact absurd h₂ (h_new L₂ h₂' t h₁)
    · subst h₂'
      rw [Function.update_self] at h₂
      rw [Function.update_of_ne h₁'] at h₁
      exact absurd h₁ (h_new L₁ h₁' t h₂)
    · rw [Function.update_of_ne h₁'] at h₁
      rw [Function.update_of_ne h₂'] at h₂
      exact h.disjoint L₁ L₂ t h₁ h₂

namespace Queue

@[simp] theorem setLevel_levels_self (q : Queue Task) (L : Level) (x : LevelQueue Task) :
    (q.setLevel L x).levels L = x :=
  Function.update_self ..

theorem setLevel_levels_of_ne (q : Queue Task) {L L' : Level} (h : L' ≠ L) (x : LevelQueue Task) :
    (q.setLevel L x).levels L' = q.levels L' :=
  Function.update_of_ne h ..

variable [DecidableEq Task]

@[simp] theorem push_occupancy (q : Queue Task) (L : Level) (task : Task) :
    (q.push L task).occupancy = q.occupancy := by
  simp only [push]
  split <;> rfl

@[simp] theorem push_queued (q : Queue Task) (L : Level) (task : Task) :
    (q.push L task).queued = q.queued := by
  simp only [push]
  split <;> rfl

end Queue

variable [DecidableEq Task]

/-- A push appends the task to the list of its level. -/
theorem Rep.push (h : Rep q l) {L : Level} {task : Task} (h_task : ∀ L', task ∉ l L') :
    Rep (q.push L task) (Function.update l L (l L ++ [task])) := by
  have h_new : ∀ L', L' ≠ L → ∀ t ∈ l L ++ [task], t ∉ l L' := by
    intro L' h_ne t h_t
    rcases List.mem_append.mp h_t with h_t | h_t
    · exact fun h_t' => h_ne (h.disjoint L' L t h_t' h_t)
    · rw [List.mem_singleton.mp h_t]
      exact h_task L'
  have h_tail := (h.level L).tail_eq
  rcases List.eq_nil_or_concat (l L) with h_nil | ⟨init, last, h_concat⟩
  · rw [h_nil] at h_tail h_new ⊢
    have h_push : q.push L task = (q.setNext task none).setLevel L
        ⟨some task, some task, (q.levels L).count + 1⟩ := by
      simp only [Queue.push, Queue.setNext, h_tail, List.getLast?_nil]
    rw [h_push]
    refine h.update ?_ ?_ ?_ h_new
    · intro L' h_ne
      exact Queue.setLevel_levels_of_ne _ h_ne _
    · have h_count := (h.level L).count_eq
      rw [h_nil] at h_count
      rw [Queue.setLevel_levels_self]
      apply LevelQueue.Rep.singleton (Function.update_self ..)
      rw [h_count]
      rfl
    · intro L' _ t h_t
      apply Function.update_of_ne
      rintro rfl
      exact h_task L' h_t
  · rw [List.concat_eq_append] at h_concat
    rw [h_concat] at h_tail h_new ⊢
    have h_level := h.level L
    rw [h_concat] at h_level
    have h_ne : task ≠ last := by
      rintro rfl
      exact h_task L (by simp [h_concat])
    have h_push : q.push L task = ((q.setNext task none).setNext last (some task)).setLevel L
        { q.levels L with tail := some task, count := (q.levels L).count + 1 } := by
      simp only [Queue.push, Queue.setNext, h_tail, List.getLast?_concat]
    rw [h_push]
    have h_frame : ∀ t, t ≠ task → t ≠ last →
        Function.update (Function.update q.runQueueNext task none) last (some task) t =
          q.runQueueNext t := by
      intro t h₁ h₂
      rw [Function.update_of_ne h₂, Function.update_of_ne h₁]
    refine h.update ?_ ?_ ?_ h_new
    · intro L' h_ne
      exact Queue.setLevel_levels_of_ne _ h_ne _
    · rw [Queue.setLevel_levels_self]
      apply h_level.concat
      · rw [← h_concat]
        exact h_task L
      · exact Function.update_self ..
      · show Function.update (Function.update q.runQueueNext task none) last _ task = none
        rw [Function.update_of_ne h_ne, Function.update_self]
      · intro t h_t
        apply h_frame
        · rintro rfl
          exact h_task L (by simp [h_concat, h_t])
        · rintro rfl
          have h_nodup := h_level.nodup
          rw [List.nodup_append] at h_nodup
          exact h_nodup.2.2 t h_t t (by simp) rfl
    · intro L' h_L' t h_t
      apply h_frame
      · rintro rfl
        exact h_task L' h_t
      · rintro rfl
        exact h_L' (h.disjoint L' L t h_t (by simp [h_concat]))

/-- There is nothing to pop on an empty level. -/
theorem Rep.pop_nil (h : Rep q l) {L : Level} (h_nil : l L = []) : q.pop L = none := by
  have h_head := (h.level L).head_eq
  rw [h_nil] at h_head
  simp only [Queue.pop, h_head, List.head?_nil]

/-- A pop takes the first task of its level. -/
theorem Rep.pop_cons (h : Rep q l) {L : Level} {task : Task} {rest : List Task}
    (h_cons : l L = task :: rest) :
    ∃ q', q.pop L = some (task, q') ∧ Rep q' (Function.update l L rest) ∧
      q'.occupancy = q.occupancy ∧ q'.queued = q.queued := by
  have h_level := h.level L
  rw [h_cons] at h_level
  have h_head := h_level.head_eq
  have h_pop : q.pop L = some (task, (q.setNext task none).setLevel L
      ⟨q.runQueueNext task,
        if (q.runQueueNext task).isNone then none else (q.levels L).tail,
        (q.levels L).count - 1⟩) := by
    simp only [Queue.pop, h_head, List.head?_cons]
  refine ⟨_, h_pop, ?_, rfl, rfl⟩
  refine h.update ?_ ?_ ?_ ?_
  · intro L' h_ne
    exact Queue.setLevel_levels_of_ne _ h_ne _
  · rw [Queue.setLevel_levels_self]
    apply h_level.tail
    intro t h_t
    apply Function.update_of_ne
    rintro rfl
    exact (List.nodup_cons.mp h_level.nodup).1 h_t
  · intro L' h_ne t h_t
    apply Function.update_of_ne
    rintro rfl
    exact h_ne (h.disjoint L' L t h_t (by simp [h_cons]))
  · intro L' h_ne t h_t h_t'
    exact h_ne (h.disjoint L' L t h_t' (by simp [h_cons, h_t]))

end RunQueue
end Zydon
