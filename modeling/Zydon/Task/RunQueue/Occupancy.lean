/-
  Zydon.Task.RunQueue.Occupancy

  The levels and their occupancy bits, over every interleaving.

  `Inv` says which lists the memory is and where the queued tasks are.  The two
  directions of "bit N set if level N is non-empty" each hold while calls are
  in progress up to what those calls have still to do, and each is broken by
  one kind of step:

    * `Covered` — a level that is not empty has its bit, or an enqueue that will
      set it; broken by a `fetch_and` that comes after another core's push;
    * `Backed` — a level whose bit is set is not empty, or is about to be pushed
      to, or the dequeuing core will look at it; broken by a `fetch_or` that
      comes after the task has been dequeued.
-/

import Mathlib.Data.Fintype.Basic
import Zydon.Task.RunQueue.Levels

namespace Zydon
namespace RunQueue

open Lib

variable {Core Task : Type*}

-- ============================================================================
-- Bits
-- ============================================================================

/-- The occupancy bit of a level. -/
def Queue.isMarked (q : Queue Task) (L : Level) : Bool := q.occupancy.getLsbD L.val

theorem getLsbD_levelBit (L L' : Level) : (levelBit L).getLsbD L'.val = decide (L' = L) := by
  have h_L' := L'.isLt
  rw [levelBit, BitVec.getLsbD_shiftLeft, BitVec.getLsbD_one, Bool.eq_iff_iff]
  simp only [Bool.and_eq_true, Bool.not_eq_true', decide_eq_true_eq, decide_eq_false_iff_not,
    Fin.ext_iff]
  omega

theorem getLsbD_or_levelBit (b : BitVec 32) (L L' : Level) :
    (b ||| levelBit L).getLsbD L'.val = (b.getLsbD L'.val || decide (L' = L)) := by
  rw [BitVec.getLsbD_or, getLsbD_levelBit]

theorem getLsbD_and_not_levelBit (b : BitVec 32) (L L' : Level) :
    (b &&& ~~~(levelBit L)).getLsbD L'.val = (b.getLsbD L'.val && !decide (L' = L)) := by
  rw [BitVec.getLsbD_and, BitVec.getLsbD_not, getLsbD_levelBit]
  simp

/-- The highest bit of a bitmap is set. -/
theorem getLsbD_highestLevel {b : BitVec 32} (h : b ≠ 0) :
    b.getLsbD (highestLevel b).val = true :=
  BitVec.getLsbD_true_clz_of_ne_zero (by decide) h

-- ============================================================================
-- The lists and the calls in progress
-- ============================================================================

/-- The core is about to push to the level. -/
def EnqueuePc.pushes (L : Level) : EnqueuePc Task → Bool
  | .push _ L' => L' == L
  | .idle | .fetchOr _ | .lenAdd => false

/-- The core will set the bit of the level. -/
def EnqueuePc.marks (L : Level) : EnqueuePc Task → Bool
  | .push _ L' | .fetchOr L' => L' == L
  | .idle | .lenAdd => false

/-- The dequeuing core has popped from the level and has not decided about its
    bit, or is about to clear it. -/
def DequeuePc.checks (L : Level) : DequeuePc Task → Bool
  | .isEmpty L' _ | .fetchAnd L' _ => L' == L
  | .idle _ | .loadOccupancy | .pop _ | .lenSub _ => false

/-- The memory is the lists `l`, and a queued task is on one of them or about to
    be pushed, by one core. -/
structure Inv (q : Queue Task) (thread : Core → EnqueuePc Task) (l : Level → List Task) : Prop where
  rep : Rep q l
  queued_iff : ∀ t, q.queued t = true ↔ (∃ L, t ∈ l L) ∨ ∃ c L, thread c = .push t L
  not_mem : ∀ c t L, thread c = .push t L → ∀ L', t ∉ l L'
  push_inj : ∀ c c' t L L', thread c = .push t L → thread c' = .push t L' → c = c'

/-- A level that is not empty has its bit, or a core that will set it. -/
def Covered (q : Queue Task) (thread : Core → EnqueuePc Task) (l : Level → List Task) : Prop :=
  ∀ L, l L ≠ [] → q.isMarked L = true ∨ ∃ c, (thread c).marks L = true

/-- A level whose bit is set is not empty, or the dequeuing core will look at
    it, or a core is about to push to it. -/
def Backed (q : Queue Task) (owner : DequeuePc Task) (thread : Core → EnqueuePc Task)
    (l : Level → List Task) : Prop :=
  ∀ L, q.isMarked L = true →
    l L ≠ [] ∨ owner.checks L = true ∨ ∃ c, (thread c).pushes L = true

theorem inv_new : Inv (Queue.new : Queue Task) (fun _ : Core => .idle) fun _ => [] where
  rep := rep_new
  queued_iff := by simp [Queue.new]
  not_mem := by simp
  push_inj := by simp

theorem covered_new : Covered (Queue.new : Queue Task) (fun _ : Core => .idle) fun _ => [] :=
  fun _ h => absurd rfl h

theorem backed_new :
    Backed (Queue.new : Queue Task) (.idle none) (fun _ : Core => .idle) fun _ => [] := by
  intro L h
  exact absurd h (by simp [Queue.isMarked, Queue.new])

-- ============================================================================
-- Steps: the lists
-- ============================================================================

variable [DecidableEq Core] {q q' : Queue Task} {thread : Core → EnqueuePc Task}
  {l : Level → List Task} {c : Core} {pc : EnqueuePc Task} {L : Level} {task : Task}

/-- A core moves that neither was nor is about to push. -/
theorem Inv.setThread (h : Inv q thread l) (h_levels : q'.levels = q.levels)
    (h_next : q'.runQueueNext = q.runQueueNext) (h_queued : q'.queued = q.queued)
    (h_old : ∀ t L, thread c ≠ .push t L) (h_new : ∀ t L, pc ≠ .push t L) :
    Inv q' (Function.update thread c pc) l := by
  have h_push : ∀ c' t L, Function.update thread c pc c' = .push t L ↔ thread c' = .push t L := by
    intro c' t L
    rw [Function.update_apply]
    split
    · next h_eq =>
        subst h_eq
        exact ⟨fun h => absurd h (h_new t L), fun h => absurd h (h_old t L)⟩
    · rfl
  constructor
  case rep => exact h.rep.congr h_levels h_next
  case queued_iff => simpa only [h_push, h_queued] using h.queued_iff
  case not_mem => simpa only [h_push] using h.not_mem
  case push_inj => simpa only [h_push] using h.push_inj

omit [DecidableEq Core] in
/-- The dequeuing core changes neither the lists nor what is queued. -/
theorem Inv.congr (h : Inv q thread l) (h_levels : q'.levels = q.levels)
    (h_next : q'.runQueueNext = q.runQueueNext) (h_queued : q'.queued = q.queued) :
    Inv q' thread l :=
  { h with
    rep := h.rep.congr h_levels h_next
    queued_iff := by rw [h_queued]; exact h.queued_iff }

variable [DecidableEq Task]

/-- A call begins with a task that is not queued. -/
theorem Inv.start (h : Inv q thread l) (h_pc : thread c = .idle)
    (h_task : ¬ q.queued task = true) :
    Inv (q.setQueued task true) (Function.update thread c (.push task L)) l := by
  have h_none : ∀ c' L', thread c' ≠ .push task L' := by
    intro c' L' h_push
    exact h_task ((h.queued_iff task).mpr (.inr ⟨c', L', h_push⟩))
  constructor
  case rep => exact h.rep.congr rfl rfl
  case queued_iff =>
    intro t
    show Function.update q.queued task true t = true ↔ _
    by_cases h_t : t = task
    · subst h_t
      rw [Function.update_self]
      exact ⟨fun _ => .inr ⟨c, L, Function.update_self ..⟩, fun _ => rfl⟩
    · rw [Function.update_of_ne h_t, h.queued_iff]
      refine or_congr_right (exists_congr fun c' => exists_congr fun L' => ?_)
      by_cases h_c : c' = c
      · subst h_c
        rw [Function.update_self, h_pc]
        simp [Ne.symm h_t]
      · rw [Function.update_of_ne h_c]
  case not_mem =>
    intro c' t L' h_push L'' h_mem
    by_cases h_c : c' = c
    · subst h_c
      rw [Function.update_self] at h_push
      cases h_push
      exact h_task ((h.queued_iff task).mpr (.inl ⟨L'', h_mem⟩))
    · rw [Function.update_of_ne h_c] at h_push
      exact h.not_mem c' t L' h_push L'' h_mem
  case push_inj =>
    intro c₁ c₂ t L₁ L₂ h₁ h₂
    rw [Function.update_apply] at h₁ h₂
    split at h₁ <;> split at h₂
    · next h_c₁ h_c₂ => rw [h_c₁, h_c₂]
    · cases h₁
      exact absurd h₂ (h_none c₂ L₂)
    · cases h₂
      exact absurd h₁ (h_none c₁ L₁)
    · exact h.push_inj c₁ c₂ t L₁ L₂ h₁ h₂

/-- The push of a core. -/
theorem Inv.push (h : Inv q thread l) (h_pc : thread c = .push task L) :
    Inv (q.push L task) (Function.update thread c (.fetchOr L))
      (Function.update l L (l L ++ [task])) := by
  have h_push : ∀ c' t L', Function.update thread c (.fetchOr L) c' = .push t L' →
      t ≠ task ∧ thread c' = .push t L' := by
    intro c' t L' h_c'
    rw [Function.update_apply] at h_c'
    split at h_c'
    · exact absurd h_c' (by simp)
    · next h_ne =>
        refine ⟨?_, h_c'⟩
        rintro rfl
        exact h_ne (h.push_inj c' c t L' L h_c' h_pc)
  have h_mem : ∀ t, (∃ L', t ∈ Function.update l L (l L ++ [task]) L') ↔
      t = task ∨ ∃ L', t ∈ l L' := by
    intro t
    rw [Function.exists_update_iff l fun _ x => t ∈ x, List.mem_append, List.mem_singleton]
    constructor
    · rintro ((h_t | h_t) | ⟨L', -, h_t⟩)
      · exact .inr ⟨L, h_t⟩
      · exact .inl h_t
      · exact .inr ⟨L', h_t⟩
    · rintro (h_t | ⟨L', h_t⟩)
      · exact .inl (.inr h_t)
      · by_cases h_L : L' = L
        · exact .inl (.inl (h_L ▸ h_t))
        · exact .inr ⟨L', h_L, h_t⟩
  constructor
  case rep => exact h.rep.push (h.not_mem c task L h_pc)
  case queued_iff =>
    intro t
    rw [Queue.push_queued, h.queued_iff, h_mem]
    by_cases h_t : t = task
    · subst h_t
      exact ⟨fun _ => .inl (.inl rfl), fun _ => .inr ⟨c, L, h_pc⟩⟩
    · constructor
      · rintro (h_l | ⟨c', L', h_c'⟩)
        · exact .inl (.inr h_l)
        · refine .inr ⟨c', L', ?_⟩
          rwa [Function.update_of_ne]
          rintro rfl
          rw [h_pc] at h_c'
          cases h_c'
          exact h_t rfl
      · rintro ((h_eq | h_l) | ⟨c', L', h_c'⟩)
        · exact absurd h_eq h_t
        · exact .inl h_l
        · exact .inr ⟨c', L', (h_push c' t L' h_c').2⟩
  case not_mem =>
    intro c' t L' h_c' L'' h_t
    obtain ⟨h_ne, h_c'⟩ := h_push c' t L' h_c'
    rcases (h_mem t).mp ⟨L'', h_t⟩ with h_eq | ⟨L₀, h_t⟩
    · exact h_ne h_eq
    · exact h.not_mem c' t L' h_c' L₀ h_t
  case push_inj =>
    intro c₁ c₂ t L₁ L₂ h₁ h₂
    exact h.push_inj c₁ c₂ t L₁ L₂ (h_push c₁ t L₁ h₁).2 (h_push c₂ t L₂ h₂).2

omit [DecidableEq Core] in
/-- The pop of the dequeuing core. -/
theorem Inv.pop {rest : List Task} (h : Inv q thread l) (h_l : l L = task :: rest) :
    ∃ q', q.pop L = some (task, q') ∧ q'.occupancy = q.occupancy ∧
      Inv (q'.setQueued task false) thread (Function.update l L rest) := by
  obtain ⟨q', h_pop, h_rep, h_occupancy, h_queued⟩ := h.rep.pop_cons h_l
  have h_mem : ∀ t, (∃ L', t ∈ Function.update l L rest L') ↔ t ≠ task ∧ ∃ L', t ∈ l L' := by
    intro t
    have h_nodup := (h.rep.level L).nodup
    rw [h_l, List.nodup_cons] at h_nodup
    rw [Function.exists_update_iff l fun _ x => t ∈ x]
    constructor
    · rintro (h_t | ⟨L', h_ne, h_t⟩)
      · refine ⟨?_, L, by simp [h_l, h_t]⟩
        rintro rfl
        exact h_nodup.1 h_t
      · refine ⟨?_, L', h_t⟩
        rintro rfl
        exact h_ne (h.rep.disjoint L' L t h_t (by simp [h_l]))
    · rintro ⟨h_ne, L', h_t⟩
      by_cases h_L : L' = L
      · subst h_L
        rw [h_l] at h_t
        exact .inl (List.mem_of_ne_of_mem h_ne h_t)
      · exact .inr ⟨L', h_L, h_t⟩
  refine ⟨q', h_pop, h_occupancy, ?_⟩
  constructor
  case rep => exact h_rep.congr rfl rfl
  case queued_iff =>
    intro t
    show Function.update q'.queued task false t = true ↔ _
    rw [h_mem, h_queued]
    by_cases h_t : t = task
    · subst h_t
      rw [Function.update_self]
      constructor
      · exact fun h_false => absurd h_false (by simp)
      · rintro (⟨h_ne, -⟩ | ⟨c', L', h_c'⟩)
        · exact absurd rfl h_ne
        · exact absurd (by simp [h_l]) (h.not_mem c' t L' h_c' L)
    · rw [Function.update_of_ne h_t, h.queued_iff]
      simp [h_t]
  case not_mem =>
    intro c' t L' h_c' L'' h_t
    obtain ⟨-, L₀, h_t⟩ := (h_mem t).mp ⟨L'', h_t⟩
    exact h.not_mem c' t L' h_c' L₀ h_t
  case push_inj => exact h.push_inj

-- ============================================================================
-- Steps: the bits
-- ============================================================================

omit [DecidableEq Task] in
/-- A core moves that keeps what it will mark. -/
theorem Covered.setThread (h : Covered q thread l) (h_occupancy : q'.occupancy = q.occupancy)
    (h_marks : ∀ L, (thread c).marks L = true → pc.marks L = true) :
    Covered q' (Function.update thread c pc) l := by
  intro L h_L
  rw [Queue.isMarked, h_occupancy]
  exact (h L h_L).imp_right
    (exists_update_of_imp (p := fun x : EnqueuePc Task => x.marks L = true) (h_marks L))

/-- A push, with the `fetch_or` still to come. -/
theorem Covered.push (h : Covered q thread l) (h_pc : thread c = .push task L) :
    Covered (q.push L task) (Function.update thread c (.fetchOr L))
      (Function.update l L (l L ++ [task])) := by
  intro L' h_L'
  by_cases h_eq : L' = L
  · subst h_eq
    refine .inr ⟨c, ?_⟩
    rw [Function.update_self]
    exact beq_self_eq_true L'
  · rw [Function.update_of_ne h_eq] at h_L'
    refine h.setThread (Queue.push_occupancy q L task) ?_ L' h_L'
    rw [h_pc]
    exact fun _ h_marks => h_marks

omit [DecidableEq Task] in
/-- The `fetch_or`. -/
theorem Covered.fetchOr (h : Covered q thread l) (h_pc : thread c = .fetchOr L) :
    Covered { q with occupancy := q.occupancy ||| levelBit L } (Function.update thread c .lenAdd)
      l := by
  intro L' h_L'
  show (q.occupancy ||| levelBit L).getLsbD L'.val = true ∨ _
  rw [getLsbD_or_levelBit, Bool.or_eq_true, decide_eq_true_iff]
  by_cases h_eq : L' = L
  · exact .inl (.inr h_eq)
  · refine (h L' h_L').imp .inl
      (exists_update_of_imp (p := fun x : EnqueuePc Task => x.marks L' = true) ?_)
    rw [h_pc]
    intro h_marks
    exact absurd (beq_iff_eq.mp h_marks).symm h_eq

omit [DecidableEq Core] [DecidableEq Task] in
/-- A pop. -/
theorem Covered.pop {rest : List Task} (h : Covered q thread l)
    (h_occupancy : q'.occupancy = q.occupancy) (h_L : l L ≠ []) :
    Covered q' thread (Function.update l L rest) := by
  intro L' h_L'
  rw [Queue.isMarked, h_occupancy]
  by_cases h_eq : L' = L
  · subst h_eq
    exact h L' h_L
  · rw [Function.update_of_ne h_eq] at h_L'
    exact h L' h_L'

omit [DecidableEq Core] [DecidableEq Task] in
/-- The `fetch_and`, when no task is left behind. -/
theorem Covered.fetchAnd (h : Covered q thread l)
    (h_empty : l L = [] ∨ ∃ c, (thread c).marks L = true) :
    Covered { q with occupancy := q.occupancy &&& ~~~(levelBit L) } thread l := by
  intro L' h_L'
  show (q.occupancy &&& ~~~(levelBit L)).getLsbD L'.val = true ∨ _
  rw [getLsbD_and_not_levelBit, Bool.and_eq_true, Bool.not_eq_true', decide_eq_false_iff_not]
  by_cases h_eq : L' = L
  · subst h_eq
    exact .inr (h_empty.resolve_left h_L')
  · exact (h L' h_L').imp_left fun h_bit => ⟨h_bit, h_eq⟩

variable {owner owner' : DequeuePc Task}

omit [DecidableEq Task] in
/-- A core moves that keeps where it will push. -/
theorem Backed.setThread (h : Backed q owner thread l) (h_occupancy : q'.occupancy = q.occupancy)
    (h_pushes : ∀ L, (thread c).pushes L = true → pc.pushes L = true) :
    Backed q' owner (Function.update thread c pc) l := by
  intro L h_L
  rw [Queue.isMarked, h_occupancy] at h_L
  exact (h L h_L).imp_right (Or.imp_right
    (exists_update_of_imp (p := fun x : EnqueuePc Task => x.pushes L = true) (h_pushes L)))

/-- A push. -/
theorem Backed.push (h : Backed q owner thread l) (h_pc : thread c = .push task L) :
    Backed (q.push L task) owner (Function.update thread c (.fetchOr L))
      (Function.update l L (l L ++ [task])) := by
  intro L' h_L'
  by_cases h_eq : L' = L
  · subst h_eq
    refine .inl ?_
    rw [Function.update_self]
    simp
  · rw [Function.update_of_ne h_eq]
    rw [Queue.isMarked, Queue.push_occupancy] at h_L'
    refine (h L' h_L').imp_right (Or.imp_right
      (exists_update_of_imp (p := fun x : EnqueuePc Task => x.pushes L' = true) ?_))
    rw [h_pc]
    intro h_pushes
    exact absurd (beq_iff_eq.mp h_pushes).symm h_eq

omit [DecidableEq Task] in
/-- The `fetch_or`, of a level that has a task or will be looked at. -/
theorem Backed.fetchOr (h : Backed q owner thread l) (h_pc : thread c = .fetchOr L)
    (h_task : l L ≠ [] ∨ owner.checks L = true ∨ ∃ c, (thread c).pushes L = true) :
    Backed { q with occupancy := q.occupancy ||| levelBit L } owner
      (Function.update thread c .lenAdd) l := by
  intro L' h_L'
  replace h_L' : (q.occupancy ||| levelBit L).getLsbD L'.val = true := h_L'
  rw [getLsbD_or_levelBit, Bool.or_eq_true, decide_eq_true_iff] at h_L'
  have h_task' : l L' ≠ [] ∨ owner.checks L' = true ∨ ∃ c, (thread c).pushes L' = true := by
    rcases h_L' with h_L' | rfl
    · exact h L' h_L'
    · exact h_task
  refine h_task'.imp_right (Or.imp_right
    (exists_update_of_imp (p := fun x : EnqueuePc Task => x.pushes L' = true) ?_))
  rw [h_pc]
  exact fun h_pushes => h_pushes

omit [DecidableEq Core] [DecidableEq Task] in
/-- The dequeuing core moves and keeps what it will look at, or has found a task
    there. -/
theorem Backed.setOwner (h : Backed q owner thread l) (h_occupancy : q'.occupancy = q.occupancy)
    (h_checks : ∀ L, owner.checks L = true → owner'.checks L = true ∨ l L ≠ []) :
    Backed q' owner' thread l := by
  intro L h_L
  rw [Queue.isMarked, h_occupancy] at h_L
  rcases h L h_L with h_task | h_check | h_pushes
  · exact .inl h_task
  · rcases h_checks L h_check with h_check | h_task
    · exact .inr (.inl h_check)
    · exact .inl h_task
  · exact .inr (.inr h_pushes)

omit [DecidableEq Core] [DecidableEq Task] in
/-- A pop, with the second look at the level still to come. -/
theorem Backed.pop {rest : List Task} (h : Backed q (.pop L) thread l)
    (h_occupancy : q'.occupancy = q.occupancy) :
    Backed q' (.isEmpty L task) thread (Function.update l L rest) := by
  intro L' h_L'
  rw [Queue.isMarked, h_occupancy] at h_L'
  by_cases h_eq : L' = L
  · subst h_eq
    exact .inr (.inl (beq_self_eq_true L'))
  · rw [Function.update_of_ne h_eq]
    rcases h L' h_L' with h_task | h_check | h_pushes
    · exact .inl h_task
    · exact absurd h_check (by simp [DequeuePc.checks])
    · exact .inr (.inr h_pushes)

omit [DecidableEq Core] [DecidableEq Task] in
/-- The `fetch_and`. -/
theorem Backed.fetchAnd (h : Backed q (.fetchAnd L task) thread l) :
    Backed { q with occupancy := q.occupancy &&& ~~~(levelBit L) } (.lenSub task) thread l := by
  intro L' h_L'
  replace h_L' : (q.occupancy &&& ~~~(levelBit L)).getLsbD L'.val = true := h_L'
  rw [getLsbD_and_not_levelBit] at h_L'
  obtain ⟨h_L', h_ne⟩ : q.occupancy.getLsbD L'.val = true ∧ L' ≠ L := by simpa using h_L'
  rcases h L' h_L' with h_task | h_check | h_pushes
  · exact .inl h_task
  · exact absurd (beq_iff_eq.mp h_check).symm h_ne
  · exact .inr (.inr h_pushes)

-- ============================================================================
-- Steps
-- ============================================================================

/-- The level whose bit the next operation of the core sets. -/
def EnqueuePc.sets : EnqueuePc Task → Option Level
  | .fetchOr L => some L
  | .idle | .push _ _ | .lenAdd => none

/-- The level whose bit the next operation of the dequeuing core clears. -/
def DequeuePc.clears : DequeuePc Task → Option Level
  | .fetchAnd L _ => some L
  | .idle _ | .loadOccupancy | .pop _ | .isEmpty _ _ | .lenSub _ => none

/-- A `fetch_and` clears the bit of a level only while the level is empty, or a
    core will set the bit again. -/
def ClearsEmptyLevel (s : State Core Task) : DequeueAction ⊕ Core × EnqueueAction Task → Prop
  | .inl .run => ∀ L ∈ s.owner.clears,
      (s.shared.levels L).head.isNone ∨ ∃ c, (s.thread c).marks L = true
  | .inl .dequeue | .inr _ => True

/-- A `fetch_or` sets the bit of a level only while the level is not empty, or
    the dequeuing core will look at it, or a core is about to push to it. -/
def MarksNonemptyLevel (s : State Core Task) : DequeueAction ⊕ Core × EnqueueAction Task → Prop
  | .inr (c, .run) => ∀ L ∈ (s.thread c).sets,
      (s.shared.levels L).head.isSome ∨ s.owner.checks L = true ∨
        ∃ c, (s.thread c).pushes L = true
  | .inr (_, .enqueue _ _) | .inl _ => True

instance ClearsEmptyLevel.decidable [Fintype Core] (s : State Core Task) :
    ∀ a, Decidable (ClearsEmptyLevel s a)
  | .inl .run => inferInstanceAs (Decidable (∀ L ∈ s.owner.clears, _))
  | .inl .dequeue | .inr _ => inferInstanceAs (Decidable True)

instance MarksNonemptyLevel.decidable [Fintype Core] (s : State Core Task) :
    ∀ a, Decidable (MarksNonemptyLevel s a)
  | .inr (c, .run) => inferInstanceAs (Decidable (∀ L ∈ (s.thread c).sets, _))
  | .inr (_, .enqueue _ _) | .inl _ => inferInstanceAs (Decidable True)

/-- One step of a core that enqueues. -/
theorem Inv.enqueue_step (owner : DequeuePc Task) {b : EnqueueAction Task} (h : Inv q thread l)
    (h_step : enqueueStep q (thread c) b = some (q', pc)) :
    ∃ l', Inv q' (Function.update thread c pc) l' ∧
      (Covered q thread l → Covered q' (Function.update thread c pc) l') ∧
      (MarksNonemptyLevel (⟨q, owner, thread⟩ : State Core Task) (.inr (c, b)) →
        Backed q owner thread l → Backed q' owner (Function.update thread c pc) l') := by
  cases h_pc : thread c with
  | idle =>
      rw [h_pc] at h_step
      cases b with
      | enqueue task priority =>
          simp only [enqueueStep] at h_step
          split at h_step <;> cases h_step
          next h_task =>
          refine ⟨l, h.start h_pc h_task, fun hc => hc.setThread rfl ?_,
            fun _ hb => hb.setThread rfl ?_⟩ <;> simp [h_pc, EnqueuePc.marks, EnqueuePc.pushes]
      | run => exact absurd h_step (by simp [enqueueStep])
  | push task L =>
      rw [h_pc] at h_step
      cases b with
      | enqueue task priority => exact absurd h_step (by simp [enqueueStep])
      | run =>
          cases h_step
          exact ⟨_, h.push h_pc, fun hc => hc.push h_pc, fun _ hb => hb.push h_pc⟩
  | fetchOr L =>
      rw [h_pc] at h_step
      cases b with
      | enqueue task priority => exact absurd h_step (by simp [enqueueStep])
      | run =>
          cases h_step
          refine ⟨l, h.setThread rfl rfl rfl (by simp [h_pc]) (by simp), fun hc => hc.fetchOr h_pc,
            fun h_ok hb => hb.fetchOr h_pc ?_⟩
          have h_task := h_ok L (by simp [h_pc, EnqueuePc.sets])
          rwa [h.rep.head_isSome_iff] at h_task
  | lenAdd =>
      rw [h_pc] at h_step
      cases b with
      | enqueue task priority => exact absurd h_step (by simp [enqueueStep])
      | run =>
          cases h_step
          refine ⟨l, h.setThread rfl rfl rfl (by simp [h_pc]) (by simp),
            fun hc => hc.setThread rfl ?_, fun _ hb => hb.setThread rfl ?_⟩ <;>
            simp [h_pc, EnqueuePc.marks, EnqueuePc.pushes]

omit [DecidableEq Core] in
/-- One step of the core that dequeues. -/
theorem Inv.dequeue_step {a : DequeueAction} (h : Inv q thread l)
    (h_step : dequeueStep q owner a = some (q', owner')) :
    ∃ l', Inv q' thread l' ∧
      (ClearsEmptyLevel (⟨q, owner, thread⟩ : State Core Task) (.inl a) →
        Covered q thread l → Covered q' thread l') ∧
      (Backed q owner thread l → Backed q' owner' thread l') := by
  cases owner with
  | idle result =>
      cases a with
      | dequeue =>
          cases h_step
          exact ⟨l, h, fun _ hc => hc, fun hb => hb.setOwner rfl (by simp [DequeuePc.checks])⟩
      | run => exact absurd h_step (by simp [dequeueStep])
  | loadOccupancy =>
      cases a with
      | dequeue => exact absurd h_step (by simp [dequeueStep])
      | run =>
          simp only [dequeueStep] at h_step
          split at h_step <;> cases h_step <;>
            exact ⟨l, h, fun _ hc => hc, fun hb => hb.setOwner rfl (by simp [DequeuePc.checks])⟩
  | pop L =>
      cases a with
      | dequeue => exact absurd h_step (by simp [dequeueStep])
      | run =>
          simp only [dequeueStep] at h_step
          cases h_l : l L with
          | nil =>
              rw [h.rep.pop_nil h_l] at h_step
              cases h_step
              exact ⟨l, h, fun _ hc => hc, fun hb => hb.setOwner rfl (by simp [DequeuePc.checks])⟩
          | cons task rest =>
              obtain ⟨q₁, h_pop, h_occupancy, h_inv⟩ := h.pop h_l
              rw [h_pop] at h_step
              cases h_step
              exact ⟨_, h_inv, fun _ hc => hc.pop h_occupancy (by simp [h_l]),
                fun hb => hb.pop h_occupancy⟩
  | isEmpty L task =>
      cases a with
      | dequeue => exact absurd h_step (by simp [dequeueStep])
      | run =>
          simp only [dequeueStep] at h_step
          split at h_step <;> cases h_step
          · exact ⟨l, h, fun _ hc => hc, fun hb => hb.setOwner rfl fun _ h_check => .inl h_check⟩
          · next h_some =>
            refine ⟨l, h, fun _ hc => hc, fun hb => hb.setOwner rfl ?_⟩
            intro L' h_check
            obtain rfl : L = L' := beq_iff_eq.mp h_check
            refine .inr fun h_nil => h_some ?_
            have h_level := h.rep.level L
            rw [h_nil] at h_level
            exact h_level.isEmpty_of_nil
  | fetchAnd L task =>
      cases a with
      | dequeue => exact absurd h_step (by simp [dequeueStep])
      | run =>
          cases h_step
          refine ⟨l, h.congr rfl rfl rfl, fun h_ok hc => hc.fetchAnd ?_, fun hb => hb.fetchAnd⟩
          exact (h_ok L rfl).imp_left (h.rep.head_isNone_iff L).mp
  | lenSub task =>
      cases a with
      | dequeue => exact absurd h_step (by simp [dequeueStep])
      | run =>
          cases h_step
          exact ⟨l, h.congr rfl rfl rfl, fun _ hc => hc,
            fun hb => hb.setOwner rfl (by simp [DequeuePc.checks])⟩

/-- One step. -/
theorem Inv.step {s s' : State Core Task} {a : DequeueAction ⊕ Core × EnqueueAction Task}
    (h : Inv s.shared s.thread l) (h_step : (machine Core Task).step s a = some s') :
    ∃ l', Inv s'.shared s'.thread l' ∧
      (ClearsEmptyLevel s a → Covered s.shared s.thread l → Covered s'.shared s'.thread l') ∧
      (MarksNonemptyLevel s a → Backed s.shared s.owner s.thread l →
        Backed s'.shared s'.owner s'.thread l') := by
  cases a with
  | inl a =>
      obtain ⟨m, p, h_own, rfl⟩ := OwnerAndThreads.step_owner_eq_some h_step
      obtain ⟨l', h_inv, h_covered, h_backed⟩ := h.dequeue_step h_own
      exact ⟨l', h_inv, h_covered, fun _ => h_backed⟩
  | inr a =>
      obtain ⟨c, b⟩ := a
      obtain ⟨m, pc, h_thread, rfl⟩ := OwnerAndThreads.step_thread_eq_some h_step
      obtain ⟨l', h_inv, h_covered, h_backed⟩ := h.enqueue_step s.owner h_thread
      exact ⟨l', h_inv, fun _ => h_covered, h_backed⟩

end RunQueue
end Zydon
