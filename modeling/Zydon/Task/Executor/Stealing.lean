/-
  Zydon.Task.Executor.Stealing

  `try_steal` without interference, on the deques of the code: a complete
  `steal_batch` of the victim, and a complete `push` for each task of the batch.

  The batch is as long as its array, or as the victim's deque if that is shorter
  (`trySteal_eq`), as it is for the executors on lists (`System.stealBatch_eq`).
  Half of the victim's tasks is a limit nowhere, and is kept only by very short
  deques and by long ones.  The thief's deque takes the batch unless it must grow
  and cannot: its larger buffer may be refused, and `grow` copies nothing when the
  indices wrap between `top` and `bottom` (`Lost`).
-/

import Zydon.Task.Executor.Basic
import Zydon.Task.Stealer.Sequential

namespace Zydon

open Lib

-- ============================================================================
-- A growth that fails
-- ============================================================================

namespace Stealer

variable {T : Type*} {d d' : Deque T} {l : List T} {size : Nat} {elemSize : ℕ+}

theorem isize_sub_word (x : Int) : isize (x - 2 ^ 64) = isize x := Int.sub_bmod_right x (2 ^ 64)

/-- A deque of this size whose first cell has not been written. -/
structure Lost (size : Nat) (d : Deque T) : Prop where
  size_eq : isize (d.bottom - d.top) = size
  size_pos : 0 < size
  logCap_le : d.buffer.logCap ≤ 62
  get_top : d.buffer.get d.top = none

theorem Lost.not_contains (hd : Lost size d) (l : List T) : ¬ Contains d l := by
  intro h_contains
  have h_length : l.length = size := by
    have h_size := h_contains.size_eq
    rw [hd.size_eq] at h_size
    omega
  obtain ⟨x, rest, rfl⟩ := List.exists_cons_of_length_pos (h_length ▸ hd.size_pos)
  have h_cell : d.cell d.top = some x := by
    simpa [slice] using h_contains.take (k := 1) (by simp)
  rw [Deque.cell, hd.get_top] at h_cell
  exact absurd h_cell (by simp)

/-- Further pushes do not bring the element back. -/
theorem Lost.push (hd : Lost size d) (h_room : size < d.buffer.cap) (val : T) :
    ∃ d', call elemSize d (.push val) = some (.pushed, d') ∧ Lost (size + 1) d' ∧
      d'.buffer.cap = d.buffer.cap := by
  have h_size := hd.size_eq
  have h_pos := hd.size_pos
  have h_logCap := hd.logCap_le
  have h_cap := DequeBuffer.cap_le_of_logCap_le h_logCap
  have h_cap_eq : isize d.buffer.cap = d.buffer.cap :=
    isize_eq (by omega) (by unfold isizeMax; omega)
  refine ⟨_, call_push_of_room val (by rw [h_size, h_cap_eq]; omega), ?_, rfl⟩
  constructor
  case size_eq =>
    show isize (isize (d.bottom + 1) - d.top) = ((size + 1 : Nat) : Int)
    have h_next : d.bottom + 1 - d.top = d.bottom - d.top + 1 := by omega
    rw [isize_sub_isize, h_next, ← isize_add_isize, h_size]
    exact isize_eq (by omega) (by unfold isizeMax; omega)
  case size_pos => exact Nat.succ_pos size
  case logCap_le => exact h_logCap
  case get_top =>
    show (d.buffer.put d.bottom (some (d.pushed.length, val))).get d.top = none
    have h_bottom : isize d.bottom = isize (size + d.top) := by
      rw [← h_size, isize_add_isize, Int.sub_add_cancel]
    rw [DequeBuffer.put_congr h_bottom,
      DequeBuffer.get_put_of_near (by omega) _ (by omega) (by omega) (by omega)]
    exact hd.get_top

/-- When the indices wrap between `top` and `bottom`, the loop of `grow` makes no
    round. -/
theorem Contains.grow_of_wraps (hd : Contains d l)
    (h_layout : DequeBuffer.LayoutFits elemSize (1 <<< (d.buffer.logCap + 1)))
    (h_wraps : isizeMax < d.top + l.length) :
    d.bottom = d.top + l.length - 2 ^ 64 ∧ d.buffer.grow elemSize d.top d.bottom =
      some { data := fun _ => none, logCap := d.buffer.logCap + 1 } := by
  have h_length := hd.length_le
  have h_top := isize_bounds d.top
  rw [hd.top_eq] at h_top
  have h_bottom : d.bottom = d.top + l.length - 2 ^ 64 := by
    rw [hd.bottom_eq, ← isize_sub_word]
    unfold isizeMax at h_wraps h_top
    exact isize_eq (by omega) (by unfold isizeMax; omega)
  have h_rounds : (d.bottom - d.top).toNat = 0 := by omega
  refine ⟨h_bottom, ?_⟩
  rw [DequeBuffer.grow_eq, if_pos h_layout, h_rounds, DequeBuffer.copy]

/-- A full deque that must not grow panics on a `push`, or loses its elements. -/
theorem Contains.push_of_not_mayGrow (hd : Contains d l) (h_full : l.length = d.buffer.cap)
    (h_not : ¬ d.MayGrow elemSize) (val : T) :
    call elemSize d (.push val) = none ∨
      ∃ d', call elemSize d (.push val) = some (.pushed, d') ∧ Lost (l.length + 1) d' ∧
        d'.buffer.cap = d.buffer.cap + d.buffer.cap := by
  have h_is_full := hd.isFull_iff.mpr h_full
  by_cases h_layout : DequeBuffer.LayoutFits elemSize (1 <<< (d.buffer.logCap + 1))
  · right
    have h_wraps : isizeMax < d.top + l.length := by
      by_contra h_max
      exact h_not ⟨h_layout, by omega⟩
    obtain ⟨h_bottom, h_grow⟩ := hd.grow_of_wraps h_layout h_wraps
    set buffer : DequeBuffer (Elem T) :=
      { data := fun _ => none, logCap := d.buffer.logCap + 1 }
    have h_cap : buffer.cap = d.buffer.cap + d.buffer.cap := DequeBuffer.cap_double rfl
    have h_pos := DequeBuffer.cap_pos d.buffer
    have h_length := hd.length_le
    refine ⟨_, call_push_of_full val h_is_full h_grow, ?_, h_cap⟩
    constructor
    case size_eq =>
      show isize (isize (d.bottom + 1) - d.top) = ((l.length + 1 : Nat) : Int)
      have h_next : d.bottom + 1 - d.top = (l.length : Int) + 1 - 2 ^ 64 := by omega
      rw [isize_sub_isize, h_next, isize_sub_word]
      exact isize_eq (by omega) (by unfold isizeMax; omega)
    case size_pos => exact Nat.succ_pos _
    case logCap_le => exact h_layout.logCap_le
    case get_top =>
      show (buffer.put d.bottom (some (d.pushed.length, val))).get d.top = none
      have h_same : isize d.bottom = isize (d.top + l.length) := by
        rw [h_bottom, isize_sub_word]
      have h_logCap : buffer.logCap ≤ 64 := by
        have h_small := h_layout.logCap_le
        show d.buffer.logCap + 1 ≤ 64
        omega
      rw [DequeBuffer.put_congr h_same,
        DequeBuffer.get_put_of_near h_logCap _ (by omega) (by omega) (by omega)]
      rfl
  · left
    apply call_push_of_panic val h_is_full
    rw [DequeBuffer.grow_eq, if_neg h_layout]

end Stealer

-- ============================================================================
-- `try_steal`
-- ============================================================================

namespace Executor

open Stealer

variable {Task : Type*}

/-- `*const TaskControlBlock`; `none` is the null pointer. -/
abbrev TaskPtr (Task : Type*) := Option Task

/-- The part of an executor that `try_steal` uses. -/
structure Thief (Task : Type*) where
  worker : Deque (TaskPtr Task)
  stealers : List (Deque (TaskPtr Task))
  pollsExecuted : BitVec 64
  stealsAttempted : BitVec 64
  stealsSucceeded : BitVec 64

/-- The loop of `try_steal` over the part of the batch that has been filled; it
    does not go on from a cell that was never written. -/
def pushBatch (d : Deque (TaskPtr Task)) :
    List (Option (TaskPtr Task)) → Option (Deque (TaskPtr Task))
  | [] => some d
  | some (some task) :: batch =>
      match call pointerSize d (.push (some task)) with
      | some (_, d) => pushBatch d batch
      | none => none
  | some none :: batch => pushBatch d batch
  | none :: _ => none

/-- `self.pick_victim()`. -/
def Thief.pickVictim (e : Thief Task) : Nat :=
  Executor.pickVictim e.pollsExecuted e.stealers.length

/-- `Executor::try_steal`. -/
def Thief.trySteal (e : Thief Task) : Option (Bool × Thief Task) :=
  if e.stealers.isEmpty then some (false, e)
  else
    let e := { e with stealsAttempted := e.stealsAttempted + 1 }
    let victim := e.pickVictim
    match e.stealers[victim]? with
    | none => none
    | some d =>
        match call pointerSize d (.stealBatch batchLen) with
        | some (.batch batch, d) =>
            let e := { e with stealers := e.stealers.set victim d }
            if batch.length = 0 then some (false, e)
            else
              let e := { e with stealsSucceeded := e.stealsSucceeded + 1 }
              (pushBatch e.worker batch).map fun worker => (true, { e with worker := worker })
        | _ => none

/-- A deque of tasks, with a buffer as `deque` and `grow` make them. -/
structure HoldsTasks (d : Deque (TaskPtr Task)) (tasks : List Task) : Prop where
  contains : Contains d (tasks.map some)
  minLogCap_le : minLogCap ≤ d.buffer.logCap

theorem holdsTasks_deque : HoldsTasks (deque (TaskPtr Task)) [] where
  contains := holds_deque.contains (by decide)
  minLogCap_le := le_refl _

/-- `try_steal` moves some of the oldest of the victim's tasks `theirs` behind the
    thief's tasks `own`: one at least if there is one, and half of them, rounded
    up, at most.  The victim keeps the others, and one of two at least. -/
def Thief.StealsHalf (e : Thief Task) (own theirs : List Task) : Prop :=
  ∃ k stolen e' victim, e.trySteal = some (stolen, e') ∧
    (k = 0 ↔ theirs = []) ∧ k ≤ (theirs.length + 1) / 2 ∧
    HoldsTasks e'.worker (own ++ theirs.take k) ∧
    e'.stealers = e.stealers.set e.pickVictim victim ∧ HoldsTasks victim (theirs.drop k) ∧
    (2 ≤ theirs.length → theirs.drop k ≠ [])

/-- The length of the batch. -/
def batchSize (n : Nat) : Nat := min (min n batchLen) maxStealBatch

/-- The thief's deque has room for a batch, or may grow. -/
def Thief.TakesBatch (e : Thief Task) (own theirs : List Task) : Prop :=
  own.length + batchSize theirs.length ≤ e.worker.buffer.cap ∨ e.worker.MayGrow pointerSize

-- ============================================================================
-- The pushes
-- ============================================================================

section Pushes

variable {d d' : Deque (TaskPtr Task)} {own batch : List Task} {size : Nat}

/-- The batch, as `steal_batch` answers it. -/
def cells (batch : List Task) : List (Option (TaskPtr Task)) := (batch.map some).map some

theorem pushBatch_cons {task : Task} {answer : Answer (Option (TaskPtr Task))}
    (h : call pointerSize d (.push (some task)) = some (answer, d')) (batch : List Task) :
    pushBatch d (cells (task :: batch)) = pushBatch d' (cells batch) := by
  simp only [cells, List.map_cons, pushBatch, h]

theorem cap_of_logCap_eq {E : Type*} {buf buf' : DequeBuffer E} (h : buf'.logCap = buf.logCap) :
    buf'.cap = buf.cap := by
  rw [DequeBuffer.cap_eq, DequeBuffer.cap_eq, h]

/-- Whether the deque may grow depends on `top` and on the capacity. -/
theorem mayGrow_congr {elemSize : ℕ+} (h_top : d'.top = d.top)
    (h_logCap : d'.buffer.logCap = d.buffer.logCap) :
    d'.MayGrow elemSize ↔ d.MayGrow elemSize := by
  rw [Deque.MayGrow, Deque.MayGrow, h_top, h_logCap, cap_of_logCap_eq h_logCap]

/-- A batch that fits, perhaps after the buffer has grown. -/
theorem pushBatch_eq (hd : Contains d (own.map some)) (batch : List Task)
    (h_batch : batch.length ≤ d.buffer.cap)
    (h_room : own.length + batch.length ≤ d.buffer.cap ∨ d.MayGrow pointerSize) :
    ∃ d', pushBatch d (cells batch) = some d' ∧ Contains d' ((own ++ batch).map some) ∧
      d.buffer.logCap ≤ d'.buffer.logCap := by
  induction batch generalizing d own with
  | nil => exact ⟨d, rfl, by rwa [List.append_nil], le_refl _⟩
  | cons task batch ih =>
      have h_may : (own.map some).length = d.buffer.cap → d.MayGrow pointerSize := by
        intro h_full
        rw [List.length_map] at h_full
        rw [List.length_cons] at h_room
        exact h_room.resolve_left (by omega)
      obtain ⟨d₁, h_call, h_top, h_logCap, hd₁⟩ := hd.push h_may (some task)
      have h_tasks : own.map some ++ [some task] = (own ++ [task]).map some := by
        rw [List.map_append, List.map_singleton]
      rw [h_tasks] at hd₁
      rw [List.length_cons] at h_batch h_room
      rw [List.length_map] at h_may h_logCap
      have h_next : batch.length ≤ d₁.buffer.cap ∧
          ((own ++ [task]).length + batch.length ≤ d₁.buffer.cap ∨ d₁.MayGrow pointerSize) := by
        rw [List.length_append, List.length_singleton]
        by_cases h_full : own.length = d.buffer.cap
        · -- the buffer has doubled, and does not grow again
          rw [if_pos h_full] at h_logCap
          have h_cap := DequeBuffer.cap_double h_logCap
          omega
        · rw [if_neg h_full, Nat.add_zero] at h_logCap
          have h_cap := cap_of_logCap_eq h_logCap
          refine ⟨by omega, ?_⟩
          exact h_room.imp (fun h_room => by omega) (mayGrow_congr h_top h_logCap).mpr
      obtain ⟨d₂, h_rest, hd₂, h_le⟩ := ih hd₁ h_next.1 h_next.2
      refine ⟨d₂, (pushBatch_cons h_call batch).trans h_rest, ?_, ?_⟩
      · rwa [List.append_assoc, List.singleton_append] at hd₂
      · split at h_logCap <;> omega

/-- What is lost is not brought back by the rest of the batch. -/
theorem not_contains_of_lost (hd : Lost size d) (h_room : size + batch.length ≤ d.buffer.cap)
    (h : pushBatch d (cells batch) = some d') (l : List (TaskPtr Task)) : ¬ Contains d' l := by
  induction batch generalizing d size with
  | nil =>
      obtain rfl : d = d' := Option.some.inj h
      exact hd.not_contains l
  | cons task batch ih =>
      rw [List.length_cons] at h_room
      obtain ⟨d₁, h_call, hd₁, h_cap⟩ := hd.push (by omega) (some task)
      rw [pushBatch_cons h_call] at h
      exact ih hd₁ (by omega) h

/-- A batch for which the buffer cannot grow is not put behind the tasks. -/
theorem not_contains_of_not_mayGrow (hd : Contains d (own.map some))
    (h_batch : batch.length ≤ d.buffer.cap) (h_more : d.buffer.cap < own.length + batch.length)
    (h_not : ¬ d.MayGrow pointerSize) (h : pushBatch d (cells batch) = some d')
    (l : List (TaskPtr Task)) : ¬ Contains d' l := by
  induction batch generalizing d own with
  | nil =>
      have h_fits := hd.fits
      rw [List.length_map] at h_fits
      rw [List.length_nil] at h_more
      omega
  | cons task batch ih =>
      rw [List.length_cons] at h_batch h_more
      by_cases h_full : (own.map some).length = d.buffer.cap
      · rcases hd.push_of_not_mayGrow h_full h_not (some task) with
          h_panic | ⟨d₁, h_call, hd₁, h_cap⟩
        · simp only [cells, List.map_cons, pushBatch, h_panic, reduceCtorEq] at h
        · rw [pushBatch_cons h_call] at h
          exact not_contains_of_lost hd₁ (by omega) h l
      · obtain ⟨d₁, h_call, h_top, h_logCap, hd₁⟩ :=
          hd.push (fun h => absurd h h_full) (some task)
        rw [if_neg h_full, Nat.add_zero] at h_logCap
        have h_cap := cap_of_logCap_eq h_logCap
        have h_tasks : own.map some ++ [some task] = (own ++ [task]).map some := by
          rw [List.map_append, List.map_singleton]
        rw [h_tasks] at hd₁
        rw [pushBatch_cons h_call] at h
        rw [← mayGrow_congr h_top h_logCap] at h_not
        refine ih hd₁ (by omega) ?_ h_not h
        rw [List.length_append, List.length_singleton]
        omega

end Pushes

-- ============================================================================
-- The half
-- ============================================================================

variable {e : Thief Task} {own theirs : List Task} {victim : Deque (TaskPtr Task)}

/-- `try_steal` takes a batch of `batchSize` tasks, and pushes it. -/
theorem trySteal_eq (h_victim : e.stealers[e.pickVictim]? = some victim)
    (h_theirs : HoldsTasks victim theirs) :
    ∃ victim', HoldsTasks victim' (theirs.drop (batchSize theirs.length)) ∧
      e.trySteal =
        if theirs = [] then
          some (false, { e with stealsAttempted := e.stealsAttempted + 1
                                stealers := e.stealers.set e.pickVictim victim' })
        else
          (pushBatch e.worker (cells (theirs.take (batchSize theirs.length)))).map fun worker =>
            (true, { e with stealsAttempted := e.stealsAttempted + 1
                            stealsSucceeded := e.stealsSucceeded + 1
                            stealers := e.stealers.set e.pickVictim victim'
                            worker := worker }) := by
  have h_some : e.stealers.isEmpty = false := by
    cases h_stealers : e.stealers with
    | nil =>
        rw [h_stealers] at h_victim
        exact absurd h_victim (by simp)
    | cons => rfl
  obtain ⟨returned, h_call⟩ := h_theirs.contains.stealBatch pointerSize batchLen
  rw [List.length_map] at h_call
  have h_advance := h_theirs.contains.advance (k := batchSize theirs.length)
    (by rw [List.length_map, batchSize]; omega) returned
  rw [← List.map_drop] at h_advance
  refine ⟨_, ⟨h_advance, h_theirs.minLogCap_le⟩, ?_⟩
  have h_zero : (cells (theirs.take (batchSize theirs.length))).length = 0 ↔ theirs = [] := by
    rw [cells, List.length_map, List.length_map, List.length_take, ← List.length_eq_zero_iff]
    have h_batch : batchLen = 64 := rfl
    have h_max : maxStealBatch = 128 := rfl
    unfold batchSize
    omega
  have h_start : Thief.pickVictim { e with stealsAttempted := e.stealsAttempted + 1 } =
      e.pickVictim := rfl
  rw [Thief.trySteal, h_some, if_neg Bool.false_ne_true]
  simp only [h_start, h_victim, h_call]
  rw [← List.map_take]
  by_cases h_nil : theirs = []
  · rw [if_pos h_nil]
    exact if_pos (h_zero.mpr h_nil)
  · rw [if_neg h_nil]
    exact if_neg (fun h => h_nil (h_zero.mp h))

/-- The executors on lists of tasks steal the same batch. -/
theorem System.stealBatch_eq {Core : Type*} [DecidableEq Core] {s : System Core Task}
    {c victim : Core} (h_victim : (s.executor c).stealers[Executor.pickVictim
      (s.executor c).pollsExecuted (s.executor c).stealers.length]? = some victim) :
    let theirs := (s.executor victim).worker
    (s.stealBatch c).1 = theirs.take (batchSize theirs.length) ∧
      ((s.stealBatch c).2.executor victim).worker = theirs.drop (batchSize theirs.length) := by
  intro theirs
  have h_size : batchSize theirs.length = min theirs.length (min batchLen maxStealBatch) := by
    unfold batchSize
    omega
  rw [h_size]
  simp only [System.stealBatch, h_victim, System.setExecutor, Function.update_self]
  rcases Nat.le_total theirs.length (min batchLen maxStealBatch) with h_le | h_le
  · rw [Nat.min_eq_left h_le, List.take_length, List.drop_length]
    exact ⟨List.take_of_length_le h_le, List.drop_of_length_le h_le⟩
  · rw [Nat.min_eq_right h_le]
    exact ⟨rfl, rfl⟩

/-- A batch is half of the victim's tasks at most, rounded up, for very few tasks
    and for many. -/
theorem batchSize_le_half_iff (n : Nat) : batchSize n ≤ (n + 1) / 2 ↔ n ≤ 1 ∨ 127 ≤ n := by
  have h_batch : batchLen = 64 := rfl
  have h_max : maxStealBatch = 128 := rfl
  unfold batchSize
  omega

theorem batchSize_le (n : Nat) : batchSize n ≤ batchLen ∧ batchSize n ≤ n := by
  unfold batchSize
  omega

/-- The victim keeps what is behind the batch, and nothing else. -/
theorem Thief.StealsHalf.batchSize_le (h : e.StealsHalf own theirs)
    (h_victim : e.stealers[e.pickVictim]? = some victim) (h_theirs : HoldsTasks victim theirs) :
    batchSize theirs.length ≤ (theirs.length + 1) / 2 := by
  obtain ⟨k, stolen, e', victim₁, h_call, h_zero, h_half, -, h_stealers, h_kept, -⟩ := h
  obtain ⟨victim₂, h_drop, h_eq⟩ := trySteal_eq h_victim h_theirs
  have h_set : e'.stealers = e.stealers.set e.pickVictim victim₂ := by
    rw [h_call] at h_eq
    split at h_eq
    · cases h_eq
      rfl
    · obtain ⟨worker, -, h_pair⟩ := Option.map_eq_some_iff.mp h_eq.symm
      cases h_pair
      rfl
  have h_index : e.pickVictim < e.stealers.length := (List.getElem?_eq_some_iff.mp h_victim).1
  have h_same : victim₁ = victim₂ := by
    have h_read := congrArg (·[e.pickVictim]?) (h_stealers.symm.trans h_set)
    simpa [h_index] using h_read
  have h_sizes := h_kept.contains.size_eq.symm.trans (h_same ▸ h_drop.contains.size_eq)
  simp only [List.length_map, List.length_drop] at h_sizes
  have h_nil : theirs = [] ↔ theirs.length = 0 := List.length_eq_zero_iff.symm
  have h_le := (Executor.batchSize_le theirs.length).2
  rw [h_nil] at h_zero
  omega

/-- `try_steal` steals half exactly when the victim has no more than one task or
    at least 127, and the thief's deque takes the batch. -/
theorem stealsHalf_iff (h_victim : e.stealers[e.pickVictim]? = some victim)
    (h_own : HoldsTasks e.worker own) (h_theirs : HoldsTasks victim theirs) :
    e.StealsHalf own theirs ↔
      (theirs.length ≤ 1 ∨ 127 ≤ theirs.length) ∧ e.TakesBatch own theirs := by
  obtain ⟨victim', h_drop, h_eq⟩ := trySteal_eq h_victim h_theirs
  obtain ⟨h_le_len, h_le⟩ := batchSize_le theirs.length
  have h_cap : batchLen ≤ e.worker.buffer.cap := by
    rw [DequeBuffer.cap_eq]
    exact (Nat.pow_le_pow_right (by decide) h_own.minLogCap_le : 2 ^ minLogCap ≤ _)
  have h_taken : (theirs.take (batchSize theirs.length)).length = batchSize theirs.length := by
    rw [List.length_take]
    omega
  constructor
  · intro h
    refine ⟨(batchSize_le_half_iff _).mp (h.batchSize_le h_victim h_theirs), ?_⟩
    by_contra h_full
    obtain ⟨h_more, h_not⟩ := not_or.mp h_full
    obtain ⟨k, stolen, e', victim₁, h_call, -, -, h_worker, -⟩ := h
    have h_ne : theirs ≠ [] := by
      rintro rfl
      have h_fits := h_own.contains.fits
      rw [List.length_map] at h_fits
      exact h_more (by simpa [batchSize] using h_fits)
    rw [h_call, if_neg h_ne] at h_eq
    obtain ⟨worker, h_pushes, h_pair⟩ := Option.map_eq_some_iff.mp h_eq.symm
    obtain ⟨rfl, rfl⟩ := Prod.mk.inj h_pair
    exact not_contains_of_not_mayGrow h_own.contains (by omega) (by omega) h_not h_pushes _
      h_worker.contains
  · rintro ⟨h_count, h_takes⟩
    have h_half := (batchSize_le_half_iff _).mpr h_count
    have h_keeps : 2 ≤ theirs.length → theirs.drop (batchSize theirs.length) ≠ [] := by
      intro h_two h_nil
      rw [List.drop_eq_nil_iff] at h_nil
      omega
    by_cases h_nil : theirs = []
    · rw [if_pos h_nil] at h_eq
      subst h_nil
      exact ⟨0, false, _, victim', h_eq, by simp, by simp, by simpa using h_own, rfl,
        by simpa using h_drop, by simp⟩
    · obtain ⟨worker, h_pushes, h_worker, h_logCap⟩ := pushBatch_eq h_own.contains
        (theirs.take (batchSize theirs.length)) (by omega) (by rwa [h_taken])
      rw [if_neg h_nil, h_pushes] at h_eq
      have h_zero : batchSize theirs.length = 0 ↔ theirs = [] := by
        have h_pos := List.length_pos_of_ne_nil h_nil
        have h_batch : batchLen = 64 := rfl
        have h_max : maxStealBatch = 128 := rfl
        constructor
        · intro h
          unfold batchSize at h
          omega
        · exact fun h => absurd h h_nil
      exact ⟨batchSize theirs.length, true, _, victim', h_eq, h_zero, h_half,
        ⟨h_worker, h_own.minLogCap_le.trans h_logCap⟩, rfl, h_drop, h_keeps⟩

/-- Any number of tasks can be pushed, as long as the layouts are not refused. -/
theorem pushBatch_of_holds {d : Deque (TaskPtr Task)} {n : Nat}
    (hd : Stealer.Holds n d (own.map some)) (batch : List Task) (h_n : n + batch.length < 2 ^ 62)
    (h_layout : DequeBuffer.LayoutFits pointerSize (2 * (own.length + batch.length))) :
    ∃ d', pushBatch d (cells batch) = some d' ∧ d.buffer.logCap ≤ d'.buffer.logCap ∧
      Stealer.Holds (n + batch.length) d' ((own ++ batch).map some) := by
  induction batch generalizing d n own with
  | nil => exact ⟨d, rfl, le_refl _, by rwa [List.append_nil]⟩
  | cons task batch ih =>
      rw [List.length_cons] at h_n h_layout
      obtain ⟨d₁, h_call, h_le, hd₁⟩ :=
        hd.push (by omega) (h_layout.mono (by rw [List.length_map]; omega)) (some task)
      have h_tasks : own.map some ++ [some task] = (own ++ [task]).map some := by
        rw [List.map_append, List.map_singleton]
      have h_count : n + (batch.length + 1) = n + 1 + batch.length := by omega
      rw [h_tasks] at hd₁
      rw [h_count] at h_n
      obtain ⟨d₂, h_rest, h_le₂, hd₂⟩ := ih hd₁ h_n
        (h_layout.mono (by rw [List.length_append, List.length_singleton]; omega))
      rw [List.append_assoc, List.singleton_append, ← h_count] at hd₂
      exact ⟨d₂, (pushBatch_cons h_call batch).trans h_rest, h_le.trans h_le₂, hd₂⟩

/-- A new deque to which some tasks have been pushed. -/
theorem holdsTasks_pushed (tasks : List Task)
    (h_layout : DequeBuffer.LayoutFits pointerSize (2 * tasks.length)) :
    ∃ d, pushBatch (deque (TaskPtr Task)) (cells tasks) = some d ∧ HoldsTasks d tasks := by
  have h_new : Stealer.Holds 0 (deque (TaskPtr Task)) (([] : List Task).map some) := holds_deque
  have h_few : tasks.length < 2 ^ 62 := by
    unfold DequeBuffer.LayoutFits isizeMax pointerSize at h_layout
    simp only [PNat.val_ofNat] at h_layout
    omega
  obtain ⟨d, h_pushes, h_le, hd⟩ := pushBatch_of_holds h_new tasks (by omega)
    (by rwa [List.length_nil, Nat.zero_add])
  exact ⟨d, h_pushes, hd.contains (by omega), h_le⟩

/-- An executor with an empty deque and one victim. -/
def idleThief (victim : Deque (TaskPtr Nat)) : Thief Nat where
  worker := deque (TaskPtr Nat)
  stealers := [victim]
  pollsExecuted := 0
  stealsAttempted := 0
  stealsSucceeded := 0

theorem pickVictim_idleThief (victim : Deque (TaskPtr Nat)) :
    (idleThief victim).stealers[(idleThief victim).pickVictim]? = some victim := by
  have h_zero : (idleThief victim).pickVictim = 0 := Nat.mod_one _
  rw [h_zero]
  rfl

theorem stealsHalf_longDeque :
    ∃ victim, pushBatch (deque (TaskPtr Nat)) (cells (List.range 128)) = some victim ∧
      (idleThief victim).StealsHalf [] (List.range 128) := by
  obtain ⟨victim, h_pushes, h_theirs⟩ := holdsTasks_pushed (List.range 128)
    (by rw [List.length_range]; decide)
  have h_half : 127 ≤ (List.range 128).length := by
    rw [List.length_range]
    decide
  have h_room : (idleThief victim).TakesBatch [] (List.range 128) := by
    rw [Thief.TakesBatch, List.length_range]
    exact .inl (show 0 + batchSize 128 ≤ 1 <<< 6 by decide)
  exact ⟨victim, h_pushes, (stealsHalf_iff (pickVictim_idleThief victim) holdsTasks_deque
    h_theirs).mpr ⟨.inr h_half, h_room⟩⟩

/-- Of two tasks both are stolen. -/
theorem two_both_stolen :
    ∃ victim, pushBatch (deque (TaskPtr Nat)) (cells [7, 8]) = some victim ∧
      HoldsTasks victim [7, 8] ∧
      (∃ e' victim', (idleThief victim).trySteal = some (true, e') ∧
        HoldsTasks e'.worker [7, 8] ∧ e'.stealers = [victim'] ∧ HoldsTasks victim' []) ∧
      ¬ (idleThief victim).StealsHalf [] [7, 8] := by
  obtain ⟨victim, h_pushes, h_theirs⟩ := holdsTasks_pushed [7, 8] (by decide)
  refine ⟨victim, h_pushes, h_theirs, ?_, fun h => ?_⟩
  · obtain ⟨victim', h_drop, h_eq⟩ := trySteal_eq (pickVictim_idleThief victim) h_theirs
    obtain ⟨worker, h_batch, h_worker⟩ := holdsTasks_pushed [7, 8] (by decide)
    have h_zero : (idleThief victim).pickVictim = 0 := Nat.mod_one _
    have h_all : pushBatch (idleThief victim).worker
        (cells ([7, 8].take (batchSize ([7, 8] : List Nat).length))) = some worker := h_batch
    rw [if_neg (by decide), h_all, h_zero] at h_eq
    exact ⟨_, victim', h_eq, h_worker, rfl, h_drop⟩
  · exact absurd (h.batchSize_le (pickVictim_idleThief victim) h_theirs) (by decide)

end Executor
end Zydon
