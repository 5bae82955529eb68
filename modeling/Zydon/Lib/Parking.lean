/-
  Zydon.Lib.Parking

  Checking and parking: one party waits in a line until another one wakes it.

  The parker uses one waiter at a time (`Sound.unique`).  A waiter `rests` when
  it relies on being woken: it will make no check of its own any more.  The
  waker is `due` while it has made something to come for and will still wake the
  first of the line; it takes that waiter out of the line (`waking`), and then
  invokes its waker.

  No wake-up is lost in a `Sound` side: a waiter that rests and has not been
  woken has nothing to come for, once the waker is through (`Sound.not_lost`).
  There is one lemma for each thing either party can do.
-/

import Mathlib.Data.List.Nodup

namespace Lib

/-- A line of waiters between the party that parks and the party that wakes. -/
structure Side (ι : Type*) where
  line : List ι
  /-- The waiter is being polled, or has parked. -/
  live : ι → Prop
  rests : ι → Prop
  woken : ι → Prop
  waking : Option ι
  due : Prop
  /-- There is nothing to come for. -/
  blocked : Prop

namespace Side

variable {ι : Type*}

/-- No wake-up has been lost. -/
structure Sound (s : Side ι) : Prop where
  unique : ∀ i j, s.live i → s.live j → i = j
  line_live : ∀ i ∈ s.line, s.live i
  rests_live : ∀ i, s.rests i → s.live i
  covered : ∀ i, s.rests i → i ∈ s.line ∨ s.woken i ∨ s.waking = some i
  justified : ∀ i, s.rests i → i ∈ s.line → s.blocked ∨ s.due

namespace Sound

variable {s s' : Side ι} {f : ι}

theorem not_lost (h : s.Sound) (h_rests : s.rests f) (h_woken : ¬ s.woken f)
    (h_waking : s.waking = none) (h_due : ¬ s.due) : s.blocked := by
  rcases h.covered f h_rests with h_line | h_f | h_f
  · exact (h.justified f h_rests h_line).resolve_right h_due
  · exact absurd h_f h_woken
  · rw [h_waking] at h_f
    exact absurd h_f (by simp)

/-- Nobody waits. -/
theorem init (h_line : s.line = []) (h_live : ∀ i, ¬ s.live i) (h_rests : ∀ i, ¬ s.rests i) :
    s.Sound where
  unique := fun i _ h_i => absurd h_i (h_live i)
  line_live := fun i h_i => absurd h_i (by simp [h_line])
  rests_live := fun i h_i => absurd h_i (h_rests i)
  covered := fun i h_i => absurd h_i (h_rests i)
  justified := fun i h_i => absurd h_i (h_rests i)

/-- Nothing happens to the line.  What makes something to come for is due to wake. -/
theorem frame (h : s.Sound) (h_line : s'.line = s.line) (h_live : ∀ i, s'.live i ↔ s.live i)
    (h_rests : ∀ i, s'.rests i → s.rests i) (h_woken : ∀ i, s.woken i → s'.woken i)
    (h_waking : s'.waking = s.waking) (h_owed : s.blocked ∨ s.due → s'.blocked ∨ s'.due) :
    s'.Sound where
  unique := fun i j h_i h_j => h.unique i j ((h_live i).mp h_i) ((h_live j).mp h_j)
  line_live := fun i h_i => (h_live i).mpr (h.line_live i (h_line ▸ h_i))
  rests_live := fun i h_i => (h_live i).mpr (h.rests_live i (h_rests i h_i))
  covered := by
    intro i h_i
    rw [h_line, h_waking]
    exact (h.covered i (h_rests i h_i)).imp_right (Or.imp_left (h_woken i))
  justified := fun i h_i h_mem => h_owed (h.justified i (h_rests i h_i) (h_line ▸ h_mem))

/-- The parker polls `f`, and no other waiter of its is live.  The future rests on
    if it does so as long as it is in the line. -/
theorem poll (h : s.Sound) (h_only : ∀ i, s.live i → i = f) (h_line : s'.line = s.line)
    (h_live : ∀ i, s'.live i ↔ s.live i ∨ i = f)
    (h_rests : ∀ i, s'.rests i → s.rests i ∧ i ∈ s.line)
    (h_owed : s.blocked ∨ s.due → s'.blocked ∨ s'.due) : s'.Sound where
  unique := by
    intro i j h_i h_j
    rw [((h_live i).mp h_i).elim (h_only i) id, ((h_live j).mp h_j).elim (h_only j) id]
  line_live := fun i h_i => (h_live i).mpr (.inl (h.line_live i (h_line ▸ h_i)))
  rests_live := fun i h_i => (h_live i).mpr (.inl (h.rests_live i (h_rests i h_i).1))
  covered := by
    intro i h_i
    rw [h_line]
    exact .inl (h_rests i h_i).2
  justified := fun i h_i h_mem => h_owed (h.justified i (h_rests i h_i).1 (h_line ▸ h_mem))

/-- The parker puts the live waiter `f` at the end of the line. -/
theorem link (h : s.Sound) (h_f : s.live f) (h_line : s'.line = s.line ++ [f])
    (h_live : ∀ i, s'.live i ↔ s.live i) (h_rests : ∀ i, s'.rests i → s.live i)
    (h_owed : s'.rests f → s'.blocked ∨ s'.due) : s'.Sound where
  unique := fun i j h_i h_j => h.unique i j ((h_live i).mp h_i) ((h_live j).mp h_j)
  line_live := by
    intro i h_i
    rw [h_line, List.mem_append, List.mem_singleton] at h_i
    rcases h_i with h_i | rfl
    · exact (h_live i).mpr (h.line_live i h_i)
    · exact (h_live i).mpr h_f
  rests_live := fun i h_i => (h_live i).mpr (h_rests i h_i)
  covered := by
    intro i h_i
    obtain rfl : i = f := h.unique i f (h_rests i h_i) h_f
    exact .inl (by simp [h_line])
  justified := by
    intro i h_i _
    obtain rfl : i = f := h.unique i f (h_rests i h_i) h_f
    exact h_owed h_i

/-- The live waiter `f` goes to rest. -/
theorem rest (h : s.Sound) (h_f : s.live f) (h_line : s'.line = s.line)
    (h_live : ∀ i, s'.live i ↔ s.live i) (h_rests : ∀ i, s'.rests i → s.live i)
    (h_covered : f ∈ s'.line ∨ s'.woken f ∨ s'.waking = some f)
    (h_owed : f ∈ s.line → s'.blocked ∨ s'.due) : s'.Sound where
  unique := fun i j h_i h_j => h.unique i j ((h_live i).mp h_i) ((h_live j).mp h_j)
  line_live := fun i h_i => (h_live i).mpr (h.line_live i (h_line ▸ h_i))
  rests_live := fun i h_i => (h_live i).mpr (h_rests i h_i)
  covered := by
    intro i h_i
    obtain rfl : i = f := h.unique i f (h_rests i h_i) h_f
    exact h_covered
  justified := by
    intro i h_i h_mem
    obtain rfl : i = f := h.unique i f (h_rests i h_i) h_f
    exact h_owed (h_line ▸ h_mem)

/-- The waiter `f` leaves the line, and may stop being live. -/
theorem leave [DecidableEq ι] (h : s.Sound) (h_nodup : s.line.Nodup)
    (h_line : s'.line = s.line.erase f) (h_live : ∀ i, s'.live i → s.live i)
    (h_keep : ∀ i, i ≠ f → s.live i → s'.live i)
    (h_rests : ∀ i, s'.rests i → s.rests i ∧ i ≠ f) (h_woken : ∀ i, i ≠ f → s.woken i → s'.woken i)
    (h_waking : s'.waking = s.waking) (h_owed : s.blocked ∨ s.due → s'.blocked ∨ s'.due) :
    s'.Sound where
  unique := fun i j h_i h_j => h.unique i j (h_live i h_i) (h_live j h_j)
  line_live := by
    intro i h_i
    rw [h_line, h_nodup.mem_erase_iff] at h_i
    exact h_keep i h_i.1 (h.line_live i h_i.2)
  rests_live := fun i h_i =>
    h_keep i (h_rests i h_i).2 (h.rests_live i (h_rests i h_i).1)
  covered := by
    intro i h_i
    obtain ⟨h_i, h_if⟩ := h_rests i h_i
    rw [h_line, List.mem_erase_of_ne h_if, h_waking]
    exact (h.covered i h_i).imp_right (Or.imp_left (h_woken i h_if))
  justified := by
    intro i h_i h_mem
    rw [h_line] at h_mem
    exact h_owed (h.justified i (h_rests i h_i).1 (List.mem_of_mem_erase h_mem))

/-- The waker takes the first waiter out of the line.  There is no other one. -/
theorem wakeOne (h : s.Sound) (h_nodup : s.line.Nodup) (h_line : s'.line = s.line.tail)
    (h_live : ∀ i, s'.live i ↔ s.live i) (h_rests : ∀ i, s'.rests i → s.rests i)
    (h_woken : ∀ i, s.woken i → s'.woken i) (h_none : s.waking = none)
    (h_waking : s'.waking = s.line.head?) : s'.Sound := by
  have h_empty : s'.line = [] := by
    rw [h_line]
    cases h_l : s.line with
    | nil => rfl
    | cons g l =>
        rw [h_l] at h_nodup
        refine List.eq_nil_iff_forall_not_mem.mpr fun i h_i => (List.nodup_cons.mp h_nodup).1 ?_
        have h_g : s.live g := h.line_live g (by simp [h_l])
        have h_il : s.live i := h.line_live i (by rw [h_l]; exact List.mem_cons_of_mem g h_i)
        exact h.unique i g h_il h_g ▸ h_i
  constructor
  case unique => exact fun i j h_i h_j => h.unique i j ((h_live i).mp h_i) ((h_live j).mp h_j)
  case line_live => exact fun i h_i => absurd h_i (by simp [h_empty])
  case rests_live => exact fun i h_i => (h_live i).mpr (h.rests_live i (h_rests i h_i))
  case covered =>
    intro i h_i
    rcases h.covered i (h_rests i h_i) with h_mem | h_i_woken | h_i_waking
    · obtain ⟨g, l, h_l⟩ := List.exists_cons_of_ne_nil (List.ne_nil_of_mem h_mem)
      have h_g : s.live g := h.line_live g (by simp [h_l])
      obtain rfl : i = g := h.unique i g (h.line_live i h_mem) h_g
      exact .inr (.inr (by rw [h_waking, h_l, List.head?_cons]))
    · exact .inr (.inl (h_woken i h_i_woken))
    · rw [h_none] at h_i_waking
      exact absurd h_i_waking (by simp)
  case justified => exact fun i _ h_mem => absurd h_mem (by simp [h_empty])

/-- The waker invokes the waker of the waiter it has taken out. -/
theorem invoke (h : s.Sound) (h_line : s'.line = s.line) (h_live : ∀ i, s'.live i ↔ s.live i)
    (h_rests : ∀ i, s'.rests i → s.rests i) (h_woken : ∀ i, s.woken i → s'.woken i)
    (h_f : ∀ i, s.waking = some i → s'.woken i)
    (h_owed : s.blocked ∨ s.due → s'.blocked ∨ s'.due) : s'.Sound where
  unique := fun i j h_i h_j => h.unique i j ((h_live i).mp h_i) ((h_live j).mp h_j)
  line_live := fun i h_i => (h_live i).mpr (h.line_live i (h_line ▸ h_i))
  rests_live := fun i h_i => (h_live i).mpr (h.rests_live i (h_rests i h_i))
  covered := by
    intro i h_i
    rw [h_line]
    rcases h.covered i (h_rests i h_i) with h_mem | h_i_woken | h_i_waking
    · exact .inl h_mem
    · exact .inr (.inl (h_woken i h_i_woken))
    · exact .inr (.inl (h_f i h_i_waking))
  justified := fun i h_i h_mem => h_owed (h.justified i (h_rests i h_i) (h_line ▸ h_mem))

end Sound
end Side
end Lib
