/-
  Zydon.Lib.WaitLine

  A line of waiters for a resource with free units, in which a wake-up takes a
  waiter out of the line before the waiter comes for its unit.

  The waiters that have been woken and have not come yet stand for the units
  that have been freed: in a line that is not empty there are at least as many
  of them as free units (`Served.enough`).  A waiter that comes late finds no
  unit and has lost its place, and one that leaves takes its wake-up along; the
  lemmas ask that neither happens (`Served.park_again`, `Served.leave`).
-/

import Mathlib.Data.Finset.Card
import Mathlib.Data.List.Nodup

namespace Lib

variable {ι : Type*}

/-- What a waiter is doing. -/
structure Waiter where
  /-- It waits for a unit. -/
  pending : Bool
  /-- It has been woken since it last came. -/
  woken : Bool

/-- The waiters `ws` are pending and woken. -/
def AllWoken (st : ι → Waiter) (ws : Finset ι) : Prop :=
  ∀ i ∈ ws, (st i).pending = true ∧ (st i).woken = true

instance AllWoken.decidable (st : ι → Waiter) (ws : Finset ι) : Decidable (AllWoken st ws) :=
  inferInstanceAs (Decidable (∀ i ∈ ws, _))

/-- The line `l` for `r` free units. -/
structure Served (r : Nat) (l : List ι) (st : ι → Waiter) : Prop where
  nodup : l.Nodup
  waits : ∀ i ∈ l, (st i).pending = true ∧ (st i).woken = false
  /-- A waiter out of the line has been woken. -/
  covered : ∀ i, (st i).pending = true → i ∈ l ∨ (st i).woken = true
  enough : l ≠ [] → ∃ ws, AllWoken st ws ∧ r ≤ ws.card

theorem AllWoken.update [DecidableEq ι] {st : ι → Waiter} {ws : Finset ι} {f : ι} {x : Waiter}
    (h : AllWoken st ws) (h_f : f ∉ ws) : AllWoken (Function.update st f x) ws := by
  intro i h_i
  have h_if : i ≠ f := fun h_eq => h_f (h_eq ▸ h_i)
  rw [Function.update_of_ne h_if]
  exact h i h_i

namespace Served

variable {r r' : Nat} {l : List ι} {st : ι → Waiter} {f : ι} {x : Waiter}

/-- Nobody waits. -/
theorem nil (h : ∀ i, (st i).pending = false) : Served r [] st where
  nodup := List.nodup_nil
  waits := fun i h_i => absurd h_i List.not_mem_nil
  covered := fun i h_i => absurd h_i (by simp [h i])
  enough := fun h_ne => absurd rfl h_ne

/-- Whenever a unit is free and someone waits, somebody has been woken. -/
theorem someone_woken (h : Served r l st) (h_free : 0 < r) (h_some : ∃ i, (st i).pending = true) :
    ∃ i, (st i).pending = true ∧ (st i).woken = true := by
  obtain ⟨i, h_i⟩ := h_some
  cases l with
  | nil => exact ⟨i, h_i, (h.covered i h_i).resolve_left List.not_mem_nil⟩
  | cons j l =>
      obtain ⟨ws, h_ws, h_card⟩ := h.enough (List.cons_ne_nil j l)
      obtain ⟨k, h_k⟩ : ws.Nonempty := Finset.card_pos.mp (by omega)
      exact ⟨k, h_ws k h_k⟩

/-- Units are taken by others than the waiters. -/
theorem mono (h : Served r l st) (h_le : r' ≤ r) : Served r' l st where
  nodup := h.nodup
  waits := h.waits
  covered := h.covered
  enough := by
    intro h_ne
    obtain ⟨ws, h_ws, h_card⟩ := h.enough h_ne
    exact ⟨ws, h_ws, h_le.trans h_card⟩

/-- Units are freed while nobody is in the line. -/
theorem free_nil (h : Served r [] st) : Served r' [] st where
  nodup := h.nodup
  waits := h.waits
  covered := h.covered
  enough := fun h_ne => absurd rfl h_ne

variable [DecidableEq ι]

/-- A unit is freed, and the first waiter woken. -/
theorem wake (h : Served r (f :: l) st) :
    Served (r + 1) l (Function.update st f { st f with woken := true }) := by
  obtain ⟨h_f_notin, h_nodup⟩ := List.nodup_cons.mp h.nodup
  obtain ⟨h_f, h_f_woken⟩ := h.waits f List.mem_cons_self
  refine ⟨h_nodup, fun i h_i => ?_, fun i h_i => ?_, fun _ => ?_⟩
  · have h_if : i ≠ f := fun h_eq => h_f_notin (h_eq ▸ h_i)
    rw [Function.update_of_ne h_if]
    exact h.waits i (List.mem_cons_of_mem f h_i)
  · by_cases h_if : i = f
    · subst h_if
      exact .inr (by rw [Function.update_self])
    · rw [Function.update_of_ne h_if] at h_i ⊢
      exact (h.covered i h_i).imp_left fun h_mem => (List.mem_cons.mp h_mem).resolve_left h_if
  · obtain ⟨ws, h_ws, h_card⟩ := h.enough (List.cons_ne_nil f l)
    have h_f_ws : f ∉ ws := fun h_mem => by simp [(h_ws f h_mem).2] at h_f_woken
    refine ⟨insert f ws, fun i h_i => ?_, ?_⟩
    · rcases Finset.mem_insert.mp h_i with rfl | h_i
      · rw [Function.update_self]
        exact ⟨h_f, rfl⟩
      · exact h_ws.update h_f_ws i h_i
    · rw [Finset.card_insert_of_notMem h_f_ws]
      omega

/-- The waiter `f` leaves.  If it has been woken and others are in the line, the
    free units that are left need enough other waiters that have been woken. -/
theorem leave (h : Served r l st) (h_x : x.pending = false) (h_le : r' ≤ r)
    (h_owed : (st f).pending = true → (st f).woken = true → l ≠ [] →
      ∃ ws, f ∉ ws ∧ AllWoken st ws ∧ r' ≤ ws.card) :
    Served r' (l.erase f) (Function.update st f x) := by
  refine ⟨h.nodup.erase f, fun i h_i => ?_, fun i h_i => ?_, fun h_ne => ?_⟩
  · obtain ⟨h_if, h_i⟩ := h.nodup.mem_erase_iff.mp h_i
    rw [Function.update_of_ne h_if]
    exact h.waits i h_i
  · have h_if : i ≠ f := by
      rintro rfl
      rw [Function.update_self, h_x] at h_i
      exact absurd h_i (by simp)
    rw [Function.update_of_ne h_if] at h_i ⊢
    exact (h.covered i h_i).imp_left (List.mem_erase_of_ne h_if).mpr
  · have h_l : l ≠ [] := by
      rintro rfl
      exact h_ne rfl
    by_cases h_f : (st f).pending = true ∧ (st f).woken = true
    · obtain ⟨ws, h_f_ws, h_ws, h_card⟩ := h_owed h_f.1 h_f.2 h_l
      exact ⟨ws, h_ws.update h_f_ws, h_card⟩
    · obtain ⟨ws, h_ws, h_card⟩ := h.enough h_l
      exact ⟨ws, h_ws.update fun h_mem => h_f (h_ws f h_mem), h_le.trans h_card⟩

/-- The waiter `f` takes a unit and leaves. -/
theorem take (h : Served (r + 1) l st) (h_x : x.pending = false) :
    Served r (l.erase f) (Function.update st f x) := by
  refine h.leave h_x (Nat.le_succ r) fun h_f h_woken h_l => ?_
  obtain ⟨ws, h_ws, h_card⟩ := h.enough h_l
  refine ⟨ws.erase f, Finset.notMem_erase f ws, fun i h_i => ?_, ?_⟩
  · exact h_ws i (Finset.mem_of_mem_erase h_i)
  · have h_pred := Finset.pred_card_le_card_erase (s := ws) (a := f)
    omega

/-- A waiter that is not in the line finds no unit and goes to its end. -/
theorem park (h : Served 0 l st) (h_f : f ∉ l) :
    Served 0 (l ++ [f]) (Function.update st f ⟨true, false⟩) := by
  refine ⟨?_, fun i h_i => ?_, fun i h_i => ?_, fun _ => ⟨∅, ?_, Nat.zero_le _⟩⟩
  · exact List.nodup_append.mpr ⟨h.nodup, List.nodup_singleton f, by
      rintro a h_a b h_b rfl
      obtain rfl : a = f := by simpa using h_b
      exact h_f h_a⟩
  · by_cases h_if : i = f
    · subst h_if
      rw [Function.update_self]
      exact ⟨rfl, rfl⟩
    · rw [Function.update_of_ne h_if]
      exact h.waits i (by simpa [h_if] using h_i)
  · by_cases h_if : i = f
    · exact .inl (by simp [h_if])
    · rw [Function.update_of_ne h_if] at h_i ⊢
      exact (h.covered i h_i).imp_left (List.mem_append_left [f])
  · exact fun i h_i => absurd h_i (Finset.notMem_empty i)

/-- A waiter that is still in the line comes again and finds no unit. -/
theorem park_again (h : Served 0 l st) (h_f : f ∈ l) :
    Served 0 l (Function.update st f ⟨true, false⟩) := by
  obtain ⟨h_pending, h_woken⟩ := h.waits f h_f
  have h_st : st f = ⟨true, false⟩ := by
    cases h_x : st f
    simp_all
  rw [← h_st, Function.update_eq_self]
  exact h

end Served
end Lib
