/-
  Zydon.Lib.History

  Machines that keep a record of their runs.

  What has happened in a run, rather than how things are in the state it ends in,
  is read off such a record.  The record has no influence: every run of the
  machine can be recorded (`recorded_exec`).
-/

import Zydon.Lib.Machine

namespace Lib

/-- A state, and what has been recorded on the way to it. -/
structure Recorded (σ η : Type*) where
  state : σ
  record : η

namespace Machine

variable {σ α η : Type*} {M : Machine σ α} {note : σ → α → σ → η → η} {h₀ : η}

/-- `M` with a record, kept by `note` from each step's states and label. -/
def recorded (M : Machine σ α) (note : σ → α → σ → η → η) (h₀ : η) :
    Machine (Recorded σ η) α where
  init := { state := M.init, record := h₀ }
  step := fun s a =>
    match M.step s.state a with
    | some s' => some { state := s', record := note s.state a s' s.record }
    | none => none

theorem recorded_step_eq_some {s s' : Recorded σ η} {a : α} :
    (M.recorded note h₀).step s a = some s' ↔
      M.step s.state a = some s'.state ∧ s'.record = note s.state a s'.state s.record := by
  obtain ⟨state, record⟩ := s'
  cases h : M.step s.state a with
  | none => simp [recorded, h]
  | some m =>
      simp only [recorded, h, Option.some.injEq, Recorded.mk.injEq]
      constructor
      · rintro ⟨rfl, rfl⟩
        exact ⟨rfl, rfl⟩
      · rintro ⟨rfl, rfl⟩
        exact ⟨rfl, rfl⟩

/-- Every run can be recorded. -/
theorem recorded_exec {s s' : σ} {tr : List α} (h : M.exec s tr = some s') (record : η) :
    ∃ record', (M.recorded note h₀).exec { state := s, record := record } tr =
      some { state := s', record := record' } := by
  induction tr generalizing s record with
  | nil =>
      obtain rfl : s = s' := by simpa using h
      exact ⟨record, rfl⟩
  | cons a tr ih =>
      obtain ⟨m, h_step, h_rest⟩ := exec_cons_eq_some.mp h
      obtain ⟨record', h_rest⟩ := ih h_rest (note s a m record)
      exact ⟨record', exec_cons_eq_some.mpr ⟨_, recorded_step_eq_some.mpr ⟨h_step, rfl⟩, h_rest⟩⟩

end Machine
end Lib
