/-
  Zydon.Task.Boosting

  `boost_priority` of `task/task_control_block.rs` on any number of cores at once,
  one load or weak exchange of `effective_priority` at a time.

  A boost is its loop (`effective.raiser`, `Lib.Raising`), and what the loop does as
  one step is `TaskControlBlock.boostPriority`.
-/

import Zydon.Lib.Raising
import Zydon.Task.TaskControlBlock

namespace Zydon
namespace TaskControlBlock

open Lib

variable {Core : Type*}

/-- `effective_priority`, compared as an `i32`. -/
def effective : RankedField TaskControlBlock (BitVec 32) Int where
  get t := t.effectivePriority
  set t priority := { t with effectivePriority := priority }
  rank := BitVec.toInt
  get_set _ _ := rfl

/-- The loop of `boost_priority`, run by any number of cores on the task `t`. -/
def boosts (Core : Type*) [DecidableEq Core] (t : TaskControlBlock) :
    Machine (Threads Core TaskControlBlock (RaisePc (BitVec 32)))
      (Core × RaiseAction (BitVec 32)) :=
  effective.raiser.interleave Core t

/-- Without interruption the loop is `boost_priority`. -/
theorem raise_eq_boostPriority : effective.raise = boostPriority := by
  funext t boostTo
  have h_sle : boostTo.sle t.effectivePriority = true ↔
      effective.rank boostTo ≤ effective.rank (effective.get t) := BitVec.sle_iff_toInt_le
  rw [RankedField.raise, boostPriority]
  by_cases h_le : effective.rank boostTo ≤ effective.rank (effective.get t)
  · rw [if_pos h_le, if_pos (h_sle.mpr h_le)]
  · rw [if_neg h_le, if_neg fun h => h_le (h_sle.mp h)]
    rfl

/-- What the boosts `started` have made of the task `t`. -/
structure BoostsAtomic [DecidableEq Core] (t : TaskControlBlock) (started : List (BitVec 32))
    (s : Threads Core TaskControlBlock (RaisePc (BitVec 32))) : Prop where
  /-- The boosts that have returned have been made one after the other, and those
      that have not have done nothing. -/
  serial : ∃ done : List (BitVec 32), s.shared = done.foldl boostPriority t ∧
    (∀ x ∈ done, x ∈ started) ∧ ∀ x ∈ started, x ∈ done ∨ ∃ c, (s.pc c).target = some x
  raises : t.effectivePriority.toInt ≤ s.shared.effectivePriority.toInt
  /-- No step that can be taken from here lowers the priority. -/
  neverFalls : ∀ a s', (boosts Core t).step s a = some s' →
    s.shared.effectivePriority.toInt ≤ s'.shared.effectivePriority.toInt
  /-- A boost whose exchange has come too late finds a higher priority. -/
  behind : ∀ c current x, s.pc c = .exchange current x → s.shared.effectivePriority ≠ current →
    current.toInt < s.shared.effectivePriority.toInt
  /-- With none in progress the priority is the highest of all. -/
  highest : (∀ c, s.pc c = .idle) → s.shared.effectivePriority.toInt =
    (started.map BitVec.toInt).foldl max t.effectivePriority.toInt

/-- However the boosts of a task by any number of cores interleave, each is one
    step, and none is lost. -/
theorem boostsAtomic_of_run [DecidableEq Core] {t : TaskControlBlock}
    {s : Threads Core TaskControlBlock (RaisePc (BitVec 32))}
    {tr : List (Core × RaiseAction (BitVec 32))}
    (h_run : (boosts Core t).exec (boosts Core t).init tr = some s) :
    BoostsAtomic t (RankedField.called tr) s := by
  obtain ⟨done, h⟩ := RankedField.isRaised_of_run h_run
  constructor
  case serial =>
    refine ⟨done, ?_, h.done_sub, h.started_sub⟩
    rw [h.shared, raise_eq_boostPriority]
  case raises => exact h.le_rank
  case neverFalls => exact fun a s' h_step => h.rank_le_step h_step
  case behind =>
    intro c current x h_c h_ne
    have h_le : current.toInt ≤ s.shared.effectivePriority.toInt := (h.behind c current x h_c).2
    refine lt_of_le_of_ne h_le fun h_eq => h_ne ?_
    exact (BitVec.toInt_inj.mp h_eq).symm
  case highest => exact h.rank_eq

/-- Two cores load the priority of a new task before either raises it. -/
def racingBoosts : List (Bool × RaiseAction (BitVec 32)) :=
  [(true, .call 3), (false, .call 9), (true, .next), (false, .next), (false, .next), (true, .next),
    (true, .next)]

theorem boostsAtomic_racingBoosts :
    ∃ s, (boosts Bool .new).exec (boosts Bool .new).init racingBoosts = some s ∧
      s.shared.effectivePriority = 9 ∧
      BoostsAtomic .new (RankedField.called racingBoosts) s := by
  have h_replay : ((boosts Bool .new).exec (boosts Bool .new).init racingBoosts).any
      (fun s => decide (s.shared.effectivePriority = 9)) = true := by decide +kernel
  obtain ⟨s, h_run, h_nine⟩ := Machine.exec_of_decide h_replay
  exact ⟨s, h_run, h_nine, boostsAtomic_of_run h_run⟩

end TaskControlBlock
end Zydon
