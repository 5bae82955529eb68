/-
  Zydon.Lib.Tally

  Sums over the threads, when one of them moves: the tally loses what that
  thread counted for and gains what it counts for now.
-/

import Mathlib.Algebra.BigOperators.Group.Finset.Piecewise
import Mathlib.Data.Fintype.BigOperators
import Mathlib.Tactic.Abel

namespace Lib

variable {T P : Type*} [Fintype T] [DecidableEq T]

/-- The sum over the threads when one of them moves to `x`. -/
theorem sum_update_add {M : Type*} [AddCommMonoid M] (f : P → M) (pc : T → P) (t : T) (x : P) :
    ∑ i, f (Function.update pc t x i) + f (pc t) = ∑ i, f (pc i) + f x := by
  have h_rest : ∑ i ∈ Finset.univ.erase t, f (Function.update pc t x i) =
      ∑ i ∈ Finset.univ.erase t, f (pc i) := by
    apply Finset.sum_congr rfl
    intro i h_i
    rw [Function.update_of_ne (Finset.ne_of_mem_erase h_i)]
  have h_new := Finset.add_sum_erase Finset.univ (fun i => f (Function.update pc t x i))
    (Finset.mem_univ t)
  have h_old := Finset.add_sum_erase Finset.univ (fun i => f (pc i)) (Finset.mem_univ t)
  rw [Function.update_self, h_rest] at h_new
  rw [← h_new, ← h_old]
  abel

variable [DecidableEq P]

/-- How many threads are at `p`. -/
def tally (pc : T → P) (p : P) : Nat := ∑ i, if pc i = p then 1 else 0

omit [DecidableEq T] in
theorem tally_eq_zero_iff {pc : T → P} {p : P} : tally pc p = 0 ↔ ∀ i, pc i ≠ p := by
  rw [tally, Finset.sum_eq_zero_iff]
  simp

/-- A thread moves from `pc t` to `x`. -/
theorem tally_update (pc : T → P) (t : T) (x p : P) :
    tally (Function.update pc t x) p + (if pc t = p then 1 else 0) =
      tally pc p + if x = p then 1 else 0 :=
  sum_update_add (fun q => if q = p then 1 else 0) pc t x

end Lib
