/-
  Zydon.Lib.Ring

  Ring buffers seen through their unwrapped indices: a cell of the buffer is
  the residue of an index, and indices less than a capacity apart are different
  cells.  `slice get lo n` lists what the cells of `n` consecutive indices hold.
-/

import Mathlib.Data.List.Range
import Mathlib.Data.Int.ModEq

namespace Lib

/-! ## Cells -/

/-- Two indices less than the capacity apart are in different cells. -/
theorem emod_ne_of_lt {i j c : Int} (h_lt : i < j) (h_near : j - i < c) : i % c ≠ j % c := by
  intro h_eq
  have h_zero : (j - i) % c = 0 := Int.emod_eq_emod_iff_emod_sub_eq_zero.mp h_eq.symm
  rw [Int.emod_eq_of_lt (by omega) h_near] at h_zero
  omega

/-- Two indices less than the capacity apart in either direction are the same
    index if they are in the same cell. -/
theorem eq_of_emod_eq {i j c : Int} (h_eq : i % c = j % c) (h_ij : j - i < c) (h_ji : i - j < c) :
    i = j := by
  rcases Int.lt_trichotomy i j with h | h | h
  · exact absurd h_eq (emod_ne_of_lt h h_ij)
  · exact h
  · exact absurd h_eq.symm (emod_ne_of_lt h h_ji)

/-- The same for natural indices. -/
theorem eq_of_mod_eq {i j c : Nat} (h_eq : i % c = j % c) (h_ij : j < i + c) (h_ji : i < j + c) :
    i = j := by
  have h_cells : (i : Int) % c = j % c := by exact_mod_cast h_eq
  have h_int : (i : Int) = j := eq_of_emod_eq h_cells (by omega) (by omega)
  exact_mod_cast h_int

/-- Each cell is that of one of the indices from `lo` to a capacity further on. -/
theorem exists_mod_eq {i c : Nat} (h : i < c) (lo : Nat) : ∃ j, lo ≤ j ∧ j < lo + c ∧ j % c = i := by
  have h_lo := Nat.div_add_mod lo c
  have h_mod : lo % c < c := Nat.mod_lt lo (by omega)
  by_cases h_le : lo % c ≤ i
  · refine ⟨i + c * (lo / c), by omega, by omega, ?_⟩
    rw [Nat.add_mul_mod_self_left, Nat.mod_eq_of_lt h]
  · have h_next : c * (lo / c + 1) = c * (lo / c) + c := Nat.mul_succ c (lo / c)
    refine ⟨i + c * (lo / c + 1), by omega, by omega, ?_⟩
    rw [Nat.add_mul_mod_self_left, Nat.mod_eq_of_lt h]

/-! ## Slices -/

variable {β : Type*}

/-- What the cells of the `n` indices from `lo` hold. -/
def slice (get : Int → β) (lo : Int) (n : Nat) : List β :=
  (List.range n).map fun j : Nat => get (lo + j)

variable {get get' : Int → β} {lo : Int} {n k : Nat}

@[simp] theorem slice_zero : slice get lo 0 = [] := rfl

@[simp] theorem length_slice : (slice get lo n).length = n := by simp [slice]

/-- The last cell of a slice. -/
theorem slice_succ : slice get lo (n + 1) = slice get lo n ++ [get (lo + n)] := by
  simp [slice, List.range_succ]

/-- A slice is cut in two at any of its cells. -/
theorem slice_add : slice get lo (n + k) = slice get lo n ++ slice get (lo + n) k := by
  induction k with
  | zero => simp
  | succ k ih =>
      have h_last : lo + ((n + k : Nat) : Int) = lo + n + k := by
        push_cast
        omega
      rw [← Nat.add_assoc, slice_succ, ih, slice_succ, List.append_assoc, h_last]

/-- A slice only reads its own cells. -/
theorem slice_congr (h : ∀ i, lo ≤ i → i < lo + n → get' i = get i) :
    slice get' lo n = slice get lo n := by
  apply List.map_congr_left
  intro j h_j
  rw [List.mem_range] at h_j
  exact h (lo + j) (by omega) (by omega)

end Lib
