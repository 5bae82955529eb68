/-
  Zydon.Lib.Saturating

  Signed arithmetic of a fixed width with a bound on what an overflow does: the
  checked operations say `none`, the saturating ones stop at the nearer end of the
  range.  Both are the exact integer where it fits.
-/

import Mathlib.Data.BitVec
import Mathlib.Order.Lattice

namespace Lib

/-! ## The range of a signed type -/

/-- The integers that a signed word of width `w` can be. -/
def Fits (w : Nat) (z : Int) : Prop := -2 ^ (w - 1) ≤ z ∧ z < 2 ^ (w - 1)

instance (w : Nat) (z : Int) : Decidable (Fits w z) :=
  inferInstanceAs (Decidable (_ ∧ _))

/-- The integer of the range that is nearest to `z`. -/
def clamp (w : Nat) (z : Int) : Int := max (-2 ^ (w - 1)) (min (2 ^ (w - 1) - 1) z)

variable {w : Nat} {z z' : Int}

theorem clamp_mono (h : z ≤ z') : clamp w z ≤ clamp w z' :=
  max_le_max_left _ (min_le_min_left _ h)

theorem clamp_of_fits (h : Fits w z) : clamp w z = z := by
  obtain ⟨h_lo, h_hi⟩ := h
  rw [clamp]
  omega

/-- Past either end of the range the clamped integer is that end. -/
theorem clamp_of_not_fits (h : ¬ Fits w z) :
    (0 ≤ z ∧ clamp w z = 2 ^ (w - 1) - 1) ∨ (z < 0 ∧ clamp w z = -2 ^ (w - 1)) := by
  have h_pow : (0 : Int) < 2 ^ (w - 1) := Int.pow_pos (by decide)
  rw [Fits] at h
  rw [clamp]
  omega

theorem fits_clamp (w : Nat) (z : Int) : Fits w (clamp w z) := by
  have h_pow : (0 : Int) < 2 ^ (w - 1) := Int.pow_pos (by decide)
  rw [Fits, clamp]
  omega

/-! ## Saturating operations -/

/-- The word nearest to an integer. -/
def saturate (w : Nat) (z : Int) : BitVec w := BitVec.ofInt w (clamp w z)

theorem toInt_saturate (h_w : 0 < w) (z : Int) : (saturate w z).toInt = clamp w z :=
  BitVec.toInt_ofInt_eq_self h_w (fits_clamp w z).1 (fits_clamp w z).2

/-- `saturating_add` of a signed type. -/
def saturatingAdd (x y : BitVec w) : BitVec w := saturate w (x.toInt + y.toInt)

/-- `saturating_sub` of a signed type. -/
def saturatingSub (x y : BitVec w) : BitVec w := saturate w (x.toInt - y.toInt)

/-! ## Checked operations -/

/-- `checked_add` of a signed type. -/
def checkedAdd (x y : BitVec w) : Option (BitVec w) :=
  if x.saddOverflow y then none else some (x + y)

/-- `checked_sub` of a signed type. -/
def checkedSub (x y : BitVec w) : Option (BitVec w) :=
  if x.ssubOverflow y then none else some (x - y)

/-- `checked_mul` of a signed type. -/
def checkedMul (x y : BitVec w) : Option (BitVec w) :=
  if x.smulOverflow y then none else some (x * y)

/-- The result of a checked operation with the exact value `z`. -/
inductive IsChecked (z : Int) : Option (BitVec w) → Prop
  | exact (x : BitVec w) (h_fits : Fits w z) (h_value : x.toInt = z) : IsChecked z (some x)
  | overflow (h_fits : ¬ Fits w z) : IsChecked z none

theorem saddOverflow_eq_false_iff {x y : BitVec w} :
    x.saddOverflow y = false ↔ Fits w (x.toInt + y.toInt) := by
  simp only [BitVec.saddOverflow, Fits, Bool.or_eq_false_iff, decide_eq_false_iff_not]
  omega

theorem ssubOverflow_eq_false_iff {x y : BitVec w} :
    x.ssubOverflow y = false ↔ Fits w (x.toInt - y.toInt) := by
  simp only [BitVec.ssubOverflow, Fits, Bool.or_eq_false_iff, decide_eq_false_iff_not]
  omega

theorem smulOverflow_eq_false_iff {x y : BitVec w} :
    x.smulOverflow y = false ↔ Fits w (x.toInt * y.toInt) := by
  simp only [BitVec.smulOverflow, Fits, Bool.or_eq_false_iff, decide_eq_false_iff_not]
  omega

theorem isChecked_of_overflow {overflow : Bool} {x : BitVec w}
    (h_iff : overflow = false ↔ Fits w z) (h_value : overflow = false → x.toInt = z) :
    IsChecked z (if overflow then none else some x) := by
  cases overflow with
  | true => exact .overflow fun h_fits => absurd (h_iff.mpr h_fits) (by simp)
  | false => exact .exact x (h_iff.mp rfl) (h_value rfl)

theorem checkedAdd_isChecked (x y : BitVec w) :
    IsChecked (x.toInt + y.toInt) (checkedAdd x y) :=
  isChecked_of_overflow saddOverflow_eq_false_iff fun h_no =>
    BitVec.toInt_add_of_not_saddOverflow (by simp [h_no])

theorem checkedSub_isChecked (x y : BitVec w) :
    IsChecked (x.toInt - y.toInt) (checkedSub x y) :=
  isChecked_of_overflow ssubOverflow_eq_false_iff fun h_no =>
    BitVec.toInt_sub_of_not_ssubOverflow (by simp [h_no])

theorem checkedMul_isChecked (x y : BitVec w) :
    IsChecked (x.toInt * y.toInt) (checkedMul x y) :=
  isChecked_of_overflow smulOverflow_eq_false_iff fun h_no =>
    BitVec.toInt_mul_of_not_smulOverflow (by simp [h_no])

end Lib
