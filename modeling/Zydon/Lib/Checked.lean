/-
  Zydon.Lib.Checked

  Arithmetic of a fixed width with the two meanings a build can give it: with
  overflow checks an operation that overflows panics (`none`), without them it
  wraps, and a shift takes its amount modulo the width.
-/

import Mathlib.Data.BitVec

namespace Lib

/-- Whether a build checks its arithmetic for overflow. -/
inductive OverflowChecks
  | on
  | off
  deriving DecidableEq, Repr

namespace OverflowChecks

variable {α : Type*} {w : Nat}

/-- The wrapped result of an operation, unless it overflows in a build that checks. -/
def guard : OverflowChecks → Bool → α → Option α
  | on, true, _ => none
  | _, _, result => some result

@[simp] theorem guard_false (checks : OverflowChecks) (result : α) :
    checks.guard false result = some result := by cases checks <;> rfl

@[simp] theorem guard_on_true (result : α) : on.guard true result = none := rfl

@[simp] theorem guard_off (overflow : Bool) (result : α) :
    off.guard overflow result = some result := by cases overflow <;> rfl

variable (checks : OverflowChecks)

/-! ## Operations -/

/-- `x + y` of an unsigned type. -/
def uadd (x y : BitVec w) : Option (BitVec w) := checks.guard (x.uaddOverflow y) (x + y)

/-- `x - y` of an unsigned type. -/
def usub (x y : BitVec w) : Option (BitVec w) := checks.guard (x.usubOverflow y) (x - y)

/-- `x * y` of a signed type. -/
def smul (x y : BitVec w) : Option (BitVec w) := checks.guard (x.smulOverflow y) (x * y)

/-- `x << s`. -/
def shl (x : BitVec w) (s : BitVec 32) : Option (BitVec w) :=
  checks.guard (decide (w ≤ s.toNat)) (x <<< (s.toNat % w))

/-- `x >> s` of an unsigned type. -/
def shr (x : BitVec w) (s : BitVec 32) : Option (BitVec w) :=
  checks.guard (decide (w ≤ s.toNat)) (x >>> (s.toNat % w))

/-! ## Operations that do not overflow

In either build the result is the exact one. -/

variable {checks}

theorem uadd_eq_some {x y : BitVec w} (h_fits : x.toNat + y.toNat < 2 ^ w) :
    checks.uadd x y = some (x + y) := by
  have h_no : x.uaddOverflow y = false := by simp [BitVec.uaddOverflow, h_fits]
  rw [uadd, h_no, guard_false]

theorem usub_eq_some {x y : BitVec w} (h_le : y.toNat ≤ x.toNat) :
    checks.usub x y = some (x - y) := by
  have h_no : x.usubOverflow y = false := by simp [BitVec.usubOverflow, h_le]
  rw [usub, h_no, guard_false]

theorem shl_eq_some {x : BitVec w} {s : BitVec 32} (h_lt : s.toNat < w) :
    checks.shl x s = some (x <<< s.toNat) := by
  rw [shl, decide_eq_false (by omega), guard_false, Nat.mod_eq_of_lt h_lt]

theorem shr_eq_some {x : BitVec w} {s : BitVec 32} (h_lt : s.toNat < w) :
    checks.shr x s = some (x >>> s.toNat) := by
  rw [shr, decide_eq_false (by omega), guard_false, Nat.mod_eq_of_lt h_lt]

theorem smul_eq_some {x y : BitVec w} (h_fits : x.smulOverflow y = false) :
    checks.smul x y = some (x * y) := by
  rw [smul, h_fits, guard_false]

/-! ## Operations that overflow

A build that checks has no result. -/

theorem uadd_on_eq_none {x y : BitVec w} (h_big : 2 ^ w ≤ x.toNat + y.toNat) :
    on.uadd x y = none := by
  have h_overflow : x.uaddOverflow y = true := by simp [BitVec.uaddOverflow, h_big]
  rw [uadd, h_overflow, guard_on_true]

theorem shl_on_eq_none {x : BitVec w} {s : BitVec 32} (h_ge : w ≤ s.toNat) :
    on.shl x s = none := by
  rw [shl, decide_eq_true h_ge, guard_on_true]

theorem smul_on_eq_none {x y : BitVec w} (h_overflow : x.smulOverflow y = true) :
    on.smul x y = none := by
  rw [smul, h_overflow, guard_on_true]

end OverflowChecks
end Lib
