/-
  Zydon.Variables.Bits.Fields

  The bit fields of `variables/bits.rs`: `bits` and `bits_shift` with their 64-bit
  variants.  A field that reaches the top bit needs a mask of which the shift is by
  the whole width, and that shift overflows.
-/

import Zydon.Lib.Checked
import Zydon.Lib.WordBits

namespace Zydon
namespace Bits

open Lib

/-! ## The functions -/

section Definitions

variable (checks : OverflowChecks) {w : Nat}

/-- The body of `bits` and `bits64`: bits `[high:low]` of `x` without shifting. -/
def keepField (x : BitVec w) (high low : BitVec 32) : Option (BitVec w) := do
  let top ← checks.shl 1#w (← checks.uadd high 1#32)
  let upToHigh ← checks.usub top 1#w
  let bottom ← checks.shl 1#w low
  let belowLow ← checks.usub bottom 1#w
  let mask := upToHigh &&& ~~~belowLow
  return x &&& mask

/-- The body of `bits_shift` and `bits_shift64`: bits `[high:low]` of `x`, shifted
    down. -/
def shiftField (x : BitVec w) (high low : BitVec 32) : Option (BitVec w) := do
  let width ← checks.uadd (← checks.usub high low) 1#32
  let top ← checks.shl 1#w width
  let mask ← checks.usub top 1#w
  return (← checks.shr x low) &&& mask

def bits (x : BitVec 32) (high low : BitVec 32) : Option (BitVec 32) :=
  keepField checks x high low

def bitsShift (x : BitVec 32) (high low : BitVec 32) : Option (BitVec 32) :=
  shiftField checks x high low

def bits64 (x : BitVec 64) (high low : BitVec 32) : Option (BitVec 64) :=
  keepField checks x high low

def bitsShift64 (x : BitVec 64) (high low : BitVec 32) : Option (BitVec 64) :=
  shiftField checks x high low

end Definitions

/-! ## What a field is -/

variable {w : Nat} {x field : BitVec w} {high low : BitVec 32}

/-- `field` has the bits of `x` from `low` to `high` and no other. -/
def IsField (x : BitVec w) (high low : BitVec 32) (field : BitVec w) : Prop :=
  ∀ i, field.getLsbD i = (decide (low.toNat ≤ i ∧ i ≤ high.toNat) && x.getLsbD i)

/-- In a build of either kind the result is the field. -/
def KeepsField (x : BitVec w) (high low : BitVec 32)
    (result : OverflowChecks → Option (BitVec w)) : Prop :=
  ∃ field, IsField x high low field ∧ ∀ checks, result checks = some field

/-- In a build of either kind the result is the field, shifted down. -/
def ShiftsField (x : BitVec w) (high low : BitVec 32)
    (result : OverflowChecks → Option (BitVec w)) : Prop :=
  ∃ field, IsField x high low field ∧ ∀ checks, result checks = some (field >>> low.toNat)

/-! ## Fields below the top bit -/

/-- The mask of `bits`, when its shift is below the width, cuts out the field. -/
theorem isField_and_mask (x : BitVec w) (high low : BitVec 32) :
    IsField x high low
      (x &&& (((1#w <<< (high.toNat + 1)) - 1#w) &&& ~~~((1#w <<< low.toNat) - 1#w))) := by
  intro i
  rw [BitVec.getLsbD_and, BitVec.getLsbD_and, BitVec.getLsbD_not, getLsbD_one_shiftLeft_sub_one,
    getLsbD_one_shiftLeft_sub_one, Bool.and_comm]
  by_cases h_i : i < w
  · congr 1
    rw [Bool.eq_iff_iff]
    simp [h_i]
    omega
  · simp [BitVec.getLsbD_of_ge x i (by omega)]

/-- The mask of `bits_shift` cuts the same field out of the shifted word. -/
theorem shiftRight_and_mask_eq (h_field : IsField x high low field)
    (h_order : low.toNat ≤ high.toNat) :
    (x >>> low.toNat) &&& ((1#w <<< (high.toNat - low.toNat + 1)) - 1#w)
      = field >>> low.toNat := by
  apply BitVec.eq_of_getLsbD_eq
  intro i h_i
  rw [BitVec.getLsbD_and, BitVec.getLsbD_ushiftRight, BitVec.getLsbD_ushiftRight,
    getLsbD_one_shiftLeft_sub_one, h_field, Bool.and_comm]
  congr 1
  rw [decide_eq_decide]
  omega

theorem one_le_toNat_one_shiftLeft {n : Nat} (h_n : n < w) :
    (1#w).toNat ≤ (1#w <<< n).toNat := by
  have h_pow : 2 ^ n < 2 ^ w := Nat.pow_lt_pow_right (by decide) h_n
  have h_one : 1 < 2 ^ w := Nat.one_lt_two_pow (by omega)
  rw [BitVec.toNat_shiftLeft, BitVec.toNat_ofNat, Nat.mod_eq_of_lt h_one, Nat.shiftLeft_eq,
    Nat.one_mul, Nat.mod_eq_of_lt h_pow]
  exact Nat.one_le_two_pow

/-- The successor of a bit position. -/
theorem uadd_one (checks : OverflowChecks) {s : BitVec 32} (h_s : s.toNat + 1 < 2 ^ 32) :
    checks.uadd s 1#32 = some (s + 1#32) ∧ (s + 1#32).toNat = s.toNat + 1 := by
  refine ⟨OverflowChecks.uadd_eq_some (by rwa [BitVec.toNat_ofNat]), ?_⟩
  rw [BitVec.toNat_add, BitVec.toNat_ofNat]
  omega

/-- The width of a field, before the 1 is added. -/
theorem usub_width (checks : OverflowChecks) (h_order : low.toNat ≤ high.toNat) :
    checks.usub high low = some (high - low) ∧
      (high - low).toNat = high.toNat - low.toNat :=
  ⟨OverflowChecks.usub_eq_some h_order, BitVec.toNat_sub_of_le (BitVec.le_def.mpr h_order)⟩

/-- Below the top bit every operation of `bits` has its exact result. -/
theorem keepField_eq_some {checks : OverflowChecks} (h_order : low.toNat ≤ high.toNat)
    (h_top : high.toNat + 1 < w) (h_w : w < 2 ^ 32) :
    keepField checks x high low = some
      (x &&& (((1#w <<< (high.toNat + 1)) - 1#w) &&& ~~~((1#w <<< low.toNat) - 1#w))) := by
  obtain ⟨h_add, h_succ⟩ := uadd_one checks (s := high) (by omega)
  have h_low_lt : low.toNat < w := by omega
  have h_shl : checks.shl 1#w (high + 1#32) = some (1#w <<< (high.toNat + 1)) := by
    rw [OverflowChecks.shl_eq_some (by omega), h_succ]
  have h_low : checks.shl 1#w low = some (1#w <<< low.toNat) :=
    OverflowChecks.shl_eq_some h_low_lt
  simp only [keepField, h_add, h_shl, h_low, Option.bind_eq_bind, Option.bind_some,
    OverflowChecks.usub_eq_some (one_le_toNat_one_shiftLeft h_top),
    OverflowChecks.usub_eq_some (one_le_toNat_one_shiftLeft h_low_lt)]
  rfl

/-- For a field narrower than the word so has every operation of `bits_shift`. -/
theorem shiftField_eq_some {checks : OverflowChecks} (h_order : low.toNat ≤ high.toNat)
    (h_high : high.toNat < w) (h_width : high.toNat - low.toNat + 1 < w) (h_w : w < 2 ^ 32) :
    shiftField checks x high low = some
      ((x >>> low.toNat) &&& ((1#w <<< (high.toNat - low.toNat + 1)) - 1#w)) := by
  obtain ⟨h_sub, h_diff⟩ := usub_width checks h_order
  obtain ⟨h_add, h_succ⟩ := uadd_one checks (s := high - low) (by omega)
  rw [h_diff] at h_succ
  have h_shl : checks.shl 1#w (high - low + 1#32)
      = some (1#w <<< (high.toNat - low.toNat + 1)) := by
    rw [OverflowChecks.shl_eq_some (by omega), h_succ]
  have h_shr : checks.shr x low = some (x >>> low.toNat) :=
    OverflowChecks.shr_eq_some (by omega)
  simp only [shiftField, h_sub, h_add, h_shl, h_shr, Option.bind_eq_bind, Option.bind_some,
    OverflowChecks.usub_eq_some (one_le_toNat_one_shiftLeft h_width)]
  rfl

/-! ## Fields of the whole width

`1 << w` overflows: a build with checks panics. -/

theorem keepField_on_eq_none (h_top : high.toNat + 1 = w) (h_w : w < 2 ^ 32) :
    keepField .on x high low = none := by
  obtain ⟨h_add, h_succ⟩ := uadd_one .on (s := high) (by omega)
  have h_shl : OverflowChecks.on.shl 1#w (high + 1#32) = none :=
    OverflowChecks.shl_on_eq_none (by omega)
  simp only [keepField, h_add, h_shl, Option.bind_eq_bind, Option.bind_some, Option.bind_none]

theorem shiftField_on_eq_none (h_order : low.toNat ≤ high.toNat)
    (h_width : high.toNat - low.toNat + 1 = w) (h_w : w < 2 ^ 32) :
    shiftField .on x high low = none := by
  obtain ⟨h_sub, h_diff⟩ := usub_width .on h_order
  obtain ⟨h_add, h_succ⟩ := uadd_one .on (s := high - low) (by omega)
  have h_shl : OverflowChecks.on.shl 1#w (high - low + 1#32) = none :=
    OverflowChecks.shl_on_eq_none (by omega)
  simp only [shiftField, h_sub, h_add, h_shl, Option.bind_eq_bind, Option.bind_some,
    Option.bind_none]

/-! ## When the functions are exact -/

/-- `bits` and `bits64` keep the field in every build if and only if it ends below
    the top bit. -/
theorem keepsField_iff (h_order : low.toNat ≤ high.toNat) (h_high : high.toNat < w)
    (h_w : w < 2 ^ 32) :
    KeepsField x high low (keepField · x high low) ↔ high.toNat + 1 < w := by
  refine ⟨?_, fun h_top => ?_⟩
  · rintro ⟨field, -, h_result⟩
    by_contra h_top
    have h_none : keepField .on x high low = none := keepField_on_eq_none (by omega) h_w
    exact absurd ((h_result .on).symm.trans h_none) (by simp)
  · exact ⟨_, isField_and_mask x high low, fun _ => keepField_eq_some h_order h_top h_w⟩

/-- `bits_shift` and `bits_shift64` yield the field, shifted down, in every build if
    and only if it is narrower than the word. -/
theorem shiftsField_iff (h_order : low.toNat ≤ high.toNat) (h_high : high.toNat < w)
    (h_w : w < 2 ^ 32) :
    ShiftsField x high low (shiftField · x high low) ↔ high.toNat - low.toNat + 1 < w := by
  refine ⟨?_, fun h_width => ?_⟩
  · rintro ⟨field, -, h_result⟩
    by_contra h_width
    have h_none : shiftField .on x high low = none :=
      shiftField_on_eq_none h_order (by omega) h_w
    exact absurd ((h_result .on).symm.trans h_none) (by simp)
  · have h_field := isField_and_mask x high low
    refine ⟨_, h_field, fun checks => (shiftField_eq_some h_order h_high h_width h_w).trans ?_⟩
    rw [shiftRight_and_mask_eq h_field h_order]

/-- For both widths and every field `[high:low]` of the word: `bits` is exact, with
    no overflow, if and only if the field ends below the top bit, and `bits_shift` if
    and only if it is not the whole word. -/
theorem bitFields_exact_iff (high low : BitVec 32) (h_order : low.toNat ≤ high.toNat) :
    (high.toNat ≤ 31 → ∀ x : BitVec 32,
      (KeepsField x high low (bits · x high low) ↔ high.toNat < 31) ∧
      (ShiftsField x high low (bitsShift · x high low) ↔ high.toNat - low.toNat < 31)) ∧
    (high.toNat ≤ 63 → ∀ x : BitVec 64,
      (KeepsField x high low (bits64 · x high low) ↔ high.toNat < 63) ∧
      (ShiftsField x high low (bitsShift64 · x high low) ↔ high.toNat - low.toNat < 63)) := by
  refine ⟨fun h_high x => ⟨?_, ?_⟩, fun h_high x => ⟨?_, ?_⟩⟩
  · exact (keepsField_iff h_order (by omega) (by decide)).trans (by omega)
  · exact (shiftsField_iff h_order (by omega) (by decide)).trans (by omega)
  · exact (keepsField_iff h_order (by omega) (by decide)).trans (by omega)
  · exact (shiftsField_iff h_order (by omega) (by decide)).trans (by omega)

theorem bitFields_exact_nibble :
    KeepsField 0xABCD#32 7#32 4#32 (bits · 0xABCD#32 7#32 4#32) ∧
      ShiftsField 0xABCD#64 63#32 60#32 (bitsShift64 · 0xABCD#64 63#32 60#32) :=
  ⟨((bitFields_exact_iff 7#32 4#32 (by decide)).1 (by decide) _).1.mpr
      (by decide),
    ((bitFields_exact_iff 63#32 60#32 (by decide)).2 (by decide) _).2.mpr
      (by decide)⟩

/-- The field of all 32 bits: with checks `bits` panics, and without them it is 0, as
    `bits_shift` is. -/
theorem bits_whole_word_lost :
    bits .on 0xFFFFFFFF#32 31#32 0#32 = none ∧
      bits .off 0xFFFFFFFF#32 31#32 0#32 = some 0 ∧
      bitsShift .off 0xFFFFFFFF#32 31#32 0#32 = some 0 ∧
      ¬ KeepsField 0xFFFFFFFF#32 31#32 0#32 (bits · 0xFFFFFFFF#32 31#32 0#32) := by
  refine ⟨by decide, by decide, by decide, ?_⟩
  rintro ⟨field, -, h_result⟩
  have h_none : bits .on 0xFFFFFFFF#32 31#32 0#32 = none := by decide
  exact absurd ((h_result .on).symm.trans h_none) (by simp)

end Bits
end Zydon
