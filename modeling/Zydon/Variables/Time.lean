/-
  Zydon.Variables.Time

  The arithmetic of `variables/time.rs` on times, durations and ticks, which are all
  `i64`.  Durations and ticks saturate; the three functions on times take the wrong
  end of the range when they overflow.
-/

import Mathlib.Algebra.Order.Ring.Int
import Mathlib.Data.Set.Defs
import Zydon.Lib.Saturating

namespace Zydon
namespace Time

open Lib

abbrev ZxTime := BitVec 64
abbrev ZxDuration := BitVec 64
abbrev ZxTicks := BitVec 64

def zxTimeInfinite : ZxTime := BitVec.intMax 64
def zxTimeInfinitePast : ZxTime := BitVec.intMin 64

/-! ## The functions -/

/-- The body of the functions on times: where the checked operation overflows, the
    sign of the saturated one chooses the result. -/
def orBySaturated (checked : Option ZxTime) (saturated : ZxTime) : ZxTime :=
  match checked with
  | some x => x
  | none => if saturated.toInt ≥ 0 then zxTimeInfinitePast else zxTimeInfinite

def zxTimeAddDuration (time : ZxTime) (duration : ZxDuration) : ZxTime :=
  orBySaturated (checkedAdd time duration) (saturatingAdd time duration)

def zxTimeSubDuration (time : ZxTime) (duration : ZxDuration) : ZxTime :=
  orBySaturated (checkedSub time duration) (saturatingSub time duration)

def zxTimeSubTime (time1 time2 : ZxTime) : ZxDuration :=
  orBySaturated (checkedSub time1 time2) (saturatingSub time1 time2)

def zxDurationAddDuration (dur1 dur2 : ZxDuration) : ZxDuration := saturatingAdd dur1 dur2

def zxDurationSubDuration (dur1 dur2 : ZxDuration) : ZxDuration := saturatingSub dur1 dur2

/-- The body of the two multiplications: where the product overflows, the signs of the
    factors choose the result. -/
def mulOrBySigns (x multiplier : BitVec 64) : BitVec 64 :=
  match checkedMul x multiplier with
  | some product => product
  | none =>
      if (x.toInt > 0 ∧ multiplier.toInt > 0) ∨ (x.toInt < 0 ∧ multiplier.toInt < 0) then
        zxTimeInfinite
      else zxTimeInfinitePast

def zxDurationMulInt64 (duration : ZxDuration) (multiplier : BitVec 64) : ZxDuration :=
  mulOrBySigns duration multiplier

def zxNsecFromDuration (n : ZxDuration) : BitVec 64 := n

def zxDurationFromNsec (n : BitVec 64) : ZxDuration := zxDurationMulInt64 1#64 n
def zxDurationFromUsec (n : BitVec 64) : ZxDuration := zxDurationMulInt64 1000#64 n
def zxDurationFromMsec (n : BitVec 64) : ZxDuration := zxDurationMulInt64 1000000#64 n
def zxDurationFromSec (n : BitVec 64) : ZxDuration := zxDurationMulInt64 1000000000#64 n
def zxDurationFromMin (n : BitVec 64) : ZxDuration := zxDurationMulInt64 60000000000#64 n
def zxDurationFromHour (n : BitVec 64) : ZxDuration := zxDurationMulInt64 3600000000000#64 n

def zxTicksAddTicks (ticks1 ticks2 : ZxTicks) : ZxTicks := saturatingAdd ticks1 ticks2

def zxTicksSubTicks (ticks1 ticks2 : ZxTicks) : ZxTicks := saturatingSub ticks1 ticks2

def zxTicksMulInt64 (ticks : ZxTicks) (multiplier : BitVec 64) : ZxTicks :=
  mulOrBySigns ticks multiplier

/-! ## Which end of the range -/

theorem toInt_zxTimeInfinite : zxTimeInfinite.toInt = 2 ^ 63 - 1 := by decide

theorem toInt_zxTimeInfinitePast : zxTimeInfinitePast.toInt = -2 ^ 63 := by decide

/-- The sign of the saturated result is the side of the overflow, and the functions on
    times answer it with the other side. -/
theorem toInt_orBySaturated_eq_iff {z : Int} {checked : Option ZxTime}
    (h_checked : IsChecked z checked) :
    (orBySaturated checked (saturate 64 z)).toInt = clamp 64 z ↔ Fits 64 z := by
  cases h_checked with
  | exact x h_fits h_value =>
      rw [orBySaturated, h_value, clamp_of_fits h_fits]
      exact iff_of_true rfl h_fits
  | overflow h_fits =>
      refine iff_of_false ?_ h_fits
      rw [orBySaturated, toInt_saturate (by decide)]
      rcases clamp_of_not_fits h_fits with ⟨-, h_clamp⟩ | ⟨-, h_clamp⟩
      · rw [if_pos (by rw [h_clamp]; decide), h_clamp, toInt_zxTimeInfinitePast]
        decide
      · rw [if_neg (by rw [h_clamp]; decide), h_clamp, toInt_zxTimeInfinite]
        decide

/-- The signs of the factors are the side of the overflow, and the multiplications
    answer it with this side. -/
theorem toInt_mulOrBySigns (x multiplier : BitVec 64) :
    (mulOrBySigns x multiplier).toInt = clamp 64 (x.toInt * multiplier.toInt) := by
  have h_checked := checkedMul_isChecked x multiplier
  rw [mulOrBySigns]
  cases h : checkedMul x multiplier with
  | some product =>
      rw [h] at h_checked
      cases h_checked with
      | exact _ h_fits h_value => rw [clamp_of_fits h_fits, ← h_value]
  | none =>
      rw [h] at h_checked
      cases h_checked with
      | overflow h_fits =>
          have h_ne : x.toInt * multiplier.toInt ≠ 0 := by
            intro h_zero
            rw [h_zero] at h_fits
            exact h_fits (by decide)
          rcases clamp_of_not_fits h_fits with ⟨h_sign, h_clamp⟩ | ⟨h_sign, h_clamp⟩
          · have h_same := mul_pos_iff.mp (lt_of_le_of_ne h_sign (Ne.symm h_ne))
            exact (congrArg BitVec.toInt (if_pos h_same)).trans (by rw [h_clamp]; decide)
          · have h_opposite := mt mul_pos_iff.mpr (not_lt_of_gt h_sign)
            exact (congrArg BitVec.toInt (if_neg h_opposite)).trans (by rw [h_clamp]; decide)

/-! ## Sums and differences on a set of arguments -/

/-- On the pairs of `S` the result of `f` is their sum, clamped to the range, and with
    it monotone in both arguments. -/
structure AddsOn (S : Set (BitVec 64 × BitVec 64)) (f : BitVec 64 → BitVec 64 → BitVec 64) :
    Prop where
  clamped : ∀ a b, (a, b) ∈ S → (f a b).toInt = clamp 64 (a.toInt + b.toInt)
  mono_left : ∀ a a' b, (a, b) ∈ S → (a', b) ∈ S → a.toInt ≤ a'.toInt →
    (f a b).toInt ≤ (f a' b).toInt
  mono_right : ∀ a b b', (a, b) ∈ S → (a, b') ∈ S → b.toInt ≤ b'.toInt →
    (f a b).toInt ≤ (f a b').toInt

/-- On the pairs of `S` the result of `f` is their difference, clamped to the range, and
    with it monotone in the first and antitone in the second argument. -/
structure SubtractsOn (S : Set (BitVec 64 × BitVec 64)) (f : BitVec 64 → BitVec 64 → BitVec 64) :
    Prop where
  clamped : ∀ a b, (a, b) ∈ S → (f a b).toInt = clamp 64 (a.toInt - b.toInt)
  mono_left : ∀ a a' b, (a, b) ∈ S → (a', b) ∈ S → a.toInt ≤ a'.toInt →
    (f a b).toInt ≤ (f a' b).toInt
  anti_right : ∀ a b b', (a, b) ∈ S → (a, b') ∈ S → b.toInt ≤ b'.toInt →
    (f a b').toInt ≤ (f a b).toInt

section Clamped

variable {S : Set (BitVec 64 × BitVec 64)} {f : BitVec 64 → BitVec 64 → BitVec 64}

/-- That the order is kept follows from the values. -/
theorem addsOn_of_clamped
    (h : ∀ a b, (a, b) ∈ S → (f a b).toInt = clamp 64 (a.toInt + b.toInt)) : AddsOn S f where
  clamped := h
  mono_left a a' b h_a h_a' h_le := by
    rw [h a b h_a, h a' b h_a']
    exact clamp_mono (by omega)
  mono_right a b b' h_b h_b' h_le := by
    rw [h a b h_b, h a b' h_b']
    exact clamp_mono (by omega)

theorem subtractsOn_of_clamped
    (h : ∀ a b, (a, b) ∈ S → (f a b).toInt = clamp 64 (a.toInt - b.toInt)) :
    SubtractsOn S f where
  clamped := h
  mono_left a a' b h_a h_a' h_le := by
    rw [h a b h_a, h a' b h_a']
    exact clamp_mono (by omega)
  anti_right a b b' h_b h_b' h_le := by
    rw [h a b h_b, h a b' h_b']
    exact clamp_mono (by omega)

end Clamped

/-- Durations and ticks are added and subtracted right for all arguments. -/
theorem durations_and_ticks_saturate :
    AddsOn Set.univ zxDurationAddDuration ∧ SubtractsOn Set.univ zxDurationSubDuration ∧
      AddsOn Set.univ zxTicksAddTicks ∧ SubtractsOn Set.univ zxTicksSubTicks :=
  ⟨addsOn_of_clamped fun _ _ _ => toInt_saturate (by decide) _,
    subtractsOn_of_clamped fun _ _ _ => toInt_saturate (by decide) _,
    addsOn_of_clamped fun _ _ _ => toInt_saturate (by decide) _,
    subtractsOn_of_clamped fun _ _ _ => toInt_saturate (by decide) _⟩

/-- Ticks are multiplied right as well, and so are units converted to nanoseconds. -/
theorem products_saturate (n : BitVec 64) :
    (∀ ticks : ZxTicks, (zxTicksMulInt64 ticks n).toInt = clamp 64 (ticks.toInt * n.toInt)) ∧
      (zxDurationFromNsec n).toInt = clamp 64 (1 * n.toInt) ∧
      (zxDurationFromUsec n).toInt = clamp 64 (1000 * n.toInt) ∧
      (zxDurationFromMsec n).toInt = clamp 64 (1000000 * n.toInt) ∧
      (zxDurationFromSec n).toInt = clamp 64 (1000000000 * n.toInt) ∧
      (zxDurationFromMin n).toInt = clamp 64 (60000000000 * n.toInt) ∧
      (zxDurationFromHour n).toInt = clamp 64 (3600000000000 * n.toInt) :=
  ⟨fun ticks => toInt_mulOrBySigns ticks n, toInt_mulOrBySigns _ n, toInt_mulOrBySigns _ n,
    toInt_mulOrBySigns _ n, toInt_mulOrBySigns _ n, toInt_mulOrBySigns _ n,
    toInt_mulOrBySigns _ n⟩

/-- A number of units is converted to nanoseconds exactly, where they fit. -/
theorem toInt_zxDurationMulInt64_of_fits {duration multiplier : BitVec 64}
    (h_fits : Fits 64 (duration.toInt * multiplier.toInt)) :
    (zxDurationMulInt64 duration multiplier).toInt = duration.toInt * multiplier.toInt := by
  rw [zxDurationMulInt64, toInt_mulOrBySigns, clamp_of_fits h_fits]

/-- A sum by its checked and its saturated form is clamped where it fits, only there. -/
theorem addsOn_orBySaturated_iff (S : Set (BitVec 64 × BitVec 64)) :
    AddsOn S (fun a b => orBySaturated (checkedAdd a b) (saturatingAdd a b)) ↔
      ∀ a b, (a, b) ∈ S → Fits 64 (a.toInt + b.toInt) := by
  have h_iff := fun a b : BitVec 64 => toInt_orBySaturated_eq_iff (checkedAdd_isChecked a b)
  refine ⟨?_, ?_⟩
  · exact fun h a b h_S => (h_iff a b).mp (h.clamped a b h_S)
  · exact fun h => addsOn_of_clamped fun a b h_S => (h_iff a b).mpr (h a b h_S)

/-- The same of a difference. -/
theorem subtractsOn_orBySaturated_iff (S : Set (BitVec 64 × BitVec 64)) :
    SubtractsOn S (fun a b => orBySaturated (checkedSub a b) (saturatingSub a b)) ↔
      ∀ a b, (a, b) ∈ S → Fits 64 (a.toInt - b.toInt) := by
  have h_iff := fun a b : BitVec 64 => toInt_orBySaturated_eq_iff (checkedSub_isChecked a b)
  refine ⟨?_, ?_⟩
  · exact fun h a b h_S => (h_iff a b).mp (h.clamped a b h_S)
  · exact fun h => subtractsOn_of_clamped fun a b h_S => (h_iff a b).mpr (h a b h_S)

/-- Times are added and subtracted right on those arguments, and only those, of which
    the sum or difference fits: none of the three functions saturates. -/
theorem timeArithmetic_saturates_iff (S : Set (BitVec 64 × BitVec 64)) :
    (AddsOn S zxTimeAddDuration ↔ ∀ a b, (a, b) ∈ S → Fits 64 (a.toInt + b.toInt)) ∧
    (SubtractsOn S zxTimeSubDuration ↔ ∀ a b, (a, b) ∈ S → Fits 64 (a.toInt - b.toInt)) ∧
    (SubtractsOn S zxTimeSubTime ↔ ∀ a b, (a, b) ∈ S → Fits 64 (a.toInt - b.toInt)) :=
  ⟨addsOn_orBySaturated_iff S, subtractsOn_orBySaturated_iff S, subtractsOn_orBySaturated_iff S⟩

/-- In nanoseconds nothing is lost. -/
theorem zxNsecFromDuration_zxDurationFromNsec (n : BitVec 64) :
    zxNsecFromDuration (zxDurationFromNsec n) = n := by
  have h_one : (1#64).toInt * n.toInt = n.toInt := Int.one_mul _
  have h_fits : Fits 64 n.toInt := ⟨BitVec.le_toInt n, BitVec.toInt_lt⟩
  apply BitVec.eq_of_toInt_eq
  rw [zxNsecFromDuration, zxDurationFromNsec,
    toInt_zxDurationMulInt64_of_fits (by rwa [h_one]), h_one]

/-- One nanosecond after the infinite time is the infinite past. -/
theorem timeArithmetic_flips_infinity :
    zxTimeAddDuration zxTimeInfinite 1#64 = zxTimeInfinitePast ∧
      zxTimeSubDuration zxTimeInfinite (-1#64) = zxTimeInfinitePast ∧
      zxTimeSubTime zxTimeInfinitePast 1#64 = zxTimeInfinite ∧
      ¬ AddsOn Set.univ zxTimeAddDuration ∧ ¬ SubtractsOn Set.univ zxTimeSubDuration ∧
      ¬ SubtractsOn Set.univ zxTimeSubTime := by
  refine ⟨by decide, by decide, by decide, ?_, ?_, ?_⟩
  · intro h
    have h_sum := h.clamped zxTimeInfinite 1#64 (Set.mem_univ _)
    exact absurd h_sum (by decide)
  · intro h
    have h_difference := h.clamped zxTimeInfinite (-1#64) (Set.mem_univ _)
    exact absurd h_difference (by decide)
  · intro h
    have h_difference := h.clamped zxTimeInfinitePast 1#64 (Set.mem_univ _)
    exact absurd h_difference (by decide)

end Time
end Zydon
