/-
  Zydon.Lib.WordBits

  Words as sets of bit positions: the masks below and above a position, and the
  bits of a list of words, of which word `i / w` holds bit `i` as its bit `i % w`.
-/

import Mathlib.Data.BitVec
import Mathlib.Data.Nat.Init
import Mathlib.Order.Bounds.Defs
import Mathlib.Order.Interval.Set.Basic

namespace Lib

/-! ## Masks -/

variable {w : Nat}

theorem one_shiftLeft_sub_one (n : Nat) :
    (1#w <<< n) - 1#w = BitVec.ofNat w (2 ^ n - 1) := by
  rcases Nat.eq_zero_or_pos w with rfl | h_pos
  · exact Subsingleton.elim _ _
  · have h_width : 1 < 2 ^ w := Nat.one_lt_two_pow h_pos.ne'
    have h_one : 1#w <<< n = BitVec.ofNat w (2 ^ n) := by
      apply BitVec.eq_of_toNat_eq
      rw [BitVec.toNat_shiftLeft, BitVec.toNat_ofNat, BitVec.toNat_ofNat,
        Nat.mod_eq_of_lt h_width, Nat.one_shiftLeft]
    rw [h_one, BitVec.ofNat_sub_ofNat_of_le _ _ h_width Nat.one_le_two_pow]

/-- `(1 << n) - 1` has the bits below `n`. -/
theorem getLsbD_one_shiftLeft_sub_one (n i : Nat) :
    ((1#w <<< n) - 1#w).getLsbD i = decide (i < w ∧ i < n) := by
  rw [one_shiftLeft_sub_one, BitVec.getLsbD_ofNat, Nat.testBit_two_pow_sub_one,
    Bool.decide_and]

/-- `!0 << n` has the bits from `n`. -/
theorem getLsbD_not_zero_shiftLeft (n i : Nat) :
    (~~~0#w <<< n).getLsbD i = decide (i < w ∧ n ≤ i) := by
  rw [BitVec.getLsbD_shiftLeft, BitVec.getLsbD_not, BitVec.getLsbD_zero, Bool.eq_iff_iff]
  simp
  omega

/-- `word & (1 << n)` tests bit `n`. -/
theorem and_one_shiftLeft_bne_zero {n : Nat} (word : BitVec w) (h_n : n < w) :
    ((word &&& (1#w <<< n)) != 0#w) = word.getLsbD n := by
  rw [← BitVec.twoPow_eq, BitVec.and_twoPow]
  have h_ne : BitVec.twoPow w n ≠ 0#w := by
    intro h_zero
    have h_bit := congrArg (BitVec.getLsbD · n) h_zero
    simp [h_n] at h_bit
  cases word.getLsbD n <;> simp [h_ne]

theorem toNat_ctz_lt {word : BitVec w} (h_nonzero : word ≠ 0#w) : word.ctz.toNat < w := by
  have h_lt : word.ctz < BitVec.ofNat w w := BitVec.ctz_lt_iff_ne_zero.mpr h_nonzero
  rw [BitVec.lt_def, BitVec.toNat_ofNat] at h_lt
  exact Nat.lt_of_lt_of_le h_lt (Nat.mod_le _ _)

theorem not_ne_zero_of_ne_full {word : BitVec w} (h_word : word ≠ ~~~0#w) : ~~~word ≠ 0#w := by
  intro h_zero
  rw [← h_zero, BitVec.not_not] at h_word
  exact h_word rfl

/-! ## Lists of words -/

variable {words words' words'' : List (BitVec w)} {i p : Nat}

/-- Bit `i` of a list of words; past its end there is none. -/
def bitAt (words : List (BitVec w)) (i : Nat) : Bool :=
  (words[i / w]?.getD 0#w).getLsbD (i % w)

/-- The positions of the set bits. -/
def setBits (words : List (BitVec w)) : Set Nat := {i | bitAt words i = true}

@[simp] theorem mem_setBits : i ∈ setBits words ↔ bitAt words i = true := Iff.rfl

theorem bitAt_eq_of_lt (h_p : i / w < words.length) :
    bitAt words i = words[i / w].getLsbD (i % w) := by
  rw [bitAt, List.getElem?_eq_getElem h_p, Option.getD_some]

/-- A write to a word changes the bits of this word. -/
theorem bitAt_set (h_p : p < words.length) (word : BitVec w) (i : Nat) :
    bitAt (words.set p word) i
      = if i / w = p then word.getLsbD (i % w) else bitAt words i := by
  by_cases h_i : i / w = p
  · subst h_i
    rw [if_pos rfl, bitAt_eq_of_lt (by rwa [List.length_set]), List.getElem_set_self]
  · rw [if_neg h_i, bitAt, bitAt, List.getElem?_set_ne (Ne.symm h_i)]

/-! ## Ranges that are overwritten -/

/-- `words'` has the value `v` at the positions from `lo` up to `hi`, and elsewhere
    the bits of `words`. -/
structure Overwritten (v : Bool) (lo hi : Nat) (words words' : List (BitVec w)) : Prop where
  length : words'.length = words.length
  bits : ∀ i, bitAt words' i = if lo ≤ i ∧ i < hi then v else bitAt words i

variable {v : Bool} {lo mid hi : Nat}

theorem Overwritten.refl (v : Bool) (lo : Nat) (words : List (BitVec w)) :
    Overwritten v lo lo words words where
  length := rfl
  bits _ := by rw [if_neg (by omega)]

/-- Adjacent ranges that are overwritten one after the other are one range. -/
theorem Overwritten.trans (h_first : Overwritten v lo mid words words')
    (h_then : Overwritten v mid hi words' words'') (h_lo : lo ≤ mid) (h_hi : mid ≤ hi) :
    Overwritten v lo hi words words'' where
  length := h_then.length.trans h_first.length
  bits i := by
    rw [h_then.bits, h_first.bits]
    split_ifs <;> first | rfl | omega

/-- Positions that are set join the set of bits. -/
theorem Overwritten.setBits_union (h : Overwritten true lo hi words words') :
    setBits words' = setBits words ∪ Set.Ico lo hi := by
  ext i
  rw [mem_setBits, h.bits, Set.mem_union, mem_setBits, Set.mem_Ico]
  split_ifs with h_i <;> simp [h_i]

/-- Positions that are cleared leave it. -/
theorem Overwritten.setBits_diff (h : Overwritten false lo hi words words') :
    setBits words' = setBits words \ Set.Ico lo hi := by
  ext i
  rw [mem_setBits, h.bits, Set.mem_sdiff, mem_setBits, Set.mem_Ico]
  split_ifs with h_i <;> simp [h_i]

/-! ## The first clear bit -/

/-- A word without a clear bit extends a prefix without one. -/
theorem bitAt_of_full_word (h_p : p < words.length) (h_full : words[p] = ~~~0#w)
    (h_before : ∀ i < p * w, bitAt words i = true) :
    ∀ i < (p + 1) * w, bitAt words i = true := by
  intro i h_i
  by_cases h_lt : i < p * w
  · exact h_before i h_lt
  · have h_pos : 0 < w := Nat.pos_of_lt_mul_left h_i
    have h_word : i / w = p := by
      rw [Nat.div_eq_iff h_pos]
      rw [Nat.succ_mul] at h_i
      omega
    subst h_word
    rw [bitAt_eq_of_lt h_p, h_full, BitVec.getLsbD_not, BitVec.getLsbD_zero]
    simp [Nat.mod_lt i h_pos]

/-- The least clear bit of the first word that has one is the least clear bit. -/
theorem isLeast_clear_of_word (h_p : p < words.length) (h_word : words[p] ≠ ~~~0#w)
    (h_before : ∀ i < p * w, bitAt words i = true) :
    IsLeast (setBits words)ᶜ (p * w + (~~~words[p]).ctz.toNat) := by
  have h_nonzero : ~~~words[p] ≠ 0#w := not_ne_zero_of_ne_full h_word
  have h_ctz : (~~~words[p]).ctz.toNat < w := toNat_ctz_lt h_nonzero
  -- A bit `i` of the word is found again in the list.
  have h_bit : ∀ i < w, bitAt words (p * w + i) = words[p].getLsbD i := by
    intro i h_i
    have h_div : (p * w + i) / w = p := by
      rw [Nat.div_eq_iff (by omega)]
      omega
    have h_mod : (p * w + i) % w = i := by
      rw [Nat.mul_add_mod_self_right, Nat.mod_eq_of_lt h_i]
    rw [bitAt, h_div, h_mod, List.getElem?_eq_getElem h_p, Option.getD_some]
  refine ⟨?_, ?_⟩
  · have h_set := BitVec.getLsbD_true_ctz_of_ne_zero h_nonzero
    rw [BitVec.getLsbD_not] at h_set
    rw [Set.mem_compl_iff, mem_setBits, h_bit _ h_ctz]
    simpa [h_ctz] using h_set
  · intro i h_clear
    rw [Set.mem_compl_iff, mem_setBits] at h_clear
    by_contra h_less
    by_cases h_lt : i < p * w
    · exact h_clear (h_before i h_lt)
    · obtain ⟨j, rfl⟩ := Nat.exists_eq_add_of_le (Nat.le_of_not_lt h_lt)
      have h_false := BitVec.getLsbD_false_of_lt_ctz (x := ~~~words[p]) (i := j) (by omega)
      rw [BitVec.getLsbD_not] at h_false
      rw [h_bit j (by omega)] at h_clear
      simp only [show j < w by omega, decide_true, Bool.true_and, Bool.not_eq_false'] at h_false
      exact h_clear h_false

/-- The answer of a search for the least clear bit below `n`. -/
def IsFirstClear (words : List (BitVec w)) (n : Nat) : Option Nat → Prop
  | some i => i < n ∧ IsLeast (setBits words)ᶜ i
  | none => Set.Iio n ⊆ setBits words

end Lib
