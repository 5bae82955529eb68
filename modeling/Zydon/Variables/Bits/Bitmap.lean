/-
  Zydon.Variables.Bits.Bitmap

  The bitmaps of `variables/bits.rs`: bit `i` of a slice of words is bit `i % 64` of
  word `i / 64`.  An index past the slice panics (`none`).
-/

import Zydon.Lib.Checked
import Zydon.Lib.WordBits

namespace Zydon
namespace Bits

open Lib

abbrev Usize := BitVec 64

/-! ## Words and masks -/

/-- `BITMAP_BITS_PER_WORD`. -/
abbrev bitmapBitsPerWord : Nat := 64

def bitmapNumWords (checks : OverflowChecks) (x : Usize) : Option Nat := do
  let up ← checks.usub (← checks.uadd x 64#64) 1#64
  return up.toNat / bitmapBitsPerWord

def bitmapWord (x : Usize) : Nat := x.toNat / bitmapBitsPerWord

def bitmapBitInWord (x : Usize) : Nat := (x &&& 63#64).toNat

def bitmapFirstWordMask (start : Usize) : Usize :=
  ~~~0#64 <<< (start.toNat % bitmapBitsPerWord)

def bitmapLastWordMask (nbits : Usize) : Usize :=
  if nbits.toNat % bitmapBitsPerWord ≠ 0 then
    (1#64 <<< (nbits.toNat % bitmapBitsPerWord)) - 1#64
  else ~~~0#64

/-! ## Set and clear -/

/-- `bitmap[p] op= mask`. -/
def writeWord (op : Usize → Usize → Usize) (bitmap : List Usize) (p : Nat) (mask : Usize) :
    Option (List Usize) :=
  bitmap[p]?.map fun word => bitmap.set p (op word mask)

/-- The loop of `bitmap_set` and `bitmap_clear` with the write after it, or `none` if it
    has not ended after `fuel` rounds.  `bits` is how many positions the word has left
    from the next one on, and `mask` has these. -/
def updateWords (op : Usize → Usize → Usize) (size : Usize) :
    Nat → List Usize → Nat → Nat → Usize → Nat → Option (List Usize)
  | fuel, bitmap, p, bits, mask, remaining =>
      if remaining ≥ bits then
        match fuel with
        | 0 => none
        | fuel + 1 =>
            (writeWord op bitmap p mask).bind fun bitmap =>
              updateWords op size fuel bitmap (p + 1) bitmapBitsPerWord (~~~0#64)
                (remaining - bits)
      else if remaining > 0 then writeWord op bitmap p (mask &&& bitmapLastWordMask size)
      else some bitmap

/-- `bitmap_set` and `bitmap_clear`: a round takes at least one position off `nr`. -/
def bitmapUpdate (checks : OverflowChecks) (op : Usize → Usize → Usize) (bitmap : List Usize)
    (start nr : Usize) : Option (List Usize) := do
  let size ← checks.uadd start nr
  updateWords op size nr.toNat bitmap (bitmapWord start)
    (bitmapBitsPerWord - start.toNat % bitmapBitsPerWord) (bitmapFirstWordMask start) nr.toNat

def bitmapSet (checks : OverflowChecks) (bitmap : List Usize) (start nr : Usize) :
    Option (List Usize) :=
  bitmapUpdate checks (fun word mask => word ||| mask) bitmap start nr

def bitmapClear (checks : OverflowChecks) (bitmap : List Usize) (start nr : Usize) :
    Option (List Usize) :=
  bitmapUpdate checks (fun word mask => word &&& ~~~mask) bitmap start nr

/-! ## Test and search -/

def bitmapTest (bitmap : List Usize) (bit : Usize) : Option Bool :=
  bitmap[bitmapWord bit]?.map fun word => (word &&& (1#64 <<< bitmapBitInWord bit)) != 0#64

def ffz (x : Usize) : Usize := (~~~x).ctz

/-- The loop of `bitmap_ffz` from word `i` on, for `rounds` more words. -/
def ffzLoop (bitmap : List Usize) (numbits : Usize) : Nat → Nat → Option (Option Usize)
  | 0, _ => some none
  | rounds + 1, i =>
      bitmap[i]?.bind fun word =>
        if word = ~~~0#64 then ffzLoop bitmap numbits rounds (i + 1)
        else
          let bit := BitVec.ofNat 64 (i * bitmapBitsPerWord) + ffz word
          if bit < numbits then some (some bit) else some none

def bitmapFfz (checks : OverflowChecks) (bitmap : List Usize) (numbits : Usize) :
    Option (Option Usize) := do
  let words ← bitmapNumWords checks numbits
  ffzLoop bitmap numbits words 0

/-! ## The bit a test reads -/

theorem bitmapBitInWord_eq (x : Usize) : bitmapBitInWord x = x.toNat % 64 := by
  rw [bitmapBitInWord, BitVec.toNat_and]
  exact Nat.and_two_pow_sub_one_eq_mod x.toNat 6

/-- A test within the bitmap reads the bit of that position. -/
theorem bitmapTest_eq {bitmap : List Usize} {bit : Usize}
    (h_bit : bit.toNat < 64 * bitmap.length) :
    bitmapTest bitmap bit = some (bitAt bitmap bit.toNat) := by
  have h_word : bit.toNat / 64 < bitmap.length := Nat.div_lt_of_lt_mul h_bit
  rw [bitmapTest, bitmapWord, List.getElem?_eq_getElem h_word, Option.map_some,
    and_one_shiftLeft_bne_zero _ (by rw [bitmapBitInWord_eq]; omega), bitmapBitInWord_eq,
    bitAt_eq_of_lt h_word]

/-! ## Set and clear change the range -/

/-- The operation puts the value `v` where the mask has a bit. -/
def Overwrites (v : Bool) (op : Usize → Usize → Usize) : Prop :=
  ∀ word mask : Usize, ∀ i < 64,
    (op word mask).getLsbD i = if mask.getLsbD i then v else word.getLsbD i

theorem overwrites_or : Overwrites true (fun word mask => word ||| mask) := by
  intro word mask i _
  rw [BitVec.getLsbD_or]
  cases mask.getLsbD i <;> simp

theorem overwrites_and_not : Overwrites false (fun word mask => word &&& ~~~mask) := by
  intro word mask i h_i
  rw [BitVec.getLsbD_and, BitVec.getLsbD_not]
  cases mask.getLsbD i <;> simp [h_i]

section Update

variable {v : Bool} {op : Usize → Usize → Usize} {bitmap : List Usize} {lo hi p : Nat}
  {mask : Usize}

/-- A write to one word overwrites the range that its mask covers. -/
theorem writeWord_overwritten (h_op : Overwrites v op) (h_p : p < bitmap.length)
    (h_mask : ∀ i, i / 64 = p → (mask.getLsbD (i % 64) = true ↔ lo ≤ i ∧ i < hi))
    (h_range : ∀ i, lo ≤ i → i < hi → i / 64 = p) :
    ∃ bitmap', writeWord op bitmap p mask = some bitmap' ∧
      Overwritten v lo hi bitmap bitmap' := by
  have h_get : bitmap[p]? = some bitmap[p] := List.getElem?_eq_getElem h_p
  refine ⟨bitmap.set p (op bitmap[p] mask), by rw [writeWord, h_get, Option.map_some],
    List.length_set .., fun i => ?_⟩
  rw [bitAt_set h_p]
  by_cases h_i : i / 64 = p
  · have h_iff := h_mask i h_i
    have h_old : bitAt bitmap i = bitmap[p].getLsbD (i % 64) := by
      subst h_i
      exact bitAt_eq_of_lt h_p
    rw [if_pos h_i, h_op _ _ _ (Nat.mod_lt i (by decide)), h_old]
    exact if_congr h_iff rfl rfl
  · rw [if_neg h_i, if_neg fun h => h_i (h_range i h.1 h.2)]

/-- A round writes the rest of a word: from `pos` to the next word boundary. -/
theorem writeWord_to_boundary (h_op : Overwrites v op) (pos : Nat)
    (h_pos : pos < 64 * bitmap.length) :
    ∃ bitmap', writeWord op bitmap (pos / 64) (~~~0#64 <<< (pos % 64)) = some bitmap' ∧
      Overwritten v pos (pos + (64 - pos % 64)) bitmap bitmap' := by
  apply writeWord_overwritten h_op (by omega)
  · intro i h_i
    rw [getLsbD_not_zero_shiftLeft, decide_eq_true_iff]
    omega
  · intro i h_lo h_hi
    omega

/-- The write after the loop ends within a word: at `pos + remaining`, of which `size`
    has the position in the word. -/
theorem writeWord_within (h_op : Overwrites v op) {size : Usize} {pos remaining : Nat}
    (h_some : 0 < remaining) (h_within : pos % 64 + remaining < 64)
    (h_len : pos + remaining ≤ 64 * bitmap.length)
    (h_size : size.toNat % 64 = (pos + remaining) % 64) :
    ∃ bitmap', writeWord op bitmap (pos / 64)
        ((~~~0#64 <<< (pos % 64)) &&& bitmapLastWordMask size) = some bitmap' ∧
      Overwritten v pos (pos + remaining) bitmap bitmap' := by
  have h_end : (pos + remaining) % 64 = pos % 64 + remaining := by omega
  have h_partial : size.toNat % 64 ≠ 0 := by omega
  apply writeWord_overwritten h_op (by omega)
  · intro i h_i
    rw [bitmapLastWordMask, if_pos h_partial, BitVec.getLsbD_and, getLsbD_not_zero_shiftLeft,
      getLsbD_one_shiftLeft_sub_one, h_size, h_end, Bool.and_eq_true, decide_eq_true_iff,
      decide_eq_true_iff]
    omega
  · intro i h_lo h_hi
    omega

/-- From any position: the loop and the write after it overwrite the range, in any
    number of rounds that is large enough. -/
theorem updateWords_overwritten (h_op : Overwrites v op) {size : Usize} {fuel : Nat}
    {bitmap : List Usize} {pos remaining : Nat} (h_fuel : remaining ≤ fuel)
    (h_len : pos + remaining ≤ 64 * bitmap.length)
    (h_size : size.toNat % 64 = (pos + remaining) % 64) :
    ∃ bitmap', updateWords op size fuel bitmap (pos / 64) (64 - pos % 64)
        (~~~0#64 <<< (pos % 64)) remaining = some bitmap' ∧
      Overwritten v pos (pos + remaining) bitmap bitmap' := by
  induction fuel generalizing bitmap pos remaining with
  | zero =>
      obtain rfl : remaining = 0 := by omega
      refine ⟨bitmap, ?_, Overwritten.refl v pos bitmap⟩
      rw [updateWords, if_neg (by omega), if_neg (by omega)]
  | succ fuel ih =>
      by_cases h_full : 64 - pos % 64 ≤ remaining
      · -- After the round the next position is that of a word boundary.
        have h_pos : pos < 64 * bitmap.length := by omega
        obtain ⟨bitmap₁, h_write, h_first⟩ := writeWord_to_boundary h_op pos h_pos
        have h_sum : pos + (64 - pos % 64) + (remaining - (64 - pos % 64)) = pos + remaining := by
          omega
        have h_len_rest : pos + (64 - pos % 64) + (remaining - (64 - pos % 64))
            ≤ 64 * bitmap₁.length := by
          rwa [h_sum, h_first.length]
        obtain ⟨bitmap', h_rest, h_then⟩ := ih (by omega) h_len_rest (by rw [h_size, h_sum])
        have h_word : (pos + (64 - pos % 64)) / 64 = pos / 64 + 1 := by omega
        have h_bit : (pos + (64 - pos % 64)) % 64 = 0 := by omega
        rw [h_word, h_bit] at h_rest
        rw [h_sum] at h_then
        refine ⟨bitmap', ?_, h_first.trans h_then (by omega) (by omega)⟩
        rw [updateWords, if_pos h_full]
        simp only [h_write, Option.bind_some]
        simpa using h_rest
      · by_cases h_some : 0 < remaining
        · rw [updateWords, if_neg (by omega), if_pos h_some]
          exact writeWord_within h_op h_some (by omega) h_len h_size
        · obtain rfl : remaining = 0 := by omega
          refine ⟨bitmap, ?_, Overwritten.refl v pos bitmap⟩
          rw [updateWords, if_neg (by omega), if_neg (by omega)]

/-- The whole call: where it goes wrong is only that `start + nr` does not fit. -/
theorem bitmapUpdate_overwritten (h_op : Overwrites v op) {checks : OverflowChecks}
    {start nr : Usize} (h_len : start.toNat + nr.toNat ≤ 64 * bitmap.length)
    (h_fits : checks = .off ∨ start.toNat + nr.toNat < 2 ^ 64) :
    ∃ bitmap', bitmapUpdate checks op bitmap start nr = some bitmap' ∧
      Overwritten v start.toNat (start.toNat + nr.toNat) bitmap bitmap' := by
  have h_sum : checks.uadd start nr = some (start + nr) := by
    rcases h_fits with rfl | h_lt
    · exact OverflowChecks.guard_off _ _
    · exact OverflowChecks.uadd_eq_some h_lt
  -- Where the sum wraps it loses a multiple of the bits of a word.
  have h_size : (start + nr).toNat % 64 = (start.toNat + nr.toNat) % 64 := by
    rw [BitVec.toNat_add, Nat.mod_mod_of_dvd _ (by decide)]
  simp only [bitmapUpdate, h_sum, Option.bind_eq_bind, Option.bind_some]
  exact updateWords_overwritten h_op (Nat.le_refl _) h_len h_size

end Update

variable {bitmap : List Usize} {start nr : Usize}

/-- As a set of positions the bitmap gains the range. -/
theorem bitmapSet_setBits {checks : OverflowChecks}
    (h_len : start.toNat + nr.toNat ≤ 64 * bitmap.length)
    (h_fits : checks = .off ∨ start.toNat + nr.toNat < 2 ^ 64) :
    ∃ bitmap', bitmapSet checks bitmap start nr = some bitmap' ∧
      setBits bitmap' = setBits bitmap ∪ Set.Ico start.toNat (start.toNat + nr.toNat) := by
  obtain ⟨bitmap', h_set, h_range⟩ := bitmapUpdate_overwritten overwrites_or h_len h_fits
  exact ⟨bitmap', h_set, h_range.setBits_union⟩

/-- As a set of positions the bitmap loses the range. -/
theorem bitmapClear_setBits {checks : OverflowChecks}
    (h_len : start.toNat + nr.toNat ≤ 64 * bitmap.length)
    (h_fits : checks = .off ∨ start.toNat + nr.toNat < 2 ^ 64) :
    ∃ bitmap', bitmapClear checks bitmap start nr = some bitmap' ∧
      setBits bitmap' = setBits bitmap \ Set.Ico start.toNat (start.toNat + nr.toNat) := by
  obtain ⟨bitmap', h_clear, h_range⟩ := bitmapUpdate_overwritten overwrites_and_not h_len h_fits
  exact ⟨bitmap', h_clear, h_range.setBits_diff⟩

/-- The call returns, and a test then yields `v` in the range and what it did before
    everywhere else in the bitmap. -/
def ChangesRange (v : Bool) (bitmap : List Usize) (start nr : Usize)
    (result : Option (List Usize)) : Prop :=
  ∃ bitmap', result = some bitmap' ∧ bitmap'.length = bitmap.length ∧
    (∀ i : Usize, start.toNat ≤ i.toNat → i.toNat < start.toNat + nr.toNat →
      bitmapTest bitmap' i = some v) ∧
    ∀ i : Usize, i.toNat < 64 * bitmap.length →
      ¬ (start.toNat ≤ i.toNat ∧ i.toNat < start.toNat + nr.toNat) →
      bitmapTest bitmap' i = bitmapTest bitmap i

theorem changesRange_of_overwrites {v : Bool} {op : Usize → Usize → Usize}
    {checks : OverflowChecks} (h_op : Overwrites v op)
    (h_len : start.toNat + nr.toNat ≤ 64 * bitmap.length)
    (h_fits : checks = .off ∨ start.toNat + nr.toNat < 2 ^ 64) :
    ChangesRange v bitmap start nr (bitmapUpdate checks op bitmap start nr) := by
  obtain ⟨bitmap', h_update, h_range⟩ := bitmapUpdate_overwritten h_op h_len h_fits
  have h_test : ∀ i : Usize, i.toNat < 64 * bitmap.length →
      bitmapTest bitmap' i = some (bitAt bitmap' i.toNat) := fun i h_i =>
    bitmapTest_eq (by rwa [h_range.length])
  refine ⟨bitmap', h_update, h_range.length, fun i h_lo h_hi => ?_, fun i h_i h_out => ?_⟩
  · rw [h_test i (by omega), h_range.bits, if_pos ⟨h_lo, h_hi⟩]
  · rw [h_test i h_i, bitmapTest_eq h_i, h_range.bits, if_neg h_out]

/-- `bitmap_set` and `bitmap_clear` change exactly the bits of their range, in bitmaps
    of any length.  Only where `start + nr` is no `usize`, in a bitmap of at least 2^58
    words, a build with overflow checks panics instead. -/
theorem bitmapSet_bitmapClear_exact
    (h_len : start.toNat + nr.toNat ≤ 64 * bitmap.length) :
    ChangesRange true bitmap start nr (bitmapSet .off bitmap start nr) ∧
    ChangesRange false bitmap start nr (bitmapClear .off bitmap start nr) ∧
    (start.toNat + nr.toNat < 2 ^ 64 →
      ChangesRange true bitmap start nr (bitmapSet .on bitmap start nr) ∧
      ChangesRange false bitmap start nr (bitmapClear .on bitmap start nr)) := by
  refine ⟨?_, ?_, fun h_fits => ⟨?_, ?_⟩⟩
  · exact changesRange_of_overwrites overwrites_or h_len (Or.inl rfl)
  · exact changesRange_of_overwrites overwrites_and_not h_len (Or.inl rfl)
  · exact changesRange_of_overwrites overwrites_or h_len (Or.inr h_fits)
  · exact changesRange_of_overwrites overwrites_and_not h_len (Or.inr h_fits)

/-- A range over a word boundary, to the end of a bitmap of two words. -/
theorem bitmapSet_bitmapClear_two_words :
    ChangesRange true [0#64, 1#64] 62#64 66#64 (bitmapSet .off [0#64, 1#64] 62#64 66#64) :=
  (bitmapSet_bitmapClear_exact (by decide)).1

example : bitmapSet .off [0#64, 1#64] 62#64 66#64 = some [3#64 <<< 62, ~~~0#64] := by decide

/-! ## The search -/

/-- In the words that are left the loop finds the least clear bit. -/
theorem ffzLoop_isFirstClear {numbits : Usize} {rounds i : Nat}
    (h_words : i + rounds ≤ bitmap.length)
    (h_lo : 64 * (i + rounds) < numbits.toNat + 64) (h_hi : numbits.toNat ≤ 64 * (i + rounds))
    (h_before : ∀ j < i * 64, bitAt bitmap j = true) :
    ∃ found, ffzLoop bitmap numbits rounds i = some found ∧
      IsFirstClear bitmap numbits.toNat (found.map BitVec.toNat) := by
  induction rounds generalizing i with
  | zero =>
      refine ⟨none, rfl, fun j h_j => ?_⟩
      rw [Set.mem_Iio] at h_j
      exact h_before j (by omega)
  | succ rounds ih =>
      have h_i : i < bitmap.length := by omega
      have h_numbits := numbits.isLt
      rw [ffzLoop, List.getElem?_eq_getElem h_i, Option.bind_some]
      by_cases h_word : bitmap[i] = ~~~0#64
      · rw [if_pos h_word]
        exact ih (by omega) (by omega) (by omega) (bitAt_of_full_word h_i h_word h_before)
      · rw [if_neg h_word]
        have h_least := isLeast_clear_of_word h_i h_word h_before
        have h_ctz : (~~~bitmap[i]).ctz.toNat < 64 :=
          toNat_ctz_lt (not_ne_zero_of_ne_full h_word)
        have h_bit : (BitVec.ofNat 64 (i * bitmapBitsPerWord) + ffz bitmap[i]).toNat
            = i * 64 + (~~~bitmap[i]).ctz.toNat := by
          rw [ffz, bitmapBitsPerWord, BitVec.toNat_add, BitVec.toNat_ofNat]
          omega
        by_cases h_lt : BitVec.ofNat 64 (i * bitmapBitsPerWord) + ffz bitmap[i] < numbits
        · refine ⟨_, if_pos h_lt, ?_⟩
          rw [BitVec.lt_def, h_bit] at h_lt
          rw [Option.map_some, h_bit]
          exact ⟨h_lt, h_least⟩
        · -- Every position below the least clear bit is set, so all below `numbits` are.
          refine ⟨_, if_neg h_lt, fun j h_j => ?_⟩
          rw [BitVec.lt_def, h_bit] at h_lt
          rw [Set.mem_Iio] at h_j
          by_contra h_clear
          have h_le := h_least.2 h_clear
          omega

/-- As long as `x + 64` is a `usize` the words are counted right in every build. -/
theorem bitmapNumWords_eq_some {checks : OverflowChecks} {x : Usize}
    (h_x : x.toNat < 2 ^ 64 - 64) : bitmapNumWords checks x = some ((x.toNat + 63) / 64) := by
  have h_add : checks.uadd x 64#64 = some (x + 64#64) :=
    OverflowChecks.uadd_eq_some (by rw [BitVec.toNat_ofNat]; omega)
  have h_up : (x + 64#64).toNat = x.toNat + 64 := by
    rw [BitVec.toNat_add, BitVec.toNat_ofNat]
    omega
  have h_one : (1#64).toNat ≤ (x + 64#64).toNat := by
    rw [h_up, BitVec.toNat_ofNat]
    omega
  simp only [bitmapNumWords, h_add, Option.bind_eq_bind, Option.bind_some,
    OverflowChecks.usub_eq_some h_one, BitVec.toNat_sub_of_le (BitVec.le_def.mpr h_one), h_up]
  rfl

/-- Without checks the sum wraps to where it is `x + 63` again, modulo 2^64. -/
theorem bitmapNumWords_off (x : Usize) :
    bitmapNumWords .off x = some ((x.toNat + 63) % 2 ^ 64 / 64) := by
  have h_up : (x + 64#64 - 1#64).toNat = (x.toNat + 63) % 2 ^ 64 := by
    rw [BitVec.toNat_sub, BitVec.toNat_add, BitVec.toNat_ofNat, BitVec.toNat_ofNat]
    omega
  simp only [bitmapNumWords, OverflowChecks.uadd, OverflowChecks.usub, OverflowChecks.guard_off,
    Option.bind_eq_bind, Option.bind_some, h_up]
  rfl

theorem bitmapNumWords_on_eq_none {x : Usize} (h_x : 2 ^ 64 - 64 ≤ x.toNat) :
    bitmapNumWords .on x = none := by
  have h_add : OverflowChecks.on.uadd x 64#64 = none := by
    apply OverflowChecks.uadd_on_eq_none
    rw [BitVec.toNat_ofNat]
    omega
  simp only [bitmapNumWords, h_add, Option.bind_eq_bind, Option.bind_none]

/-- The answer is the least clear bit below `numbits`, or that there is none. -/
def FindsFirstClear (bitmap : List Usize) (numbits : Usize) (result : Option (Option Usize)) :
    Prop :=
  (∀ i : Usize, result = some (some i) ↔ i.toNat < numbits.toNat ∧
    bitmapTest bitmap i = some false ∧
    ∀ j : Usize, j.toNat < i.toNat → bitmapTest bitmap j = some true) ∧
  (result = some none ↔
    ∀ i : Usize, i.toNat < numbits.toNat → bitmapTest bitmap i = some true)

section Search

variable {numbits : Usize}

theorem findsFirstClear_none (h_len : numbits.toNat ≤ 64 * bitmap.length)
    (h_all : Set.Iio numbits.toNat ⊆ setBits bitmap) :
    FindsFirstClear bitmap numbits (some none) := by
  have h_set : ∀ i : Usize, i.toNat < numbits.toNat → bitmapTest bitmap i = some true := by
    intro i h_i
    rw [bitmapTest_eq (by omega), mem_setBits.mp (h_all (Set.mem_Iio.mpr h_i))]
  refine ⟨fun i => ⟨fun h_eq => absurd h_eq (by simp), ?_⟩, fun _ => h_set, fun _ => rfl⟩
  rintro ⟨h_i, h_clear, -⟩
  rw [h_set i h_i] at h_clear
  exact absurd h_clear (by simp)

theorem findsFirstClear_some (h_len : numbits.toNat ≤ 64 * bitmap.length) {b : Usize}
    (h_b : b.toNat < numbits.toNat) (h_least : IsLeast (setBits bitmap)ᶜ b.toNat) :
    FindsFirstClear bitmap numbits (some (some b)) := by
  obtain ⟨h_clear, h_least⟩ := h_least
  rw [Set.mem_compl_iff, mem_setBits, Bool.not_eq_true] at h_clear
  have h_before : ∀ j : Usize, j.toNat < b.toNat → bitmapTest bitmap j = some true := by
    intro j h_j
    rw [bitmapTest_eq (by omega)]
    by_contra h_not
    have h_le := h_least (a := j.toNat) (by simpa using h_not)
    omega
  have h_at : bitmapTest bitmap b = some false := by rw [bitmapTest_eq (by omega), h_clear]
  refine ⟨fun i => ⟨?_, ?_⟩, ⟨fun h_eq => absurd h_eq (by simp), fun h_all => ?_⟩⟩
  · intro h_eq
    obtain rfl : b = i := by simpa using h_eq
    exact ⟨h_b, h_at, h_before⟩
  · rintro ⟨h_i, h_false, h_true⟩
    rcases Nat.lt_trichotomy i.toNat b.toNat with h_lt | h_eq | h_lt
    · rw [h_before i h_lt] at h_false
      exact absurd h_false (by simp)
    · rw [BitVec.eq_of_toNat_eq h_eq]
    · rw [h_true b h_lt] at h_at
      exact absurd h_at (by simp)
  · rw [h_all b h_b] at h_at
    exact absurd h_at (by simp)

/-- A panic is no answer. -/
theorem not_findsFirstClear_none (h_len : numbits.toNat ≤ 64 * bitmap.length) :
    ¬ FindsFirstClear bitmap numbits none := by
  rintro ⟨h_some, h_none⟩
  have h_all : ∀ n, ∀ i : Usize, i.toNat = n → i.toNat < numbits.toNat →
      bitmapTest bitmap i = some true := by
    intro n
    induction n using Nat.strong_induction_on with
    | _ n ih =>
        intro i h_n h_i
        have h_test : bitmapTest bitmap i = some (bitAt bitmap i.toNat) :=
          bitmapTest_eq (by omega)
        by_contra h_clear
        have h_false : bitmapTest bitmap i = some false := by
          rw [h_test] at h_clear ⊢
          simpa using h_clear
        have h_answer := (h_some i).mpr
          ⟨h_i, h_false, fun j h_j => ih j.toNat (by omega) j rfl (by omega)⟩
        exact absurd h_answer (by simp)
  exact absurd (h_none.mpr fun i h_i => h_all i.toNat i rfl h_i) (by simp)

/-- Where the words are counted right the search is. -/
theorem bitmapFfz_findsFirstClear (h_len : numbits.toNat ≤ 64 * bitmap.length)
    {checks : OverflowChecks}
    (h_words : bitmapNumWords checks numbits = some ((numbits.toNat + 63) / 64)) :
    FindsFirstClear bitmap numbits (bitmapFfz checks bitmap numbits) := by
  have h_within : 0 + (numbits.toNat + 63) / 64 ≤ bitmap.length := by omega
  have h_lo : 64 * (0 + (numbits.toNat + 63) / 64) < numbits.toNat + 64 := by omega
  obtain ⟨found, h_loop, h_first⟩ := ffzLoop_isFirstClear h_within h_lo (by omega)
    (fun j h_j => absurd h_j (by omega))
  simp only [bitmapFfz, h_words, Option.bind_eq_bind, Option.bind_some, h_loop]
  cases found with
  | none => exact findsFirstClear_none h_len h_first
  | some b => exact findsFirstClear_some h_len h_first.1 h_first.2

/-- `bitmap_ffz` finds the least clear bit if and only if the `64` that its count of
    the words adds to `numbits` does not carry it to 2^64 or beyond: then no word is
    searched, and the answer is right only where no bit is clear.  With overflow checks
    the sum panics. -/
theorem bitmapFfz_exact_iff (h_len : numbits.toNat ≤ 64 * bitmap.length) :
    (FindsFirstClear bitmap numbits (bitmapFfz .off bitmap numbits) ↔
      numbits.toNat ≤ 2 ^ 64 - 64 ∨
        ∀ i : Usize, i.toNat < numbits.toNat → bitmapTest bitmap i = some true) ∧
    (FindsFirstClear bitmap numbits (bitmapFfz .on bitmap numbits) ↔
      numbits.toNat < 2 ^ 64 - 64) := by
  have h_numbits := numbits.isLt
  refine ⟨?_, ?_⟩
  · by_cases h_le : numbits.toNat ≤ 2 ^ 64 - 64
    · refine iff_of_true (bitmapFfz_findsFirstClear h_len ?_) (Or.inl h_le)
      rw [bitmapNumWords_off, Nat.mod_eq_of_lt (by omega)]
    · have h_zero : (numbits.toNat + 63) % 2 ^ 64 / 64 = 0 := by omega
      have h_none : bitmapFfz .off bitmap numbits = some none := by
        simp only [bitmapFfz, bitmapNumWords_off, h_zero, Option.bind_eq_bind, Option.bind_some,
          ffzLoop]
      rw [h_none, or_iff_right h_le]
      refine ⟨fun h_finds => h_finds.2.mp rfl, fun h_all => ?_⟩
      apply findsFirstClear_none h_len
      intro j h_j
      rw [Set.mem_Iio] at h_j
      have h_value : (BitVec.ofNat 64 j).toNat = j := by
        rw [BitVec.toNat_ofNat]
        omega
      have h_test := h_all (BitVec.ofNat 64 j) (by rwa [h_value])
      rw [bitmapTest_eq (by omega), h_value] at h_test
      exact mem_setBits.mpr (Option.some.inj h_test)
  · by_cases h_lt : numbits.toNat < 2 ^ 64 - 64
    · exact iff_of_true (bitmapFfz_findsFirstClear h_len (bitmapNumWords_eq_some h_lt)) h_lt
    · refine iff_of_false ?_ h_lt
      have h_none : bitmapFfz .on bitmap numbits = none := by
        simp only [bitmapFfz, bitmapNumWords_on_eq_none (Nat.le_of_not_lt h_lt),
          Option.bind_eq_bind, Option.bind_none]
      rw [h_none]
      exact not_findsFirstClear_none h_len

/-- A bitmap of which only the padding is clear. -/
theorem bitmapFfz_exact_padding :
    FindsFirstClear [~~~0#64, 63#64] 70#64 (bitmapFfz .off [~~~0#64, 63#64] 70#64) :=
  (bitmapFfz_exact_iff (by decide)).1.mpr (Or.inl (by decide))

/-- An empty bitmap of 2^58 words: of its first 2^64 - 1 bits none is found clear. -/
theorem bitmapFfz_counts_no_words :
    bitmapFfz .off (List.replicate (2 ^ 58) 0#64) (~~~0#64) = some none ∧
      bitmapTest (List.replicate (2 ^ 58) 0#64) 0#64 = some false ∧
      ¬ FindsFirstClear (List.replicate (2 ^ 58) 0#64) (~~~0#64)
        (bitmapFfz .off (List.replicate (2 ^ 58) 0#64) (~~~0#64)) := by
  have h_words : bitmapNumWords .off (~~~0#64) = some 0 := by decide
  have h_none : bitmapFfz .off (List.replicate (2 ^ 58) 0#64) (~~~0#64) = some none := by
    simp only [bitmapFfz, h_words, Option.bind_eq_bind, Option.bind_some, ffzLoop]
  have h_clear : bitmapTest (List.replicate (2 ^ 58) 0#64) 0#64 = some false := by
    rw [bitmapTest, List.getElem?_replicate, if_pos (by decide), Option.map_some]
    decide
  refine ⟨h_none, h_clear, fun h_finds => ?_⟩
  have h_set := h_finds.2.mp h_none 0#64 (by decide)
  rw [h_clear] at h_set
  exact absurd h_set (by simp)

end Search

end Bits
end Zydon
