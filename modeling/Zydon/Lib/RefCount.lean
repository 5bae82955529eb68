/-
  Zydon.Lib.RefCount

  Counts in machine words, of references or of events: a word counts `n` of them
  if it is `n` modulo its size.  Taking and releasing a reference keep this
  whatever `n` is; the word is `n` itself as long as it fits.
-/

import Mathlib.Data.BitVec

namespace Lib

/-- The word `c` counts `n` references. -/
def Counts {w : Nat} (c : BitVec w) (n : Nat) : Prop := c = BitVec.ofNat w n

variable {w : Nat} {c : BitVec w} {n : Nat}

namespace Counts

theorem one : Counts (1#w) 1 := rfl

/-- A reference is taken. -/
theorem add (h : Counts c n) : Counts (c + 1#w) (n + 1) := by
  rw [Counts, BitVec.ofNat_add, ← h]

/-- A reference is released. -/
theorem sub (h : Counts c (n + 1)) : Counts (c - 1#w) n := by
  rw [Counts, BitVec.ofNat_add] at h
  rw [Counts, h, BitVec.add_sub_cancel]

/-- The word is the number of references modulo its size. -/
theorem toNat_mod (h : Counts c n) : c.toNat = n % 2 ^ w := by
  rw [h, BitVec.toNat_ofNat]

/-- The word is the number of references, if that fits. -/
theorem toNat_eq (h : Counts c n) (h_n : n < 2 ^ w) : c.toNat = n := by
  rw [h.toNat_mod, Nat.mod_eq_of_lt h_n]

/-- A count that is not zero counts something. -/
theorem pos (h : Counts c n) (h_ne : c ≠ 0#w) : 0 < n := by
  apply Nat.pos_of_ne_zero
  rintro rfl
  exact h_ne h

/-- The last reference is the one whose release finds the count at one. -/
theorem eq_one (h : Counts c n) (h_w : 0 < w) (h_n : n < 2 ^ w) (h_one : c = 1#w) : n = 1 := by
  have h_lt : 1 < 2 ^ w := Nat.one_lt_two_pow (by omega)
  rw [← h.toNat_eq h_n, h_one, BitVec.toNat_ofNat, Nat.mod_eq_of_lt h_lt]

end Counts
end Lib
