/-
  Zydon.Lib.LittleEndian

  Words as little-endian bytes: a value and the bytes it is stored as, the least
  significant first.  Reading back a stored value gives it modulo the width.
-/

import Mathlib.Data.BitVec
import Mathlib.Data.Nat.Digits.Defs

namespace Lib
namespace LittleEndian

/-- The `n` low bytes of a value. -/
def toBytes : Nat → Nat → List (BitVec 8)
  | 0, _ => []
  | n + 1, x => BitVec.ofNat 8 x :: toBytes n (x / 256)

/-- The value of some bytes. -/
def ofBytes (bytes : List (BitVec 8)) : Nat := Nat.ofDigits 256 (bytes.map BitVec.toNat)

@[simp] theorem length_toBytes (n x : Nat) : (toBytes n x).length = n := by
  induction n generalizing x with
  | zero => rfl
  | succ n ih => rw [toBytes, List.length_cons, ih]

theorem ofBytes_toBytes (n x : Nat) : ofBytes (toBytes n x) = x % 256 ^ n := by
  induction n generalizing x with
  | zero => exact (Nat.mod_one x).symm
  | succ n ih =>
      have h_rest : Nat.ofDigits 256 ((toBytes n (x / 256)).map BitVec.toNat)
          = x / 256 % 256 ^ n := ih (x / 256)
      calc ofBytes (toBytes (n + 1) x)
          = (BitVec.ofNat 8 x).toNat
              + 256 * Nat.ofDigits 256 ((toBytes n (x / 256)).map BitVec.toNat) :=
            Nat.ofDigits_cons ..
        _ = x % 256 + 256 * (x / 256 % 256 ^ n) := by rw [h_rest, BitVec.toNat_ofNat]
        _ = x % 256 ^ (n + 1) := by rw [Nat.pow_succ', Nat.mod_mul]

/-- A word of `n` bytes is read back as it was. -/
theorem ofNat_ofBytes_toBytes {w n : Nat} (h_width : 2 ^ w = 256 ^ n) (x : BitVec w) :
    BitVec.ofNat w (ofBytes (toBytes n x.toNat)) = x := by
  rw [ofBytes_toBytes, ← h_width, Nat.mod_eq_of_lt x.isLt, BitVec.ofNat_toNat, BitVec.setWidth_eq]

end LittleEndian
end Lib
