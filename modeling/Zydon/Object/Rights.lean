/-
  Zydon.Object.Rights

  The capability rights of `object/rights.rs`: a 32-bit set of flags, of which
  the handle table tests `DUPLICATE` and `TRANSFER` and which a duplicated
  handle intersects with the rights asked for.
-/

import Mathlib.Data.BitVec

namespace Zydon

/-- `Rights(u32)`. -/
structure Rights where
  bits : BitVec 32
  deriving DecidableEq, Repr

namespace Rights

/-- `Rights::DUPLICATE`. -/
def duplicate : Rights := ⟨1#32 <<< 4⟩

/-- `Rights::TRANSFER`. -/
def transfer : Rights := ⟨1#32 <<< 5⟩

/-- `Rights::ALL`. -/
def all : Rights := ⟨(1#32 <<< 14) - 1#32⟩

/-- `contains`: does `self` hold all of `other`? -/
def contains (self other : Rights) : Bool := (self.bits &&& other.bits) == other.bits

/-- `intersection`. -/
def intersection (self other : Rights) : Rights := ⟨self.bits &&& other.bits⟩

/-- `downgrade`: the intersection with what is allowed. -/
def downgrade (self allowed : Rights) : Rights := self.intersection allowed

theorem contains_iff {r q : Rights} : r.contains q = true ↔ r.bits &&& q.bits = q.bits := by
  rw [contains, beq_iff_eq]

theorem contains_refl (r : Rights) : r.contains r = true := by
  rw [contains_iff, BitVec.and_self]

theorem contains_trans {r q p : Rights} (h : r.contains q = true) (h' : q.contains p = true) :
    r.contains p = true := by
  rw [contains_iff] at *
  rw [← h', ← BitVec.and_assoc, h]

/-- A downgrade never adds a right. -/
theorem contains_downgrade (r allowed : Rights) : r.contains (r.downgrade allowed) = true := by
  rw [contains_iff, downgrade, intersection, ← BitVec.and_assoc, BitVec.and_self]

end Rights
end Zydon
