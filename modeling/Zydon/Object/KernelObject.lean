/-
  Zydon.Object.KernelObject

  The reference count of a kernel object, as `object/kernel_object.rs` keeps it
  in the object's header.
-/

import Mathlib.Data.BitVec

namespace Zydon

/-- `ObjectHeader`, of which `KoRef` uses the reference count. -/
structure ObjectHeader where
  refcount : BitVec 32
  deriving DecidableEq, Repr

namespace ObjectHeader

/-- `new`: the count starts with the reference of the creator. -/
def new : ObjectHeader := ⟨1#32⟩

/-- `add_ref`. -/
def addRef (h : ObjectHeader) : ObjectHeader := ⟨h.refcount + 1#32⟩

/-- `release`: the previous count, and the header. -/
def release (h : ObjectHeader) : BitVec 32 × ObjectHeader := (h.refcount, ⟨h.refcount - 1#32⟩)

end ObjectHeader
end Zydon
