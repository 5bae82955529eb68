/-
  Zydon.Object.HandleTable.Basic

  The handle table of `object/handle.rs`: generational handles, the slot
  array with its intrusive free list, and the operations on it.

  The functions here run under the table's spinlock in the source; they take
  and return the protected `HandleTableInner`.  What panics in the source (an
  index out of bounds, an `unwrap` of `None`, an underflowing subtraction) is
  an error of the outer `Except`; the `Result` the caller sees is the inner
  one.  A `KoRef` is the object it points at.
-/

import Zydon.Lib.PointerList
import Zydon.Object.Rights

namespace Zydon

-- ============================================================================
-- Handles
-- ============================================================================

/-- `Handle(u64)`: generation in the upper half, slot index in the lower half. -/
structure Handle where
  raw : BitVec 64
  deriving DecidableEq, Repr

namespace Handle

/-- `Handle::index`. -/
def index (h : Handle) : Nat := (h.raw &&& 0xFFFFFFFF#64).toNat

/-- `Handle::generation`. -/
def generation (h : Handle) : BitVec 32 := (h.raw >>> 32).setWidth 32

/-- `Handle(((gen as u64) << 32) | (idx as u64))`. -/
def pack (gen : BitVec 32) (idx : Nat) : Handle :=
  ⟨(gen.setWidth 64 <<< 32) ||| BitVec.ofNat 64 idx⟩

theorem index_eq (h : Handle) : h.index = h.raw.toNat % 2 ^ 32 := by
  have h_mask : (0xFFFFFFFF#64).toNat = 2 ^ 32 - 1 := by decide
  rw [index, BitVec.toNat_and, h_mask, Nat.and_two_pow_sub_one_eq_mod]

theorem generation_toNat (h : Handle) : h.generation.toNat = h.raw.toNat / 2 ^ 32 := by
  have h_lt := h.raw.isLt
  simp only [generation, BitVec.toNat_setWidth, BitVec.toNat_ushiftRight,
    Nat.shiftRight_eq_div_pow]
  omega

/-- A handle is its index and its generation. -/
theorem ext_iff {h k : Handle} : h = k ↔ h.index = k.index ∧ h.generation = k.generation := by
  constructor
  · rintro rfl
    exact ⟨rfl, rfl⟩
  · rintro ⟨h_index, h_gen⟩
    have h_gen := congrArg BitVec.toNat h_gen
    rw [index_eq, index_eq] at h_index
    rw [generation_toNat, generation_toNat] at h_gen
    cases h with | mk a =>
    cases k with | mk b =>
    have h_raw : a.toNat = b.toNat := by
      simp only at h_index h_gen
      omega
    rw [BitVec.eq_of_toNat_eq h_raw]

theorem pack_toNat (gen : BitVec 32) {idx : Nat} (h_idx : idx < 2 ^ 32) :
    (pack gen idx).raw.toNat = gen.toNat * 2 ^ 32 + idx := by
  have h_gen := gen.isLt
  have h_high : (gen.setWidth 64 <<< 32).toNat = gen.toNat <<< 32 := by
    simp only [BitVec.toNat_shiftLeft, BitVec.toNat_setWidth, Nat.shiftLeft_eq]
    omega
  have h_low : (BitVec.ofNat 64 idx).toNat = idx := by
    simp only [BitVec.toNat_ofNat]
    omega
  rw [pack, BitVec.toNat_or, h_high, h_low, ← Nat.shiftLeft_add_eq_or_of_lt h_idx,
    Nat.shiftLeft_eq]

/-- The lower half of a packed handle is the slot index, when it fits. -/
theorem pack_index (gen : BitVec 32) {idx : Nat} (h_idx : idx < 2 ^ 32) :
    (pack gen idx).index = idx := by
  rw [index_eq, pack_toNat gen h_idx]
  omega

/-- The upper half of a packed handle is the generation, when the index fits. -/
theorem pack_generation (gen : BitVec 32) {idx : Nat} (h_idx : idx < 2 ^ 32) :
    (pack gen idx).generation = gen := by
  apply BitVec.eq_of_toNat_eq
  rw [generation_toNat, pack_toNat gen h_idx]
  omega

end Handle

-- ============================================================================
-- The table
-- ============================================================================

/-- `HandleError`. -/
inductive HandleError where
  | invalidHandle
  | accessDenied
  | tableFull
  deriving DecidableEq, Repr

/-- `HandleEntry`: the reference to the object and the rights on it. -/
structure HandleEntry (Obj : Type*) where
  koRef : Obj
  rights : Rights
  deriving DecidableEq, Repr

/-- `Slot`. -/
structure Slot (Obj : Type*) where
  generation : BitVec 32
  entry : Option (HandleEntry Obj)
  /-- The next free slot, or `none` at the tail of the free list. -/
  nextFree : Option Nat
  deriving DecidableEq, Repr

/-- `HandleTableInner`. -/
structure HandleTable (Obj : Type*) where
  slots : List (Option (Slot Obj))
  freeHead : Option Nat
  count : Nat
  deriving DecidableEq, Repr

/-- The ways an operation can panic. -/
inductive Panic where
  | indexOutOfBounds
  | unwrapNone
  | subtractOverflow
  deriving DecidableEq, Repr

namespace HandleTable

variable {Obj : Type*}

/-- `HandleTable::new`. -/
def new (capacity : Nat) : HandleTable Obj where
  slots := (List.range capacity).map fun i =>
    some { generation := 0, entry := none
           nextFree := if i + 1 < capacity then some (i + 1) else none }
  freeHead := some 0
  count := 0

/-- `slots.get(idx).and_then(|s| s.as_ref())`. -/
def slotAt (t : HandleTable Obj) (idx : Nat) : Option (Slot Obj) := t.slots[idx]?.join

/-- `slots[idx].as_mut().unwrap()`. -/
def slotMut (t : HandleTable Obj) (idx : Nat) : Except Panic (Slot Obj) :=
  match t.slots[idx]? with
  | none => .error .indexOutOfBounds
  | some none => .error .unwrapNone
  | some (some slot) => .ok slot

/-- The table with slot `idx` written through the reference of `slotMut`. -/
def setSlot (t : HandleTable Obj) (idx : Nat) (slot : Slot Obj) : HandleTable Obj :=
  { t with slots := t.slots.set idx (some slot) }

/-- The slot a handle names, if its generation is the handle's: the two tests
    `get`, `duplicate`, `close` and `transfer` start with. -/
def slotOf (t : HandleTable Obj) (handle : Handle) : Option (Slot Obj) :=
  match t.slotAt handle.index with
  | some slot => if slot.generation = handle.generation then some slot else none
  | none => none

/-- The entry a handle resolves to. -/
def entryOf (t : HandleTable Obj) (handle : Handle) : Option (HandleEntry Obj) :=
  (t.slotOf handle).bind Slot.entry

/-- `HandleTable::get`. -/
def get (t : HandleTable Obj) (handle : Handle) : Option (Obj × Rights) :=
  match t.entryOf handle with
  | some entry => some (entry.koRef, entry.rights)
  | none => none

/-- Store `entry` in the free slot `idx` at the head of the free list: the
    block shared by `create`, `duplicate` and the destination of `transfer`. -/
def allocate (t : HandleTable Obj) (idx : Nat) (entry : HandleEntry Obj) :
    Except Panic (Handle × HandleTable Obj) := do
  let slot ← t.slotMut idx
  let t := { t with freeHead := slot.nextFree }.setSlot idx { slot with nextFree := none }
  let slot ← t.slotMut idx
  let t := t.setSlot idx { slot with entry := some entry }
  return (Handle.pack slot.generation idx, { t with count := t.count + 1 })

/-- Empty the occupied slot `idx`, bump its generation and link it into the
    head of the free list: the block shared by `close` and the source of
    `transfer`. -/
def release (t : HandleTable Obj) (idx : Nat) (slot : Slot Obj) :
    Except Panic (HandleTable Obj) :=
  if t.count = 0 then .error .subtractOverflow
  else
    let t := { t with count := t.count - 1 }
    let t := t.setSlot idx
      { generation := slot.generation + 1#32, entry := none, nextFree := t.freeHead }
    .ok { t with freeHead := some idx }

/-- `HandleTable::create`. -/
def create (t : HandleTable Obj) (koRef : Obj) (rights : Rights) :
    Except Panic (Except HandleError Handle × HandleTable Obj) :=
  match t.freeHead with
  | none => .ok (.error .tableFull, t)
  | some idx => do
      let (handle, t) ← t.allocate idx ⟨koRef, rights⟩
      return (.ok handle, t)

/-- `HandleTable::duplicate`. -/
def duplicate (t : HandleTable Obj) (handle : Handle) (newRights : Rights) :
    Except Panic (Except HandleError Handle × HandleTable Obj) :=
  match t.entryOf handle with
  | none => .ok (.error .invalidHandle, t)
  | some entry =>
      if entry.rights.contains Rights.duplicate then
        match t.freeHead with
        | none => .ok (.error .tableFull, t)
        | some newIdx => do
            let (handle, t) ← t.allocate newIdx ⟨entry.koRef, entry.rights.downgrade newRights⟩
            return (.ok handle, t)
      else .ok (.error .accessDenied, t)

/-- `HandleTable::close`.  A handle of the current generation of a free slot is
    answered with `Ok` although nothing is closed. -/
def close (t : HandleTable Obj) (handle : Handle) :
    Except Panic (Except HandleError Unit × HandleTable Obj) :=
  match t.slotOf handle with
  | none => .ok (.error .invalidHandle, t)
  | some slot =>
      match slot.entry with
      | none => .ok (.ok (), t)
      | some _ => do
          let t ← t.release handle.index slot
          return (.ok (), t)

/-- The body of `HandleTable::transfer` once both tables are locked: the entry
    is looked up in, and moved out of, the table locked first. -/
def moveEntry (first second : HandleTable Obj) (handle : Handle) :
    Except Panic (Except HandleError Handle × HandleTable Obj × HandleTable Obj) :=
  match first.entryOf handle with
  | none => .ok (.error .invalidHandle, first, second)
  | some entry =>
      if entry.rights.contains Rights.transfer then
        match second.freeHead with
        | none => .ok (.error .tableFull, first, second)
        | some destIdx => do
            let (dest, second) ← second.allocate destIdx entry
            let slot ← first.slotMut handle.index
            let first ← first.release handle.index slot
            return (.ok dest, first, second)
      else .ok (.error .accessDenied, first, second)

/-- `HandleTable::transfer` of two distinct tables, with the addresses of the
    two: the table with the lower address is locked first.  The answer comes
    with the new contents of `self` and of `dest`. -/
def transfer {Addr : Type*} [LT Addr] [DecidableLT Addr] (selfAddr destAddr : Addr)
    (self dest : HandleTable Obj) (handle : Handle) :
    Except Panic (Except HandleError Handle × HandleTable Obj × HandleTable Obj) :=
  if selfAddr < destAddr then do
    let (answer, self, dest) ← moveEntry self dest handle
    return (answer, self, dest)
  else do
    let (answer, dest, self) ← moveEntry dest self handle
    return (answer, self, dest)

end HandleTable
end Zydon
