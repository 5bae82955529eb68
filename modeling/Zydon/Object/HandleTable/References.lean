/-
  Zydon.Object.HandleTable.References

  The references that the operations on handle tables take and release.

  A `KoRef` counts: it takes a reference when it is made or cloned, and releases
  it when it is dropped, wherever the source drops it: as the argument of a
  `create` that fails, as the clone of a `transfer` that fails, as the entry that
  is taken out of a slot or overwritten in one.  `performRefs` is a call with its
  references; `Kernel.Sound.performRefs` says that it does to the tables what
  `perform` does.
-/

import Zydon.Object.HandleTable.Family
import Zydon.Object.KernelObject

namespace Zydon
namespace HandleTable

open Lib

-- ============================================================================
-- Objects, tables and references
-- ============================================================================

/-- A call of `on_destroy`: of which object, the count that `release` has left,
    and the tables at that moment. -/
structure Destroy (Addr Obj : Type) where
  object : Obj
  refcount : BitVec 32
  tables : Tables Addr Obj

/-- The kernel objects and the tables with the references to them. -/
structure Kernel (Addr Obj : Type) where
  tables : Tables Addr Obj
  header : Obj → ObjectHeader
  /-- How many `KoRef`s to an object the callers hold. -/
  held : Obj → Nat
  /-- The creator of the object has not released its initial reference yet. -/
  initial : Obj → Bool
  /-- The calls of `on_destroy` so far. -/
  destroyed : List (Destroy Addr Obj)

variable {Addr Obj : Type} [LinearOrder Addr] [DecidableEq Obj]

namespace Kernel

/-- The table at `a` is replaced by `t`. -/
def setTable (k : Kernel Addr Obj) (a : Addr) (t : HandleTable Obj) : Kernel Addr Obj :=
  { k with tables := Function.update k.tables a t }

/-- `KoRef::new` and `KoRef::clone`: a reference is taken. -/
def koRefClone (k : Kernel Addr Obj) (o : Obj) : Kernel Addr Obj :=
  { k with header := Function.update k.header o (k.header o).addRef }

/-- `KoRef::drop`: a reference is released, and the object destroyed with the
    last one. -/
def koRefDrop (k : Kernel Addr Obj) (o : Obj) : Kernel Addr Obj :=
  let (old, header) := (k.header o).release
  let k := { k with header := Function.update k.header o header }
  if old = 1#32 then
    { k with destroyed := k.destroyed ++ [⟨o, header.refcount, k.tables⟩] }
  else k

/-- A caller gets a `KoRef`. -/
def receive (k : Kernel Addr Obj) (o : Obj) : Kernel Addr Obj :=
  { k with held := Function.update k.held o (k.held o + 1) }

/-- A caller gives a `KoRef` away. -/
def give (k : Kernel Addr Obj) (o : Obj) : Kernel Addr Obj :=
  { k with held := Function.update k.held o (k.held o - 1) }

/-- An entry that goes out of scope. -/
def dropEntry (k : Kernel Addr Obj) : Option (HandleEntry Obj) → Kernel Addr Obj
  | some entry => k.koRefDrop entry.koRef
  | none => k

-- ============================================================================
-- The operations
-- ============================================================================

/-- Store `entry` in slot `idx` of table `a`, dropping what it held. -/
def store (k : Kernel Addr Obj) (a : Addr) (idx : Nat) (entry : HandleEntry Obj) :
    Except Panic (Handle × Kernel Addr Obj) := do
  let slot ← (k.tables a).slotMut idx
  let (handle, t) ← (k.tables a).allocate idx entry
  return (handle, (k.setTable a t).dropEntry slot.entry)

/-- Take the entry out of slot `idx` of table `a`, drop it, and free the slot. -/
def vacateSlot (k : Kernel Addr Obj) (a : Addr) (idx : Nat) (slot : Slot Obj) :
    Except Panic (Kernel Addr Obj) := do
  let k := k.setTable a ((k.tables a).setSlot idx { slot with entry := none })
  let k := k.dropEntry slot.entry
  let t ← (k.tables a).release idx slot
  return k.setTable a t

/-- `HandleTable::create`, which owns its argument `koRef`. -/
def create (k : Kernel Addr Obj) (a : Addr) (koRef : Obj) (rights : Rights) :
    Except Panic (Except HandleError Handle × Kernel Addr Obj) :=
  match (k.tables a).freeHead with
  | none => .ok (.error .tableFull, k.koRefDrop koRef)
  | some idx => do
      let (handle, k) ← k.store a idx ⟨koRef, rights⟩
      return (.ok handle, k)

/-- `HandleTable::get`. -/
def get (k : Kernel Addr Obj) (a : Addr) (handle : Handle) :
    Option (Obj × Rights) × Kernel Addr Obj :=
  match (k.tables a).entryOf handle with
  | some entry => (some (entry.koRef, entry.rights), k.koRefClone entry.koRef)
  | none => (none, k)

/-- `HandleTable::duplicate`. -/
def duplicate (k : Kernel Addr Obj) (a : Addr) (handle : Handle) (newRights : Rights) :
    Except Panic (Except HandleError Handle × Kernel Addr Obj) :=
  match (k.tables a).entryOf handle with
  | none => .ok (.error .invalidHandle, k)
  | some entry =>
      if entry.rights.contains Rights.duplicate then
        match (k.tables a).freeHead with
        | none => .ok (.error .tableFull, k)
        | some newIdx => do
            let (handle, k) ← (k.koRefClone entry.koRef).store a newIdx
              ⟨entry.koRef, entry.rights.downgrade newRights⟩
            return (.ok handle, k)
      else .ok (.error .accessDenied, k)

/-- `HandleTable::close`. -/
def close (k : Kernel Addr Obj) (a : Addr) (handle : Handle) :
    Except Panic (Except HandleError Unit × Kernel Addr Obj) :=
  match (k.tables a).slotOf handle with
  | none => .ok (.error .invalidHandle, k)
  | some slot =>
      match slot.entry with
      | none => .ok (.ok (), k)
      | some _ => do
          let k ← k.vacateSlot a handle.index slot
          return (.ok (), k)

/-- The body of `HandleTable::transfer` once both tables are locked.  The clone
    is made before a slot is looked for, and dropped if there is none. -/
def moveEntry (k : Kernel Addr Obj) (first second : Addr) (handle : Handle) :
    Except Panic (Except HandleError Handle × Kernel Addr Obj) :=
  match (k.tables first).entryOf handle with
  | none => .ok (.error .invalidHandle, k)
  | some entry =>
      if entry.rights.contains Rights.transfer then
        let k := k.koRefClone entry.koRef
        match (k.tables second).freeHead with
        | none => .ok (.error .tableFull, k.koRefDrop entry.koRef)
        | some destIdx => do
            let (dest, k) ← k.store second destIdx entry
            let slot ← (k.tables first).slotMut handle.index
            let k ← k.vacateSlot first handle.index slot
            return (.ok dest, k)
      else .ok (.error .accessDenied, k)

/-- Run one call, with the references it takes and releases.  The caller of
    `create` gives its `KoRef` away, the caller of `get` receives one. -/
def performRefs (k : Kernel Addr Obj) : Call Addr Obj →
    Except Panic (Answer Obj × Kernel Addr Obj)
  | .create a koRef rights => do
      let (result, k) ← (k.give koRef).create a koRef rights
      return (.handle result, k)
  | .get a handle =>
      match k.get a handle with
      | (some (o, rights), k) => .ok (.entry (some (o, rights)), k.receive o)
      | (none, k) => .ok (.entry none, k)
  | .duplicate a handle newRights => do
      let (result, k) ← k.duplicate a handle newRights
      return (.handle result, k)
  | .close a handle => do
      let (result, k) ← k.close a handle
      return (.closed result, k)
  | .transfer a handle b => do
      let (result, k) ← k.moveEntry (lockOrder a b).1 (lockOrder a b).2 handle
      return (.handle result, k)

end Kernel

-- ============================================================================
-- Runs
-- ============================================================================

/-- What can happen to the objects and the tables. -/
inductive RefAction (Addr Obj : Type) where
  /-- `KoRef::new` for a live object. -/
  | new (o : Obj)
  /-- `KoRef::clone` of a reference that a caller holds. -/
  | clone (o : Obj)
  /-- `KoRef::drop` of a reference that a caller holds. -/
  | drop (o : Obj)
  /-- The creator of the object releases its initial reference. -/
  | releaseInitial (o : Obj)
  | call (call : Call Addr Obj)

/-- The caller has what the call needs: `create` takes a `KoRef` from it. -/
def Kernel.canCall (k : Kernel Addr Obj) : Call Addr Obj → Bool
  | .create _ koRef _ => 0 < k.held koRef
  | _ => true

/-- One action. -/
def stepRefs (k : Kernel Addr Obj) : RefAction Addr Obj → Option (Kernel Addr Obj)
  | .new o => if (k.header o).refcount ≠ 0#32 then some ((k.koRefClone o).receive o) else none
  | .clone o => if 0 < k.held o then some ((k.koRefClone o).receive o) else none
  | .drop o => if 0 < k.held o then some ((k.give o).koRefDrop o) else none
  | .releaseInitial o =>
      if k.initial o then
        some { k with
          header := Function.update k.header o (k.header o).release.2
          initial := Function.update k.initial o false }
      else none
  | .call call =>
      if call.selfTransfer = false ∧ k.canCall call = true then
        match k.performRefs call with
        | .ok (_, k') => some k'
        | .error _ => none
      else none

/-- The objects just after their creation, and tables of the capacities
    `capacity`. -/
def kernel (capacity : Addr → Nat) : Machine (Kernel Addr Obj) (RefAction Addr Obj) where
  init :=
    { tables := fun a => HandleTable.new (capacity a)
      header := fun _ => .new
      held := fun _ => 0
      initial := fun _ => true
      destroyed := [] }
  step := stepRefs

end HandleTable
end Zydon
