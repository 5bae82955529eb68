/-
  Zydon.Ipc.Message.Basic

  The messages of `ipc/message.rs`: a fixed header, an inline payload and an
  array of handles, with the two constructors and the accessors.

  The arrays have their length in the type; a slice that reaches beyond an array
  panics.  A `VmoReference` is laid out as its three words, little-endian.
-/

import Zydon.Lib.LittleEndian
import Zydon.Object.HandleTable.Basic

namespace Zydon

-- ============================================================================
-- Arrays
-- ============================================================================

/-- `heapless::Vec`: at most `N` values. -/
structure InlineVec (T : Type*) (N : Nat) where
  items : List T
  bound : items.length ≤ N

namespace InlineVec

variable {T : Type*} {N : Nat}

/-- `heapless::Vec::new`. -/
def new : InlineVec T N := ⟨[], Nat.zero_le N⟩

/-- `heapless::Vec::push`: a full vector gives the value back. -/
def push (v : InlineVec T N) (val : T) : Except T (InlineVec T N) :=
  if h : v.items.length ≥ N then .error val
  else .ok ⟨v.items ++ [val], by rw [List.length_append, List.length_singleton]; omega⟩

end InlineVec

/-- `array[start..start + src.len()].copy_from_slice(src)`. -/
def copyFromSlice {T : Type*} {N : Nat} (array : Vector T N) (start : Nat) (src : List T) :
    Except Panic (Vector T N) :=
  if start + src.length ≤ N then
    .ok (Vector.ofFn fun i =>
      if start ≤ i then (src[i.val - start]?).getD array[i] else array[i])
  else .error .indexOutOfBounds

/-- `&array[..n]`. -/
def slicePrefix {T : Type*} {N : Nat} (array : Vector T N) (n : Nat) : Except Panic (List T) :=
  if n ≤ N then .ok (array.toList.take n) else .error .indexOutOfBounds

-- ============================================================================
-- Messages
-- ============================================================================

/-- `Handle::INVALID`. -/
def Handle.invalid : Handle := ⟨BitVec.allOnes 64⟩

/-- `TaskId`. -/
structure TaskId where
  raw : BitVec 64
  deriving DecidableEq, Repr

/-- `MessageHeader`. -/
structure MessageHeader where
  sender : TaskId
  txId : BitVec 64
  payloadSize : BitVec 32
  numHandles : BitVec 16
  flags : BitVec 16
  deriving DecidableEq

/-- `VmoReference`. -/
structure VmoReference where
  handle : BitVec 64
  offset : BitVec 64
  size : BitVec 64
  deriving DecidableEq

/-- `MessageError`. -/
inductive MessageError where
  | payloadTooLarge
  | tooManyHandles
  deriving DecidableEq, Repr

namespace VmoReference

open Lib

/-- `size_of::<VmoReference>()`. -/
def sizeOf : Nat := 24

/-- The memory of a `VmoReference`. -/
def toBytes (r : VmoReference) : List (BitVec 8) :=
  LittleEndian.toBytes 8 r.handle.toNat ++ LittleEndian.toBytes 8 r.offset.toNat
    ++ LittleEndian.toBytes 8 r.size.toNat

/-- The word at an offset. -/
def wordAt (bytes : List (BitVec 8)) (start : Nat) : BitVec 64 :=
  BitVec.ofNat 64 (LittleEndian.ofBytes ((bytes.drop start).take 8))

/-- `ptr::read` of a `VmoReference`. -/
def ofBytes (bytes : List (BitVec 8)) : VmoReference where
  handle := wordAt bytes 0
  offset := wordAt bytes 8
  size := wordAt bytes 16

end VmoReference

namespace Message

/-- `MAX_INLINE_PAYLOAD`. -/
def maxInlinePayload : Nat := 256

/-- `MAX_HANDLES`. -/
def maxHandles : Nat := 16

/-- `flags::INLINE_PAYLOAD`. -/
def flagInlinePayload : BitVec 16 := 1 <<< 0

/-- `flags::ZERO_COPY_VMO`. -/
def flagZeroCopyVmo : BitVec 16 := 1 <<< 1

end Message

/-- `Message`. -/
structure Message where
  header : MessageHeader
  payloadArray : Vector (BitVec 8) Message.maxInlinePayload
  handleArray : Vector Handle Message.maxHandles
  deriving DecidableEq

namespace Message

/-- `new_inline`. -/
def newInline (sender : TaskId) (txId : BitVec 64) (data : List (BitVec 8))
    (handles : List Handle) : Except Panic (Except MessageError Message) :=
  if data.length > maxInlinePayload then .ok (.error .payloadTooLarge)
  else if handles.length > maxHandles then .ok (.error .tooManyHandles)
  else do
    let payload ← copyFromSlice (Vector.replicate maxInlinePayload 0#8) 0 data
    let harray ← copyFromSlice (Vector.replicate maxHandles Handle.invalid) 0 handles
    return .ok
      { header :=
          { sender := sender
            txId := txId
            payloadSize := BitVec.ofNat 32 data.length
            numHandles := BitVec.ofNat 16 handles.length
            flags := flagInlinePayload }
        payloadArray := payload
        handleArray := harray }

/-- The handle array of `new_zero_copy`: the handle of the VMO comes first. -/
def zeroCopyHandles (vmoHandle : Handle) (handles : List Handle) :
    Except Panic (Vector Handle maxHandles) :=
  let harray := (Vector.replicate maxHandles Handle.invalid).set 0 vmoHandle
  if handles.isEmpty then .ok harray else copyFromSlice harray 1 handles

/-- `new_zero_copy`. -/
def newZeroCopy (sender : TaskId) (txId : BitVec 64) (vmoHandle : Handle)
    (vmoOffset vmoSize : BitVec 64) (handles : List Handle) :
    Except Panic (Except MessageError Message) :=
  if handles.length + 1 > maxHandles then .ok (.error .tooManyHandles)
  else do
    let vmoRef : VmoReference :=
      { handle := vmoHandle.raw, offset := vmoOffset, size := vmoSize }
    let bytes := vmoRef.toBytes
    let payload ← copyFromSlice (Vector.replicate maxInlinePayload 0#8) 0 bytes
    let harray ← zeroCopyHandles vmoHandle handles
    return .ok
      { header :=
          { sender := sender
            txId := txId
            payloadSize := BitVec.ofNat 32 bytes.length
            numHandles := BitVec.ofNat 16 (handles.length + 1)
            flags := flagZeroCopyVmo }
        payloadArray := payload
        handleArray := harray }

/-- `payload`. -/
def payload (m : Message) : Except Panic (List (BitVec 8)) :=
  slicePrefix m.payloadArray m.header.payloadSize.toNat

/-- `handles`. -/
def handles (m : Message) : Except Panic (List Handle) :=
  slicePrefix m.handleArray m.header.numHandles.toNat

/-- One round of the loop of `take_handles`. -/
def takeHandle (state : InlineVec Handle maxHandles × Vector Handle maxHandles) (i : Nat) :
    Except Panic (InlineVec Handle maxHandles × Vector Handle maxHandles) :=
  if h : i < maxHandles then
    let result :=
      match state.1.push (state.2.get ⟨i, h⟩) with
      | .ok result => result
      -- the value that does not fit is dropped
      | .error _ => state.1
    .ok (result, state.2.set i Handle.invalid h)
  else .error .indexOutOfBounds

/-- `take_handles`. -/
def takeHandles (m : Message) : Except Panic (InlineVec Handle maxHandles × Message) := do
  let (result, harray) ←
    (List.range m.header.numHandles.toNat).foldlM takeHandle (InlineVec.new, m.handleArray)
  return (result,
    { m with header := { m.header with numHandles := 0 }, handleArray := harray })

/-- `is_zero_copy`. -/
def isZeroCopy (m : Message) : Bool := m.header.flags &&& flagZeroCopyVmo != 0

/-- `vmo_reference`. -/
def vmoReference (m : Message) : Option VmoReference :=
  if !m.isZeroCopy then none
  else if VmoReference.sizeOf > m.header.payloadSize.toNat then none
  else some (VmoReference.ofBytes m.payloadArray.toList)

end Message
end Zydon
