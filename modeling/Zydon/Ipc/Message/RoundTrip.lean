/-
  Zydon.Ipc.Message.RoundTrip

  What a message decodes to is what it was encoded from, for both constructors.

  The arrays are only read up to the lengths in the header, so that all there is
  to know of an array is what it starts with.
-/

import Zydon.Ipc.Message.Basic

namespace Zydon

open Lib

-- ============================================================================
-- Arrays
-- ============================================================================

section Arrays

variable {T : Type*} {N : Nat} {array : Vector T N} {src : List T} {n : Nat}

/-- Element `i` of an array a slice has been copied into. -/
theorem copyFromSlice_eq (array : Vector T N) (start : Nat) (h_fits : start + src.length ≤ N) :
    ∃ v, copyFromSlice array start src = .ok v ∧
      v.toList = array.toList.take start ++ (src ++ array.toList.drop (start + src.length)) := by
  refine ⟨_, if_pos h_fits, ?_⟩
  apply List.ext_getElem
  · simp only [Vector.length_toList, List.length_append, List.length_take, List.length_drop]
    omega
  · intro i h_i h_i'
    have h_len : i < N := by rwa [Vector.length_toList] at h_i
    have h_take : (array.toList.take start).length = start := by
      rw [List.length_take, Vector.length_toList]
      omega
    rw [Vector.getElem_toList, Vector.getElem_ofFn]
    by_cases h_before : i < start
    · rw [if_neg (Nat.not_le.mpr h_before), List.getElem_append_left (by omega),
        List.getElem_take, Vector.getElem_toList]
      rfl
    · rw [if_pos (Nat.le_of_not_lt h_before), List.getElem_append_right (by omega)]
      show (src[i - start]?).getD array[i] = _
      by_cases h_inside : i - start < src.length
      · rw [List.getElem?_eq_getElem h_inside, Option.getD_some,
          List.getElem_append_left (by omega)]
        simp only [h_take]
      · rw [List.getElem?_eq_none (by omega), Option.getD_none,
          List.getElem_append_right (by rw [h_take]; omega), List.getElem_drop,
          Vector.getElem_toList]
        simp only [h_take]
        congr 1
        omega

/-- A slice copied to the start of an array is what the array starts with. -/
theorem copyFromSlice_zero (array : Vector T N) (h_fits : src.length ≤ N) :
    ∃ v, copyFromSlice array 0 src = .ok v ∧ src <+: v.toList := by
  obtain ⟨v, h_copy, h_list⟩ :=
    copyFromSlice_eq array 0 (Nat.zero_add src.length ▸ h_fits)
  refine ⟨v, h_copy, array.toList.drop (0 + src.length), ?_⟩
  rw [h_list, List.take_zero, List.nil_append]

theorem slicePrefix_eq_take (h_le : n ≤ N) : slicePrefix array n = .ok (array.toList.take n) :=
  if_pos h_le

theorem slicePrefix_of_start (h_start : src <+: array.toList) (h_len : n = src.length) :
    slicePrefix array n = .ok src := by
  have h_le := h_start.length_le
  rw [Vector.length_toList] at h_le
  rw [slicePrefix_eq_take (h_len ▸ h_le), h_len, ← List.prefix_iff_eq_take.mp h_start]

end Arrays

-- ============================================================================
-- Words
-- ============================================================================

namespace VmoReference

@[simp] theorem length_toBytes (r : VmoReference) : r.toBytes.length = sizeOf := by
  simp [toBytes, sizeOf]

theorem wordAt_append (before after : List (BitVec 8)) (x : BitVec 64) :
    wordAt (before ++ (LittleEndian.toBytes 8 x.toNat ++ after)) before.length = x := by
  have h_len := LittleEndian.length_toBytes 8 x.toNat
  rw [wordAt, List.drop_left, List.take_append_of_le_length h_len.ge,
    List.take_of_length_le h_len.le]
  exact LittleEndian.ofNat_ofBytes_toBytes (by decide) x

/-- A reference is read back from its memory, whatever follows it. -/
theorem ofBytes_of_start (r : VmoReference) {bytes : List (BitVec 8)}
    (h_start : r.toBytes <+: bytes) : ofBytes bytes = r := by
  obtain ⟨rest, rfl⟩ := h_start
  have h_handle : wordAt (r.toBytes ++ rest) 0 = r.handle := by
    rw [toBytes, List.append_assoc, List.append_assoc]
    exact wordAt_append [] _ r.handle
  have h_offset : wordAt (r.toBytes ++ rest) 8 = r.offset := by
    rw [toBytes, List.append_assoc, List.append_assoc]
    exact wordAt_append (LittleEndian.toBytes 8 r.handle.toNat) _ r.offset
  have h_size : wordAt (r.toBytes ++ rest) 16 = r.size := by
    rw [toBytes, List.append_assoc]
    exact wordAt_append (LittleEndian.toBytes 8 r.handle.toNat ++
      LittleEndian.toBytes 8 r.offset.toNat) rest r.size
  rw [ofBytes, h_handle, h_offset, h_size]

end VmoReference

-- ============================================================================
-- Taking the handles
-- ============================================================================

namespace Message

/-- The loop of `take_handles` after `n` rounds has taken the first `n` handles. -/
theorem foldlM_takeHandle (harray : Vector Handle maxHandles) {n : Nat} (h_n : n ≤ maxHandles) :
    ∃ result rest, (List.range n).foldlM takeHandle (InlineVec.new, harray) = .ok (result, rest) ∧
      result.items = harray.toList.take n ∧ rest.toList.drop n = harray.toList.drop n := by
  induction n with
  | zero => exact ⟨InlineVec.new, harray, rfl, rfl, rfl⟩
  | succ n ih =>
      obtain ⟨result, rest, h_loop, h_items, h_rest⟩ := ih (Nat.le_of_succ_le h_n)
      have h_len : result.items.length = n := by
        rw [h_items, List.length_take, Vector.length_toList]
        omega
      -- what is left of the array is untouched, so that the next handle is the original one
      have h_lt : n < maxHandles := h_n
      have h_get : rest.get ⟨n, h_lt⟩ = harray.get ⟨n, h_lt⟩ := by
        have h_head := congrArg (·[0]?) h_rest
        simpa [List.getElem?_drop, Vector.getElem?_eq_getElem h_lt, Vector.get] using h_head
      have h_push : result.push (rest.get ⟨n, h_lt⟩) =
          .ok ⟨result.items ++ [harray.get ⟨n, h_lt⟩], by simp; omega⟩ := by
        rw [h_get]
        exact dif_neg (by omega)
      refine ⟨⟨result.items ++ [harray.get ⟨n, h_lt⟩], by simp; omega⟩,
        rest.set n Handle.invalid h_lt, ?_, ?_, ?_⟩
      · rw [List.range_succ, List.foldlM_append, h_loop]
        simp only [bind, Except.bind, List.foldlM_cons, List.foldlM_nil, takeHandle, h_lt,
          dite_true, h_push]
        rfl
      · show result.items ++ [harray.get ⟨n, h_lt⟩] = harray.toList.take (n + 1)
        rw [h_items, List.take_add_one]
        simp [Vector.get, h_lt]
      · have h_tail := congrArg (List.drop 1) h_rest
        rw [Vector.toList_set, List.drop_set_of_lt (Nat.lt_succ_self n)]
        simpa [List.drop_drop] using h_tail

/-- What the receiver of a message that carries `hs` gets: all of them, once,
    and the payload as before. -/
def HandsOver (m : Message) (hs : List Handle) : Prop :=
  ∃ result m', m.takeHandles = .ok (result, m') ∧ result.items = hs ∧
    m'.handles = .ok [] ∧ m'.payload = m.payload ∧
    ∃ result' m'', m'.takeHandles = .ok (result', m'') ∧ result'.items = []

/-- `take_handles` takes what `handles` shows. -/
theorem handsOver_of_handles {m : Message} {hs : List Handle} (h : m.handles = .ok hs) :
    m.HandsOver hs := by
  have h_le : m.header.numHandles.toNat ≤ maxHandles := by
    by_contra h_not
    rw [handles, slicePrefix, if_neg h_not] at h
    exact absurd h (by simp)
  rw [handles, slicePrefix_eq_take h_le, Except.ok.injEq] at h
  obtain ⟨result, rest, h_loop, h_items, -⟩ := foldlM_takeHandle m.handleArray h_le
  refine ⟨result, { m with header := { m.header with numHandles := 0 }, handleArray := rest },
    ?_, h_items.trans h, ?_, rfl, InlineVec.new, _, rfl, rfl⟩
  · rw [takeHandles, h_loop]
    rfl
  · rw [handles, slicePrefix_eq_take (by simp)]
    rfl

-- ============================================================================
-- The constructors
-- ============================================================================

variable {sender : TaskId} {txId offset size : BitVec 64} {data : List (BitVec 8)}
  {hs : List Handle} {v : Handle} {m : Message}

/-- What an inline message is made of. -/
structure IsInline (m : Message) (data : List (BitVec 8)) (hs : List Handle) : Prop where
  flags : m.header.flags = flagInlinePayload
  payloadSize : m.header.payloadSize.toNat = data.length
  numHandles : m.header.numHandles.toNat = hs.length
  payload : data <+: m.payloadArray.toList
  handles : hs <+: m.handleArray.toList

/-- What a zero-copy message is made of. -/
structure IsZeroCopy (m : Message) (r : VmoReference) (hs : List Handle) : Prop where
  flags : m.header.flags = flagZeroCopyVmo
  payloadSize : m.header.payloadSize.toNat = VmoReference.sizeOf
  numHandles : m.header.numHandles.toNat = hs.length
  payload : r.toBytes <+: m.payloadArray.toList
  handles : hs <+: m.handleArray.toList

theorem newInline_ok (sender : TaskId) (txId : BitVec 64)
    (h_data : data.length ≤ maxInlinePayload) (h_hs : hs.length ≤ maxHandles) :
    ∃ m, newInline sender txId data hs = .ok (.ok m) ∧ m.IsInline data hs := by
  obtain ⟨payload, h_payload, h_data_start⟩ :=
    copyFromSlice_zero (Vector.replicate maxInlinePayload 0#8) h_data
  obtain ⟨harray, h_harray, h_hs_start⟩ :=
    copyFromSlice_zero (Vector.replicate maxHandles Handle.invalid) h_hs
  rw [newInline, if_neg (Nat.not_lt.mpr h_data), if_neg (Nat.not_lt.mpr h_hs), h_payload, h_harray]
  refine ⟨_, rfl, rfl, ?_, ?_, h_data_start, h_hs_start⟩
  · show (BitVec.ofNat 32 data.length).toNat = data.length
    rw [maxInlinePayload] at h_data
    rw [BitVec.toNat_ofNat]
    omega
  · show (BitVec.ofNat 16 hs.length).toNat = hs.length
    rw [maxHandles] at h_hs
    rw [BitVec.toNat_ofNat]
    omega

/-- The handles of a zero-copy message start with the one of the VMO. -/
theorem zeroCopyHandles_ok (v : Handle) (h_hs : hs.length + 1 ≤ maxHandles) :
    ∃ harray, zeroCopyHandles v hs = .ok harray ∧ (v :: hs) <+: harray.toList := by
  have h_first : [v] <+: ((Vector.replicate maxHandles Handle.invalid).set 0 v).toList :=
    ⟨List.replicate 15 Handle.invalid, rfl⟩
  cases hs with
  | nil => exact ⟨_, rfl, h_first⟩
  | cons h hs =>
      obtain ⟨harray, h_copy, h_list⟩ := copyFromSlice_eq
        ((Vector.replicate maxHandles Handle.invalid).set 0 v) 1
        (Nat.add_comm 1 (h :: hs).length ▸ h_hs)
      refine ⟨harray, h_copy, ?_⟩
      rw [h_list]
      exact ⟨_, rfl⟩

theorem newZeroCopy_ok (sender : TaskId) (txId : BitVec 64) (v : Handle) (offset size : BitVec 64)
    (h_hs : hs.length + 1 ≤ maxHandles) :
    ∃ m, newZeroCopy sender txId v offset size hs = .ok (.ok m) ∧
      m.IsZeroCopy ⟨v.raw, offset, size⟩ (v :: hs) := by
  have h_len := VmoReference.length_toBytes ⟨v.raw, offset, size⟩
  obtain ⟨payload, h_payload, h_start⟩ := copyFromSlice_zero
    (Vector.replicate maxInlinePayload 0#8) (h_len.trans_le (by decide))
  obtain ⟨harray, h_harray, h_hs_start⟩ := zeroCopyHandles_ok v h_hs
  rw [newZeroCopy, if_neg (Nat.not_lt.mpr h_hs)]
  simp only [h_payload, h_harray, bind, Except.bind]
  refine ⟨_, rfl, rfl, ?_, ?_, h_start, h_hs_start⟩
  · show (BitVec.ofNat 32 (VmoReference.toBytes _).length).toNat = VmoReference.sizeOf
    rw [h_len]
    rfl
  · show (BitVec.ofNat 16 (hs.length + 1)).toNat = hs.length + 1
    rw [maxHandles] at h_hs
    rw [BitVec.toNat_ofNat]
    omega

-- ============================================================================
-- The accessors
-- ============================================================================

theorem IsInline.decodes (h : m.IsInline data hs) :
    m.payload = .ok data ∧ m.handles = .ok hs ∧ m.vmoReference = none := by
  refine ⟨slicePrefix_of_start h.payload h.payloadSize,
    slicePrefix_of_start h.handles h.numHandles, ?_⟩
  have h_flag : m.isZeroCopy = false := by
    rw [isZeroCopy, h.flags]
    decide
  rw [vmoReference, h_flag]
  rfl

theorem IsZeroCopy.decodes {r : VmoReference} (h : m.IsZeroCopy r hs) :
    m.vmoReference = some r ∧ m.handles = .ok hs := by
  refine ⟨?_, slicePrefix_of_start h.handles h.numHandles⟩
  have h_flag : m.isZeroCopy = true := by
    rw [isZeroCopy, h.flags]
    decide
  rw [vmoReference, h_flag, h.payloadSize, r.ofBytes_of_start h.payload]
  rfl

/-- `new_inline` accepts what fits the arrays. -/
theorem newInline_isOk :
    (∃ m, newInline sender txId data hs = .ok (.ok m)) ↔
      data.length ≤ maxInlinePayload ∧ hs.length ≤ maxHandles := by
  constructor
  · rintro ⟨m, h_new⟩
    by_contra h_not
    rw [newInline] at h_new
    split at h_new
    · exact absurd h_new (by simp)
    · next h_data =>
        split at h_new
        · exact absurd h_new (by simp)
        · next h_hs => exact h_not ⟨Nat.le_of_not_lt h_data, Nat.le_of_not_lt h_hs⟩
  · rintro ⟨h_data, h_hs⟩
    obtain ⟨m, h_new, -⟩ := newInline_ok sender txId h_data h_hs
    exact ⟨m, h_new⟩

/-- `new_zero_copy` leaves room for the handle of the VMO. -/
theorem newZeroCopy_isOk :
    (∃ m, newZeroCopy sender txId v offset size hs = .ok (.ok m)) ↔
      hs.length + 1 ≤ maxHandles := by
  constructor
  · rintro ⟨m, h_new⟩
    by_contra h_not
    rw [newZeroCopy, if_pos (Nat.lt_of_not_le h_not)] at h_new
    exact absurd h_new (by simp)
  · intro h_hs
    obtain ⟨m, h_new, -⟩ := newZeroCopy_ok sender txId v offset size h_hs
    exact ⟨m, h_new⟩

/-- A message decodes to what it was encoded from, and hands its handles over
    once. -/
theorem decode_encode :
    (∀ (sender : TaskId) (txId : BitVec 64) (data : List (BitVec 8)) (hs : List Handle),
      ((∃ m, newInline sender txId data hs = .ok (.ok m)) ↔
        data.length ≤ 256 ∧ hs.length ≤ 16) ∧
      ∀ m, newInline sender txId data hs = .ok (.ok m) →
        m.payload = .ok data ∧ m.handles = .ok hs ∧ m.vmoReference = none ∧ m.HandsOver hs) ∧
    (∀ (sender : TaskId) (txId : BitVec 64) (v : Handle) (offset size : BitVec 64)
        (hs : List Handle),
      ((∃ m, newZeroCopy sender txId v offset size hs = .ok (.ok m)) ↔ hs.length ≤ 15) ∧
      ∀ m, newZeroCopy sender txId v offset size hs = .ok (.ok m) →
        m.vmoReference = some ⟨v.raw, offset, size⟩ ∧ m.handles = .ok (v :: hs) ∧
          m.HandsOver (v :: hs)) := by
  constructor
  · intro sender txId data hs
    refine ⟨newInline_isOk, fun m h_new => ?_⟩
    obtain ⟨h_data, h_hs⟩ := newInline_isOk.mp ⟨m, h_new⟩
    obtain ⟨m', h_new', h_inline⟩ := newInline_ok sender txId h_data h_hs
    rw [h_new'] at h_new
    obtain rfl : m' = m := by simpa using h_new
    obtain ⟨h_payload, h_handles, h_vmo⟩ := h_inline.decodes
    exact ⟨h_payload, h_handles, h_vmo, handsOver_of_handles h_handles⟩
  · intro sender txId v offset size hs
    refine ⟨newZeroCopy_isOk.trans Nat.succ_le_succ_iff, fun m h_new => ?_⟩
    obtain ⟨m', h_new', h_zero⟩ := newZeroCopy_ok sender txId v offset size
      (newZeroCopy_isOk.mp ⟨m, h_new⟩)
    rw [h_new'] at h_new
    obtain rfl : m' = m := by simpa using h_new
    obtain ⟨h_vmo, h_handles⟩ := h_zero.decodes
    exact ⟨h_vmo, h_handles, handsOver_of_handles h_handles⟩

/-- A message with two bytes and one handle, and one with a region of a VMO and one
    handle. -/
theorem decode_encode_bytesAndRegion :
    (∃ m, newInline ⟨3⟩ 7 [1, 2] [⟨5⟩] = .ok (.ok m) ∧ m.payload = .ok [1, 2] ∧
      m.vmoReference = none ∧ m.HandsOver [⟨5⟩]) ∧
    ∃ m, newZeroCopy ⟨3⟩ 8 ⟨9⟩ 4096 512 [⟨5⟩] = .ok (.ok m) ∧
      m.vmoReference = some ⟨9, 4096, 512⟩ ∧ m.HandsOver [⟨9⟩, ⟨5⟩] := by
  have h_inline := decode_encode.1 ⟨3⟩ 7 [1, 2] [⟨5⟩]
  obtain ⟨m, h_new⟩ := h_inline.1.mpr ⟨by decide, by decide⟩
  obtain ⟨h_payload, -, h_none, h_handles⟩ := h_inline.2 m h_new
  have h_zero := decode_encode.2 ⟨3⟩ 8 ⟨9⟩ 4096 512 [⟨5⟩]
  obtain ⟨m', h_new'⟩ := h_zero.1.mpr (by decide)
  obtain ⟨h_vmo, -, h_handles'⟩ := h_zero.2 m' h_new'
  exact ⟨⟨m, h_new, h_payload, h_none, h_handles⟩, m', h_new', h_vmo, h_handles'⟩

end Message
end Zydon
