/-
  Zydon.Object.HandleTable.Transfer

  `HandleTable::transfer` against its contract.

  The function orders the two tables by address before it locks them, and
  keeps the *ordered* names for the rest of its body: the handle is looked up
  in, and moved out of, the table with the lower address.  When that table is
  `dest`, source and destination have changed roles.

  `transfer_meets_iff` gives the exact inputs on which the contract is met
  nevertheless: `self` has the lower address, or the move is refused with the
  same error in both directions.
-/

import Zydon.Object.HandleTable.Invariant

namespace Zydon
namespace HandleTable

open Lib

variable {Obj : Type*}

-- ============================================================================
-- Resolving handles
-- ============================================================================

theorem slotOf_eq_some {t : HandleTable Obj} {handle : Handle} {slot : Slot Obj} :
    t.slotOf handle = some slot ↔
      t.slotAt handle.index = some slot ∧ slot.generation = handle.generation := by
  unfold slotOf
  split
  · next s hs =>
      rw [hs, Option.some.injEq]
      constructor
      · intro h
        split at h
        · next h_gen =>
            obtain rfl := Option.some.inj h
            exact ⟨rfl, h_gen⟩
        · exact absurd h (by simp)
      · rintro ⟨rfl, h_gen⟩
        rw [if_pos h_gen]
  · next h_none => simp [h_none]

theorem entryOf_eq_some {t : HandleTable Obj} {handle : Handle} {entry : HandleEntry Obj} :
    t.entryOf handle = some entry ↔
      ∃ slot, t.slotAt handle.index = some slot ∧ slot.generation = handle.generation ∧
        slot.entry = some entry := by
  simp only [entryOf, Option.bind_eq_some_iff, slotOf_eq_some, and_assoc]

theorem get_eq_map (t : HandleTable Obj) (handle : Handle) :
    t.get handle = (t.entryOf handle).map fun e => (e.koRef, e.rights) := by
  unfold get
  split <;> simp_all

/-- A filled slot adds its own handle and nothing else. -/
theorem entryOf_occupy {t : HandleTable Obj} {idx : Nat} {slot : Slot Obj}
    (h : t.slotAt idx = some slot) (h_idx : idx < 2 ^ 32)
    (entry : HandleEntry Obj) (k : Handle) :
    (t.occupy idx slot entry).entryOf k =
      if k = Handle.pack slot.generation idx then some entry else t.entryOf k := by
  have h_at := slotAt_occupy h entry
  by_cases hk : k.index = idx
  · -- a handle of the slot itself: it resolves now iff its generation is the slot's
    have h_iff : k = Handle.pack slot.generation idx ↔ slot.generation = k.generation := by
      rw [Handle.ext_iff, Handle.pack_index _ h_idx, Handle.pack_generation _ h_idx]
      exact ⟨fun h => h.2.symm, fun h => ⟨hk, h.symm⟩⟩
    simp only [entryOf, slotOf, h_at, hk, if_true, h, h_iff]
    split <;> simp
  · have h_ne : k ≠ Handle.pack slot.generation idx := by
      rintro rfl
      exact hk (Handle.pack_index _ h_idx)
    simp only [entryOf, slotOf, h_at, hk, if_false, h_ne]

/-- An emptied slot takes away its own handle and nothing else. -/
theorem entryOf_vacate {t : HandleTable Obj} {handle : Handle} {slot : Slot Obj}
    (h : t.slotAt handle.index = some slot) (h_gen : slot.generation = handle.generation)
    (k : Handle) :
    (t.vacate handle.index slot).entryOf k = if k = handle then none else t.entryOf k := by
  have h_at := slotAt_vacate h
  by_cases hk : k.index = handle.index
  · have h_iff : k = handle ↔ handle.generation = k.generation := by
      rw [Handle.ext_iff]
      exact ⟨fun h => h.2.symm, fun h => ⟨hk, h.symm⟩⟩
    simp only [entryOf, slotOf, h_at, hk, if_true, h, h_gen, h_iff]
    split <;> split <;> simp_all
  · have h_ne : k ≠ handle := fun h_eq => hk (congrArg Handle.index h_eq)
    simp only [entryOf, slotOf, h_at, hk, if_false, h_ne]

theorem get_occupy {t : HandleTable Obj} {idx : Nat} {slot : Slot Obj}
    (h : t.slotAt idx = some slot) (h_idx : idx < 2 ^ 32)
    (entry : HandleEntry Obj) (k : Handle) :
    (t.occupy idx slot entry).get k =
      if k = Handle.pack slot.generation idx then some (entry.koRef, entry.rights)
      else t.get k := by
  rw [get_eq_map, get_eq_map, entryOf_occupy h h_idx]
  split <;> rfl

theorem get_vacate {t : HandleTable Obj} {handle : Handle} {slot : Slot Obj}
    (h : t.slotAt handle.index = some slot) (h_gen : slot.generation = handle.generation)
    (k : Handle) :
    (t.vacate handle.index slot).get k = if k = handle then none else t.get k := by
  rw [get_eq_map, get_eq_map, entryOf_vacate h h_gen]
  split <;> rfl

-- ============================================================================
-- The contract
-- ============================================================================

/-- A table as `new` and the operations build it, with slots a handle's 32-bit
    index can name. -/
structure WellFormed (t : HandleTable Obj) : Prop extends RepInv t where
  index_fits : t.slots.length ≤ 2 ^ 32

/-- No slot of the table is free. -/
def isFull (t : HandleTable Obj) : Bool := t.slots.all isOccupied

/-- The error with which moving `handle` from `source` to `dest` is refused. -/
def transferRefusal (source dest : HandleTable Obj) (handle : Handle) : Option HandleError :=
  match source.get handle with
  | none => some .invalidHandle
  | some (_, rights) =>
      if rights.contains Rights.transfer then
        if dest.isFull then some .tableFull else none
      else some .accessDenied

/-- The contract of `transfer(handle, dest)` on `self`: what it answers and
    what it leaves in the two tables. -/
def TransferMeets (self dest : HandleTable Obj) (handle : Handle)
    (outcome : Except Panic (Except HandleError Handle × HandleTable Obj × HandleTable Obj)) :
    Prop :=
  match transferRefusal self dest handle with
  | some error => outcome = .ok (.error error, self, dest)
  | none =>
      ∃ moved self' dest', outcome = .ok (.ok moved, self', dest') ∧
        self'.get handle = none ∧ dest'.get moved = self.get handle ∧
        (∀ k, k ≠ handle → self'.get k = self.get k) ∧
        (∀ k, k ≠ moved → dest'.get k = dest.get k) ∧
        self'.count + 1 = self.count ∧ dest'.count = dest.count + 1

theorem RepInv.freeHead_eq_none_iff_isFull {t : HandleTable Obj} (ht : RepInv t) :
    t.freeHead = none ↔ t.isFull = true := by
  rw [ht.freeHead_eq_none_iff, isFull, List.all_eq_true]
  constructor
  · intro h slot h_mem
    obtain ⟨idx, h_lt, rfl⟩ := List.getElem_of_mem h_mem
    obtain ⟨s, hs⟩ := ht.slot_some idx h_lt
    have h_get : t.slots[idx] = some s := (List.getElem?_eq_some_iff.mp (slotAt_eq_some.mp hs)).2
    have h_entry := h idx h_lt
    simp only [entryAt, hs, Option.bind_some] at h_entry
    simpa [isOccupied, h_get, Option.isSome_iff_ne_none] using h_entry
  · intro h idx h_lt h_none
    obtain ⟨s, hs⟩ := ht.slot_some idx h_lt
    have h_occ := h (some s) (List.mem_of_getElem? (slotAt_eq_some.mp hs))
    simp only [entryAt, hs, Option.bind_some] at h_none
    simp [isOccupied, h_none] at h_occ

-- ============================================================================
-- The move between locked tables
-- ============================================================================

/-- A refused move leaves both tables alone. -/
theorem moveEntry_refused {first second : HandleTable Obj} {handle : Handle} {error : HandleError}
    (h_second : RepInv second) (h : transferRefusal first second handle = some error) :
    moveEntry first second handle = .ok (.error error, first, second) := by
  unfold transferRefusal at h
  rw [get_eq_map] at h
  unfold moveEntry
  cases h_entry : first.entryOf handle with
  | none =>
      obtain rfl : HandleError.invalidHandle = error := by simpa [h_entry] using h
      rfl
  | some entry =>
      simp only [h_entry, Option.map_some] at h ⊢
      split at h
      · next h_rights =>
          split at h
          · next h_full =>
              obtain rfl := Option.some.inj h
              rw [if_pos h_rights, h_second.freeHead_eq_none_iff_isFull.mpr h_full]
          · exact absurd h (by simp)
      · next h_rights =>
          obtain rfl := Option.some.inj h
          rw [if_neg h_rights]

/-- A move that is not refused empties the slot of the first table and fills
    the head of the free list of the second. -/
theorem moveEntry_moved {first second : HandleTable Obj} {handle : Handle}
    (h_first : RepInv first) (h_second : RepInv second)
    (h : transferRefusal first second handle = none) :
    ∃ slot entry idx free, first.slotAt handle.index = some slot ∧
      slot.generation = handle.generation ∧ slot.entry = some entry ∧
      second.freeHead = some idx ∧ second.slotAt idx = some free ∧ free.entry = none ∧
      moveEntry first second handle = .ok (.ok (Handle.pack free.generation idx),
        first.vacate handle.index slot, second.occupy idx free entry) := by
  unfold transferRefusal at h
  rw [get_eq_map] at h
  cases h_entry : first.entryOf handle with
  | none => simp [h_entry] at h
  | some entry =>
      simp only [h_entry, Option.map_some] at h
      split at h
      · next h_rights =>
          split at h
          · exact absurd h (by simp)
          · next h_full =>
              obtain ⟨slot, h_slot, h_gen, h_some⟩ := entryOf_eq_some.mp h_entry
              obtain ⟨idx, h_head⟩ := Option.ne_none_iff_exists'.mp
                (mt h_second.freeHead_eq_none_iff_isFull.mp h_full)
              obtain ⟨free, h_free, h_none⟩ := h_second.freeHead_slot h_head
              refine ⟨slot, entry, idx, free, h_slot, h_gen, h_some, h_head, h_free, h_none, ?_⟩
              simp only [moveEntry, h_entry, h_rights, if_true, h_head, allocate_eq h_free,
                slotMut_eq h_slot, release_eq (h_first.count_pos h_slot h_some)]
              rfl
      · exact absurd h (by simp)

/-- Between locked tables the move meets the contract for the table locked first. -/
theorem moveEntry_meets {first second : HandleTable Obj} (h_first : WellFormed first)
    (h_second : WellFormed second) (handle : Handle) :
    TransferMeets first second handle (moveEntry first second handle) := by
  unfold TransferMeets
  split
  · next error h_refused => exact moveEntry_refused h_second.toRepInv h_refused
  · next h_allowed =>
      obtain ⟨slot, entry, idx, free, h_slot, h_gen, h_some, h_head, h_free, h_none, h_eq⟩ :=
        moveEntry_moved h_first.toRepInv h_second.toRepInv h_allowed
      have h_idx : idx < 2 ^ 32 :=
        Nat.lt_of_lt_of_le (lt_length_of_slotAt h_free) h_second.index_fits
      refine ⟨_, _, _, h_eq, ?_, ?_, ?_, ?_, ?_, ?_⟩
      · rw [get_vacate h_slot h_gen, if_pos rfl]
      · rw [get_occupy h_free h_idx, if_pos rfl, get_eq_map,
          entryOf_eq_some.mpr ⟨slot, h_slot, h_gen, h_some⟩]
        rfl
      · intro k hk
        rw [get_vacate h_slot h_gen, if_neg hk]
      · intro k hk
        rw [get_occupy h_free h_idx, if_neg hk]
      · exact Nat.sub_add_cancel (h_first.count_pos h_slot h_some)
      · rfl

-- ============================================================================
-- Both address orders
-- ============================================================================

variable {Addr : Type*} [LinearOrder Addr]

theorem transfer_eq_of_lt {selfAddr destAddr : Addr} (h : selfAddr < destAddr)
    (self dest : HandleTable Obj) (handle : Handle) :
    transfer selfAddr destAddr self dest handle = moveEntry self dest handle := by
  rw [transfer, if_pos h]
  cases moveEntry self dest handle <;> rfl

/-- With `dest` at the lower address the entry moves from `dest` to `self`. -/
theorem transfer_eq_of_not_lt {selfAddr destAddr : Addr} (h : ¬ selfAddr < destAddr)
    (self dest : HandleTable Obj) (handle : Handle) :
    transfer selfAddr destAddr self dest handle =
      (moveEntry dest self handle).map fun r => (r.1, r.2.2, r.2.1) := by
  rw [transfer, if_neg h]
  cases moveEntry dest self handle <;> rfl

/-- `transfer` meets its contract exactly when `self` has the lower address, or
    the move is refused with one and the same error in both directions. -/
theorem transfer_meets_iff {self dest : HandleTable Obj} (h_self : WellFormed self)
    (h_dest : WellFormed dest) {selfAddr destAddr : Addr} (h_distinct : selfAddr ≠ destAddr)
    (handle : Handle) :
    TransferMeets self dest handle (transfer selfAddr destAddr self dest handle) ↔
      selfAddr < destAddr ∨
        (transferRefusal self dest handle ≠ none ∧
          transferRefusal self dest handle = transferRefusal dest self handle) := by
  by_cases h_lt : selfAddr < destAddr
  · rw [transfer_eq_of_lt h_lt]
    exact ⟨fun _ => .inl h_lt, fun _ => moveEntry_meets h_self h_dest handle⟩
  · rw [transfer_eq_of_not_lt h_lt]
    have h_gt : destAddr < selfAddr := lt_of_le_of_ne (not_lt.mp h_lt) h_distinct.symm
    simp only [not_lt_of_gt h_gt, false_or]
    cases h_back : transferRefusal dest self handle with
    | some error' =>
        rw [moveEntry_refused h_self.toRepInv h_back]
        unfold TransferMeets
        cases transferRefusal self dest handle with
        | some error =>
            simp [Except.map, eq_comm]
        | none => simp [Except.map]
    | none =>
        -- the swapped move goes through: `self` gains an entry
        obtain ⟨slot, entry, idx, free, -, -, -, -, -, -, h_eq⟩ :=
          moveEntry_moved h_dest.toRepInv h_self.toRepInv h_back
        rw [h_eq]
        refine ⟨fun h_meets => ?_, fun h => absurd h.2 (by rintro h_none; exact h.1 h_none)⟩
        unfold TransferMeets at h_meets
        split at h_meets
        · exact absurd h_meets (by simp [Except.map])
        · obtain ⟨moved, self', dest', h_out, -, -, -, -, h_count, -⟩ := h_meets
          simp only [Except.map, Except.ok.injEq, Prod.mk.injEq] at h_out
          rw [← h_out.2.1] at h_count
          simp [occupy] at h_count
          omega

/-! ## A transfer whose roles are swapped -/

/-- A table of two slots whose handle `0` refers to object `7` with all rights. -/
def oneEntry : HandleTable Nat :=
  { slots := [some ⟨0, some ⟨7, Rights.all⟩, none⟩, some ⟨0, none, none⟩]
    freeHead := some 1, count := 1 }

example : (new 2 : HandleTable Nat).create 7 Rights.all = .ok (.ok ⟨0⟩, oneEntry) := by
  decide

theorem wellFormed_new (capacity : Nat) (h_pos : 1 ≤ capacity) (h_cap : capacity ≤ 2 ^ 32) :
    WellFormed (new capacity : HandleTable Obj) :=
  { repInv_new h_pos with index_fits := by simpa using h_cap }

theorem wellFormed_oneEntry : WellFormed oneEntry := by
  have h_new : WellFormed (new 2 : HandleTable Nat) := wellFormed_new 2 (by decide) (by decide)
  have h_slot : (new 2 : HandleTable Nat).slotAt 0 = some ⟨0, none, some 1⟩ := rfl
  have h_occupy := h_new.toRepInv.occupy rfl h_slot ⟨7, Rights.all⟩
  exact { h_occupy with index_fits := by decide }

theorem transfer_meets_oneEntry :
    TransferMeets oneEntry (new 1) ⟨0⟩ (transfer 16 32 oneEntry (new 1) ⟨0⟩) :=
  (transfer_meets_iff wellFormed_oneEntry (wellFormed_new 1 (by decide) (by decide))
    (by decide : (16 : Nat) ≠ 32) ⟨0⟩).mpr (.inl (by decide))

/-- The table that holds the entry lies above an empty one: its live handle is
    looked up in the empty table and refused, although the contract moves it. -/
theorem transfer_swaps_roles :
    transferRefusal oneEntry (new 1) ⟨0⟩ = none ∧
      transfer 32 16 oneEntry (new 1) ⟨0⟩ = .ok (.error .invalidHandle, oneEntry, new 1) ∧
      ¬ TransferMeets oneEntry (new 1) ⟨0⟩ (transfer 32 16 oneEntry (new 1) ⟨0⟩) := by
  have h_out : transfer 32 16 oneEntry (new 1) ⟨0⟩ =
      .ok (.error .invalidHandle, oneEntry, new 1) := by decide
  have h_allowed : transferRefusal oneEntry (new 1) ⟨0⟩ = none := by decide
  refine ⟨h_allowed, h_out, ?_⟩
  rw [h_out, TransferMeets, h_allowed]
  simp

end HandleTable
end Zydon
