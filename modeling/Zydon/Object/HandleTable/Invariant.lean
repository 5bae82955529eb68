/-
  Zydon.Object.HandleTable.Invariant

  The representation invariant of a handle table, and its preservation.

  Every operation changes a table in one of two ways, or not at all:

    * `occupy` — the slot at the head of the free list is unlinked and filled;
    * `vacate` — an occupied slot is emptied, its generation bumped, and it
      becomes the head of the free list.

  `allocate_eq` and `release_eq` say so for the two blocks the operations are
  made of, `TableStep` says it for a whole operation on one table, and
  `RepInv.step` is the preservation of the invariant.
-/

import Zydon.Object.HandleTable.Basic

namespace Zydon
namespace HandleTable

open Lib

variable {Obj : Type*}

-- ============================================================================
-- Slots by index
-- ============================================================================

/-- The link of slot `idx`. -/
def nextFreeAt (t : HandleTable Obj) (idx : Nat) : Option Nat := (t.slotAt idx).bind Slot.nextFree

/-- The entry of slot `idx`. -/
def entryAt (t : HandleTable Obj) (idx : Nat) : Option (HandleEntry Obj) :=
  (t.slotAt idx).bind Slot.entry

/-- The generation of slot `idx`. -/
def generationAt (t : HandleTable Obj) (idx : Nat) : Option (BitVec 32) :=
  (t.slotAt idx).map Slot.generation

/-- The slot holds an entry. -/
def isOccupied (slot : Option (Slot Obj)) : Bool := slot.any fun s => s.entry.isSome

/-- The number of occupied slots. -/
def occupied (t : HandleTable Obj) : Nat := t.slots.countP isOccupied

theorem slotAt_eq_some {t : HandleTable Obj} {idx : Nat} {slot : Slot Obj} :
    t.slotAt idx = some slot ↔ t.slots[idx]? = some (some slot) := by
  simp [slotAt, Option.join_eq_some_iff]

theorem lt_length_of_slotAt {t : HandleTable Obj} {idx : Nat} {slot : Slot Obj}
    (h : t.slotAt idx = some slot) : idx < t.slots.length :=
  (List.getElem?_eq_some_iff.mp (slotAt_eq_some.mp h)).1

theorem slotMut_eq {t : HandleTable Obj} {idx : Nat} {slot : Slot Obj}
    (h : t.slotAt idx = some slot) : t.slotMut idx = .ok slot := by
  simp [slotMut, slotAt_eq_some.mp h]

theorem slotAt_of_slotMut {t : HandleTable Obj} {idx : Nat} {slot : Slot Obj}
    (h : t.slotMut idx = .ok slot) : t.slotAt idx = some slot := by
  unfold slotMut at h
  split at h
  · exact absurd h (by simp)
  · exact absurd h (by simp)
  · next s hs =>
      obtain rfl : s = slot := by simpa using h
      exact slotAt_eq_some.mpr hs

@[simp] theorem setSlot_length (t : HandleTable Obj) (idx : Nat) (slot : Slot Obj) :
    (t.setSlot idx slot).slots.length = t.slots.length := by
  simp [setSlot]

theorem slotAt_setSlot {t : HandleTable Obj} {idx : Nat} (h : idx < t.slots.length)
    (slot : Slot Obj) (i : Nat) :
    (t.setSlot idx slot).slotAt i = if i = idx then some slot else t.slotAt i := by
  by_cases hi : i = idx
  · subst hi
    simp [slotAt, setSlot, h]
  · simp [slotAt, setSlot, hi, Ne.symm hi]

-- ============================================================================
-- The two changes of a table
-- ============================================================================

/-- Slot `idx`, which holds `slot`, leaves the free list for `entry`. -/
def occupy (t : HandleTable Obj) (idx : Nat) (slot : Slot Obj) (entry : HandleEntry Obj) :
    HandleTable Obj :=
  { t.setSlot idx { slot with entry := some entry, nextFree := none } with
    freeHead := slot.nextFree, count := t.count + 1 }

/-- Slot `idx`, which holds `slot`, is emptied and joins the free list. -/
def vacate (t : HandleTable Obj) (idx : Nat) (slot : Slot Obj) : HandleTable Obj :=
  { t.setSlot idx { generation := slot.generation + 1#32, entry := none, nextFree := t.freeHead } with
    freeHead := some idx, count := t.count - 1 }

@[simp] theorem new_length (capacity : Nat) :
    (new capacity : HandleTable Obj).slots.length = capacity := by
  simp [new]

@[simp] theorem occupy_length (t : HandleTable Obj) (idx : Nat) (slot : Slot Obj)
    (entry : HandleEntry Obj) : (t.occupy idx slot entry).slots.length = t.slots.length :=
  setSlot_length t idx _

@[simp] theorem vacate_length (t : HandleTable Obj) (idx : Nat) (slot : Slot Obj) :
    (t.vacate idx slot).slots.length = t.slots.length :=
  setSlot_length t idx _

theorem slotAt_occupy {t : HandleTable Obj} {idx : Nat} {slot : Slot Obj}
    (h : t.slotAt idx = some slot) (entry : HandleEntry Obj) (i : Nat) :
    (t.occupy idx slot entry).slotAt i =
      if i = idx then some { slot with entry := some entry, nextFree := none } else t.slotAt i :=
  slotAt_setSlot (lt_length_of_slotAt h) _ i

theorem slotAt_vacate {t : HandleTable Obj} {idx : Nat} {slot : Slot Obj}
    (h : t.slotAt idx = some slot) (i : Nat) :
    (t.vacate idx slot).slotAt i =
      if i = idx then
        some { generation := slot.generation + 1#32, entry := none, nextFree := t.freeHead }
      else t.slotAt i :=
  slotAt_setSlot (lt_length_of_slotAt h) _ i

theorem allocate_eq {t : HandleTable Obj} {idx : Nat} {slot : Slot Obj}
    (h : t.slotAt idx = some slot) (entry : HandleEntry Obj) :
    t.allocate idx entry = .ok (Handle.pack slot.generation idx, t.occupy idx slot entry) := by
  have h_lt := lt_length_of_slotAt h
  set t₁ : HandleTable Obj := { t with freeHead := slot.nextFree }
  have h_second : (t₁.setSlot idx { slot with nextFree := none }).slotMut idx
      = .ok { slot with nextFree := none } := by
    apply slotMut_eq
    rw [slotAt_setSlot (t := t₁) h_lt, if_pos rfl]
  rw [allocate, slotMut_eq h]
  change (do
      let slot' ← (t₁.setSlot idx { slot with nextFree := none }).slotMut idx
      _) = _
  rw [h_second]
  simp [bind, Except.bind, pure, Except.pure, occupy, setSlot]

/-- A computation returns if its first part does and then the rest. -/
theorem bind_eq_ok.{u} {ε : Type*} {α β : Type u} {x : Except ε α} {f : α → Except ε β} {b : β} :
    x >>= f = .ok b ↔ ∃ a, x = .ok a ∧ f a = .ok b := by
  cases x with
  | error e => exact iff_of_false (by simp [bind, Except.bind]) (by simp)
  | ok a => simp [bind, Except.bind]

theorem allocate_ok {t t' : HandleTable Obj} {idx : Nat} {entry : HandleEntry Obj} {handle : Handle}
    (h : t.allocate idx entry = .ok (handle, t')) :
    ∃ slot, t.slotAt idx = some slot ∧ handle = Handle.pack slot.generation idx ∧
      t' = t.occupy idx slot entry := by
  obtain ⟨slot, h_slot, -⟩ := bind_eq_ok.mp h
  have h_at := slotAt_of_slotMut h_slot
  rw [allocate_eq h_at entry, Except.ok.injEq, Prod.mk.injEq] at h
  exact ⟨slot, h_at, h.1.symm, h.2.symm⟩

theorem release_eq {t : HandleTable Obj} (h_count : 0 < t.count) (idx : Nat) (slot : Slot Obj) :
    t.release idx slot = .ok (t.vacate idx slot) := by
  rw [release, if_neg (by omega)]
  rfl

theorem release_ok {t t' : HandleTable Obj} {idx : Nat} {slot : Slot Obj}
    (h : t.release idx slot = .ok t') : 0 < t.count ∧ t' = t.vacate idx slot := by
  by_cases h_count : t.count = 0
  · simp [release, h_count] at h
  · rw [release_eq (by omega), Except.ok.injEq] at h
    exact ⟨by omega, h.symm⟩

/-- What one operation can do to one table. -/
inductive TableStep (t : HandleTable Obj) : HandleTable Obj → Prop where
  | same : TableStep t t
  | occupy {idx : Nat} {slot : Slot Obj} (entry : HandleEntry Obj) :
      t.freeHead = some idx → t.slotAt idx = some slot → TableStep t (t.occupy idx slot entry)
  | vacate {idx : Nat} {slot : Slot Obj} {entry : HandleEntry Obj} :
      t.slotAt idx = some slot → slot.entry = some entry → TableStep t (t.vacate idx slot)

-- ============================================================================
-- The representation invariant
-- ============================================================================

/-- The representation invariant of a table. -/
structure RepInv (t : HandleTable Obj) : Prop where
  slot_some : ∀ idx < t.slots.length, ∃ slot, t.slotAt idx = some slot
  /-- Following the links from the head visits, once each and ending in
      `none`, exactly the free slots. -/
  free_list : ∃ l, Seg t.nextFreeAt t.freeHead l none ∧ l.Nodup ∧
    ∀ idx, idx ∈ l ↔ idx < t.slots.length ∧ t.entryAt idx = none
  occupied_unlinked : ∀ idx entry, t.entryAt idx = some entry → t.nextFreeAt idx = none
  count_eq : t.count = t.occupied

/-- The head of the free list is a free slot. -/
theorem RepInv.freeHead_slot {t : HandleTable Obj} (ht : RepInv t) {idx : Nat}
    (h : t.freeHead = some idx) : ∃ slot, t.slotAt idx = some slot ∧ slot.entry = none := by
  obtain ⟨l, h_seg, -, h_mem⟩ := ht.free_list
  have h_head : idx ∈ l := by
    cases l with
    | nil => rw [Seg.nil_iff, h] at h_seg; exact absurd h_seg (by simp)
    | cons i l =>
        obtain ⟨h_i, -⟩ := h_seg
        rw [h] at h_i
        exact (Option.some.inj h_i) ▸ List.mem_cons_self
  obtain ⟨h_lt, h_entry⟩ := (h_mem idx).mp h_head
  obtain ⟨slot, h_slot⟩ := ht.slot_some idx h_lt
  exact ⟨slot, h_slot, by simpa [entryAt, h_slot] using h_entry⟩

/-- The slot at the head of the free list can be filled. -/
theorem RepInv.allocate_head {t : HandleTable Obj} (ht : RepInv t) {idx : Nat}
    (h : t.freeHead = some idx) (entry : HandleEntry Obj) :
    ∃ r, t.allocate idx entry = .ok r := by
  obtain ⟨slot, h_slot, -⟩ := ht.freeHead_slot h
  exact ⟨_, allocate_eq h_slot entry⟩

/-- The free list is empty exactly when no slot is free. -/
theorem RepInv.freeHead_eq_none_iff {t : HandleTable Obj} (ht : RepInv t) :
    t.freeHead = none ↔ ∀ idx < t.slots.length, t.entryAt idx ≠ none := by
  obtain ⟨l, h_seg, -, h_mem⟩ := ht.free_list
  constructor
  · intro h_none idx h_lt h_entry
    rw [h_none] at h_seg
    cases l with
    | nil => exact absurd ((h_mem idx).mpr ⟨h_lt, h_entry⟩) List.not_mem_nil
    | cons i l => exact absurd h_seg.1 (by simp)
  · intro h_full
    cases l with
    | nil => exact h_seg
    | cons i l =>
        obtain ⟨h_lt, h_entry⟩ := (h_mem i).mp List.mem_cons_self
        exact absurd h_entry (h_full i h_lt)

/-- An occupied slot is counted. -/
theorem RepInv.count_pos {t : HandleTable Obj} (ht : RepInv t) {idx : Nat} {slot : Slot Obj}
    {entry : HandleEntry Obj} (h : t.slotAt idx = some slot) (h_entry : slot.entry = some entry) :
    0 < t.count := by
  rw [ht.count_eq, occupied, List.countP_pos_iff]
  exact ⟨some slot, List.mem_of_getElem? (slotAt_eq_some.mp h), by simp [isOccupied, h_entry]⟩

theorem slotAt_new (capacity idx : Nat) : (new capacity : HandleTable Obj).slotAt idx =
    if idx < capacity then
      some { generation := 0, entry := none
             nextFree := if idx + 1 < capacity then some (idx + 1) else none }
    else none := by
  by_cases h : idx < capacity <;> simp [new, slotAt, h]

/-- A new table has no entries. -/
theorem entryAt_new (capacity idx : Nat) : (new capacity : HandleTable Obj).entryAt idx = none := by
  rw [entryAt, slotAt_new]
  split <;> rfl

/-- A table created with room for at least one entry. -/
theorem repInv_new {capacity : Nat} (h_cap : 1 ≤ capacity) :
    RepInv (new capacity : HandleTable Obj) := by
  have h_slot : ∀ idx, (new capacity : HandleTable Obj).slotAt idx = _ := slotAt_new capacity
  have h_next : ∀ idx, (new capacity : HandleTable Obj).nextFreeAt idx =
      if idx + 1 < capacity then some (idx + 1) else none := by
    intro idx
    rw [nextFreeAt, h_slot]
    by_cases h : idx < capacity
    · simp [h]
    · simp [h, show ¬ idx + 1 < capacity by omega]
  have h_entry : ∀ idx, (new capacity : HandleTable Obj).entryAt idx = none :=
    entryAt_new capacity
  -- the links from slot `capacity - n` on visit the last `n` slots
  have h_seg : ∀ n, n ≤ capacity → Seg (new capacity : HandleTable Obj).nextFreeAt
      (if capacity - n < capacity then some (capacity - n) else none)
      (List.range' (capacity - n) n) none := by
    intro n
    induction n with
    | zero => intro _; simp
    | succ n ih =>
        intro h_le
        have h_succ : capacity - (n + 1) + 1 = capacity - n := by omega
        rw [List.range'_succ, h_succ, if_pos (by omega), Seg.cons_iff, h_next, h_succ]
        exact ⟨rfl, ih (by omega)⟩
  refine ⟨?_, ⟨List.range' 0 capacity, ?_, List.nodup_range', ?_⟩, ?_, ?_⟩
  · intro idx h_lt
    have h_lt : idx < capacity := by simpa using h_lt
    exact ⟨_, by rw [h_slot, if_pos h_lt]⟩
  · have h := h_seg capacity (le_refl _)
    rwa [Nat.sub_self, if_pos (by omega)] at h
  · intro idx
    simp [List.mem_range', h_entry]
  · intro idx entry h
    rw [h_entry] at h
    exact absurd h (by simp)
  · have h_zero : ((new capacity : HandleTable Obj).slots.countP isOccupied) = 0 := by
      rw [List.countP_eq_zero]
      simp [new, isOccupied]
    exact h_zero.symm

/-- Filling the head of the free list keeps the invariant. -/
theorem RepInv.occupy {t : HandleTable Obj} (ht : RepInv t) {idx : Nat} {slot : Slot Obj}
    (h_head : t.freeHead = some idx) (h : t.slotAt idx = some slot) (entry : HandleEntry Obj) :
    RepInv (t.occupy idx slot entry) := by
  have h_at := slotAt_occupy h entry
  have h_lt := lt_length_of_slotAt h
  obtain ⟨slot', h', h_free⟩ := ht.freeHead_slot h_head
  obtain rfl : slot = slot' := Option.some.inj (h.symm.trans h')
  obtain ⟨l, h_seg, h_nodup, h_mem⟩ := ht.free_list
  -- the free list is `idx` and the slots its link leads to
  obtain ⟨l, rfl⟩ : ∃ l', l = idx :: l' := by
    rw [h_head] at h_seg
    cases l with
    | nil => exact absurd h_seg (by simp)
    | cons i l => exact ⟨l, by rw [Option.some.inj h_seg.1]⟩
  obtain ⟨h_notin, h_nodup⟩ := List.nodup_cons.mp h_nodup
  have h_ne : ∀ i ∈ l, i ≠ idx := fun i hi h_eq => h_notin (h_eq ▸ hi)
  refine ⟨?_, ⟨l, ?_, h_nodup, ?_⟩, ?_, ?_⟩
  · intro i hi
    rw [h_at]
    split
    · exact ⟨_, rfl⟩
    · exact ht.slot_some i (by simpa using hi)
  · have h_rest : Seg t.nextFreeAt (t.nextFreeAt idx) l none := h_seg.2
    have h_link : t.nextFreeAt idx = slot.nextFree := by simp [nextFreeAt, h]
    rw [h_link] at h_rest
    refine h_rest.congr fun i hi => ?_
    simp [nextFreeAt, h_at, h_ne i hi]
  · intro i
    have h_old := h_mem i
    by_cases hi : i = idx
    · subst hi
      simp [h_notin, entryAt, h_at]
    · simp only [List.mem_cons, hi, false_or] at h_old
      simpa [entryAt, h_at, hi] using h_old
  · intro i e h_e
    by_cases hi : i = idx
    · simp [nextFreeAt, h_at, hi]
    · have h_old : t.entryAt i = some e := by simpa [entryAt, h_at, hi] using h_e
      simpa [nextFreeAt, h_at, hi] using ht.occupied_unlinked i e h_old
  · have h_get : t.slots[idx] = some slot :=
      (List.getElem?_eq_some_iff.mp (slotAt_eq_some.mp h)).2
    have h_count := ht.count_eq
    simp only [HandleTable.occupy, occupied, setSlot] at h_count ⊢
    rw [List.countP_set h_lt, h_get]
    simp [isOccupied, h_free, h_count]

/-- Emptying an occupied slot keeps the invariant. -/
theorem RepInv.vacate {t : HandleTable Obj} (ht : RepInv t) {idx : Nat} {slot : Slot Obj}
    {entry : HandleEntry Obj} (h : t.slotAt idx = some slot) (h_entry : slot.entry = some entry) :
    RepInv (t.vacate idx slot) := by
  have h_at := slotAt_vacate h
  have h_lt := lt_length_of_slotAt h
  obtain ⟨l, h_seg, h_nodup, h_mem⟩ := ht.free_list
  have h_notin : idx ∉ l := by
    intro h_in
    have h_none := ((h_mem idx).mp h_in).2
    simp [entryAt, h, h_entry] at h_none
  have h_ne : ∀ i ∈ l, i ≠ idx := fun i hi h_eq => h_notin (h_eq ▸ hi)
  refine ⟨?_, ⟨idx :: l, ?_, List.nodup_cons.mpr ⟨h_notin, h_nodup⟩, ?_⟩, ?_, ?_⟩
  · intro i hi
    rw [h_at]
    split
    · exact ⟨_, rfl⟩
    · exact ht.slot_some i (by simpa using hi)
  · refine ⟨rfl, ?_⟩
    have h_link : (t.vacate idx slot).nextFreeAt idx = t.freeHead := by simp [nextFreeAt, h_at]
    rw [h_link]
    refine h_seg.congr fun i hi => ?_
    simp [nextFreeAt, h_at, h_ne i hi]
  · intro i
    have h_old := h_mem i
    by_cases hi : i = idx
    · subst hi
      simpa [entryAt, h_at] using h_lt
    · simpa [entryAt, h_at, hi] using h_old
  · intro i e h_e
    by_cases hi : i = idx
    · simp [entryAt, h_at, hi] at h_e
    · have h_old : t.entryAt i = some e := by simpa [entryAt, h_at, hi] using h_e
      simpa [nextFreeAt, h_at, hi] using ht.occupied_unlinked i e h_old
  · have h_get : t.slots[idx] = some slot :=
      (List.getElem?_eq_some_iff.mp (slotAt_eq_some.mp h)).2
    have h_count := ht.count_eq
    simp only [HandleTable.vacate, occupied, setSlot] at h_count ⊢
    rw [List.countP_set h_lt, h_get]
    simp [isOccupied, h_entry, h_count]

/-- No operation breaks the invariant of a table. -/
theorem RepInv.step {t t' : HandleTable Obj} (ht : RepInv t) (h : TableStep t t') : RepInv t' := by
  cases h with
  | same => exact ht
  | occupy entry h_head h_slot => exact ht.occupy h_head h_slot entry
  | vacate h_slot h_entry => exact ht.vacate h_slot h_entry

theorem TableStep.length_eq {t t' : HandleTable Obj} (h : TableStep t t') :
    t'.slots.length = t.slots.length := by
  cases h <;> simp

end HandleTable
end Zydon
