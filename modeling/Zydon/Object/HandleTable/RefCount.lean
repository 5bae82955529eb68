/-
  Zydon.Object.HandleTable.RefCount

  The reference count of an object against the references to it, over whole runs.

  Inside a call some references are neither in a table nor with a caller but in
  local variables: `Sound k hand` is the invariant with those of `hand` counted
  as well.  Every operation on references either takes one, releases one, or
  moves one between the tables, the callers and `hand` (`Sound.clone`,
  `Sound.drop`, `Sound.move`), and a call is a sequence of such operations.
-/

import Mathlib.Algebra.BigOperators.Group.Finset.Basic
import Mathlib.Data.Fintype.BigOperators
import Zydon.Lib.RefCount
import Zydon.Object.HandleTable.References

namespace Zydon
namespace HandleTable

open Lib

variable {Addr Obj : Type} [LinearOrder Addr] [DecidableEq Obj]

-- ============================================================================
-- The references in the tables
-- ============================================================================

/-- The slot holds a reference to `o`. -/
def refersTo (o : Obj) (slot : Option (Slot Obj)) : Bool :=
  slot.any fun s => s.entry.any fun e => e.koRef = o

/-- The number of entries of the table that refer to `o`. -/
def references (t : HandleTable Obj) (o : Obj) : Nat := t.slots.countP (refersTo o)

theorem references_new (capacity : Nat) (o : Obj) :
    (new capacity : HandleTable Obj).references o = 0 := by
  rw [references, List.countP_eq_zero]
  simp [new, refersTo]

/-- A table without references to an object has no entry for it. -/
theorem ne_of_references {t : HandleTable Obj} {o : Obj} (h : t.references o = 0) {idx : Nat}
    {entry : HandleEntry Obj} (h_entry : t.entryAt idx = some entry) : entry.koRef ≠ o := by
  obtain ⟨slot, h_slot, h_some⟩ := Option.bind_eq_some_iff.mp h_entry
  have h_mem := List.mem_of_getElem? (slotAt_eq_some.mp h_slot)
  have h_not := List.countP_eq_zero.mp h (some slot) h_mem
  simpa [refersTo, h_some] using h_not

/-- What a write of slot `idx` does to the number of references. -/
theorem references_setSlot {t : HandleTable Obj} {idx : Nat} {slot : Slot Obj}
    (h : t.slotAt idx = some slot) (slot' : Slot Obj) (o : Obj) :
    (t.setSlot idx slot').references o + (if refersTo o (some slot) then 1 else 0) =
      t.references o + if refersTo o (some slot') then 1 else 0 := by
  have h_lt := lt_length_of_slotAt h
  have h_get : t.slots[idx] = some slot :=
    (List.getElem?_eq_some_iff.mp (slotAt_eq_some.mp h)).2
  have h_mem : some slot ∈ t.slots := List.mem_of_getElem? (slotAt_eq_some.mp h)
  rw [references, references, setSlot, List.countP_set h_lt, h_get]
  by_cases h_old : refersTo o (some slot) = true
  · have h_pos : 0 < t.slots.countP (refersTo o) := List.countP_pos_iff.mpr ⟨_, h_mem, h_old⟩
    rw [if_pos h_old]
    omega
  · rw [if_neg h_old]
    omega

/-- A filled slot adds the reference of its entry. -/
theorem references_occupy {t : HandleTable Obj} {idx : Nat} {slot : Slot Obj}
    (h : t.slotAt idx = some slot) (h_free : slot.entry = none) (entry : HandleEntry Obj)
    (o : Obj) :
    (t.occupy idx slot entry).references o = t.references o + [entry.koRef].count o := by
  have h_set := references_setSlot h { slot with entry := some entry, nextFree := none } o
  simp only [refersTo, Option.any_some, h_free, Option.any_none, Bool.false_eq_true, if_false,
    decide_eq_true_eq] at h_set
  rw [List.count_singleton']
  exact h_set

/-- A slot that is emptied takes the reference of its entry away. -/
theorem references_clear {t : HandleTable Obj} {idx : Nat} {slot slot' : Slot Obj}
    {entry : HandleEntry Obj} (h : t.slotAt idx = some slot) (h_entry : slot.entry = some entry)
    (h_clear : slot'.entry = none) (o : Obj) :
    (t.setSlot idx slot').references o + [entry.koRef].count o = t.references o := by
  have h_set := references_setSlot h slot' o
  simp only [refersTo, Option.any_some, h_entry, h_clear, Option.any_none, Bool.false_eq_true,
    if_false, decide_eq_true_eq] at h_set
  rw [List.count_singleton']
  exact h_set

theorem count_hand (i o : Obj) (hand : List Obj) :
    (i :: hand).count o = [i].count o + hand.count o := by
  rw [← List.singleton_append, List.count_append]

namespace Kernel

variable [Fintype Addr] {k k' : Kernel Addr Obj} {hand : List Obj} {o : Obj}

/-- The number of table entries that refer to `o`. -/
def entries (k : Kernel Addr Obj) (o : Obj) : Nat := ∑ a, (k.tables a).references o

/-- The number of references to `o` that are alive: the entries, the `KoRef`s of
    the callers, and the initial one. -/
def alive (k : Kernel Addr Obj) (o : Obj) : Nat :=
  k.entries o + k.held o + if k.initial o then 1 else 0

theorem entries_setTable (k : Kernel Addr Obj) (a : Addr) (t : HandleTable Obj) (o : Obj) :
    (k.setTable a t).entries o + (k.tables a).references o = k.entries o + t.references o := by
  have h_mem : a ∈ (Finset.univ : Finset Addr) := Finset.mem_univ a
  have h_rest : ∑ b ∈ Finset.univ.erase a, (Function.update k.tables a t b).references o =
      ∑ b ∈ Finset.univ.erase a, (k.tables b).references o := by
    apply Finset.sum_congr rfl
    intro b h_b
    rw [Function.update_of_ne (Finset.ne_of_mem_erase h_b)]
  rw [entries, entries, setTable, ← Finset.add_sum_erase _ _ h_mem, h_rest,
    ← Finset.add_sum_erase _ (fun b => (k.tables b).references o) h_mem]
  show (Function.update k.tables a t a).references o + _ + _ = _
  rw [Function.update_self]
  omega

theorem alive_setTable (k : Kernel Addr Obj) (a : Addr) (t : HandleTable Obj) (o : Obj) :
    (k.setTable a t).alive o + (k.tables a).references o = k.alive o + t.references o := by
  have h_entries := entries_setTable k a t o
  show (k.setTable a t).entries o + k.held o + (if k.initial o then 1 else 0) + _ = _
  rw [alive]
  omega

section Sound

omit [LinearOrder Addr]

theorem alive_receive (k : Kernel Addr Obj) (o i : Obj) :
    (k.receive o).alive i = k.alive i + [o].count i := by
  show k.entries i + Function.update k.held o (k.held o + 1) i +
    (if k.initial i then 1 else 0) = _
  rw [alive, List.count_singleton']
  by_cases h_i : i = o
  · subst h_i
    rw [Function.update_self, if_pos rfl]
    omega
  · rw [Function.update_of_ne h_i, if_neg (Ne.symm h_i)]
    rfl

theorem alive_give (h : 0 < k.held o) (i : Obj) :
    (k.give o).alive i + [o].count i = k.alive i := by
  show k.entries i + Function.update k.held o (k.held o - 1) i +
    (if k.initial i then 1 else 0) + _ = _
  rw [alive, List.count_singleton']
  by_cases h_i : i = o
  · subst h_i
    rw [Function.update_self, if_pos rfl]
    omega
  · rw [Function.update_of_ne h_i, if_neg (Ne.symm h_i)]
    rfl

-- ============================================================================
-- The invariant
-- ============================================================================

/-- The counts are right with the references of `hand`, and the objects that have
    been destroyed have no reference any more. -/
structure Sound (k : Kernel Addr Obj) (hand : List Obj) : Prop where
  counts : ∀ o, Counts (k.header o).refcount (k.alive o + hand.count o)
  fits : ∀ o, k.alive o + hand.count o < 2 ^ 32
  dead : ∀ d ∈ k.destroyed, k.alive d.object + hand.count d.object = 0
  destroyed_once : (k.destroyed.map Destroy.object).Nodup
  destroyed_at_zero : ∀ d ∈ k.destroyed,
    d.refcount = 0#32 ∧ ∀ a, (d.tables a).references d.object = 0

/-- A reference moves, or nothing happens to the references. -/
theorem Sound.move {hand' : List Obj} (hk : k.Sound hand) (h_header : k'.header = k.header)
    (h_destroyed : k'.destroyed = k.destroyed)
    (h_alive : ∀ o, k'.alive o + hand'.count o = k.alive o + hand.count o) : k'.Sound hand' where
  counts := fun o => by
    rw [h_header, h_alive]
    exact hk.counts o
  fits := fun o => by
    rw [h_alive]
    exact hk.fits o
  dead := fun d h_d => by
    rw [h_destroyed] at h_d
    rw [h_alive]
    exact hk.dead d h_d
  destroyed_once := h_destroyed ▸ hk.destroyed_once
  destroyed_at_zero := h_destroyed ▸ hk.destroyed_at_zero

/-- A reference to an object that is alive is taken. -/
theorem Sound.clone (hk : k.Sound hand) (h_live : 0 < k.alive o + hand.count o)
    (h_room : k.alive o + hand.count o + 1 < 2 ^ 32) : (k.koRefClone o).Sound (o :: hand) where
  counts := fun i => by
    show Counts (Function.update k.header o (k.header o).addRef i).refcount
      (k.alive i + (o :: hand).count i)
    by_cases h_i : i = o
    · subst h_i
      rw [Function.update_self, List.count_cons_self]
      exact (hk.counts i).add
    · rw [Function.update_of_ne h_i, List.count_cons_of_ne (Ne.symm h_i)]
      exact hk.counts i
  fits := fun i => by
    show k.alive i + (o :: hand).count i < 2 ^ 32
    by_cases h_i : i = o
    · subst h_i
      rw [List.count_cons_self]
      omega
    · rw [List.count_cons_of_ne (Ne.symm h_i)]
      exact hk.fits i
  dead := fun d h_d => by
    have h_dead := hk.dead d h_d
    have h_ne : d.object ≠ o := by
      rintro rfl
      omega
    show k.alive d.object + (o :: hand).count d.object = 0
    rw [List.count_cons_of_ne (Ne.symm h_ne)]
    exact h_dead
  destroyed_once := hk.destroyed_once
  destroyed_at_zero := hk.destroyed_at_zero

/-- A count that goes down with a reference. -/
theorem counts_release (hk : k.Sound (o :: hand)) (i : Obj) :
    Counts (Function.update k.header o (k.header o).release.2 i).refcount
      (k.alive i + hand.count i) := by
  by_cases h_i : i = o
  · subst h_i
    have h_counts := hk.counts i
    rw [List.count_cons_self, ← Nat.add_assoc] at h_counts
    rw [Function.update_self]
    exact h_counts.sub
  · have h_counts := hk.counts i
    rw [List.count_cons_of_ne (Ne.symm h_i)] at h_counts
    rw [Function.update_of_ne h_i]
    exact h_counts

/-- The object of a reference in hand has not been destroyed. -/
theorem Sound.not_destroyed (hk : k.Sound (o :: hand)) : ∀ d ∈ k.destroyed, d.object ≠ o := by
  rintro d h_d rfl
  have h_dead := hk.dead d h_d
  rw [List.count_cons_self] at h_dead
  omega

/-- A reference is released; the object is destroyed if that was the last one. -/
theorem Sound.drop (hk : k.Sound (o :: hand)) : (k.koRefDrop o).Sound hand := by
  have h_counts := counts_release hk
  have h_fits : ∀ i, k.alive i + hand.count i < 2 ^ 32 := by
    intro i
    have h_le : hand.count i ≤ (o :: hand).count i := List.count_le_count_cons
    exact lt_of_le_of_lt (Nat.add_le_add_left h_le _) (hk.fits i)
  have h_dead : ∀ d ∈ k.destroyed, k.alive d.object + hand.count d.object = 0 := by
    intro d h_d
    have h_le : hand.count d.object ≤ (o :: hand).count d.object := List.count_le_count_cons
    have := hk.dead d h_d
    omega
  by_cases h_last : (k.header o).refcount = 1#32
  · -- the last reference: there is none in the tables, nor anywhere else
    have h_none : k.alive o + hand.count o = 0 := by
      have h_one := (hk.counts o).eq_one (by decide) (hk.fits o) h_last
      rw [List.count_cons_self] at h_one
      omega
    have h_drop : k.koRefDrop o =
        { k with
          header := Function.update k.header o (k.header o).release.2
          destroyed := k.destroyed ++ [⟨o, (k.header o).release.2.refcount, k.tables⟩] } := by
      rw [koRefDrop]
      exact if_pos h_last
    rw [h_drop]
    constructor
    case counts => exact h_counts
    case fits => exact h_fits
    case dead =>
      intro d h_d
      rcases List.mem_append.mp h_d with h_d | h_d
      · exact h_dead d h_d
      · obtain rfl := List.mem_singleton.mp h_d
        exact h_none
    case destroyed_once =>
      rw [List.map_append, List.nodup_append]
      refine ⟨hk.destroyed_once, List.nodup_singleton _, ?_⟩
      intro i h_i j h_j
      obtain ⟨d, h_d, rfl⟩ := List.mem_map.mp h_i
      obtain rfl : j = o := by simpa using h_j
      exact hk.not_destroyed d h_d
    case destroyed_at_zero =>
      intro d h_d
      rcases List.mem_append.mp h_d with h_d | h_d
      · exact hk.destroyed_at_zero d h_d
      · obtain rfl := List.mem_singleton.mp h_d
        refine ⟨?_, fun a => ?_⟩
        · show (k.header o).refcount - 1#32 = 0#32
          rw [h_last]
          rfl
        · have h_entries : k.entries o = 0 := by
            rw [alive] at h_none
            omega
          exact Finset.sum_eq_zero_iff.mp h_entries a (Finset.mem_univ a)
  · have h_drop : k.koRefDrop o =
        { k with header := Function.update k.header o (k.header o).release.2 } := by
      rw [koRefDrop]
      exact if_neg h_last
    rw [h_drop]
    exact ⟨h_counts, h_fits, h_dead, hk.destroyed_once, hk.destroyed_at_zero⟩

/-- A caller's reference that it gives to the operation. -/
theorem Sound.give (hk : k.Sound []) (h : 0 < k.held o) : (k.give o).Sound [o] := by
  refine hk.move rfl rfl fun i => ?_
  rw [alive_give h, List.count_nil, Nat.add_zero]

/-- A reference of the operation that a caller receives. -/
theorem Sound.receive (hk : k.Sound [o]) : (k.receive o).Sound [] := by
  refine hk.move rfl rfl fun i => ?_
  rw [alive_receive, List.count_nil, Nat.add_zero]

/-- The creator releases its initial reference. -/
theorem Sound.releaseInitial (hk : k.Sound []) (h : k.initial o = true) :
    Sound { k with
      header := Function.update k.header o (k.header o).release.2
      initial := Function.update k.initial o false } [] := by
  have h_alive : ∀ i, Kernel.alive { k with
      header := Function.update k.header o (k.header o).release.2
      initial := Function.update k.initial o false } i + [o].count i = k.alive i := by
    intro i
    show k.entries i + k.held i + (if Function.update k.initial o false i then 1 else 0) + _ = _
    rw [alive, List.count_singleton']
    by_cases h_i : i = o
    · subst h_i
      rw [Function.update_self, h, if_pos rfl]
      rfl
    · rw [Function.update_of_ne h_i, if_neg (Ne.symm h_i)]
      rfl
  -- with the initial reference in hand, releasing it is what a drop does to the counts
  have h_taken : Sound { k with initial := Function.update k.initial o false } [o] := by
    refine hk.move rfl rfl fun i => ?_
    rw [List.count_nil, Nat.add_zero]
    exact h_alive i
  constructor
  case counts => exact counts_release h_taken
  case fits =>
    intro i
    have h_i := h_alive i
    have h_fits := hk.fits i
    rw [List.count_nil] at h_fits ⊢
    omega
  case dead =>
    intro d h_d
    have h_i := h_alive d.object
    have h_dead := hk.dead d h_d
    rw [List.count_nil] at h_dead ⊢
    omega
  case destroyed_once => exact hk.destroyed_once
  case destroyed_at_zero => exact hk.destroyed_at_zero

end Sound

-- ============================================================================
-- The blocks of the operations
-- ============================================================================

variable {a b : Addr}

omit [Fintype Addr] in
/-- Storing an entry in a free slot drops nothing. -/
theorem store_eq {idx : Nat} {slot : Slot Obj} (h : (k.tables a).slotAt idx = some slot)
    (h_free : slot.entry = none) (entry : HandleEntry Obj) :
    k.store a idx entry =
      .ok (Handle.pack slot.generation idx, k.setTable a ((k.tables a).occupy idx slot entry)) := by
  simp only [store, slotMut_eq h, allocate_eq h, bind, Except.bind, pure, Except.pure, h_free,
    dropEntry]

/-- The reference in hand goes into the slot that is filled. -/
theorem Sound.occupy (entry : HandleEntry Obj) (hk : k.Sound (entry.koRef :: hand)) {idx : Nat}
    {slot : Slot Obj} (h : (k.tables a).slotAt idx = some slot) (h_free : slot.entry = none) :
    (k.setTable a ((k.tables a).occupy idx slot entry)).Sound hand := by
  refine hk.move rfl rfl fun o => ?_
  have h_alive := alive_setTable k a ((k.tables a).occupy idx slot entry) o
  have h_hand := count_hand entry.koRef o hand
  rw [references_occupy h h_free] at h_alive
  omega

omit [LinearOrder Addr] [Fintype Addr] in
theorem koRefDrop_tables (k : Kernel Addr Obj) (o : Obj) : (k.koRefDrop o).tables = k.tables := by
  simp only [koRefDrop]
  split <;> rfl

/-- The table whose slot `idx` has lost its entry. -/
def cleared (t : HandleTable Obj) (idx : Nat) (slot : Slot Obj) : HandleTable Obj :=
  t.setSlot idx { slot with entry := none }

omit [DecidableEq Obj] in
/-- Freeing a slot writes over what clearing it has left. -/
theorem vacate_cleared (t : HandleTable Obj) (idx : Nat) (slot : Slot Obj) :
    (cleared t idx slot).vacate idx slot = t.vacate idx slot := by
  simp [cleared, HandleTable.vacate, setSlot]

omit [Fintype Addr] in
/-- Freeing an occupied slot drops its reference. -/
theorem vacateSlot_eq (idx : Nat) {slot : Slot Obj} {entry : HandleEntry Obj}
    (h_entry : slot.entry = some entry) (h_count : 0 < (k.tables a).count) :
    k.vacateSlot a idx slot =
      .ok (((k.setTable a (cleared (k.tables a) idx slot)).koRefDrop entry.koRef).setTable a
        ((k.tables a).vacate idx slot)) := by
  have h_table : ((k.setTable a (cleared (k.tables a) idx slot)).koRefDrop entry.koRef).tables a =
      cleared (k.tables a) idx slot := by
    rw [koRefDrop_tables]
    exact Function.update_self ..
  have h_release : (cleared (k.tables a) idx slot).release idx slot =
      .ok ((k.tables a).vacate idx slot) := by
    rw [release_eq (show 0 < (cleared (k.tables a) idx slot).count from h_count), vacate_cleared]
  simp only [vacateSlot, h_entry, dropEntry]
  change (do
    let t ← HandleTable.release
      (((k.setTable a (cleared (k.tables a) idx slot)).koRefDrop entry.koRef).tables a) idx slot
    _) = _
  rw [h_table, h_release]
  rfl

/-- The reference of an entry that is taken out is dropped. -/
theorem Sound.vacate {entry : HandleEntry Obj} (hk : k.Sound hand) {idx : Nat} {slot : Slot Obj}
    (h : (k.tables a).slotAt idx = some slot) (h_entry : slot.entry = some entry) :
    (((k.setTable a (cleared (k.tables a) idx slot)).koRefDrop entry.koRef).setTable a
      ((k.tables a).vacate idx slot)).Sound hand := by
  have h_clear : ∀ o, (cleared (k.tables a) idx slot).references o + [entry.koRef].count o =
      (k.tables a).references o := references_clear h h_entry rfl
  have h_vacate : ∀ o, ((k.tables a).vacate idx slot).references o + [entry.koRef].count o =
      (k.tables a).references o := references_clear h h_entry rfl
  -- the reference is in hand once the slot is cleared
  have h_taken : (k.setTable a (cleared (k.tables a) idx slot)).Sound (entry.koRef :: hand) := by
    refine hk.move rfl rfl fun o => ?_
    have h_alive := alive_setTable k a (cleared (k.tables a) idx slot) o
    have h_hand := count_hand entry.koRef o hand
    have h_o := h_clear o
    omega
  refine h_taken.drop.move rfl rfl fun o => ?_
  have h_alive := alive_setTable
    ((k.setTable a (cleared (k.tables a) idx slot)).koRefDrop entry.koRef) a
    ((k.tables a).vacate idx slot) o
  have h_table : (k.setTable a (cleared (k.tables a) idx slot)).tables a =
      cleared (k.tables a) idx slot := Function.update_self ..
  rw [koRefDrop_tables, h_table] at h_alive
  have h_o := h_clear o
  have h_o' := h_vacate o
  omega

-- ============================================================================
-- The operations
-- ============================================================================

omit [LinearOrder Addr] in
/-- An object with an entry is alive. -/
theorem alive_pos {handle : Handle} {entry : HandleEntry Obj}
    (h : (k.tables a).entryOf handle = some entry) : 0 < k.alive entry.koRef := by
  obtain ⟨slot, h_slot, -, h_entry⟩ := entryOf_eq_some.mp h
  have h_mem := List.mem_of_getElem? (slotAt_eq_some.mp h_slot)
  have h_one : 0 < (k.tables a).references entry.koRef :=
    List.countP_pos_iff.mpr ⟨_, h_mem, by simp [refersTo, h_entry]⟩
  have h_ne : k.entries entry.koRef ≠ 0 := by
    intro h_zero
    have h_none := Finset.sum_eq_zero_iff.mp h_zero a (Finset.mem_univ a)
    omega
  rw [alive]
  omega

omit [LinearOrder Addr] in
/-- The clone of the reference of an entry. -/
theorem Sound.cloneEntry (hk : k.Sound []) (h_room : ∀ o, k.alive o + 1 < 2 ^ 32)
    {handle : Handle} {entry : HandleEntry Obj}
    (h : (k.tables a).entryOf handle = some entry) :
    (k.koRefClone entry.koRef).Sound [entry.koRef] := by
  have h_pos := alive_pos h
  have h_fits := h_room entry.koRef
  exact hk.clone (by rw [List.count_nil]; omega) (by rw [List.count_nil]; omega)

theorem Sound.create (hs : RepInv (k.tables a)) {koRef : Obj} (hk : k.Sound [koRef])
    (rights : Rights) :
    ∃ result k' t, k.create a koRef rights = .ok (result, k') ∧ k'.Sound [] ∧
      (k.tables a).create koRef rights = .ok (result, t) ∧
      k'.tables = Function.update k.tables a t := by
  cases h_head : (k.tables a).freeHead with
  | none =>
      refine ⟨_, _, k.tables a, by rw [Kernel.create, h_head], hk.drop, ?_, ?_⟩
      · rw [HandleTable.create, h_head]
      · rw [koRefDrop_tables, Function.update_eq_self]
  | some idx =>
      obtain ⟨slot, h_slot, h_free⟩ := hs.freeHead_slot h_head
      have h_store := store_eq h_slot h_free ⟨koRef, rights⟩
      have h_call : k.create a koRef rights = .ok (.ok (Handle.pack slot.generation idx),
          k.setTable a ((k.tables a).occupy idx slot ⟨koRef, rights⟩)) := by
        simp only [Kernel.create, h_head, h_store, bind, Except.bind, pure, Except.pure]
      refine ⟨_, _, _, h_call, Sound.occupy ⟨koRef, rights⟩ hk h_slot h_free, ?_, rfl⟩
      simp only [HandleTable.create, h_head, allocate_eq h_slot, bind, Except.bind, pure,
        Except.pure]

theorem Sound.duplicate (hs : RepInv (k.tables a)) (hk : k.Sound [])
    (h_room : ∀ o, k.alive o + 1 < 2 ^ 32) (handle : Handle) (newRights : Rights) :
    ∃ result k' t, k.duplicate a handle newRights = .ok (result, k') ∧ k'.Sound [] ∧
      (k.tables a).duplicate handle newRights = .ok (result, t) ∧
      k'.tables = Function.update k.tables a t := by
  have h_same : k.tables = Function.update k.tables a (k.tables a) :=
    (Function.update_eq_self a k.tables).symm
  cases h_entry : (k.tables a).entryOf handle with
  | none =>
      exact ⟨_, _, _, by rw [Kernel.duplicate, h_entry], hk,
        by rw [HandleTable.duplicate, h_entry], h_same⟩
  | some entry =>
      by_cases h_rights : entry.rights.contains Rights.duplicate = true
      · cases h_head : (k.tables a).freeHead with
        | none =>
            refine ⟨.error .tableFull, k, k.tables a, ?_, hk, ?_, h_same⟩
            · simp only [Kernel.duplicate, h_entry, h_rights, if_true, h_head]
            · simp only [HandleTable.duplicate, h_entry, h_rights, if_true, h_head]
        | some idx =>
            obtain ⟨slot, h_slot, h_free⟩ := hs.freeHead_slot h_head
            have h_clone := hk.cloneEntry h_room h_entry
            have h_store := store_eq (k := k.koRefClone entry.koRef) h_slot h_free
              ⟨entry.koRef, entry.rights.downgrade newRights⟩
            have h_call : k.duplicate a handle newRights =
                .ok (.ok (Handle.pack slot.generation idx), (k.koRefClone entry.koRef).setTable a
                  ((k.tables a).occupy idx slot
                    ⟨entry.koRef, entry.rights.downgrade newRights⟩)) := by
              simp only [Kernel.duplicate, h_entry, h_rights, if_true, h_head, h_store, bind,
                Except.bind, pure, Except.pure]
              rfl
            have h_sound : ((k.koRefClone entry.koRef).setTable a ((k.tables a).occupy idx slot
                ⟨entry.koRef, entry.rights.downgrade newRights⟩)).Sound [] :=
              Sound.occupy ⟨entry.koRef, entry.rights.downgrade newRights⟩ h_clone h_slot h_free
            refine ⟨_, _, _, h_call, h_sound, ?_, rfl⟩
            simp only [HandleTable.duplicate, h_entry, h_rights, if_true, h_head,
              allocate_eq h_slot, bind, Except.bind, pure, Except.pure]
      · exact ⟨_, _, _, by rw [Kernel.duplicate, h_entry]; exact if_neg h_rights, hk,
          by rw [HandleTable.duplicate, h_entry]; exact if_neg h_rights, h_same⟩

theorem Sound.close (hs : RepInv (k.tables a)) (hk : k.Sound []) (handle : Handle) :
    ∃ result k' t, k.close a handle = .ok (result, k') ∧ k'.Sound [] ∧
      (k.tables a).close handle = .ok (result, t) ∧
      k'.tables = Function.update k.tables a t := by
  have h_same : k.tables = Function.update k.tables a (k.tables a) :=
    (Function.update_eq_self a k.tables).symm
  cases h_slot : (k.tables a).slotOf handle with
  | none =>
      exact ⟨_, _, _, by rw [Kernel.close, h_slot], hk, by rw [HandleTable.close, h_slot], h_same⟩
  | some slot =>
      cases h_entry : slot.entry with
      | none =>
          refine ⟨.ok (), k, k.tables a, ?_, hk, ?_, h_same⟩
          · simp only [Kernel.close, h_slot, h_entry]
          · simp only [HandleTable.close, h_slot, h_entry]
      | some entry =>
          have h_at := (slotOf_eq_some.mp h_slot).1
          have h_count := hs.count_pos h_at h_entry
          have h_vacate := vacateSlot_eq handle.index h_entry h_count
          refine ⟨.ok (), _, (k.tables a).vacate handle.index slot, ?_, hk.vacate h_at h_entry,
            ?_, ?_⟩
          · simp only [Kernel.close, h_slot, h_entry, h_vacate, bind, Except.bind, pure,
              Except.pure]
          · simp only [HandleTable.close, h_slot, h_entry, release_eq h_count, bind, Except.bind,
              pure, Except.pure]
          · show Function.update (Kernel.koRefDrop _ entry.koRef).tables a _ = _
            rw [koRefDrop_tables]
            exact Function.update_idem ..

theorem Sound.get (hk : k.Sound []) (h_room : ∀ o, k.alive o + 1 < 2 ^ 32) (handle : Handle)
    (a : Addr) :
    ∃ k', k.performRefs (.get a handle) = .ok (.entry ((k.tables a).get handle), k') ∧
      k'.Sound [] ∧ k'.tables = k.tables := by
  cases h_entry : (k.tables a).entryOf handle with
  | none =>
      refine ⟨k, ?_, hk, rfl⟩
      simp only [performRefs, Kernel.get, HandleTable.get, h_entry]
  | some entry =>
      have h_clone := hk.cloneEntry h_room h_entry
      refine ⟨(k.koRefClone entry.koRef).receive entry.koRef, ?_, h_clone.receive, rfl⟩
      simp only [performRefs, Kernel.get, HandleTable.get, h_entry]

theorem Sound.moveEntry (hs : ∀ a, RepInv (k.tables a)) (hk : k.Sound [])
    (h_room : ∀ o, k.alive o + 1 < 2 ^ 32) (h_ne : a ≠ b) (handle : Handle) :
    ∃ result k' first second, k.moveEntry a b handle = .ok (result, k') ∧ k'.Sound [] ∧
      HandleTable.moveEntry (k.tables a) (k.tables b) handle = .ok (result, first, second) ∧
      k'.tables = Function.update (Function.update k.tables b second) a first := by
  have h_same : k.tables =
      Function.update (Function.update k.tables b (k.tables b)) a (k.tables a) := by
    rw [Function.update_eq_self, Function.update_eq_self]
  cases h_entry : (k.tables a).entryOf handle with
  | none =>
      exact ⟨_, _, _, _, by rw [Kernel.moveEntry, h_entry], hk,
        by rw [HandleTable.moveEntry, h_entry], h_same⟩
  | some entry =>
      obtain ⟨slot, h_slot, -, h_some⟩ := entryOf_eq_some.mp h_entry
      by_cases h_rights : entry.rights.contains Rights.transfer = true
      · have h_clone := hk.cloneEntry h_room h_entry
        cases h_head : (k.tables b).freeHead with
        | none =>
            refine ⟨.error .tableFull, (k.koRefClone entry.koRef).koRefDrop entry.koRef, k.tables a,
              k.tables b, ?_, h_clone.drop, ?_, ?_⟩
            · have h_full : ((k.koRefClone entry.koRef).tables b).freeHead = none := h_head
              simp only [Kernel.moveEntry, h_entry, h_rights, if_true, h_full]
            · simp only [HandleTable.moveEntry, h_entry, h_rights, if_true, h_head]
            · rw [koRefDrop_tables]
              exact h_same
        | some idx =>
            obtain ⟨free, h_free, h_none⟩ := (hs b).freeHead_slot h_head
            have h_head' : ((k.koRefClone entry.koRef).tables b).freeHead = some idx := h_head
            have h_store := store_eq (k := k.koRefClone entry.koRef) h_free h_none entry
            -- the table locked first is as before when the entry is in the second
            obtain ⟨k', h_k'⟩ : ∃ k', k' = (k.koRefClone entry.koRef).setTable b
                (((k.koRefClone entry.koRef).tables b).occupy idx free entry) := ⟨_, rfl⟩
            have h_stored : k'.Sound [] := h_k' ▸ Sound.occupy entry h_clone h_free h_none
            have h_first : k'.tables a = k.tables a := by
              rw [h_k']
              exact Function.update_of_ne h_ne ..
            have h_slot' : (k'.tables a).slotAt handle.index = some slot := h_first ▸ h_slot
            have h_count : 0 < (k'.tables a).count := h_first ▸ (hs a).count_pos h_slot h_some
            have h_vacate := vacateSlot_eq handle.index h_some h_count
            rw [← h_k'] at h_store
            refine ⟨.ok (Handle.pack free.generation idx), _, (k.tables a).vacate handle.index slot,
              (k.tables b).occupy idx free entry, ?_, h_stored.vacate h_slot' h_some, ?_, ?_⟩
            · simp only [Kernel.moveEntry, h_entry, h_rights, if_true, h_head', h_store,
                slotMut_eq h_slot', h_vacate, bind, Except.bind, pure, Except.pure]
            · simp only [HandleTable.moveEntry, h_entry, h_rights, if_true, h_head,
                allocate_eq h_free, slotMut_eq h_slot,
                release_eq ((hs a).count_pos h_slot h_some), bind, Except.bind, pure, Except.pure]
            · show Function.update (Kernel.koRefDrop _ entry.koRef).tables a _ = _
              rw [koRefDrop_tables, h_first, h_k']
              exact Function.update_idem ..
      · exact ⟨_, _, _, _, by rw [Kernel.moveEntry, h_entry]; exact if_neg h_rights, hk,
          by rw [HandleTable.moveEntry, h_entry]; exact if_neg h_rights, h_same⟩

/-- A call returns, answers and changes the tables as `perform` does, and keeps
    the counts right. -/
theorem Sound.performRefs (hs : ∀ a, RepInv (k.tables a)) (hk : k.Sound [])
    (h_room : ∀ o, k.alive o + 1 < 2 ^ 32) {call : Call Addr Obj}
    (h_self : call.selfTransfer = false) (h_can : k.canCall call = true) :
    ∃ answer k', k.performRefs call = .ok (answer, k') ∧ k'.Sound [] ∧
      perform k.tables call = .ok (answer, k'.tables) := by
  cases call with
  | create a koRef rights =>
      have h_held : 0 < k.held koRef := of_decide_eq_true h_can
      obtain ⟨result, k', t, h_call, h_sound, h_table, h_tables⟩ :=
        Sound.create (k := k.give koRef) (hs a) (hk.give h_held) rights
      have h_table' : (k.tables a).create koRef rights = .ok (result, t) := h_table
      refine ⟨.handle result, k', ?_, h_sound, ?_⟩
      · simp only [Kernel.performRefs, h_call, bind, Except.bind, pure, Except.pure]
      · rw [h_tables]
        simp only [perform, h_table', bind, Except.bind, pure, Except.pure]
        rfl
  | get a handle =>
      obtain ⟨k', h_call, h_sound, h_tables⟩ := hk.get h_room handle a
      refine ⟨_, k', h_call, h_sound, ?_⟩
      rw [h_tables]
      rfl
  | duplicate a handle newRights =>
      obtain ⟨result, k', t, h_call, h_sound, h_table, h_tables⟩ :=
        Sound.duplicate (hs a) hk h_room handle newRights
      refine ⟨.handle result, k', ?_, h_sound, ?_⟩
      · simp only [Kernel.performRefs, h_call, bind, Except.bind, pure, Except.pure]
      · rw [h_tables]
        simp only [perform, h_table, bind, Except.bind, pure, Except.pure]
  | close a handle =>
      obtain ⟨result, k', t, h_call, h_sound, h_table, h_tables⟩ := Sound.close (hs a) hk handle
      refine ⟨.closed result, k', ?_, h_sound, ?_⟩
      · simp only [Kernel.performRefs, h_call, bind, Except.bind, pure, Except.pure]
      · rw [h_tables]
        simp only [perform, h_table, bind, Except.bind, pure, Except.pure]
  | transfer a handle b =>
      have h_ne := Call.ne_of_selfTransfer h_self
      by_cases h_lt : a < b
      · obtain ⟨result, k', first, second, h_call, h_sound, h_move, h_tables⟩ :=
          Sound.moveEntry hs hk h_room h_ne handle
        refine ⟨.handle result, k', ?_, h_sound, ?_⟩
        · simp only [Kernel.performRefs, lockOrder, h_lt, if_true, h_call, bind, Except.bind, pure,
            Except.pure]
        · rw [h_tables, Function.update_comm h_ne.symm]
          simp only [perform, transfer_eq_of_lt h_lt, h_move, bind, Except.bind, pure, Except.pure]
      · obtain ⟨result, k', first, second, h_call, h_sound, h_move, h_tables⟩ :=
          Sound.moveEntry hs hk h_room h_ne.symm handle
        refine ⟨.handle result, k', ?_, h_sound, ?_⟩
        · simp only [Kernel.performRefs, lockOrder, h_lt, if_false, h_call, bind, Except.bind, pure,
            Except.pure]
        · rw [h_tables]
          simp only [perform, transfer_eq_of_not_lt h_lt, h_move, Except.map, bind, Except.bind,
            pure, Except.pure]

end Kernel

-- ============================================================================
-- Runs
-- ============================================================================

variable [Fintype Addr] {capacity : Addr → Nat} {k k' : Kernel Addr Obj}

/-- Every action keeps the tables and the counts right. -/
theorem step_refs (hs : ∀ a, RepInv (k.tables a)) (hk : k.Sound [])
    (h_room : ∀ o, k.alive o < 2 ^ 32 - 1) {action : RefAction Addr Obj}
    (h : (kernel capacity).step k action = some k') :
    (∀ a, RepInv (k'.tables a)) ∧ k'.Sound [] := by
  have h_room' : ∀ o, k.alive o + 1 < 2 ^ 32 := by
    intro o
    have := h_room o
    omega
  -- taking a reference to an object that has one
  have h_take : ∀ o, 0 < k.alive o → ((k.koRefClone o).receive o).Sound [] := by
    intro o h_live
    have h_fits := h_room' o
    exact (hk.clone (by rw [List.count_nil]; omega) (by rw [List.count_nil]; omega)).receive
  change stepRefs k action = some k' at h
  cases action with
  | new o =>
      simp only [stepRefs, Option.ite_none_right_eq_some, Option.some.injEq] at h
      obtain ⟨h_ne, rfl⟩ := h
      have h_counts : Counts (k.header o).refcount (k.alive o) := hk.counts o
      exact ⟨hs, h_take o (h_counts.pos h_ne)⟩
  | clone o =>
      simp only [stepRefs, Option.ite_none_right_eq_some, Option.some.injEq] at h
      obtain ⟨h_held, rfl⟩ := h
      refine ⟨hs, h_take o ?_⟩
      rw [Kernel.alive]
      omega
  | drop o =>
      simp only [stepRefs, Option.ite_none_right_eq_some, Option.some.injEq] at h
      obtain ⟨h_held, rfl⟩ := h
      refine ⟨?_, (hk.give h_held).drop⟩
      rw [Kernel.koRefDrop_tables]
      exact hs
  | releaseInitial o =>
      simp only [stepRefs, Option.ite_none_right_eq_some, Option.some.injEq] at h
      obtain ⟨h_initial, rfl⟩ := h
      exact ⟨hs, hk.releaseInitial h_initial⟩
  | call call =>
      simp only [stepRefs, Option.ite_none_right_eq_some] at h
      obtain ⟨⟨h_self, h_can⟩, h⟩ := h
      obtain ⟨answer, k'', h_call, h_sound, h_tables⟩ := hk.performRefs hs h_room' h_self h_can
      rw [h_call] at h
      obtain rfl : k'' = k' := Option.some.inj h
      exact ⟨fun c => (hs c).step (perform_table h_self h_tables c).tableStep, h_sound⟩

theorem sound_kernel (capacity : Addr → Nat) :
    ((kernel capacity : Machine (Kernel Addr Obj) _).init).Sound [] := by
  have h_alive : ∀ o, ((kernel capacity : Machine (Kernel Addr Obj) _).init).alive o = 1 := by
    intro o
    show (∑ a, (new (capacity a) : HandleTable Obj).references o) + 0 + 1 = 1
    rw [Finset.sum_eq_zero fun a _ => references_new (capacity a) o]
  constructor
  case counts =>
    intro o
    rw [h_alive]
    exact Counts.one
  case fits =>
    intro o
    rw [h_alive, List.count_nil]
    decide
  case dead => exact fun d h_d => absurd h_d List.not_mem_nil
  case destroyed_once => exact List.nodup_nil
  case destroyed_at_zero => exact fun d h_d => absurd h_d List.not_mem_nil

/-- The reference counts match the references, and an object is destroyed once,
    with its last one. -/
structure RefCountsMatch (k : Kernel Addr Obj) : Prop where
  /-- The count is the number of table entries and of `KoRef`s of the callers,
      and one more until the creator has released its reference. -/
  refcount_eq : ∀ o,
    (k.header o).refcount.toNat = k.entries o + k.held o + if k.initial o then 1 else 0
  /-- No object is destroyed twice. -/
  destroyed_once : (k.destroyed.map Destroy.object).Nodup
  /-- The release before an `on_destroy` has taken the count to zero. -/
  destroyed_at_zero : ∀ d ∈ k.destroyed, d.refcount = 0#32
  /-- No entry of any table refers to an object when it is destroyed. -/
  destroyed_unreferenced : ∀ d ∈ k.destroyed, ∀ a idx entry,
    (d.tables a).entryAt idx = some entry → entry.koRef ≠ d.object
  /-- Nor does anything later. -/
  destroyed_dead : ∀ d ∈ k.destroyed, k.alive d.object = 0

/-- In every run with fewer than `2^32 - 1` references to an object at any time,
    the counts match the references. -/
theorem refCountsMatch_of_calls (h_cap : ∀ a, 1 ≤ capacity a)
    {actions : List (RefAction Addr Obj)}
    (h_room : (kernel capacity).StepsMeet (fun k _ => ∀ o, k.alive o < 2 ^ 32 - 1)
      (kernel capacity).init actions)
    (h_run : (kernel capacity).exec (kernel capacity).init actions = some k) :
    RefCountsMatch k := by
  obtain ⟨-, hk⟩ := Machine.exec_invariant
    (P := fun k : Kernel Addr Obj => (∀ a, RepInv (k.tables a)) ∧ k.Sound [])
    (fun _ _ _ hk h_room h => step_refs hk.1 hk.2 h_room h)
    ⟨fun a => repInv_new (h_cap a), sound_kernel capacity⟩ h_room h_run
  constructor
  case refcount_eq => exact fun o => (hk.counts o).toNat_eq (hk.fits o)
  case destroyed_once => exact hk.destroyed_once
  case destroyed_at_zero => exact fun d h_d => (hk.destroyed_at_zero d h_d).1
  case destroyed_unreferenced =>
    exact fun d h_d a _ _ h_entry => ne_of_references ((hk.destroyed_at_zero d h_d).2 a) h_entry
  case destroyed_dead => exact hk.dead

/-- A run with each of the errors of a full table, in which the entry that a
    `close` drops is the last reference. -/
def closedLast : List (RefAction Bool Bool) :=
  [.new false, .call (.create false false Rights.all), .new false,
    .call (.create false false Rights.all), .new true, .call (.create true true Rights.all),
    .call (.transfer false ⟨0⟩ true), .call (.duplicate false ⟨0⟩ Rights.all),
    .call (.get false ⟨0⟩), .clone false, .drop false, .drop false, .releaseInitial false,
    .call (.close false ⟨0⟩)]

theorem refCountsMatch_closedLast :
    ∃ k, (kernel fun _ => 1).exec (kernel fun _ => 1).init closedLast = some k ∧
      k.destroyed.map Destroy.object = [false] ∧ RefCountsMatch k := by
  have h_replay : ((kernel fun _ => 1).exec (kernel fun _ => 1).init closedLast).any
      (fun k => decide (k.destroyed.map Destroy.object = [false])) = true := by decide +kernel
  obtain ⟨k, h_run, h_destroyed⟩ := Machine.exec_of_decide h_replay
  exact ⟨k, h_run, h_destroyed,
    refCountsMatch_of_calls (fun _ => le_refl 1) (by decide +kernel) h_run⟩

end HandleTable
end Zydon
