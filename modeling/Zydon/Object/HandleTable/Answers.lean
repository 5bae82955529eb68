/-
  Zydon.Object.HandleTable.Answers

  What the calls on a family of tables answer, in every reachable state and for
  every 64-bit handle value.

  `close` makes the two tests of `get` on the slot of the handle, but answers
  `Ok` when the slot is free: a handle with the generation that the slot will be
  given out with next passes.  No call panics, and a table is full when all of
  its slots are taken, if the table has a slot at all: `new` sets the head of
  the free list of a table without slots to slot 0.
-/

import Zydon.Object.HandleTable.Family

namespace Zydon
namespace HandleTable

open Lib

variable {Addr Obj : Type} [LinearOrder Addr] {capacity : Addr → Nat}

-- ============================================================================
-- Tables of any capacity
-- ============================================================================

/-- A table has its invariant, or no slots. -/
theorem repInv_or_new {s : Tables Addr Obj} (h : (family capacity).Reachable s) (a : Addr) :
    RepInv (s a) ∨ s a = new 0 := by
  refine h.invariant (P := fun s => RepInv (s a) ∨ s a = new 0) ?_ ?_
  · by_cases h_cap : capacity a = 0
    · exact .inr (congrArg new h_cap)
    · exact .inl (repInv_new (Nat.one_le_iff_ne_zero.mpr h_cap))
  · rintro s call s' (h_inv | h_new) h_step
    · exact .inl (RepInv.stepCall h_step h_inv)
    · right
      obtain ⟨h_self, answer, h_perform⟩ := step_eq_some h_step
      have h_none : ∀ idx slot, (s a).slotAt idx ≠ some slot := by
        intro idx slot h_slot
        rw [h_new, slotAt_new] at h_slot
        exact absurd h_slot (by simp)
      have h_same : ∀ t, TableStep (s a) t → t = s a := by
        intro t h_table
        cases h_table with
        | same => rfl
        | occupy entry _ h_slot => exact absurd h_slot (h_none _ _)
        | vacate h_slot _ => exact absurd h_slot (h_none _ _)
      rw [h_same (s' a) (perform_table h_self h_perform a).tableStep, h_new]

/-- The slots of a table are those it was created with. -/
theorem length_of_reachable {s : Tables Addr Obj} (h : (family capacity).Reachable s) (a : Addr) :
    (s a).slots.length = capacity a := by
  refine h.invariant (P := fun s => (s a).slots.length = capacity a) ?_ ?_
  · exact new_length (capacity a)
  · intro s call s' h_length h_step
    rw [length_stepCall h_step, h_length]

-- ============================================================================
-- `close`
-- ============================================================================

/-- `close` succeeds exactly on the handles that resolve: such a handle no longer
    does, and the others do as before; any other is refused, and the table left
    as it is. -/
def ClosesLive (t : HandleTable Obj) (handle : Handle) : Prop :=
  (∀ entry, t.get handle = some entry →
    ∃ t', t.close handle = .ok (.ok (), t') ∧ t'.get handle = none ∧
      ∀ k, k ≠ handle → t'.get k = t.get k) ∧
  (t.get handle = none → t.close handle = .ok (.error .invalidHandle, t))

/-- The handle has the index and the current generation of a free slot. -/
def NamesFreeSlot (t : HandleTable Obj) (handle : Handle) : Prop :=
  ∃ slot, t.slotOf handle = some slot ∧ slot.entry = none

variable {t : HandleTable Obj} {handle : Handle}

/-- A new table resolves no handle. -/
theorem get_new (n : Nat) (handle : Handle) : (new n : HandleTable Obj).get handle = none := by
  rw [get_eq_map, Option.map_eq_none_iff, Option.eq_none_iff_forall_ne_some]
  intro entry h_live
  obtain ⟨slot, h_slot, -, h_entry⟩ := entryOf_eq_some.mp h_live
  have h_none : (new n : HandleTable Obj).entryAt handle.index = none := entryAt_new n _
  rw [entryAt, h_slot, Option.bind_some, h_entry] at h_none
  exact absurd h_none (by simp)

theorem close_of_live (ht : RepInv t) {entry : Obj × Rights} (h : t.get handle = some entry) :
    ∃ t', t.close handle = .ok (.ok (), t') ∧ t'.get handle = none ∧
      ∀ k, k ≠ handle → t'.get k = t.get k := by
  rw [get_eq_map, Option.map_eq_some_iff] at h
  obtain ⟨e, h_live, -⟩ := h
  obtain ⟨slot, h_slot, h_gen, h_entry⟩ := entryOf_eq_some.mp h_live
  have h_of : t.slotOf handle = some slot := slotOf_eq_some.mpr ⟨h_slot, h_gen⟩
  refine ⟨t.vacate handle.index slot, ?_, ?_, fun k h_ne => ?_⟩
  · have h_release := release_eq (ht.count_pos h_slot h_entry) handle.index slot
    simp only [close, h_of, h_entry, h_release]
    rfl
  · rw [get_vacate h_slot h_gen, if_pos rfl]
  · rw [get_vacate h_slot h_gen, if_neg h_ne]

theorem close_of_namesFreeSlot (h : NamesFreeSlot t handle) :
    t.get handle = none ∧ t.close handle = .ok (.ok (), t) := by
  obtain ⟨slot, h_of, h_entry⟩ := h
  constructor
  · simp [get_eq_map, entryOf, h_of, h_entry]
  · simp only [close, h_of, h_entry]

theorem close_of_dead (h : t.get handle = none) (h_free : ¬ NamesFreeSlot t handle) :
    t.close handle = .ok (.error .invalidHandle, t) := by
  cases h_of : t.slotOf handle with
  | none => simp only [close, h_of]
  | some slot =>
      have h_entry : slot.entry = none := by
        simpa [get_eq_map, entryOf, h_of] using h
      exact absurd ⟨slot, h_of, h_entry⟩ h_free

/-- In every reachable state `close` does what it should exactly on the handles
    that do not name a free slot. -/
theorem closesLive_iff {s : Tables Addr Obj} (h : (family capacity).Reachable s) (a : Addr)
    (handle : Handle) : ClosesLive (s a) handle ↔ ¬ NamesFreeSlot (s a) handle := by
  constructor
  · rintro ⟨-, h_dead⟩ h_free
    obtain ⟨h_get, h_close⟩ := close_of_namesFreeSlot h_free
    rw [h_dead h_get] at h_close
    exact absurd h_close (by simp)
  · intro h_free
    refine ⟨fun entry h_get => ?_, fun h_get => close_of_dead h_get h_free⟩
    rcases repInv_or_new h a with h_inv | h_new
    · exact close_of_live h_inv h_get
    · rw [h_new, get_new] at h_get
      exact absurd h_get (by simp)

theorem closesLive_created :
    ∃ s : Tables (Fin 1) Nat, (family fun _ => 2).exec (family fun _ => 2).init
        [.create 0 7 Rights.all] = some s ∧
      (s 0).get ⟨0⟩ = some (7, Rights.all) ∧ ClosesLive (s 0) ⟨0⟩ := by
  obtain ⟨s, h_run, h_live⟩ : ∃ s : Tables (Fin 1) Nat,
      (family fun _ => 2).exec (family fun _ => 2).init [.create 0 7 Rights.all] = some s ∧
        (s 0).get ⟨0⟩ = some (7, Rights.all) :=
    Machine.exec_of_decide (by decide)
  refine ⟨s, h_run, h_live, (closesLive_iff ⟨_, h_run⟩ 0 ⟨0⟩).mpr fun h_free => ?_⟩
  rw [(close_of_namesFreeSlot h_free).1] at h_live
  exact absurd h_live (by simp)

/-- On a new table `close(0)` answers `Ok`, although `get(0)` finds nothing. -/
theorem close_free_slot :
    (family fun _ : Fin 1 => 1).Reachable (fun _ : Fin 1 => (new 1 : HandleTable Nat)) ∧
      (new 1 : HandleTable Nat).get ⟨0⟩ = none ∧
      (new 1 : HandleTable Nat).close ⟨0⟩ = .ok (.ok (), new 1) ∧
      ¬ ClosesLive (new 1 : HandleTable Nat) ⟨0⟩ := by
  refine ⟨⟨[], rfl⟩, by decide, rfl, ?_⟩
  rintro ⟨-, h_dead⟩
  exact absurd (h_dead (by decide)) (by simp [close, slotOf]; decide)

-- ============================================================================
-- Panics and full tables
-- ============================================================================

/-- In the state `s` no call panics, and `create`, and `duplicate` of a handle
    that may be duplicated, answer `TableFull` exactly when there are as many
    entries as the table was created with slots. -/
structure CallsReturn (capacity : Addr → Nat) (s : Tables Addr Obj) : Prop where
  returns : ∀ call, call.selfTransfer = false → ∃ answer s', perform s call = .ok (answer, s')
  create_full : ∀ a koRef rights, (∃ t, (s a).create koRef rights = .ok (.error .tableFull, t)) ↔
    (s a).occupied = capacity a
  duplicate_full : ∀ a handle koRef rights newRights, (s a).get handle = some (koRef, rights) →
    rights.contains Rights.duplicate = true →
    ((∃ t, (s a).duplicate handle newRights = .ok (.error .tableFull, t)) ↔
      (s a).occupied = capacity a)

theorem isFull_iff (t : HandleTable Obj) : t.isFull = true ↔ t.occupied = t.slots.length := by
  rw [isFull, List.all_eq_true, occupied, List.countP_eq_length]

/-- The free list is empty when every slot is taken. -/
theorem RepInv.freeHead_eq_none_iff_occupied (ht : RepInv t) :
    t.freeHead = none ↔ t.occupied = t.slots.length :=
  ht.freeHead_eq_none_iff_isFull.trans (isFull_iff t)

theorem RepInv.create_full_iff (ht : RepInv t) (koRef : Obj) (rights : Rights) :
    (∃ t', t.create koRef rights = .ok (.error .tableFull, t')) ↔
      t.occupied = t.slots.length := by
  rw [← ht.freeHead_eq_none_iff_occupied]
  cases h_head : t.freeHead with
  | none => exact iff_of_true ⟨t, by simp only [create, h_head]⟩ rfl
  | some idx =>
      obtain ⟨r, h_alloc⟩ := ht.allocate_head h_head ⟨koRef, rights⟩
      refine iff_of_false ?_ (by simp)
      rintro ⟨t', h_create⟩
      simp [create, h_head, h_alloc, bind, Except.bind, pure, Except.pure] at h_create

theorem RepInv.duplicate_full_iff (ht : RepInv t) {koRef : Obj} {rights : Rights}
    (h_get : t.get handle = some (koRef, rights))
    (h_rights : rights.contains Rights.duplicate = true) (newRights : Rights) :
    (∃ t', t.duplicate handle newRights = .ok (.error .tableFull, t')) ↔
      t.occupied = t.slots.length := by
  rw [get_eq_map, Option.map_eq_some_iff] at h_get
  obtain ⟨entry, h_entry, h_pair⟩ := h_get
  obtain ⟨-, rfl⟩ := Prod.mk.inj h_pair
  rw [← ht.freeHead_eq_none_iff_occupied]
  cases h_head : t.freeHead with
  | none => exact iff_of_true ⟨t, by simp only [duplicate, h_entry, h_rights, h_head, if_true]⟩ rfl
  | some idx =>
      obtain ⟨r, h_alloc⟩ :=
        ht.allocate_head h_head ⟨entry.koRef, entry.rights.downgrade newRights⟩
      refine iff_of_false ?_ (by simp)
      rintro ⟨t', h_duplicate⟩
      simp [duplicate, h_entry, h_rights, h_head, h_alloc, bind, Except.bind, pure,
        Except.pure] at h_duplicate

/-- Where every table has a slot, every call returns. -/
theorem callsReturn_of_pos (h_cap : ∀ a, 0 < capacity a) {s : Tables Addr Obj}
    (h : (family capacity).Reachable s) : CallsReturn capacity s := by
  have h_inv : ∀ a, RepInv (s a) := by
    intro a
    rcases repInv_or_new h a with h_inv | h_new
    · exact h_inv
    · have h_length := length_of_reachable h a
      rw [h_new, new_length] at h_length
      exact absurd (h_cap a) (by omega)
  constructor
  case returns => exact fun call _ => perform_returns h_inv call
  case create_full =>
    intro a koRef rights
    rw [← length_of_reachable h a]
    exact (h_inv a).create_full_iff koRef rights
  case duplicate_full =>
    intro a handle koRef rights newRights h_get h_rights
    rw [← length_of_reachable h a]
    exact (h_inv a).duplicate_full_iff h_get h_rights newRights

/-- `create` on a table without slots looks at slot 0. -/
theorem create_new_zero (koRef : Obj) (rights : Rights) :
    (new 0).create koRef rights = .error .indexOutOfBounds := rfl

theorem not_callsReturn_of_zero [Inhabited Obj] {a : Addr} (h_cap : capacity a = 0) :
    ¬ CallsReturn capacity (family capacity : Machine (Tables Addr Obj) _).init := by
  intro h
  obtain ⟨answer, s', h_create⟩ := h.returns (.create a default Rights.all) rfl
  have h_new : (family capacity : Machine (Tables Addr Obj) _).init a = new 0 :=
    congrArg new h_cap
  simp [perform, h_new, create_new_zero, bind, Except.bind] at h_create

/-- On a family of tables no sequence of calls between distinct tables panics,
    and the tables are full when all of their slots are taken, exactly when every
    table was created with a slot. -/
theorem callsReturn_iff [Inhabited Obj] (capacity : Addr → Nat) :
    (∀ s : Tables Addr Obj, (family capacity).Reachable s → CallsReturn capacity s) ↔
      ∀ a, 0 < capacity a := by
  constructor
  · intro h a
    by_contra h_zero
    exact not_callsReturn_of_zero (Nat.eq_zero_of_not_pos h_zero) (h _ ⟨[], rfl⟩)
  · exact fun h_cap s h => callsReturn_of_pos h_cap h

/-- `HandleTable::new(0)`, then `create`. -/
theorem create_on_empty_panics :
    perform (family fun _ : Fin 1 => 0).init (.create 0 7 Rights.all : Call (Fin 1) Nat) =
        .error .indexOutOfBounds ∧
      ¬ ∀ s : Tables (Fin 1) Nat, (family fun _ => 0).Reachable s →
        CallsReturn (fun _ => 0) s := by
  refine ⟨rfl, fun h => ?_⟩
  obtain ⟨answer, s', h_create⟩ := (h _ ⟨[], rfl⟩).returns (.create 0 7 Rights.all) rfl
  exact nomatch h_create

end HandleTable
end Zydon
