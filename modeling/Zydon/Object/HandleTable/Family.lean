/-
  Zydon.Object.HandleTable.Family

  Whole runs over a family of handle tables, each at its own address:
  any sequence of `create`, `get`, `duplicate`, `close` and `transfer`, with
  any arguments.

  `perform_table` says what one call does to one table, and
  `perform_issues` what the calls that issue a handle have done; the absence
  of panics (`perform_returns`) and the representation invariant
  (`repInv_of_calls`) follow for every run.
-/

import Zydon.Lib.Machine
import Zydon.Object.HandleTable.Transfer

namespace Zydon
namespace HandleTable

open Lib

-- ============================================================================
-- Calls
-- ============================================================================

/-- The tables of a system, by address. -/
abbrev Tables (Addr Obj : Type) := Addr → HandleTable Obj

/-- A call on the tables. -/
inductive Call (Addr Obj : Type) where
  | create (table : Addr) (koRef : Obj) (rights : Rights)
  | get (table : Addr) (handle : Handle)
  | duplicate (table : Addr) (handle : Handle) (newRights : Rights)
  | close (table : Addr) (handle : Handle)
  | transfer (self : Addr) (handle : Handle) (dest : Addr)

/-- What a call returns. -/
inductive Answer (Obj : Type) where
  | handle (result : Except HandleError Handle)
  | closed (result : Except HandleError Unit)
  | entry (result : Option (Obj × Rights))

variable {Addr Obj : Type} [LinearOrder Addr]

/-- The call is a `transfer` from a table to itself, which never gets the
    second of its two locks. -/
def Call.selfTransfer : Call Addr Obj → Bool
  | .transfer self _ dest => self == dest
  | _ => false

/-- The tables in the order `transfer` locks them: it moves the entry from the
    first to the second. -/
def lockOrder (self dest : Addr) : Addr × Addr := if self < dest then (self, dest) else (dest, self)

/-- Run one call. -/
def perform (s : Tables Addr Obj) : Call Addr Obj → Except Panic (Answer Obj × Tables Addr Obj)
  | .create a koRef rights => do
      let (result, t) ← (s a).create koRef rights
      return (.handle result, Function.update s a t)
  | .get a handle => .ok (.entry ((s a).get handle), s)
  | .duplicate a handle newRights => do
      let (result, t) ← (s a).duplicate handle newRights
      return (.handle result, Function.update s a t)
  | .close a handle => do
      let (result, t) ← (s a).close handle
      return (.closed result, Function.update s a t)
  | .transfer a handle b => do
      let (result, ta, tb) ← HandleTable.transfer a b (s a) (s b) handle
      return (.handle result, Function.update (Function.update s a ta) b tb)

/-- The tables after a call that returns. -/
def stepCall (s : Tables Addr Obj) (call : Call Addr Obj) : Option (Tables Addr Obj) :=
  if call.selfTransfer then none
  else
    match perform s call with
    | .ok (_, s') => some s'
    | .error _ => none

/-- The family of the tables created with the capacities `capacity`. -/
def family (capacity : Addr → Nat) : Machine (Tables Addr Obj) (Call Addr Obj) where
  init := fun a => new (capacity a)
  step := stepCall

theorem step_eq_some {capacity : Addr → Nat} {s s' : Tables Addr Obj} {call : Call Addr Obj}
    (h : (family capacity).step s call = some s') :
    call.selfTransfer = false ∧ ∃ answer, perform s call = .ok (answer, s') := by
  simp only [family, stepCall] at h
  split at h
  · exact absurd h (by simp)
  · next h_self =>
      refine ⟨by simpa using h_self, ?_⟩
      cases h_perform : perform s call with
      | error e => simp [h_perform] at h
      | ok r =>
          simp only [h_perform, Option.some.injEq] at h
          exact ⟨r.1, by rw [← h]⟩

-- ============================================================================
-- Issued and removed handles
-- ============================================================================

/-- The call issues handle `handle` of table `table`, for an entry with the
    object and rights `entry`: the handle it returns is the one of the slot of
    `table` in which it has stored that entry. -/
inductive Issues (s : Tables Addr Obj) :
    Call Addr Obj → Answer Obj → Addr → Handle → Obj × Rights → Prop where
  | create {a : Addr} {koRef : Obj} {rights : Rights} {handle : Handle} :
      Issues s (.create a koRef rights) (.handle (.ok handle)) a handle (koRef, rights)
  | duplicate {a : Addr} {source handle : Handle} {koRef : Obj} {held asked : Rights} :
      (s a).get source = some (koRef, held) →
      Issues s (.duplicate a source asked) (.handle (.ok handle)) a handle
        (koRef, held.downgrade asked)
  | transfer {a b : Addr} {source handle : Handle} {entry : Obj × Rights} :
      (s (lockOrder a b).1).get source = some entry →
      Issues s (.transfer a source b) (.handle (.ok handle)) (lockOrder a b).2 handle entry

/-- The call removes the entry of handle `handle` of table `table`: it closes
    it, or moves it out. -/
inductive Removes : Call Addr Obj → Answer Obj → Addr → Handle → Prop where
  | close {a : Addr} {handle : Handle} : Removes (.close a handle) (.closed (.ok ())) a handle
  | transfer {a b : Addr} {handle moved : Handle} :
      Removes (.transfer a handle b) (.handle (.ok moved)) (lockOrder a b).1 handle

-- ============================================================================
-- What one call does to one table
-- ============================================================================

/-- The change one call makes to table `table`, from `t` to `t'`: none, a slot
    filled and its handle issued, or the slot of a live handle emptied. -/
inductive TableEffect (call : Call Addr Obj) (answer : Answer Obj) (table : Addr)
    (t : HandleTable Obj) : HandleTable Obj → Prop where
  | same : TableEffect call answer table t t
  | issued {idx : Nat} {slot : Slot Obj} (entry : HandleEntry Obj) :
      t.freeHead = some idx → t.slotAt idx = some slot →
      TableEffect call answer table t (t.occupy idx slot entry)
  | removed {handle : Handle} {slot : Slot Obj} {entry : HandleEntry Obj} :
      Removes call answer table handle → t.slotAt handle.index = some slot →
      slot.generation = handle.generation → slot.entry = some entry →
      TableEffect call answer table t (t.vacate handle.index slot)

theorem TableEffect.tableStep {call : Call Addr Obj} {answer : Answer Obj} {table : Addr}
    {t t' : HandleTable Obj} (h : TableEffect call answer table t t') :
    TableStep t t' := by
  cases h with
  | same => exact .same
  | issued entry h_head h_slot => exact .occupy entry h_head h_slot
  | removed _ h_slot _ h_entry => exact .vacate h_slot h_entry

/-- `create` fills the free head, or refuses and changes nothing. -/
theorem create_ok {t t' : HandleTable Obj} {koRef : Obj} {rights : Rights}
    {result : Except HandleError Handle} (h : t.create koRef rights = .ok (result, t')) :
    (∃ error, result = .error error ∧ t' = t) ∨
    ∃ idx slot, t.freeHead = some idx ∧ t.slotAt idx = some slot ∧
      result = .ok (Handle.pack slot.generation idx) ∧ t' = t.occupy idx slot ⟨koRef, rights⟩ := by
  unfold create at h
  split at h
  · simp only [Except.ok.injEq, Prod.mk.injEq] at h
    exact .inl ⟨_, h.1.symm, h.2.symm⟩
  · next idx h_head =>
      obtain ⟨r, h_alloc, h⟩ := bind_eq_ok.mp h
      obtain ⟨slot, h_slot, h_r1, h_r2⟩ := allocate_ok h_alloc
      simp only [pure, Except.pure, Except.ok.injEq, Prod.mk.injEq] at h
      exact .inr ⟨idx, slot, h_head, h_slot, by rw [← h.1, h_r1], by rw [← h.2, h_r2]⟩

/-- `duplicate` fills the free head with a copy of lesser rights, or refuses
    and changes nothing. -/
theorem duplicate_ok {t t' : HandleTable Obj} {handle : Handle} {newRights : Rights}
    {result : Except HandleError Handle} (h : t.duplicate handle newRights = .ok (result, t')) :
    (∃ error, result = .error error ∧ t' = t) ∨
    ∃ entry idx slot, t.entryOf handle = some entry ∧ t.freeHead = some idx ∧
      t.slotAt idx = some slot ∧ result = .ok (Handle.pack slot.generation idx) ∧
      t' = t.occupy idx slot ⟨entry.koRef, entry.rights.downgrade newRights⟩ := by
  unfold duplicate at h
  split at h
  · simp only [Except.ok.injEq, Prod.mk.injEq] at h
    exact .inl ⟨_, h.1.symm, h.2.symm⟩
  · next entry h_entry =>
      split at h
      · split at h
        · simp only [Except.ok.injEq, Prod.mk.injEq] at h
          exact .inl ⟨_, h.1.symm, h.2.symm⟩
        · next idx h_head =>
            obtain ⟨r, h_alloc, h⟩ := bind_eq_ok.mp h
            obtain ⟨slot, h_slot, h_r1, h_r2⟩ := allocate_ok h_alloc
            simp only [pure, Except.pure, Except.ok.injEq, Prod.mk.injEq] at h
            exact .inr ⟨entry, idx, slot, h_entry, h_head, h_slot, by rw [← h.1, h_r1],
              by rw [← h.2, h_r2]⟩
      · simp only [Except.ok.injEq, Prod.mk.injEq] at h
        exact .inl ⟨_, h.1.symm, h.2.symm⟩

/-- `close` empties the slot of a live handle, or changes nothing. -/
theorem close_ok {t t' : HandleTable Obj} {handle : Handle} {result : Except HandleError Unit}
    (h : t.close handle = .ok (result, t')) :
    t' = t ∧ t.entryOf handle = none ∨
    ∃ slot entry, t.slotAt handle.index = some slot ∧ slot.generation = handle.generation ∧
      slot.entry = some entry ∧ result = .ok () ∧ t' = t.vacate handle.index slot := by
  unfold close at h
  split at h
  · next h_slot =>
      simp only [Except.ok.injEq, Prod.mk.injEq] at h
      exact .inl ⟨h.2.symm, by simp [entryOf, h_slot]⟩
  · next slot h_slot =>
      split at h
      · next h_entry =>
          simp only [Except.ok.injEq, Prod.mk.injEq] at h
          exact .inl ⟨h.2.symm, by simp [entryOf, h_slot, h_entry]⟩
      · next entry h_entry =>
          obtain ⟨h_at, h_gen⟩ := slotOf_eq_some.mp h_slot
          obtain ⟨r, h_rel, h⟩ := bind_eq_ok.mp h
          obtain ⟨-, h_r⟩ := release_ok h_rel
          simp only [pure, Except.pure, Except.ok.injEq, Prod.mk.injEq] at h
          exact .inr ⟨slot, entry, h_at, h_gen, h_entry, h.1.symm, by rw [← h.2, h_r]⟩

/-- `moveEntry` refuses and changes nothing, or empties the slot of the handle
    in the first table and fills the free head of the second with its entry. -/
theorem moveEntry_ok {first second first' second' : HandleTable Obj} {handle : Handle}
    {result : Except HandleError Handle}
    (h : moveEntry first second handle = .ok (result, first', second')) :
    (∃ error, result = .error error ∧ first' = first ∧ second' = second) ∨
    ∃ slot entry idx free, first.slotAt handle.index = some slot ∧
      slot.generation = handle.generation ∧ slot.entry = some entry ∧
      second.freeHead = some idx ∧ second.slotAt idx = some free ∧
      result = .ok (Handle.pack free.generation idx) ∧
      first' = first.vacate handle.index slot ∧ second' = second.occupy idx free entry := by
  unfold moveEntry at h
  split at h
  · simp only [Except.ok.injEq, Prod.mk.injEq] at h
    exact .inl ⟨_, h.1.symm, h.2.1.symm, h.2.2.symm⟩
  · next entry h_entry =>
      obtain ⟨slot, h_slot, h_gen, h_some⟩ := entryOf_eq_some.mp h_entry
      split at h
      · split at h
        · simp only [Except.ok.injEq, Prod.mk.injEq] at h
          exact .inl ⟨_, h.1.symm, h.2.1.symm, h.2.2.symm⟩
        · next idx h_head =>
            obtain ⟨r, h_alloc, h⟩ := bind_eq_ok.mp h
            obtain ⟨free, h_free, h_r1, h_r2⟩ := allocate_ok h_alloc
            obtain ⟨slot', h_mut, h⟩ := bind_eq_ok.mp h
            obtain rfl : slot = slot' := by simpa [slotMut_eq h_slot] using h_mut
            obtain ⟨t, h_rel, h⟩ := bind_eq_ok.mp h
            obtain ⟨-, h_t⟩ := release_ok h_rel
            simp only [pure, Except.pure, Except.ok.injEq, Prod.mk.injEq] at h
            exact .inr ⟨slot, entry, idx, free, h_slot, h_gen, h_some, h_head, h_free,
              by rw [← h.1, h_r1], by rw [← h.2.1, h_t], by rw [← h.2.2, h_r2]⟩
      · simp only [Except.ok.injEq, Prod.mk.injEq] at h
        exact .inl ⟨_, h.1.symm, h.2.1.symm, h.2.2.symm⟩

/-- A `transfer` is the move from the first to the second table in lock order. -/
theorem perform_transfer {s s' : Tables Addr Obj} {a b : Addr} {handle : Handle}
    {answer : Answer Obj} (h_ne : a ≠ b)
    (h : perform s (.transfer a handle b) = .ok (answer, s')) :
    ∃ result first second,
      moveEntry (s (lockOrder a b).1) (s (lockOrder a b).2) handle = .ok (result, first, second) ∧
        answer = .handle result ∧ s' (lockOrder a b).1 = first ∧ s' (lockOrder a b).2 = second ∧
        ∀ c, c ≠ (lockOrder a b).1 → c ≠ (lockOrder a b).2 → s' c = s c := by
  by_cases h_lt : a < b
  · simp only [perform, transfer_eq_of_lt h_lt] at h
    simp only [lockOrder, h_lt, if_true]
    obtain ⟨r, h_move, h⟩ := bind_eq_ok.mp h
    simp only [pure, Except.pure, Except.ok.injEq, Prod.mk.injEq] at h
    obtain ⟨rfl, rfl⟩ := h
    refine ⟨_, _, _, h_move, rfl, by simp [h_ne], by simp, fun c hca hcb => by simp [hca, hcb]⟩
  · simp only [perform, transfer_eq_of_not_lt h_lt] at h
    simp only [lockOrder, h_lt, if_false]
    cases h_move : moveEntry (s b) (s a) handle with
    | error e => simp [h_move, Except.map, bind, Except.bind] at h
    | ok r =>
        simp only [h_move, Except.map, bind, Except.bind, pure, Except.pure, Except.ok.injEq,
          Prod.mk.injEq] at h
        obtain ⟨rfl, rfl⟩ := h
        refine ⟨_, _, _, rfl, rfl, by simp, by simp [h_ne], fun c hcb hca => by simp [hca, hcb]⟩

theorem perform_create {s s' : Tables Addr Obj} {a : Addr} {koRef : Obj} {rights : Rights}
    {answer : Answer Obj} (h : perform s (.create a koRef rights) = .ok (answer, s')) :
    ∃ result t, (s a).create koRef rights = .ok (result, t) ∧ answer = .handle result ∧
      s' = Function.update s a t := by
  obtain ⟨r, h_op, h⟩ := bind_eq_ok.mp h
  simp only [pure, Except.pure, Except.ok.injEq, Prod.mk.injEq] at h
  exact ⟨_, _, h_op, h.1.symm, h.2.symm⟩

theorem perform_duplicate {s s' : Tables Addr Obj} {a : Addr} {handle : Handle}
    {newRights : Rights} {answer : Answer Obj}
    (h : perform s (.duplicate a handle newRights) = .ok (answer, s')) :
    ∃ result t, (s a).duplicate handle newRights = .ok (result, t) ∧ answer = .handle result ∧
      s' = Function.update s a t := by
  obtain ⟨r, h_op, h⟩ := bind_eq_ok.mp h
  simp only [pure, Except.pure, Except.ok.injEq, Prod.mk.injEq] at h
  exact ⟨_, _, h_op, h.1.symm, h.2.symm⟩

theorem perform_close {s s' : Tables Addr Obj} {a : Addr} {handle : Handle}
    {answer : Answer Obj} (h : perform s (.close a handle) = .ok (answer, s')) :
    ∃ result t, (s a).close handle = .ok (result, t) ∧ answer = .closed result ∧
      s' = Function.update s a t := by
  obtain ⟨r, h_op, h⟩ := bind_eq_ok.mp h
  simp only [pure, Except.pure, Except.ok.injEq, Prod.mk.injEq] at h
  exact ⟨_, _, h_op, h.1.symm, h.2.symm⟩

theorem Call.ne_of_selfTransfer {a b : Addr} {handle : Handle}
    (h : (Call.transfer a handle b : Call Addr Obj).selfTransfer = false) : a ≠ b := by
  simpa [Call.selfTransfer] using h

/-- One call changes each table in one of the three ways of `TableEffect`. -/
theorem perform_table {s s' : Tables Addr Obj} {call : Call Addr Obj} {answer : Answer Obj}
    (h_self : call.selfTransfer = false) (h : perform s call = .ok (answer, s')) (c : Addr) :
    TableEffect call answer c (s c) (s' c) := by
  cases call with
  | create a koRef rights =>
      obtain ⟨result, t, h_op, -, rfl⟩ := perform_create h
      by_cases hc : c = a
      · subst hc
        rw [Function.update_self]
        rcases create_ok h_op with ⟨-, -, rfl⟩ | ⟨idx, slot, h_head, h_slot, -, rfl⟩
        · exact .same
        · exact .issued _ h_head h_slot
      · rw [Function.update_of_ne hc]
        exact .same
  | get a handle =>
      simp only [perform, Except.ok.injEq, Prod.mk.injEq] at h
      rw [h.2]
      exact .same
  | duplicate a handle newRights =>
      obtain ⟨result, t, h_op, -, rfl⟩ := perform_duplicate h
      by_cases hc : c = a
      · subst hc
        rw [Function.update_self]
        rcases duplicate_ok h_op with ⟨-, -, rfl⟩ | ⟨entry, idx, slot, -, h_head, h_slot, -, rfl⟩
        · exact .same
        · exact .issued _ h_head h_slot
      · rw [Function.update_of_ne hc]
        exact .same
  | close a handle =>
      obtain ⟨result, t, h_op, rfl, rfl⟩ := perform_close h
      by_cases hc : c = a
      · subst hc
        rw [Function.update_self]
        rcases close_ok h_op with ⟨rfl, -⟩ | ⟨slot, entry, h_slot, h_gen, h_entry, rfl, rfl⟩
        · exact .same
        · exact .removed .close h_slot h_gen h_entry
      · rw [Function.update_of_ne hc]
        exact .same
  | transfer a handle b =>
      obtain ⟨result, first, second, h_move, rfl, h_first, h_second, h_other⟩ :=
        perform_transfer (Call.ne_of_selfTransfer h_self) h
      by_cases h_c1 : c = (lockOrder a b).1
      · rcases moveEntry_ok h_move with ⟨-, -, h_eq, -⟩ |
          ⟨slot, entry, idx, free, h_slot, h_gen, h_entry, -, -, rfl, h_eq, -⟩
        · rw [h_c1, h_first, h_eq]
          exact .same
        · rw [h_c1, h_first, h_eq]
          exact .removed .transfer h_slot h_gen h_entry
      · by_cases h_c2 : c = (lockOrder a b).2
        · rcases moveEntry_ok h_move with ⟨-, -, -, h_eq⟩ |
            ⟨slot, entry, idx, free, -, -, -, h_head, h_free, -, -, h_eq⟩
          · rw [h_c2, h_second, h_eq]
            exact .same
          · rw [h_c2, h_second, h_eq]
            exact .issued _ h_head h_free
        · rw [h_other c h_c1 h_c2]
          exact .same

/-- A call that issues a handle has filled the slot the handle names. -/
theorem perform_issues {s s' : Tables Addr Obj} {call : Call Addr Obj} {answer : Answer Obj}
    {table : Addr} {handle : Handle} {entry : Obj × Rights}
    (h_self : call.selfTransfer = false) (h : perform s call = .ok (answer, s'))
    (h_issues : Issues s call answer table handle entry) :
    ∃ idx slot, (s table).slotAt idx = some slot ∧
      handle = Handle.pack slot.generation idx ∧
      s' table = (s table).occupy idx slot ⟨entry.1, entry.2⟩ := by
  cases h_issues with
  | create =>
      obtain ⟨result, t, h_op, h_answer, rfl⟩ := perform_create h
      rw [Answer.handle.injEq] at h_answer
      rcases create_ok h_op with ⟨e, h_e, -⟩ | ⟨idx, slot, -, h_slot, h_ok, rfl⟩
      · rw [h_e] at h_answer
        exact absurd h_answer (by simp)
      · rw [h_ok, Except.ok.injEq] at h_answer
        exact ⟨idx, slot, h_slot, h_answer, Function.update_self ..⟩
  | duplicate h_get =>
      obtain ⟨result, t, h_op, h_answer, rfl⟩ := perform_duplicate h
      rw [Answer.handle.injEq] at h_answer
      rcases duplicate_ok h_op with ⟨e, h_e, -⟩ | ⟨e, idx, slot, h_entry, -, h_slot, h_ok, rfl⟩
      · rw [h_e] at h_answer
        exact absurd h_answer (by simp)
      · rw [h_ok, Except.ok.injEq] at h_answer
        rw [get_eq_map, h_entry, Option.map_some, Option.some.injEq, Prod.mk.injEq] at h_get
        refine ⟨idx, slot, h_slot, h_answer, ?_⟩
        rw [Function.update_self, h_get.1, h_get.2]
  | transfer h_get =>
      obtain ⟨result, first, second, h_move, h_answer, -, h_second, -⟩ :=
        perform_transfer (Call.ne_of_selfTransfer h_self) h
      rw [Answer.handle.injEq] at h_answer
      rcases moveEntry_ok h_move with ⟨e, h_e, -, -⟩ |
        ⟨slot, e, idx, free, h_slot, h_gen, h_entry, -, h_free, h_ok, -, h_eq⟩
      · rw [h_e] at h_answer
        exact absurd h_answer (by simp)
      · rw [h_ok, Except.ok.injEq] at h_answer
        rw [get_eq_map, entryOf_eq_some.mpr ⟨slot, h_slot, h_gen, h_entry⟩, Option.map_some,
          Option.some.injEq] at h_get
        refine ⟨idx, free, h_free, h_answer, ?_⟩
        rw [h_second, h_eq, ← h_get]

-- ============================================================================
-- The representation invariant over runs
-- ============================================================================

/-- The representation invariant of one table survives every call on any of
    the tables. -/
theorem RepInv.stepCall {capacity : Addr → Nat} {s s' : Tables Addr Obj} {call : Call Addr Obj}
    (h : (family capacity).step s call = some s') {table : Addr} (ht : RepInv (s table)) :
    RepInv (s' table) := by
  obtain ⟨h_self, answer, h_perform⟩ := step_eq_some h
  exact ht.step (perform_table h_self h_perform table).tableStep

theorem length_stepCall {capacity : Addr → Nat} {s s' : Tables Addr Obj} {call : Call Addr Obj}
    (h : (family capacity).step s call = some s') (table : Addr) :
    (s' table).slots.length = (s table).slots.length := by
  obtain ⟨h_self, answer, h_perform⟩ := step_eq_some h
  exact (perform_table h_self h_perform table).tableStep.length_eq

/-- On tables with their invariant no call panics. -/
theorem perform_returns {s : Tables Addr Obj} (hs : ∀ a, RepInv (s a)) (call : Call Addr Obj) :
    ∃ answer s', perform s call = .ok (answer, s') := by
  have h_move : ∀ a b handle, ∃ r, moveEntry (s a) (s b) handle = .ok r := by
    intro a b handle
    cases h_refusal : transferRefusal (s a) (s b) handle with
    | some error => exact ⟨_, moveEntry_refused (hs b) h_refusal⟩
    | none =>
        obtain ⟨slot, entry, idx, free, -, -, -, -, -, -, h_eq⟩ :=
          moveEntry_moved (hs a) (hs b) h_refusal
        exact ⟨_, h_eq⟩
  cases call with
  | create a koRef rights =>
      cases h_head : (s a).freeHead with
      | none => exact ⟨_, _, by simp [perform, create, h_head, bind, Except.bind]; rfl⟩
      | some idx =>
          obtain ⟨r, h_r⟩ := (hs a).allocate_head h_head ⟨koRef, rights⟩
          exact ⟨_, _, by simp [perform, create, h_head, h_r, bind, Except.bind]; rfl⟩
  | get a handle => exact ⟨_, _, rfl⟩
  | duplicate a handle newRights =>
      cases h_entry : (s a).entryOf handle with
      | none => exact ⟨_, _, by simp [perform, duplicate, h_entry, bind, Except.bind]; rfl⟩
      | some entry =>
          by_cases h_rights : entry.rights.contains Rights.duplicate
          · cases h_head : (s a).freeHead with
            | none =>
                exact ⟨_, _, by
                  simp [perform, duplicate, h_entry, h_rights, h_head, bind, Except.bind]; rfl⟩
            | some idx =>
                obtain ⟨r, h_r⟩ :=
                  (hs a).allocate_head h_head ⟨entry.koRef, entry.rights.downgrade newRights⟩
                exact ⟨_, _, by
                  simp [perform, duplicate, h_entry, h_rights, h_head, h_r, bind, Except.bind]; rfl⟩
          · exact ⟨_, _, by
              simp [perform, duplicate, h_entry, h_rights, bind, Except.bind]; rfl⟩
  | close a handle =>
      cases h_slot : (s a).slotOf handle with
      | none => exact ⟨_, _, by simp [perform, close, h_slot, bind, Except.bind]; rfl⟩
      | some slot =>
          cases h_entry : slot.entry with
          | none => exact ⟨_, _, by simp [perform, close, h_slot, h_entry, bind, Except.bind]; rfl⟩
          | some entry =>
              have h_count := (hs a).count_pos (slotOf_eq_some.mp h_slot).1 h_entry
              exact ⟨_, _, by
                simp [perform, close, h_slot, h_entry, release_eq h_count, bind, Except.bind]; rfl⟩
  | transfer a handle b =>
      by_cases h_lt : a < b
      · obtain ⟨r, h_r⟩ := h_move a b handle
        exact ⟨_, _, by simp [perform, transfer_eq_of_lt h_lt, h_r, bind, Except.bind]; rfl⟩
      · obtain ⟨r, h_r⟩ := h_move b a handle
        exact ⟨_, _, by
          simp [perform, transfer_eq_of_not_lt h_lt, h_r, Except.map, bind, Except.bind]; rfl⟩

/-- Every sequence of calls between distinct tables, on a family of tables
    created with room for at least one entry, runs to its end, and leaves every
    table with its representation invariant: the links from the head of its
    free list visit its free slots, once each, and end; an occupied slot has no
    link; the count is the number of occupied slots. -/
theorem repInv_of_calls {capacity : Addr → Nat} (h_cap : ∀ a, 1 ≤ capacity a)
    {calls : List (Call Addr Obj)} (h_distinct : ∀ call ∈ calls, call.selfTransfer = false) :
    ∃ s, (family capacity).exec (family capacity).init calls = some s ∧
      ∀ table, RepInv (s table) := by
  refine Machine.exec_progress (P := fun s : Tables Addr Obj => ∀ table, RepInv (s table)) ?_ ?_
    h_distinct
  · intro s call hs h_self
    obtain ⟨answer, s', h_perform⟩ := perform_returns hs call
    have h_step : (family capacity).step s call = some s' := by
      simp [family, stepCall, h_self, h_perform]
    exact ⟨s', h_step, fun table => RepInv.stepCall h_step (hs table)⟩
  · exact fun table => repInv_new (h_cap table)

/-- Two tables of two slots: an entry is created in each, moved from the first
    to the second, and a stale handle is closed. -/
theorem repInv_of_calls_moved :
    ∃ s, (family fun _ : Fin 2 => 2).exec (family fun _ => 2).init
        [.create 0 7 Rights.all, .create 1 8 Rights.all, .transfer 0 ⟨0⟩ 1, .close 0 ⟨0⟩] =
          some s ∧
      ∀ table, RepInv (s table) :=
  repInv_of_calls (fun _ => by decide) (by decide)

end HandleTable
end Zydon
