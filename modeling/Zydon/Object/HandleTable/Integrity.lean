/-
  Zydon.Object.HandleTable.Integrity

  A handle value over whole runs of a family of tables: from the call that
  issues it on, it resolves to what it was issued for until its entry is
  removed, and to nothing afterwards, whatever happens to its slot, until the
  slot's 32-bit generation has come round.

  The proof follows one slot.  While the entry is there nothing else can touch
  the slot (`entryOf_of_not_removes`); the removal bumps its generation
  (`generationAt_of_removes`); and the generation is at every later state the
  one of the handle plus the number of bumps since (`generationAt_exec`).
-/

import Zydon.Object.HandleTable.Family

namespace Zydon
namespace HandleTable

open Lib

variable {Addr Obj : Type} [LinearOrder Addr] {capacity : Addr → Nat}

/-! ## Removals and bumps of a run -/

/-- One of the calls of the run of `calls` from `s` removes the entry of `handle`. -/
def RemovedIn (table : Addr) (handle : Handle) : Tables Addr Obj → List (Call Addr Obj) → Prop
  | _, [] => False
  | s, call :: calls =>
      match perform s call with
      | .ok (answer, s') => Removes call answer table handle ∨ RemovedIn table handle s' calls
      | .error _ => False

/-- How often the run of `calls` from `s` bumps the generation of a slot. -/
def bumps (table : Addr) (idx : Nat) : Tables Addr Obj → List (Call Addr Obj) → Nat
  | _, [] => 0
  | s, call :: calls =>
      match perform s call with
      | .ok (_, s') =>
          (if (s' table).generationAt idx = (s table).generationAt idx then 0 else 1) +
            bumps table idx s' calls
      | .error _ => 0

/-! ## One call -/

/-- Fewer than `2 ^ 32` bumps, but at least one, lead to another generation. -/
theorem add_bumps_ne (gen : BitVec 32) {n : Nat} (h_pos : 0 < n) (h_lt : n < 2 ^ 32) :
    gen + BitVec.ofNat 32 n ≠ gen := by
  intro h
  have h_zero : (BitVec.ofNat 32 n).toNat = (0#32).toNat := congrArg BitVec.toNat (add_eq_left.mp h)
  rw [BitVec.toNat_ofNat, BitVec.toNat_ofNat, Nat.mod_eq_of_lt h_lt] at h_zero
  omega

/-- A generation only moves by one, when its slot is emptied. -/
theorem generationAt_step {call : Call Addr Obj} {answer : Answer Obj} {table : Addr}
    {t t' : HandleTable Obj} (h : TableEffect call answer table t t') {idx : Nat}
    {gen : BitVec 32} (h_gen : t.generationAt idx = some gen) :
    t'.generationAt idx = some gen ∨ t'.generationAt idx = some (gen + 1#32) := by
  cases h with
  | same => exact .inl h_gen
  | @issued i slot entry h_head h_slot =>
      left
      by_cases hi : idx = i
      · subst hi
        simpa [generationAt, slotAt_occupy h_slot, h_slot] using h_gen
      · simpa [generationAt, slotAt_occupy h_slot, hi] using h_gen
  | @removed k slot entry h_removes h_slot h_slot_gen h_entry =>
      by_cases hi : idx = k.index
      · subst hi
        right
        have h_eq : slot.generation = gen := by simpa [generationAt, h_slot] using h_gen
        simp [generationAt, slotAt_vacate h_slot, h_eq]
      · left
        simpa [generationAt, slotAt_vacate h_slot, hi] using h_gen

/-- A live handle stays live through every call that does not remove it. -/
theorem entryOf_of_not_removes {call : Call Addr Obj} {answer : Answer Obj} {table : Addr}
    {t t' : HandleTable Obj} (ht : RepInv t) (h : TableEffect call answer table t t')
    {handle : Handle} {entry : HandleEntry Obj} (h_live : t.entryOf handle = some entry)
    (h_keep : ¬ Removes call answer table handle) : t'.entryOf handle = some entry := by
  obtain ⟨slot, h_slot, h_gen, h_entry⟩ := entryOf_eq_some.mp h_live
  cases h with
  | same => exact h_live
  | @issued idx free e h_head h_free =>
      -- the slot that is filled was free, so it is another one
      obtain ⟨free', h_free', h_none⟩ := ht.freeHead_slot h_head
      have h_ne : handle.index ≠ idx := by
        rintro rfl
        rw [h_slot] at h_free'
        rw [← Option.some.inj h_free', h_entry] at h_none
        exact absurd h_none (by simp)
      exact entryOf_eq_some.mpr
        ⟨slot, by rw [slotAt_occupy h_free, if_neg h_ne, h_slot], h_gen, h_entry⟩
  | @removed k other e h_removes h_other h_other_gen h_e =>
      -- another live handle of the same slot would be the same handle
      have h_ne : handle.index ≠ k.index := by
        intro h_eq
        rw [h_eq, h_other] at h_slot
        obtain rfl := Option.some.inj h_slot
        have h_same : handle = k := Handle.ext_iff.mpr ⟨h_eq, h_gen.symm.trans h_other_gen⟩
        exact h_keep (h_same ▸ h_removes)
      exact entryOf_eq_some.mpr
        ⟨slot, by rw [slotAt_vacate h_other, if_neg h_ne, h_slot], h_gen, h_entry⟩

/-- The call that removes a live handle bumps the generation of its slot. -/
theorem generationAt_of_removes {s s' : Tables Addr Obj} {call : Call Addr Obj}
    {answer : Answer Obj} {table : Addr} {handle : Handle} {entry : HandleEntry Obj}
    (h_self : call.selfTransfer = false) (h : perform s call = .ok (answer, s'))
    (h_removes : Removes call answer table handle)
    (h_live : (s table).entryOf handle = some entry) :
    (s' table).generationAt handle.index = some (handle.generation + 1#32) := by
  have h_vacate : ∀ {slot : Slot Obj}, (s table).slotAt handle.index = some slot →
      slot.generation = handle.generation →
      ((s table).vacate handle.index slot).generationAt handle.index =
        some (handle.generation + 1#32) := by
    intro slot h_slot h_gen
    simp [generationAt, slotAt_vacate h_slot, h_gen]
  cases h_removes with
  | close =>
      obtain ⟨result, t, h_op, -, rfl⟩ := perform_close h
      rw [Function.update_self]
      rcases close_ok h_op with ⟨-, h_none⟩ | ⟨slot, e, h_slot, h_gen, -, -, rfl⟩
      · rw [h_live] at h_none
        exact absurd h_none (by simp)
      · exact h_vacate h_slot h_gen
  | transfer =>
      obtain ⟨result, first, second, h_move, h_answer, h_first, -⟩ :=
        perform_transfer (Call.ne_of_selfTransfer h_self) h
      rw [Answer.handle.injEq] at h_answer
      rcases moveEntry_ok h_move with ⟨e, h_e, -, -⟩ |
        ⟨slot, e, idx, free, h_slot, h_gen, -, -, -, -, h_eq, -⟩
      · rw [h_e] at h_answer
        exact absurd h_answer (by simp)
      · rw [h_first, h_eq]
        exact h_vacate h_slot h_gen

/-! ## Runs -/

/-- Over a run a generation moves by the number of its bumps. -/
theorem generationAt_exec {s s' : Tables Addr Obj} {calls : List (Call Addr Obj)}
    (h : (family capacity).exec s calls = some s') {table : Addr} {idx : Nat} {gen : BitVec 32}
    (h_gen : (s table).generationAt idx = some gen) :
    (s' table).generationAt idx = some (gen + BitVec.ofNat 32 (bumps table idx s calls)) := by
  induction calls generalizing s gen with
  | nil =>
      obtain rfl : s = s' := by simpa using h
      simpa [bumps] using h_gen
  | cons call calls ih =>
      obtain ⟨m, h_step, h_rest⟩ := Machine.exec_cons_eq_some.mp h
      obtain ⟨h_self, answer, h_perform⟩ := step_eq_some h_step
      simp only [bumps, h_perform]
      rcases generationAt_step (perform_table h_self h_perform table) h_gen with h_same | h_bump
      · rw [ih h_rest h_same, h_same, h_gen, if_pos rfl, Nat.zero_add]
      · have h_ne : some (gen + 1#32) ≠ some gen := fun h_eq =>
          add_bumps_ne gen Nat.one_pos (by decide) (Option.some.inj h_eq)
        rw [ih h_rest h_bump, h_bump, h_gen, if_neg h_ne, BitVec.add_assoc,
          ← BitVec.ofNat_add]

/-- A live handle that no call of the run removes is live at its end. -/
theorem entryOf_exec {s s' : Tables Addr Obj} {calls : List (Call Addr Obj)}
    (h : (family capacity).exec s calls = some s') {table : Addr} (ht : RepInv (s table))
    {handle : Handle} {entry : HandleEntry Obj} (h_live : (s table).entryOf handle = some entry)
    (h_keep : ¬ RemovedIn table handle s calls) : (s' table).entryOf handle = some entry := by
  induction calls generalizing s with
  | nil =>
      obtain rfl : s = s' := by simpa using h
      exact h_live
  | cons call calls ih =>
      obtain ⟨m, h_step, h_rest⟩ := Machine.exec_cons_eq_some.mp h
      obtain ⟨h_self, answer, h_perform⟩ := step_eq_some h_step
      simp only [RemovedIn, h_perform, not_or] at h_keep
      have h_effect := perform_table h_self h_perform table
      exact ih h_rest (ht.step h_effect.tableStep)
        (entryOf_of_not_removes ht h_effect h_live h_keep.1) h_keep.2

/-- A run that removes a live handle bumps its slot. -/
theorem bumps_pos {s s' : Tables Addr Obj} {calls : List (Call Addr Obj)}
    (h : (family capacity).exec s calls = some s') {table : Addr} (ht : RepInv (s table))
    {handle : Handle} {entry : HandleEntry Obj} (h_live : (s table).entryOf handle = some entry)
    (h_removed : RemovedIn table handle s calls) : 0 < bumps table handle.index s calls := by
  induction calls generalizing s with
  | nil => exact absurd h_removed id
  | cons call calls ih =>
      obtain ⟨m, h_step, h_rest⟩ := Machine.exec_cons_eq_some.mp h
      obtain ⟨h_self, answer, h_perform⟩ := step_eq_some h_step
      simp only [RemovedIn, h_perform] at h_removed
      simp only [bumps, h_perform]
      by_cases h_now : Removes call answer table handle
      · obtain ⟨slot, h_slot, h_gen, -⟩ := entryOf_eq_some.mp h_live
        have h_old : (s table).generationAt handle.index = some handle.generation := by
          simp [generationAt, h_slot, h_gen]
        have h_new := generationAt_of_removes h_self h_perform h_now h_live
        have h_ne : (m table).generationAt handle.index ≠ (s table).generationAt handle.index := by
          rw [h_new, h_old]
          exact fun h_eq => add_bumps_ne _ Nat.one_pos (by decide) (Option.some.inj h_eq)
        rw [if_neg h_ne]
        omega
      · have h_effect := perform_table h_self h_perform table
        have h_later := ih h_rest (ht.step h_effect.tableStep)
          (entryOf_of_not_removes ht h_effect h_live h_now) (h_removed.resolve_left h_now)
        omega

/-- A handle whose slot has another generation resolves to nothing. -/
theorem stale_refused {t : HandleTable Obj} {handle : Handle} {gen : BitVec 32}
    (h_gen : t.generationAt handle.index = some gen) (h_ne : gen ≠ handle.generation) :
    t.get handle = none ∧
      (∀ newRights, t.duplicate handle newRights = .ok (.error .invalidHandle, t)) ∧
      t.close handle = .ok (.error .invalidHandle, t) := by
  have h_slot : t.slotOf handle = none := by
    cases h : t.slotOf handle with
    | none => rfl
    | some slot =>
        obtain ⟨h_at, h_eq⟩ := slotOf_eq_some.mp h
        have h_same : slot.generation = gen := by simpa [generationAt, h_at] using h_gen
        exact absurd (h_same.symm.trans h_eq) h_ne
  have h_entry : t.entryOf handle = none := by simp [entryOf, h_slot]
  exact ⟨by simp [get, h_entry], fun _ => by simp [duplicate, h_entry], by simp [close, h_slot]⟩

/-- In every run, a handle a table of at most `2 ^ 32 - 1` slots issues in `s₁`
    resolves to the object and rights it was issued with as long as no call
    removes its entry; once one has, and as long as its slot has been bumped
    fewer than `2 ^ 32` times since the issue, it is refused by `get`,
    `duplicate` and `close`. -/
theorem handle_integrity {table : Addr} (h_pos : 1 ≤ capacity table)
    (h_cap : capacity table ≤ 2 ^ 32 - 1) {s₁ s₂ s₃ : Tables Addr Obj}
    (h_reach : (family capacity).Reachable s₁) {call : Call Addr Obj} {answer : Answer Obj}
    (h_self : call.selfTransfer = false) (h_call : perform s₁ call = .ok (answer, s₂))
    {handle : Handle} {entry : Obj × Rights}
    (h_issues : Issues s₁ call answer table handle entry) {calls : List (Call Addr Obj)}
    (h_run : (family capacity).exec s₂ calls = some s₃) :
    (¬ RemovedIn table handle s₂ calls → (s₃ table).get handle = some entry) ∧
    (RemovedIn table handle s₂ calls → bumps table handle.index s₂ calls < 2 ^ 32 →
      (s₃ table).get handle = none ∧
        (∀ newRights, (s₃ table).duplicate handle newRights =
          .ok (.error .invalidHandle, s₃ table)) ∧
        (s₃ table).close handle = .ok (.error .invalidHandle, s₃ table)) := by
  obtain ⟨h_rep, h_len⟩ : RepInv (s₁ table) ∧ (s₁ table).slots.length = capacity table :=
    h_reach.invariant (P := fun s => RepInv (s table) ∧ (s table).slots.length = capacity table)
      ⟨repInv_new h_pos, new_length _⟩
      fun s a s' hs h => ⟨RepInv.stepCall h hs.1, (length_stepCall h table).trans hs.2⟩
  obtain ⟨idx, slot, h_slot, rfl, h_s₂⟩ := perform_issues h_self h_call h_issues
  have h_idx : idx < 2 ^ 32 := by
    have := lt_length_of_slotAt h_slot
    omega
  have h_live : (s₂ table).entryOf (Handle.pack slot.generation idx) = some ⟨entry.1, entry.2⟩ := by
    rw [h_s₂, entryOf_occupy h_slot h_idx, if_pos rfl]
  have h_rep₂ : RepInv (s₂ table) := h_rep.step (perform_table h_self h_call table).tableStep
  refine ⟨fun h_keep => ?_, fun h_removed h_bumps => ?_⟩
  · rw [get_eq_map, entryOf_exec h_run h_rep₂ h_live h_keep]
    rfl
  · have h_some := bumps_pos h_run h_rep₂ h_live h_removed
    obtain ⟨slot₂, h_slot₂, h_gen₂, -⟩ := entryOf_eq_some.mp h_live
    have h_issued : (s₂ table).generationAt (Handle.pack slot.generation idx).index =
        some (Handle.pack slot.generation idx).generation := by
      simp [generationAt, h_slot₂, h_gen₂]
    exact stale_refused (generationAt_exec h_run h_issued) (add_bumps_ne _ h_some h_bumps)

/-- Two tables of two slots: object `7` gets a handle of the first one, its
    entry is moved to the second, and its slot is given to object `8`. -/
theorem handle_integrity_moved :
    ∃ s₂ s₃ : Tables (Fin 2) Nat,
      perform (fun _ => new 2) (.create 0 7 Rights.all) = .ok (.handle (.ok ⟨0⟩), s₂) ∧
      (family fun _ => 2).exec s₂ [.transfer 0 ⟨0⟩ 1, .create 0 8 Rights.all] = some s₃ ∧
      (s₃ 0).get ⟨0⟩ = none := by
  have h_reach : (family fun _ : Fin 2 => 2).Reachable (fun _ : Fin 2 => (new 2 : HandleTable Nat)) :=
    ⟨[], rfl⟩
  have h_issues : Issues (fun _ : Fin 2 => (new 2 : HandleTable Nat)) (.create 0 7 Rights.all)
      (.handle (.ok ⟨0⟩)) 0 ⟨0⟩ (7, Rights.all) := .create
  refine ⟨_, _, rfl, rfl, ?_⟩
  refine ((@handle_integrity (Fin 2) Nat _ (fun _ => 2) 0 (by decide) (by decide) _ _ _
    h_reach _ _ rfl rfl _ _ h_issues [.transfer 0 ⟨0⟩ 1, .create 0 8 Rights.all] rfl).2 ?_ ?_).1
  · exact .inl .transfer
  · decide

end HandleTable
end Zydon
