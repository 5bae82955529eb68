/-
  Zydon.Object.HandleTable.Confinement

  Where the rights of a live entry come from, over whole runs of a family of
  tables.

  `Descends` follows an entry back in time: it stays in its slot as long as no
  call touches the slot, it got there by a `duplicate` or a `transfer` of an
  entry that was live then, and the first entry of the chain was stored by a
  `create`.  Every live entry descends in this way, with the object of the
  `create`, and with no right that an entry of its chain did not have
  (`descends_of_live`).

  Nothing is asked of the tables here: the entry that a `transfer` moves is the
  one it finds in the table it locks first, whichever of the two that is.
-/

import Zydon.Object.HandleTable.Family

namespace Zydon
namespace HandleTable

open Lib

variable {Addr Obj : Type} [LinearOrder Addr] {capacity : Addr → Nat}

-- ============================================================================
-- Chains
-- ============================================================================

/-- After `calls` the state is `s`; the next call is `call`, which is answered
    with `answer` and leads to `s'`. -/
structure Made (capacity : Addr → Nat) (calls : List (Call Addr Obj)) (call : Call Addr Obj)
    (s : Tables Addr Obj) (answer : Answer Obj) (s' : Tables Addr Obj) : Prop where
  run : (family capacity).exec (family capacity).init calls = some s
  distinct : call.selfTransfer = false
  returns : perform s call = .ok (answer, s')

/-- How the entry in slot `idx` of `table` after `calls` has come about.
    `earlier` lists what it descends from, back to the arguments of a `create`. -/
inductive Descends (capacity : Addr → Nat) :
    List (Call Addr Obj) → Addr → Nat → HandleEntry Obj → List (HandleEntry Obj) → Prop where
  /-- `create` has stored it. -/
  | create {calls : List (Call Addr Obj)} {a : Addr} {koRef : Obj} {rights : Rights}
      {s s' : Tables Addr Obj} {handle : Handle} {idx : Nat} {entry : HandleEntry Obj} :
      Made capacity calls (.create a koRef rights) s (.handle (.ok handle)) s' →
      (s a).freeHead = some idx → (s' a).entryAt idx = some entry →
      Descends capacity (calls ++ [.create a koRef rights]) a idx entry [⟨koRef, rights⟩]
  /-- `duplicate` has stored it, for an entry that held `DUPLICATE`. -/
  | duplicate {calls : List (Call Addr Obj)} {a : Addr} {source : Handle} {asked : Rights}
      {s s' : Tables Addr Obj} {handle : Handle} {idx : Nat} {held entry : HandleEntry Obj}
      {earlier : List (HandleEntry Obj)} :
      Made capacity calls (.duplicate a source asked) s (.handle (.ok handle)) s' →
      Descends capacity calls a source.index held earlier →
      (s a).entryOf source = some held → held.rights.contains Rights.duplicate = true →
      (s a).freeHead = some idx → (s' a).entryAt idx = some entry →
      Descends capacity (calls ++ [.duplicate a source asked]) a idx entry (held :: earlier)
  /-- `transfer` has moved it there, from an entry that held `TRANSFER`. -/
  | transfer {calls : List (Call Addr Obj)} {a b : Addr} {source : Handle}
      {s s' : Tables Addr Obj} {handle : Handle} {idx : Nat} {held entry : HandleEntry Obj}
      {earlier : List (HandleEntry Obj)} :
      Made capacity calls (.transfer a source b) s (.handle (.ok handle)) s' →
      Descends capacity calls (lockOrder a b).1 source.index held earlier →
      (s (lockOrder a b).1).entryOf source = some held →
      held.rights.contains Rights.transfer = true →
      (s (lockOrder a b).2).freeHead = some idx →
      (s' (lockOrder a b).2).entryAt idx = some entry →
      Descends capacity (calls ++ [.transfer a source b]) (lockOrder a b).2 idx entry
        (held :: earlier)
  /-- The last call has not touched its slot. -/
  | kept {calls : List (Call Addr Obj)} {call : Call Addr Obj} {s s' : Tables Addr Obj}
      {answer : Answer Obj} {table : Addr} {idx : Nat} {entry : HandleEntry Obj}
      {earlier : List (HandleEntry Obj)} :
      Made capacity calls call s answer s' →
      Descends capacity calls table idx entry earlier →
      (s' table).slotAt idx = (s table).slotAt idx →
      Descends capacity (calls ++ [call]) table idx entry earlier

/-- The entry has the object of everything it descends from, and no right that
    is missing there. -/
def Confined (entry : HandleEntry Obj) (earlier : List (HandleEntry Obj)) : Prop :=
  ∀ e ∈ earlier, e.koRef = entry.koRef ∧ e.rights.contains entry.rights = true

theorem confined_singleton (entry : HandleEntry Obj) : Confined entry [entry] := by
  intro e h_e
  obtain rfl := List.mem_singleton.mp h_e
  exact ⟨rfl, Rights.contains_refl _⟩

/-- One more step, to the same object and fewer rights. -/
theorem Confined.cons {held entry : HandleEntry Obj} {earlier : List (HandleEntry Obj)}
    (h : Confined held earlier) (h_koRef : held.koRef = entry.koRef)
    (h_rights : held.rights.contains entry.rights = true) : Confined entry (held :: earlier) := by
  intro e h_e
  rcases List.mem_cons.mp h_e with rfl | h_e
  · exact ⟨h_koRef, h_rights⟩
  · obtain ⟨h_same, h_contains⟩ := h e h_e
    exact ⟨h_same.trans h_koRef, Rights.contains_trans h_contains h_rights⟩

-- ============================================================================
-- One call
-- ============================================================================

/-- A handle that `duplicate` issues is one for an entry that holds `DUPLICATE`. -/
theorem duplicate_holds {t t' : HandleTable Obj} {source handle : Handle} {asked : Rights}
    {held : HandleEntry Obj} (h : t.duplicate source asked = .ok (.ok handle, t'))
    (h_held : t.entryOf source = some held) : held.rights.contains Rights.duplicate = true := by
  by_contra h_lacks
  simp [duplicate, h_held, h_lacks] at h

/-- A handle that a transfer issues is one for an entry that holds `TRANSFER`. -/
theorem moveEntry_holds {first second first' second' : HandleTable Obj} {source handle : Handle}
    {held : HandleEntry Obj}
    (h : moveEntry first second source = .ok (.ok handle, first', second'))
    (h_held : first.entryOf source = some held) :
    held.rights.contains Rights.transfer = true := by
  by_contra h_lacks
  simp [moveEntry, h_held, h_lacks] at h

theorem entryAt_of_entryOf {t : HandleTable Obj} {handle : Handle} {entry : HandleEntry Obj}
    (h : t.entryOf handle = some entry) : t.entryAt handle.index = some entry := by
  obtain ⟨slot, h_slot, -, h_entry⟩ := entryOf_eq_some.mp h
  rw [entryAt, h_slot, Option.bind_some, h_entry]

/-- Filling a slot touches no other. -/
theorem slotAt_of_occupy {t : HandleTable Obj} {i : Nat} {slot : Slot Obj}
    (h : t.slotAt i = some slot) (entry : HandleEntry Obj) (idx : Nat) :
    idx = i ∧ (t.occupy i slot entry).entryAt idx = some entry ∨
      (t.occupy i slot entry).slotAt idx = t.slotAt idx := by
  rw [entryAt, slotAt_occupy h]
  by_cases h_idx : idx = i
  · exact .inl ⟨h_idx, by rw [if_pos h_idx]; rfl⟩
  · exact .inr (if_neg h_idx)

/-- A slot that still holds an entry when another one is emptied has not been
    touched. -/
theorem slotAt_of_vacate {t : HandleTable Obj} {i idx : Nat} {slot : Slot Obj}
    (h : t.slotAt i = some slot) {entry : HandleEntry Obj}
    (h_live : (t.vacate i slot).entryAt idx = some entry) :
    (t.vacate i slot).slotAt idx = t.slotAt idx := by
  rw [entryAt, slotAt_vacate h] at h_live
  rw [slotAt_vacate h, if_neg]
  rintro rfl
  simp at h_live

/-- The call has put `entry` into slot `idx` of `table`, from nowhere or from an
    entry that allows it. -/
inductive Stores (s : Tables Addr Obj) (table : Addr) (idx : Nat) (entry : HandleEntry Obj) :
    Call Addr Obj → Answer Obj → Prop where
  | create {handle : Handle} : (s table).freeHead = some idx →
      Stores s table idx entry (.create table entry.koRef entry.rights) (.handle (.ok handle))
  | duplicate {source handle : Handle} {asked : Rights} {held : HandleEntry Obj} :
      (s table).entryOf source = some held → held.rights.contains Rights.duplicate = true →
      entry = ⟨held.koRef, held.rights.downgrade asked⟩ → (s table).freeHead = some idx →
      Stores s table idx entry (.duplicate table source asked) (.handle (.ok handle))
  | transfer {a b : Addr} {source handle : Handle} :
      table = (lockOrder a b).2 → (s (lockOrder a b).1).entryOf source = some entry →
      entry.rights.contains Rights.transfer = true → (s table).freeHead = some idx →
      Stores s table idx entry (.transfer a source b) (.handle (.ok handle))

/-- An entry that is live after a call was there before, in a slot that the call
    has not touched, or the call has stored it. -/
theorem stores_or_kept {s s' : Tables Addr Obj} {call : Call Addr Obj} {answer : Answer Obj}
    (h_self : call.selfTransfer = false) (h : perform s call = .ok (answer, s')) {table : Addr}
    {idx : Nat} {entry : HandleEntry Obj} (h_live : (s' table).entryAt idx = some entry) :
    (s' table).slotAt idx = (s table).slotAt idx ∨ Stores s table idx entry call answer := by
  cases call with
  | create a koRef rights =>
      obtain ⟨result, t, h_op, rfl, rfl⟩ := perform_create h
      by_cases h_table : table = a
      · subst h_table
        rw [Function.update_self] at h_live ⊢
        rcases create_ok h_op with ⟨-, -, rfl⟩ | ⟨i, slot, h_head, h_slot, rfl, rfl⟩
        · exact .inl rfl
        · rcases slotAt_of_occupy h_slot ⟨koRef, rights⟩ idx with ⟨rfl, h_entry⟩ | h_kept
          · obtain rfl := Option.some.inj (h_entry.symm.trans h_live)
            exact .inr (.create h_head)
          · exact .inl h_kept
      · rw [Function.update_of_ne h_table]
        exact .inl rfl
  | get a handle =>
      simp only [perform, Except.ok.injEq, Prod.mk.injEq] at h
      rw [h.2]
      exact .inl rfl
  | duplicate a source asked =>
      obtain ⟨result, t, h_op, rfl, rfl⟩ := perform_duplicate h
      by_cases h_table : table = a
      · subst h_table
        rw [Function.update_self] at h_live ⊢
        rcases duplicate_ok h_op with
          ⟨-, -, rfl⟩ | ⟨held, i, slot, h_held, h_head, h_slot, rfl, rfl⟩
        · exact .inl rfl
        · rcases slotAt_of_occupy h_slot ⟨held.koRef, held.rights.downgrade asked⟩ idx with
            ⟨rfl, h_entry⟩ | h_kept
          · have h_eq := Option.some.inj (h_live.symm.trans h_entry)
            exact .inr (.duplicate h_held (duplicate_holds h_op h_held) h_eq h_head)
          · exact .inl h_kept
      · rw [Function.update_of_ne h_table]
        exact .inl rfl
  | close a handle =>
      obtain ⟨result, t, h_op, rfl, rfl⟩ := perform_close h
      by_cases h_table : table = a
      · subst h_table
        rw [Function.update_self] at h_live ⊢
        rcases close_ok h_op with ⟨rfl, -⟩ | ⟨slot, e, h_slot, -, -, -, rfl⟩
        · exact .inl rfl
        · exact .inl (slotAt_of_vacate h_slot h_live)
      · rw [Function.update_of_ne h_table]
        exact .inl rfl
  | transfer a source b =>
      obtain ⟨result, first, second, h_move, rfl, h_first, h_second, h_other⟩ :=
        perform_transfer (Call.ne_of_selfTransfer h_self) h
      rcases moveEntry_ok h_move with ⟨-, -, rfl, rfl⟩ |
        ⟨slot, held, i, free, h_slot, h_gen, h_entry, h_head, h_free, rfl, rfl, rfl⟩
      · left
        by_cases h_table : table = (lockOrder a b).1
        · rw [h_table, h_first]
        · by_cases h_table' : table = (lockOrder a b).2
          · rw [h_table', h_second]
          · rw [h_other table h_table h_table']
      · have h_held : (s (lockOrder a b).1).entryOf source = some held :=
          entryOf_eq_some.mpr ⟨slot, h_slot, h_gen, h_entry⟩
        by_cases h_table : table = (lockOrder a b).1
        · left
          rw [h_table, h_first] at h_live
          rw [h_table, h_first]
          exact slotAt_of_vacate h_slot h_live
        · by_cases h_table' : table = (lockOrder a b).2
          · rw [h_table', h_second] at h_live
            rcases slotAt_of_occupy h_free held idx with ⟨rfl, h_stored⟩ | h_kept
            · obtain rfl := Option.some.inj (h_stored.symm.trans h_live)
              rw [← h_table'] at h_head
              exact .inr (.transfer h_table' h_held (moveEntry_holds h_move h_held) h_head)
            · left
              rw [h_table', h_second]
              exact h_kept
          · left
            rw [h_other table h_table h_table']

-- ============================================================================
-- Runs
-- ============================================================================

/-- In every state of a run on tables created empty, with any capacities, every
    live entry descends, by `duplicate`s of entries that held `DUPLICATE` then and
    `transfer`s of entries that held `TRANSFER` then, from one `create` for the
    same object, and has no right that was missing on the way. -/
theorem descends_of_live {calls : List (Call Addr Obj)} {s : Tables Addr Obj}
    (h_run : (family capacity).exec (family capacity).init calls = some s) {table : Addr}
    {idx : Nat} {entry : HandleEntry Obj} (h_live : (s table).entryAt idx = some entry) :
    ∃ earlier, Descends capacity calls table idx entry earlier ∧ Confined entry earlier := by
  induction calls using List.reverseRecOn generalizing s table idx entry with
  | nil =>
      obtain rfl : (family capacity).init = s := by simpa using h_run
      have h_none : (new (capacity table) : HandleTable Obj).entryAt idx = none := entryAt_new _ _
      exact absurd (h_none.symm.trans h_live) (by simp)
  | append_singleton calls call ih =>
      obtain ⟨m, h_before, h_call⟩ := Machine.exec_append_eq_some.mp h_run
      obtain ⟨s', h_step, h_nil⟩ := Machine.exec_cons_eq_some.mp h_call
      obtain rfl : s' = s := by simpa using h_nil
      obtain ⟨h_self, answer, h_perform⟩ := step_eq_some h_step
      have h_made : Made capacity calls call m answer s' := ⟨h_before, h_self, h_perform⟩
      rcases stores_or_kept h_self h_perform h_live with h_kept | h_stores
      · have h_old : (m table).entryAt idx = some entry := by
          rw [entryAt, ← h_kept]
          exact h_live
        obtain ⟨earlier, h_descends, h_confined⟩ := ih h_before h_old
        exact ⟨earlier, .kept h_made h_descends h_kept, h_confined⟩
      · cases h_stores with
        | create h_head =>
            exact ⟨_, .create h_made h_head h_live, confined_singleton entry⟩
        | @duplicate source handle asked held h_held h_holds h_eq h_head =>
            obtain ⟨earlier, h_descends, h_confined⟩ := ih h_before (entryAt_of_entryOf h_held)
            refine ⟨_, .duplicate h_made h_descends h_held h_holds h_head h_live, ?_⟩
            subst h_eq
            exact h_confined.cons rfl (Rights.contains_downgrade held.rights asked)
        | @transfer a b source handle h_table h_held h_holds h_head =>
            obtain ⟨earlier, h_descends, h_confined⟩ := ih h_before (entryAt_of_entryOf h_held)
            subst h_table
            exact ⟨_, .transfer h_made h_descends h_held h_holds h_head h_live,
              h_confined.cons rfl (Rights.contains_refl _)⟩

/-- Object `7` gets a handle with all rights in one table; a duplicate of it, with
    `DUPLICATE` and `TRANSFER` only, is moved to another table. -/
def movedDuplicate : List (Call Bool Nat) :=
  [.create false 7 Rights.all, .duplicate false ⟨0⟩ ⟨0x30#32⟩, .transfer false ⟨1⟩ true]

theorem descends_movedDuplicate :
    ∃ s, (family fun _ : Bool => 2).exec (family fun _ => 2).init movedDuplicate = some s ∧
      (s true).entryAt 0 = some ⟨7, ⟨0x30#32⟩⟩ ∧
      ∃ earlier, Descends (fun _ => 2) movedDuplicate true 0 ⟨7, ⟨0x30#32⟩⟩ earlier ∧
        Confined ⟨7, ⟨0x30#32⟩⟩ earlier :=
  ⟨_, rfl, rfl, descends_of_live rfl rfl⟩

end HandleTable
end Zydon
