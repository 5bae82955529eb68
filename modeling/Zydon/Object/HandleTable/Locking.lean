/-
  Zydon.Object.HandleTable.Locking

  The locks of the handle tables, over every interleaving of any number of
  cores.

  Each core runs a sequence of calls of its own.  A call takes the lock of its
  table, a `transfer` those of its two tables, the lower address first; a lock
  is a mutex, and taking it, the body of the call and dropping a guard are one
  step each.  No run gets stuck exactly when no call transfers a handle from a
  table to itself (`deadlockFree_iff`).
-/

import Zydon.Lib.LockOrder
import Zydon.Lib.Tally
import Zydon.Object.HandleTable.Family

namespace Zydon
namespace HandleTable

open Lib

-- ============================================================================
-- Cores and locks
-- ============================================================================

section Model

variable {Core Addr Obj : Type} [LinearOrder Addr]

/-- The table whose lock a call takes first. -/
def Call.first : Call Addr Obj → Addr
  | .create a _ _ | .get a _ | .duplicate a _ _ | .close a _ => a
  | .transfer a _ b => (lockOrder a b).1

/-- The table whose lock a `transfer` takes second. -/
def Call.second : Call Addr Obj → Option Addr
  | .create _ _ _ | .get _ _ | .duplicate _ _ _ | .close _ _ => none
  | .transfer a _ b => some (lockOrder a b).2

/-- Where a core is, with the calls it has still to begin: between two calls, or
    in `call`, before the step named. -/
inductive LockPc (Addr Obj : Type) where
  | idle (calls : List (Call Addr Obj))
  | lockFirst (call : Call Addr Obj) (calls : List (Call Addr Obj))
  | lockSecond (call : Call Addr Obj) (calls : List (Call Addr Obj))
  | body (call : Call Addr Obj) (calls : List (Call Addr Obj))
  /-- The drop of the second guard, which is the first to go. -/
  | dropSecond (call : Call Addr Obj) (calls : List (Call Addr Obj))
  | dropFirst (call : Call Addr Obj) (calls : List (Call Addr Obj))

/-- The tables, the holders of their locks, and the cores. -/
structure Locked (Core Addr Obj : Type) where
  tables : Tables Addr Obj
  holder : Addr → Option Core
  pc : Core → LockPc Addr Obj

variable [DecidableEq Core]

/-- A core moves. -/
def Locked.goto (s : Locked Core Addr Obj) (c : Core) (p : LockPc Addr Obj) :
    Locked Core Addr Obj :=
  { s with pc := Function.update s.pc c p }

/-- Take or release the lock of a table. -/
def Locked.setHolder (s : Locked Core Addr Obj) (a : Addr) (holder : Option Core) :
    Locked Core Addr Obj :=
  { s with holder := Function.update s.holder a holder }

/-- The tables after the body of a call; a panic only drops the guards. -/
def bodyTables (s : Tables Addr Obj) (call : Call Addr Obj) : Tables Addr Obj :=
  match perform s call with
  | .ok (_, s') => s'
  | .error _ => s

/-- One step of a core; a core that waits for a lock has none. -/
def lockStep (s : Locked Core Addr Obj) (c : Core) : Option (Locked Core Addr Obj) :=
  match s.pc c with
  | .idle [] => none
  | .idle (call :: calls) => some (s.goto c (.lockFirst call calls))
  | .lockFirst call calls =>
      if (s.holder call.first).isSome then none
      else some ((s.setHolder call.first (some c)).goto c
        (if call.second.isSome then .lockSecond call calls else .body call calls))
  | .lockSecond call calls =>
      match call.second with
      | none => none
      | some b =>
          if (s.holder b).isSome then none
          else some ((s.setHolder b (some c)).goto c (.body call calls))
  | .body call calls =>
      some ({ s with tables := bodyTables s.tables call }.goto c
        (if call.second.isSome then .dropSecond call calls else .dropFirst call calls))
  | .dropSecond call calls =>
      match call.second with
      | none => none
      | some b => some ((s.setHolder b none).goto c (.dropFirst call calls))
  | .dropFirst call calls => some ((s.setHolder call.first none).goto c (.idle calls))

/-- The cores with the calls `program`, on tables created with the capacities
    `capacity`. -/
def lockMachine (capacity : Addr → Nat) (program : Core → List (Call Addr Obj)) :
    Machine (Locked Core Addr Obj) Core where
  init :=
    { tables := fun a => new (capacity a)
      holder := fun _ => none
      pc := fun c => .idle (program c) }
  step := lockStep

/-- Some core has not finished, and none can take a step. -/
def Locked.Deadlocked (s : Locked Core Addr Obj) : Prop :=
  (∃ c, s.pc c ≠ .idle []) ∧ ∀ c, lockStep s c = none

end Model

variable {Core Addr Obj : Type} [LinearOrder Addr]

-- ============================================================================
-- The order of the two locks
-- ============================================================================

/-- The two locks of a `transfer` are one exactly when its tables are one. -/
theorem Call.second_eq_first_iff {call : Call Addr Obj} :
    call.second = some call.first ↔ call.selfTransfer = true := by
  cases call with
  | create a koRef rights | get a handle | duplicate a handle rights | close a handle =>
      simp [Call.second, Call.selfTransfer]
  | transfer a handle b =>
      simp only [Call.second, Call.first, Call.selfTransfer, lockOrder, Option.some.injEq,
        beq_iff_eq]
      split
      · next h_lt => exact ⟨fun h => absurd h h_lt.ne', fun h => absurd h h_lt.ne⟩
      · exact Iff.rfl

/-- The lower address is locked first. -/
theorem Call.first_lt_second {call : Call Addr Obj} (h_self : call.selfTransfer = false) {b : Addr}
    (h_second : call.second = some b) : call.first < b := by
  have h_ne : b ≠ call.first := by
    rintro rfl
    rw [second_eq_first_iff.mp h_second] at h_self
    exact absurd h_self (by simp)
  cases call with
  | create a koRef rights | get a handle | duplicate a handle rights | close a handle =>
      exact absurd h_second (by simp [Call.second])
  | transfer a handle b' =>
      simp only [Call.second, Call.first, lockOrder, Option.some.injEq] at h_second h_ne ⊢
      split
      · next h_lt =>
          rw [if_pos h_lt] at h_second
          exact h_second ▸ h_lt
      · next h_not =>
          rw [if_neg h_not] at h_second h_ne
          exact lt_of_le_of_ne (h_second ▸ not_lt.mp h_not) h_ne.symm

-- ============================================================================
-- Who holds what
-- ============================================================================

namespace LockPc

/-- The locks a core holds. -/
def held : LockPc Addr Obj → List Addr
  | .idle _ | .lockFirst _ _ => []
  | .lockSecond call _ | .dropFirst call _ => [call.first]
  | .body call _ | .dropSecond call _ => call.first :: call.second.toList

/-- The lock a core waits for, if it is taken. -/
def waits : LockPc Addr Obj → Option Addr
  | .lockFirst call _ => some call.first
  | .lockSecond call _ => call.second
  | .idle _ | .body _ _ | .dropSecond _ _ | .dropFirst _ _ => none

/-- The calls a core has not finished. -/
def calls : LockPc Addr Obj → List (Call Addr Obj)
  | .idle calls => calls
  | .lockFirst call calls | .lockSecond call calls | .body call calls
  | .dropSecond call calls | .dropFirst call calls => call :: calls

/-- The steps a core has still to take, at most. -/
def work : LockPc Addr Obj → Nat
  | .idle calls => 7 * calls.length
  | .lockFirst _ calls => 7 * calls.length + 6
  | .lockSecond _ calls => 7 * calls.length + 5
  | .body _ calls => 7 * calls.length + 4
  | .dropSecond _ calls => 7 * calls.length + 3
  | .dropFirst _ calls => 7 * calls.length + 2

/-- A core only takes a second lock if its call has one, and gets past it only
    if that is another one than the first. -/
def Ok : LockPc Addr Obj → Prop
  | .idle _ | .lockFirst _ _ => True
  | .lockSecond call _ => call.second.isSome = true
  | .body call _ | .dropFirst call _ => call.selfTransfer = false
  | .dropSecond call _ => call.second.isSome = true ∧ call.selfTransfer = false

end LockPc

/-- The locks are held by the cores that are between taking and dropping them. -/
def HoldersAgree (holder : Addr → Option Core) (pc : Core → LockPc Addr Obj) : Prop :=
  ∀ a c, holder a = some c ↔ a ∈ (pc c).held

/-- The invariant of the locks. -/
structure LockInv (s : Locked Core Addr Obj) : Prop where
  holders : HoldersAgree s.holder s.pc
  ok : ∀ c, (s.pc c).Ok

variable [DecidableEq Core] {s s' : Locked Core Addr Obj} {holder : Addr → Option Core}
  {pc : Core → LockPc Addr Obj} {p : LockPc Addr Obj} {c : Core} {a : Addr}

theorem HoldersAgree.keep (h : HoldersAgree holder pc) (h_held : p.held = (pc c).held) :
    HoldersAgree holder (Function.update pc c p) := by
  intro b c'
  by_cases h_c : c' = c
  · subst h_c
    rw [Function.update_self, h_held, h]
  · rw [Function.update_of_ne h_c, h]

/-- A core takes a free lock. -/
theorem HoldersAgree.take (h : HoldersAgree holder pc) (h_free : holder a = none)
    (h_held : ∀ b, b ∈ p.held ↔ b = a ∨ b ∈ (pc c).held) :
    HoldersAgree (Function.update holder a (some c)) (Function.update pc c p) := by
  intro b c'
  by_cases h_b : b = a
  · subst h_b
    rw [Function.update_self]
    by_cases h_c : c' = c
    · subst h_c
      rw [Function.update_self, h_held]
      exact ⟨fun _ => .inl rfl, fun _ => rfl⟩
    · rw [Function.update_of_ne h_c, ← h, h_free]
      exact ⟨fun h_eq => absurd (Option.some.inj h_eq).symm h_c, fun h_eq => absurd h_eq (by simp)⟩
  · rw [Function.update_of_ne h_b, h]
    by_cases h_c : c' = c
    · subst h_c
      rw [Function.update_self, h_held]
      exact ⟨.inr, fun h => h.resolve_left h_b⟩
    · rw [Function.update_of_ne h_c]

/-- A core drops a lock it holds. -/
theorem HoldersAgree.drop (h : HoldersAgree holder pc) (h_mem : a ∈ (pc c).held)
    (h_held : ∀ b, b ∈ p.held ↔ b ≠ a ∧ b ∈ (pc c).held) :
    HoldersAgree (Function.update holder a none) (Function.update pc c p) := by
  intro b c'
  by_cases h_b : b = a
  · subst h_b
    rw [Function.update_self]
    refine ⟨fun h_eq => absurd h_eq (by simp), fun h_b => ?_⟩
    by_cases h_c : c' = c
    · subst h_c
      rw [Function.update_self, h_held] at h_b
      exact absurd rfl h_b.1
    · rw [Function.update_of_ne h_c, ← h, (h b c).mpr h_mem] at h_b
      exact absurd (Option.some.inj h_b).symm h_c
  · rw [Function.update_of_ne h_b, h]
    by_cases h_c : c' = c
    · subst h_c
      rw [Function.update_self, h_held]
      exact ⟨fun h => ⟨h_b, h⟩, And.right⟩
    · rw [Function.update_of_ne h_c]

-- ============================================================================
-- One step
-- ============================================================================

/-- What a step of a core does to the core, and to the holders of the locks. -/
inductive LockEffect (c : Core) (holder : Addr → Option Core) :
    LockPc Addr Obj → (Addr → Option Core) → LockPc Addr Obj → Prop
  | begin {call : Call Addr Obj} {calls : List (Call Addr Obj)} :
      LockEffect c holder (.idle (call :: calls)) holder (.lockFirst call calls)
  | takeOnly {call : Call Addr Obj} {calls : List (Call Addr Obj)}
      (h_free : holder call.first = none) (h_second : call.second = none) :
      LockEffect c holder (.lockFirst call calls)
        (Function.update holder call.first (some c)) (.body call calls)
  | takeFirst {call : Call Addr Obj} {calls : List (Call Addr Obj)}
      (h_free : holder call.first = none) (h_second : call.second.isSome = true) :
      LockEffect c holder (.lockFirst call calls)
        (Function.update holder call.first (some c)) (.lockSecond call calls)
  | takeSecond {call : Call Addr Obj} {calls : List (Call Addr Obj)} {b : Addr}
      (h_second : call.second = some b) (h_free : holder b = none) :
      LockEffect c holder (.lockSecond call calls)
        (Function.update holder b (some c)) (.body call calls)
  | leaveOne {call : Call Addr Obj} {calls : List (Call Addr Obj)} (h_second : call.second = none) :
      LockEffect c holder (.body call calls) holder (.dropFirst call calls)
  | leaveTwo {call : Call Addr Obj} {calls : List (Call Addr Obj)}
      (h_second : call.second.isSome = true) :
      LockEffect c holder (.body call calls) holder (.dropSecond call calls)
  | dropSecond {call : Call Addr Obj} {calls : List (Call Addr Obj)} {b : Addr}
      (h_second : call.second = some b) :
      LockEffect c holder (.dropSecond call calls)
        (Function.update holder b none) (.dropFirst call calls)
  | dropFirst {call : Call Addr Obj} {calls : List (Call Addr Obj)} :
      LockEffect c holder (.dropFirst call calls)
        (Function.update holder call.first none) (.idle calls)

theorem lockStep_effect (h : lockStep s c = some s') :
    ∃ p, s'.pc = Function.update s.pc c p ∧ LockEffect c s.holder (s.pc c) s'.holder p := by
  unfold lockStep at h
  cases h_pc : s.pc c with
  | idle calls =>
      cases calls with
      | nil =>
          rw [h_pc] at h
          exact absurd h (by simp)
      | cons call calls =>
          rw [h_pc] at h
          cases h
          exact ⟨_, rfl, .begin⟩
  | lockFirst call calls =>
      simp only [h_pc] at h
      split at h
      · exact absurd h (by simp)
      · next h_free =>
          rw [Option.not_isSome_iff_eq_none] at h_free
          cases h
          refine ⟨_, rfl, ?_⟩
          split
          · next h_second => exact .takeFirst h_free h_second
          · next h_second => exact .takeOnly h_free (Option.not_isSome_iff_eq_none.mp h_second)
  | lockSecond call calls =>
      simp only [h_pc] at h
      split at h
      · exact absurd h (by simp)
      · next b h_second =>
          split at h
          · exact absurd h (by simp)
          · next h_free =>
              rw [Option.not_isSome_iff_eq_none] at h_free
              cases h
              exact ⟨_, rfl, .takeSecond h_second h_free⟩
  | body call calls =>
      rw [h_pc] at h
      cases h
      refine ⟨_, rfl, ?_⟩
      split
      · next h_second => exact .leaveTwo h_second
      · next h_second => exact .leaveOne (Option.not_isSome_iff_eq_none.mp h_second)
  | dropSecond call calls =>
      simp only [h_pc] at h
      split at h
      · exact absurd h (by simp)
      · next b h_second =>
          cases h
          exact ⟨_, rfl, .dropSecond h_second⟩
  | dropFirst call calls =>
      rw [h_pc] at h
      cases h
      exact ⟨_, rfl, .dropFirst⟩

omit [DecidableEq Core] in
/-- A core that is not done with its calls moves on by every step it takes. -/
theorem LockEffect.work_lt {holder' : Addr → Option Core} {p p' : LockPc Addr Obj}
    (h : LockEffect c holder p holder' p') : p'.work < p.work := by
  cases h <;> simp only [LockPc.work, List.length_cons] <;> omega

omit [DecidableEq Core] in
/-- A step finishes one call at most, which moves nothing from a table to
    itself. -/
theorem LockEffect.calls {holder' : Addr → Option Core} {p p' : LockPc Addr Obj}
    (h : LockEffect c holder p holder' p') (h_ok : p.Ok) :
    p'.calls = p.calls ∨ ∃ call, p.calls = call :: p'.calls ∧ call.selfTransfer = false := by
  cases h with
  | @dropFirst call calls => exact .inr ⟨call, rfl, h_ok⟩
  | begin | takeOnly _ _ | takeFirst _ _ | takeSecond _ _ | leaveOne _ | leaveTwo _
  | dropSecond _ => exact .inl rfl

omit [DecidableEq Core] in
theorem selfTransfer_of_second_eq_none {call : Call Addr Obj} (h : call.second = none) :
    call.selfTransfer = false := by
  rw [← Bool.not_eq_true, ← Call.second_eq_first_iff, h]
  simp

theorem LockInv.step (h : LockInv s) (h_step : lockStep s c = some s') : LockInv s' := by
  obtain ⟨p, h_pc, h_effect⟩ := lockStep_effect h_step
  have h_ok := h.ok c
  have h_holders := h.holders
  suffices h_new : HoldersAgree s'.holder (Function.update s.pc c p) ∧ p.Ok by
    constructor
    case holders =>
      rw [h_pc]
      exact h_new.1
    case ok =>
      intro c'
      rw [h_pc]
      by_cases h_c : c' = c
      · subst h_c
        rw [Function.update_self]
        exact h_new.2
      · rw [Function.update_of_ne h_c]
        exact h.ok c'
  generalize h_p : s.pc c = old at h_effect h_ok
  generalize s'.holder = holder' at h_effect ⊢
  cases h_effect with
  | begin =>
      exact ⟨h_holders.keep (by rw [h_p]; rfl), trivial⟩
  | @takeOnly call calls h_free h_second =>
      refine ⟨h_holders.take h_free ?_, selfTransfer_of_second_eq_none h_second⟩
      simp [h_p, LockPc.held, h_second]
  | @takeFirst call calls h_free h_second =>
      refine ⟨h_holders.take h_free ?_, h_second⟩
      simp [h_p, LockPc.held]
  | @takeSecond call calls b h_second h_free =>
      have h_first : s.holder call.first = some c := by
        rw [h_holders, h_p]
        exact List.mem_singleton_self _
      refine ⟨h_holders.take h_free ?_, ?_⟩
      · simp [h_p, LockPc.held, h_second, or_comm]
      · -- the lock is free, so that it is not the one the core holds
        rw [LockPc.Ok, ← Bool.not_eq_true, ← Call.second_eq_first_iff, h_second]
        rintro h_eq
        rw [Option.some.inj h_eq, h_first] at h_free
        exact absurd h_free (by simp)
  | @leaveOne call calls h_second =>
      exact ⟨h_holders.keep (by rw [h_p, LockPc.held, LockPc.held, h_second]; rfl), h_ok⟩
  | @leaveTwo call calls h_second =>
      exact ⟨h_holders.keep (by rw [h_p]; rfl), h_second, h_ok⟩
  | @dropSecond call calls b h_second =>
      have h_lt := Call.first_lt_second h_ok.2 h_second
      refine ⟨h_holders.drop ?_ ?_, h_ok.2⟩
      · simp [h_p, LockPc.held, h_second]
      · intro x
        simp only [h_p, LockPc.held, h_second, Option.toList_some, List.mem_cons,
          List.not_mem_nil, or_false]
        constructor
        · rintro rfl
          exact ⟨h_lt.ne, .inl rfl⟩
        · rintro ⟨h_ne, h_x | h_x⟩
          · exact h_x
          · exact absurd h_x h_ne
  | @dropFirst call calls =>
      refine ⟨h_holders.drop ?_ ?_, trivial⟩
      · simp [h_p, LockPc.held]
      · simp [h_p, LockPc.held]

-- ============================================================================
-- Stuck states
-- ============================================================================

/-- A core that holds a lock and cannot move waits for its second one. -/
theorem LockInv.waits_of_held (h : LockInv s) (h_stuck : lockStep s c = none)
    (h_held : a ∈ (s.pc c).held) :
    ∃ call calls, s.pc c = .lockSecond call calls ∧ a = call.first := by
  have h_ok := h.ok c
  unfold lockStep at h_stuck
  cases h_pc : s.pc c with
  | idle calls | lockFirst call calls =>
      rw [h_pc] at h_held
      exact absurd h_held List.not_mem_nil
  | lockSecond call calls =>
      rw [h_pc] at h_held
      exact ⟨call, calls, rfl, List.mem_singleton.mp h_held⟩
  | body call calls | dropFirst call calls =>
      rw [h_pc] at h_stuck
      exact absurd h_stuck (by simp)
  | dropSecond call calls =>
      rw [h_pc] at h_ok h_stuck
      obtain ⟨b, h_b⟩ := Option.isSome_iff_exists.mp h_ok.1
      simp only [h_b] at h_stuck
      exact absurd h_stuck (by simp)

/-- A core that cannot move has finished, or waits for a lock that is held. -/
theorem LockInv.idle_or_waits (h : LockInv s) (h_stuck : lockStep s c = none) :
    s.pc c = .idle [] ∨ ∃ a c', (s.pc c).waits = some a ∧ s.holder a = some c' := by
  have h_ok := h.ok c
  unfold lockStep at h_stuck
  cases h_pc : s.pc c with
  | idle calls =>
      cases calls with
      | nil => exact .inl rfl
      | cons call calls =>
          rw [h_pc] at h_stuck
          exact absurd h_stuck (by simp)
  | lockFirst call calls =>
      rw [h_pc] at h_stuck
      simp only [ite_eq_left_iff, Bool.not_eq_true, reduceCtorEq, imp_false, Bool.not_eq_false]
        at h_stuck
      obtain ⟨c', h_c'⟩ := Option.isSome_iff_exists.mp h_stuck
      exact .inr ⟨call.first, c', rfl, h_c'⟩
  | lockSecond call calls =>
      rw [h_pc] at h_ok h_stuck
      obtain ⟨b, h_b⟩ := Option.isSome_iff_exists.mp h_ok
      simp only [h_b, ite_eq_left_iff, Bool.not_eq_true, reduceCtorEq, imp_false,
        Bool.not_eq_false] at h_stuck
      obtain ⟨c', h_c'⟩ := Option.isSome_iff_exists.mp h_stuck
      exact .inr ⟨b, c', h_b, h_c'⟩
  | body call calls | dropFirst call calls =>
      rw [h_pc] at h_stuck
      exact absurd h_stuck (by simp)
  | dropSecond call calls =>
      rw [h_pc] at h_ok h_stuck
      obtain ⟨b, h_b⟩ := Option.isSome_iff_exists.mp h_ok.1
      simp only [h_b] at h_stuck
      exact absurd h_stuck (by simp)

/-- The address order: where no call transfers from a table to itself, cores
    that cannot move have all finished. -/
theorem LockInv.finished [Finite Core] (h : LockInv s)
    (h_calls : ∀ c, ∀ call ∈ (s.pc c).calls, call.selfTransfer = false)
    (h_stuck : ∀ c, lockStep s c = none) (c : Core) : s.pc c = .idle [] := by
  have h_none : ∀ c, (s.pc c).waits = none := by
    refine waits_eq_none fun c a h_waits => ?_
    rcases h.idle_or_waits (h_stuck c) with h_idle | ⟨a', c', h_a', h_holder⟩
    · rw [h_idle] at h_waits
      exact absurd h_waits (by simp [LockPc.waits])
    · obtain rfl : a' = a := Option.some.inj (h_a'.symm.trans h_waits)
      obtain ⟨call, calls, h_pc, h_first⟩ :=
        h.waits_of_held (h_stuck c') ((h.holders a' c').mp h_holder)
      have h_ok := h.ok c'
      rw [h_pc] at h_ok
      obtain ⟨b, h_b⟩ := Option.isSome_iff_exists.mp h_ok
      have h_self := h_calls c' call (by rw [h_pc]; exact List.mem_cons_self)
      refine ⟨c', b, by rw [h_pc]; exact h_b, ?_⟩
      rw [h_first]
      exact Call.first_lt_second h_self h_b
  rcases h.idle_or_waits (h_stuck c) with h_idle | ⟨a, c', h_a, -⟩
  · exact h_idle
  · rw [h_none c] at h_a
    exact absurd h_a (by simp)

-- ============================================================================
-- Runs
-- ============================================================================

variable {capacity : Addr → Nat} {program : Core → List (Call Addr Obj)}

theorem lockInv_init : LockInv (lockMachine capacity program).init where
  holders := by
    intro a c
    exact ⟨fun h => absurd h (by simp [lockMachine]), fun h => absurd h List.not_mem_nil⟩
  ok := fun _ => trivial

theorem lockInv_of_reachable (h : (lockMachine capacity program).Reachable s) : LockInv s :=
  h.invariant lockInv_init fun _ _ _ h_inv h_step => h_inv.step h_step

/-- The calls that move something from a table to itself are never finished, and
    nothing is added to what a core has still to do. -/
theorem selfTransfer_mem_calls (h : (lockMachine capacity program).Reachable s)
    {call : Call Addr Obj} (h_self : call.selfTransfer = true) (c : Core) :
    call ∈ (s.pc c).calls ↔ call ∈ program c := by
  have h_init : LockInv (lockMachine capacity program).init ∧
      ∀ c, call ∈ ((lockMachine capacity program).init.pc c).calls ↔ call ∈ program c :=
    ⟨lockInv_init, fun _ => Iff.rfl⟩
  refine (h.invariant (P := fun s => LockInv s ∧ ∀ c, call ∈ (s.pc c).calls ↔ call ∈ program c)
    h_init ?_).2 c
  rintro s c₀ s' ⟨h_inv, h_calls⟩ h_step
  refine ⟨h_inv.step h_step, fun c => ?_⟩
  obtain ⟨p, h_pc, h_effect⟩ := lockStep_effect h_step
  rw [h_pc]
  by_cases h_c : c = c₀
  · subst h_c
    rw [Function.update_self, ← h_calls]
    rcases h_effect.calls (h_inv.ok c) with h_eq | ⟨done, h_eq, h_done⟩
    · rw [h_eq]
    · rw [h_eq, List.mem_cons]
      refine ⟨.inr, fun h => h.resolve_left ?_⟩
      rintro rfl
      rw [h_self] at h_done
      exact absurd h_done (by simp)
  · rw [Function.update_of_ne h_c, h_calls]

/-- Every step leaves the cores with less to do. -/
theorem sum_work_lt [Fintype Core] (h_step : lockStep s c = some s') :
    ∑ c, (s'.pc c).work < ∑ c, (s.pc c).work := by
  obtain ⟨p, h_pc, h_effect⟩ := lockStep_effect h_step
  have h_less := h_effect.work_lt
  have h_sum := sum_update_add LockPc.work s.pc c p
  rw [h_pc]
  omega

/-- The cores never deadlock, whatever their calls do to the tables, exactly when
    no call is a transfer from a table to itself: its second lock is the one the
    core holds already. -/
theorem deadlockFree_iff [Fintype Core] (capacity : Addr → Nat)
    (program : Core → List (Call Addr Obj)) :
    (∀ s, (lockMachine capacity program).Reachable s → ¬ s.Deadlocked) ↔
      ∀ c, ∀ call ∈ program c, call.selfTransfer = false := by
  constructor
  · intro h_free c call h_mem
    by_contra h_self
    rw [Bool.not_eq_false] at h_self
    have h_less : ∀ s c s', (lockMachine capacity program).step s c = some s' →
        ∑ c, (s'.pc c).work < ∑ c, (s.pc c).work := fun _ _ _ h_step => sum_work_lt h_step
    obtain ⟨tr, s, h_run, h_stuck⟩ :=
      Machine.exists_stuck h_less (lockMachine capacity program).init
    have h_reach : (lockMachine capacity program).Reachable s := ⟨tr, h_run⟩
    refine h_free s h_reach ⟨⟨c, fun h_idle => ?_⟩, h_stuck⟩
    have h_left := (selfTransfer_mem_calls h_reach h_self c).mpr h_mem
    rw [h_idle] at h_left
    exact absurd h_left List.not_mem_nil
  · rintro h_distinct s h_reach ⟨⟨c, h_c⟩, h_stuck⟩
    refine h_c ((lockInv_of_reachable h_reach).finished ?_ h_stuck c)
    intro c' call h_mem
    by_contra h_self
    rw [Bool.not_eq_false] at h_self
    have h_call := h_distinct c' call ((selfTransfer_mem_calls h_reach h_self c').mp h_mem)
    rw [h_self] at h_call
    exact absurd h_call (by simp)

/-- One core transfers a handle from table 7 to table 7. -/
def selfTransferProgram : Unit → List (Call Nat Nat) := fun _ => [.transfer 7 ⟨0⟩ 7]

/-- It waits for the lock it holds. -/
theorem selfTransfer_deadlocks :
    ∃ s, (lockMachine (fun _ => 4) selfTransferProgram).Reachable s ∧ s.Deadlocked := by
  have h_run : ∃ s, (lockMachine (fun _ => 4) selfTransferProgram).exec
      (lockMachine (fun _ => 4) selfTransferProgram).init [(), ()] = some s ∧
      s.pc () = .lockSecond (.transfer 7 ⟨0⟩ 7) [] ∧ s.holder 7 = some () :=
    ⟨_, rfl, rfl, rfl⟩
  obtain ⟨s, h_run, h_pc, h_holder⟩ := h_run
  refine ⟨s, ⟨_, h_run⟩, ⟨(), by simp [h_pc]⟩, fun c => ?_⟩
  have h_second : (Call.transfer 7 ⟨0⟩ 7 : Call Nat Nat).second = some 7 := rfl
  simp only [lockStep, h_pc, h_second, h_holder, Option.isSome_some, if_true]

end HandleTable
end Zydon
