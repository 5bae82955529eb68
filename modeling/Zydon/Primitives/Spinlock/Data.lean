/-
  Zydon.Primitives.Spinlock.Data

  The data of a spinlock, which the cores read and write through their guards.

  Each core takes the lock for one piece of work after the other, and drops the guard
  when the work is done.  In the runs in which the ticket lock excludes, it is an ideal
  lock: every run is one of the critical sections of `Lib.Sections` with a single lock
  (`Simulated`), so that the data goes from one piece of work to the next as if each were
  one step.
-/

import Zydon.Lib.Sections
import Zydon.Primitives.Spinlock.Exclusion

namespace Zydon
namespace Spinlock

open Lib

section Model

variable {Core Txn T E A : Type}

/-- The lock, its data, what each core has still to do under the lock and what it is
    doing, and what has been done. -/
structure Guarded (Core Txn T E A : Type) where
  lock : State Core
  data : T
  ahead : Core → List Txn
  /-- From the call of `lock` to the drop of the guard. -/
  inside : Core → Option (Txn × Work Unit T E A)
  returned : List (Returned Core Txn E A)

/-- A step of the lock, or an access to the data through the guard of a core. -/
inductive GuardedAction (Core : Type) where
  | spin (a : Action Core)
  | access (c : Core)
  deriving DecidableEq, Repr

/-- The label starts a call of `lock`. -/
def GuardedAction.isLock : GuardedAction Core → Bool
  | .spin a => a.isLock
  | .access _ => false

/-- The condition on a run, for the steps of the lock. -/
def NoTicketInDropOf (s : Guarded Core Txn T E A) : GuardedAction Core → Prop
  | .spin a => NoTicketInDrop s.lock a
  | .access _ => True

variable [DecidableEq Core]

instance [Fintype Core] (s : Guarded Core Txn T E A) :
    ∀ a : GuardedAction Core, Decidable (NoTicketInDropOf s a)
  | .spin a => inferInstanceAs (Decidable (NoTicketInDrop s.lock a))
  | .access _ => .isTrue trivial

/-- One step.  The data is accessed by cores that own a guard, and a guard is dropped
    when the work is done. -/
def guardedStep (work : Txn → Work Unit T E A) (s : Guarded Core Txn T E A) :
    GuardedAction Core → Option (Guarded Core Txn T E A)
  | .access c =>
      match s.lock.pc c, s.inside c with
      | .holding, some (t, .access _ write next) =>
          some { s with
            data := write s.data
            inside := Function.update s.inside c (some (t, next s.data)) }
      | _, _ => none
  | .spin (.lock c) =>
      match s.ahead c, step s.lock (.lock c) with
      | t :: rest, some lock =>
          some { s with
            lock := lock
            ahead := Function.update s.ahead c rest
            inside := Function.update s.inside c (some (t, work t)) }
      | _, _ => none
  | .spin (.dropLoad c) =>
      match s.inside c, step s.lock (.dropLoad c) with
      | some (t, .done result), some lock =>
          some { s with
            lock := lock
            inside := Function.update s.inside c none
            returned := s.returned ++ [⟨c, t, result⟩] }
      | _, _ => none
  | .spin (.wait c) => (step s.lock (.wait c)).map fun lock => { s with lock := lock }
  | .spin (.dropStore c) => (step s.lock (.dropStore c)).map fun lock => { s with lock := lock }

/-- The cores with what they do under the lock, `program`, on the data `init`. -/
def guardedMachine (work : Txn → Work Unit T E A) (init : T) (program : Core → List Txn) :
    Machine (Guarded Core Txn T E A) (GuardedAction Core) where
  init :=
    { lock := (machine Core).init
      data := init
      ahead := program
      inside := fun _ => none
      returned := [] }
  step := guardedStep work

/-- The same with an ideal lock. -/
def underLock (work : Txn → Work Unit T E A) : Sections Txn Unit T E A where
  locks _ := [()]
  work := work
  within t := (work t).within_of_forall fun _ => List.mem_singleton_self _

/-- What has been done under the lock. -/
structure DataGuarded (work : Txn → Work Unit T E A) (init : T) (program : Core → List Txn)
    (s : Guarded Core Txn T E A) : Prop where
  /-- It has been done one after the other, and is all that has been done to the data
      when no guard is alive. -/
  serial : ∃ d, (underLock work).Serial (fun _ => init) s.returned d ∧
    ((∀ c, (s.lock.pc c).guardAlive = false) → s.data = d ())
  /-- Every core does what it does in its order. -/
  order : ∀ c, Sections.ofThread s.returned c ++ (s.inside c).toList.map Prod.fst ++ s.ahead c =
    program c
  exclusion : s.lock.MutualExclusion

end Model

-- ============================================================================
-- The ideal lock
-- ============================================================================

variable {Core Txn T E A : Type} {work : Txn → Work Unit T E A} {s s' : Guarded Core Txn T E A}
  {a : SectionState Core Txn Unit T E A} {c : Core}

@[simp] theorem underLock_locks (t : Txn) : (underLock work).locks t = [()] := rfl

@[simp] theorem underLock_work (t : Txn) : (underLock work).work t = work t := rfl

/-- Where a core is, and where it is in the critical sections. -/
inductive Sees (work : Txn → Work Unit T E A) :
    Pc → List Txn → Option (Txn × Work Unit T E A) → SectionPc Txn Unit T E A → Prop
  | idle (ahead : List Txn) : Sees work .idle ahead none (.idle ahead)
  | waiting (ticket : BitVec 32) (t : Txn) (ahead : List Txn) :
      Sees work (.waiting ticket) ahead (some (t, work t)) (.locking t [] [()] ahead)
  | holding (t : Txn) (w : Work Unit T E A) (ahead : List Txn) :
      Sees work .holding ahead (some (t, w)) (.working t w ahead)
  | dropping (old : BitVec 32) (t : Txn) (ahead : List Txn) :
      Sees work (.dropping old) ahead none (.unlocking t [()] ahead)

/-- The ticket lock is in the state of an ideal one. -/
structure Simulated (work : Txn → Work Unit T E A) (s : Guarded Core Txn T E A)
    (a : SectionState Core Txn Unit T E A) : Prop where
  store : a.store () = s.data
  returned : a.returned = s.returned
  threads : ∀ c, Sees work (s.lock.pc c) (s.ahead c) (s.inside c) (a.pc c)

/-- With no guard alive the ideal lock is free. -/
theorem Simulated.holder_eq_none (hs : Simulated work s a) (h_lock : (underLock work).LockInv a)
    (h_free : ∀ c, (s.lock.pc c).guardAlive = false) : a.holder () = none := by
  rw [Option.eq_none_iff_forall_ne_some]
  intro c h_c
  have h_held := (h_lock.holders () c).mp h_c
  have h_c := h_free c
  have h_sees := hs.threads c
  generalize s.lock.pc c = p, s.ahead c = ahead, s.inside c = inside, a.pc c = q
    at h_held h_c h_sees
  cases h_sees with
  | idle | waiting => exact absurd h_held List.not_mem_nil
  | holding | dropping => exact absurd h_c (by simp [Pc.guardAlive])

variable [DecidableEq Core]

/-- What a step does. -/
inductive GuardedEffect (work : Txn → Work Unit T E A) (s : Guarded Core Txn T E A) :
    Guarded Core Txn T E A → Prop
  | lock {c : Core} {t : Txn} {rest : List Txn} (ticket state : BitVec 32)
      (h_pc : s.lock.pc c = .idle) (h_ahead : s.ahead c = t :: rest) :
      GuardedEffect work s
        { s with
          lock := State.setPc { s.lock with state := state } c (.waiting ticket)
          ahead := Function.update s.ahead c rest
          inside := Function.update s.inside c (some (t, work t)) }
  | spin : GuardedEffect work s s
  | enter {c : Core} {ticket : BitVec 32} (h_pc : s.lock.pc c = .waiting ticket)
      (h_served : isServed ticket s.lock.state = true) :
      GuardedEffect work s { s with lock := s.lock.setPc c .holding }
  | access {c : Core} {t : Txn} {write : T → T} {next : T → Work Unit T E A}
      (h_pc : s.lock.pc c = .holding) (h_inside : s.inside c = some (t, .access () write next)) :
      GuardedEffect work s
        { s with
          data := write s.data
          inside := Function.update s.inside c (some (t, next s.data)) }
  | finish {c : Core} {t : Txn} {result : Except E A} (h_pc : s.lock.pc c = .holding)
      (h_inside : s.inside c = some (t, .done result)) :
      GuardedEffect work s
        { s with
          lock := s.lock.setPc c (.dropping s.lock.state)
          inside := Function.update s.inside c none
          returned := s.returned ++ [⟨c, t, result⟩] }
  | drop {c : Core} {old : BitVec 32} (h_pc : s.lock.pc c = .dropping old) :
      GuardedEffect work s
        { s with lock := State.setPc { s.lock with state := Spinlock.dropStore old } c .idle }

theorem guardedStep_effect {x : GuardedAction Core} (h : guardedStep work s x = some s') :
    GuardedEffect work s s' := by
  cases x with
  | access c =>
      simp only [guardedStep] at h
      split at h
      · next t u write next h_pc h_inside =>
          cases h
          exact .access h_pc h_inside
      · exact absurd h (by simp)
  | spin b =>
      have h_cases : ∀ lock, step s.lock b = some lock → _ := fun lock h_lock =>
        step_cases (show (machine Core).step s.lock b = some lock from h_lock)
      cases b with
      | lock c =>
          simp only [guardedStep] at h
          split at h
          · next t rest lock h_ahead h_lock =>
              cases h
              obtain ⟨_, h_eq, h_pc, rfl⟩ := (h_cases lock h_lock).resolve_right (by simp)
              cases h_eq
              exact .lock _ _ h_pc h_ahead
          · exact absurd h (by simp)
      | wait c =>
          obtain ⟨lock, h_lock, rfl⟩ := Option.map_eq_some_iff.mp h
          rcases h_cases lock h_lock with ⟨_, h_eq, -⟩ | ⟨_, ticket, h_eq, h_pc, h_wait⟩ |
            ⟨_, h_eq, -⟩ | ⟨_, _, h_eq, -⟩
          case inr.inl =>
            cases h_eq
            rcases h_wait with ⟨h_served, rfl⟩ | ⟨-, rfl⟩
            · exact .enter h_pc h_served
            · exact .spin
          all_goals exact absurd h_eq (by simp)
      | dropLoad c =>
          simp only [guardedStep] at h
          split at h
          · next t result lock h_inside h_lock =>
              cases h
              rcases h_cases lock h_lock with ⟨_, h_eq, -⟩ | ⟨_, _, h_eq, -⟩ |
                ⟨_, h_eq, h_pc, rfl⟩ | ⟨_, _, h_eq, -⟩
              case inr.inr.inl =>
                cases h_eq
                exact .finish h_pc h_inside
              all_goals exact absurd h_eq (by simp)
          · exact absurd h (by simp)
      | dropStore c =>
          obtain ⟨lock, h_lock, rfl⟩ := Option.map_eq_some_iff.mp h
          rcases h_cases lock h_lock with ⟨_, h_eq, -⟩ | ⟨_, _, h_eq, -⟩ | ⟨_, h_eq, -⟩ |
            ⟨_, old, h_eq, h_pc, rfl⟩
          case inr.inr.inr =>
            cases h_eq
            exact .drop h_pc
          all_goals exact absurd h_eq (by simp)

variable {init : T} {program : Core → List Txn}

omit [DecidableEq Core] in
/-- One core moves. -/
theorem Simulated.move {a' : SectionState Core Txn Unit T E A} (hs : Simulated work s a)
    (h_store : a'.store () = s'.data) (h_returned : a'.returned = s'.returned)
    (h_c : Sees work (s'.lock.pc c) (s'.ahead c) (s'.inside c) (a'.pc c))
    (h_others : ∀ d, d ≠ c → s'.lock.pc d = s.lock.pc d ∧ s'.ahead d = s.ahead d ∧
      s'.inside d = s.inside d ∧ a'.pc d = a.pc d) : Simulated work s' a' := by
  refine ⟨h_store, h_returned, fun d => ?_⟩
  by_cases h_d : d = c
  · rwa [h_d]
  · obtain ⟨h_pc, h_ahead, h_inside, h_at⟩ := h_others d h_d
    rw [h_pc, h_ahead, h_inside, h_at]
    exact hs.threads d

/-- A step of the lock or an access is one or two steps with the ideal lock, or none. -/
theorem Simulated.step {n : Nat} (hs : Simulated work s a) (h_inv : Inv n s.lock)
    (h_reach : ((underLock work).machine (fun _ => init) program).Reachable a)
    (h : GuardedEffect work s s') :
    ∃ a', ((underLock work).machine (fun _ => init) program).Reachable a' ∧
      Simulated work s' a' := by
  cases h with
  | @lock c t rest ticket state h_pc h_ahead =>
      have h_sees := hs.threads c
      rw [h_pc, h_ahead] at h_sees
      generalize h_q : a.pc c = q, s.inside c = inside at h_sees
      cases h_sees with
      | idle =>
          refine ⟨_, h_reach.step (Sections.Effect.begin h_q).step_eq,
            hs.move (c := c) hs.store hs.returned ?_ fun d h_d => ?_⟩
          · simpa [State.setPc] using (Sees.waiting ticket t rest : Sees work _ _ _ _)
          · simp [State.setPc, SectionState.goto, h_d]
  | spin => exact ⟨a, h_reach, hs⟩
  | @enter c ticket h_pc h_served =>
      have h_lock := (Sections.inv_of_reachable h_reach).lock
      have h_free : a.holder () = none := by
        refine hs.holder_eq_none h_lock fun d => Bool.eq_false_iff.mpr fun h_d => ?_
        exact (h_inv.guard_served d h_d).2 c ticket h_pc
          ((isServed_iff (h_inv.ticket_lt h_pc)).mp h_served)
      have h_sees := hs.threads c
      rw [h_pc] at h_sees
      generalize h_q : a.pc c = q, h_ahead : s.ahead c = ahead, h_inside : s.inside c = inside
        at h_sees
      cases h_sees with
      | waiting _ t =>
          have h_taken := h_reach.step (Sections.Effect.take h_q h_free).step_eq
          refine ⟨_, h_taken.step (Sections.Effect.enter SectionState.goto_pc_self).step_eq,
            hs.move (c := c) hs.store hs.returned ?_ fun d h_d => ?_⟩
          · simpa [State.setPc, h_ahead, h_inside] using
              (Sees.holding t (work t) ahead : Sees work _ _ _ _)
          · simp [State.setPc, SectionState.goto, SectionState.setHolder, h_d]
  | @access c t write next h_pc h_inside =>
      have h_sees := hs.threads c
      rw [h_pc, h_inside] at h_sees
      generalize h_q : a.pc c = q, h_ahead : s.ahead c = ahead at h_sees
      cases h_sees with
      | holding =>
          refine ⟨_, h_reach.step (Sections.Effect.access h_q).step_eq,
            hs.move (c := c) ?_ hs.returned ?_ fun d h_d => ?_⟩
          · show write (a.store ()) = write s.data
            rw [hs.store]
          · simpa [h_pc, h_ahead, hs.store] using
              (Sees.holding t (next s.data) ahead : Sees work _ _ _ _)
          · simp [SectionState.goto, SectionState.setValue, h_d]
  | @finish c t result h_pc h_inside =>
      have h_sees := hs.threads c
      rw [h_pc, h_inside] at h_sees
      generalize h_q : a.pc c = q, h_ahead : s.ahead c = ahead at h_sees
      cases h_sees with
      | holding =>
          refine ⟨_, h_reach.step (Sections.Effect.finish h_q).step_eq,
            hs.move (c := c) hs.store ?_ ?_ fun d h_d => ?_⟩
          · show a.returned ++ [_] = s.returned ++ [_]
            rw [hs.returned]
          · simpa [State.setPc, h_ahead] using
              (Sees.dropping s.lock.state t ahead : Sees work _ _ _ _)
          · simp [State.setPc, SectionState.goto, SectionState.note, h_d]
  | @drop c old h_pc =>
      have h_sees := hs.threads c
      rw [h_pc] at h_sees
      generalize h_q : a.pc c = q, h_ahead : s.ahead c = ahead, h_inside : s.inside c = inside
        at h_sees
      cases h_sees with
      | dropping _ t =>
          have h_dropped := h_reach.step (Sections.Effect.drop h_q).step_eq
          refine ⟨_, h_dropped.step (Sections.Effect.leave SectionState.goto_pc_self).step_eq,
            hs.move (c := c) hs.store hs.returned ?_ fun d h_d => ?_⟩
          · simpa [State.setPc, h_ahead, h_inside] using
              (Sees.idle ahead : Sees work _ _ _ _)
          · simp [State.setPc, SectionState.goto, SectionState.setHolder, h_d]

-- ============================================================================
-- Runs
-- ============================================================================

/-- The steps of the lock are those of `machine`; an access leaves it alone. -/
theorem guardedStep_inv {n : Nat} {x : GuardedAction Core} (h_inv : Inv n s.lock)
    (h_window : NoTicketInDropOf s x) (h_n : n + (if x.isLock then 1 else 0) < 65536)
    (h : guardedStep work s x = some s') : Inv (n + if x.isLock then 1 else 0) s'.lock := by
  cases x with
  | access c =>
      simp only [guardedStep] at h
      split at h
      · cases h
        exact h_inv
      · exact absurd h (by simp)
  | spin b =>
      have h_step : (machine Core).step s.lock b = some s'.lock := by
        cases b with
        | lock c | dropLoad c =>
            simp only [guardedStep] at h
            split at h
            · next h_lock =>
                cases h
                exact h_lock
            · exact absurd h (by simp)
        | wait c | dropStore c =>
            obtain ⟨lock, h_lock, rfl⟩ := Option.map_eq_some_iff.mp h
            exact h_lock
      exact h_inv.step h_window h_n h_step

theorem simulated_init :
    Simulated work (guardedMachine work init program).init
      ((underLock work).machine (fun _ => init) program).init :=
  ⟨rfl, rfl, fun c => .idle (program c)⟩

/-- In every run of fewer than `2 ^ 16` calls of `lock` in which no ticket is taken
    inside a guard drop, the lock does what it is for. -/
theorem dataGuarded_of_run {tr : List (GuardedAction Core)}
    (h_meet : (guardedMachine work init program).StepsMeet NoTicketInDropOf
      (guardedMachine work init program).init tr)
    (h_calls : tr.countP GuardedAction.isLock < 2 ^ 16)
    (h_run : (guardedMachine work init program).exec (guardedMachine work init program).init tr =
      some s) : DataGuarded work init program s := by
  have h_count : 0 + tr.countP GuardedAction.isLock < 65536 := by omega
  obtain ⟨h_inv, a, h_reach, h_sim⟩ := Machine.exec_invariant_countP
    (P := fun n (s : Guarded Core Txn T E A) => Inv n s.lock ∧
      ∃ a, ((underLock work).machine (fun _ => init) program).Reachable a ∧ Simulated work s a)
    (fun n s x s' hs h_window h_n h => by
      obtain ⟨h_inv, a, h_reach, h_sim⟩ := hs
      exact ⟨guardedStep_inv h_inv h_window h_n h,
        h_sim.step h_inv h_reach (guardedStep_effect h)⟩)
    ⟨inv_init, _, ⟨[], rfl⟩, simulated_init⟩ h_meet h_count h_run
  have h_ideal := Sections.serialized_of_reachable h_reach
  constructor
  case serial =>
    obtain ⟨d, h_serial, h_store⟩ := h_ideal.serial
    rw [h_sim.returned] at h_serial
    refine ⟨d, h_serial, fun h_free => ?_⟩
    have h_lock := (Sections.inv_of_reachable h_reach).lock
    rw [← h_sim.store]
    exact h_store () (h_sim.holder_eq_none h_lock h_free)
  case order =>
    intro c
    have h_order := h_ideal.order c
    rw [h_sim.returned] at h_order
    rw [List.append_assoc, ← h_order]
    have h_sees := h_sim.threads c
    generalize s.lock.pc c = p, s.ahead c = ahead, s.inside c = inside, a.pc c = q at h_sees ⊢
    cases h_sees <;> rfl
  case exclusion => exact h_inv.guard_unique

/-- A counter, which is read in one step and written in another. -/
def increment (_ : Unit) : Work Unit Nat Unit Unit := do
  let x ← Work.read () id
  Work.write () fun _ => x + 1

/-- Two cores count; the second waits while the first is between its read and its write. -/
def bothCount : List (GuardedAction Bool) :=
  [.spin (.lock true), .spin (.lock false), .spin (.wait true), .access true,
    .spin (.wait false), .access true, .spin (.dropLoad true), .spin (.dropStore true),
    .spin (.wait false), .access false, .access false, .spin (.dropLoad false),
    .spin (.dropStore false)]

theorem dataGuarded_bothCount :
    ∃ s, (guardedMachine increment 0 fun _ : Bool => [()]).exec
        (guardedMachine increment 0 fun _ : Bool => [()]).init bothCount = some s ∧
      s.data = 2 ∧ DataGuarded increment 0 (fun _ => [()]) s := by
  have h_meet : (guardedMachine increment 0 fun _ : Bool => [()]).StepsMeet NoTicketInDropOf
      (guardedMachine increment 0 fun _ : Bool => [()]).init bothCount := by decide +kernel
  have h_replay : ((guardedMachine increment 0 fun _ : Bool => [()]).exec
      (guardedMachine increment 0 fun _ : Bool => [()]).init bothCount).any
        (fun s => decide (s.data = 2)) = true := by
    decide +kernel
  obtain ⟨s, h_run, h_data⟩ := Machine.exec_of_decide h_replay
  exact ⟨s, h_run, h_data, dataGuarded_of_run h_meet (by decide) h_run⟩

end Spinlock
end Zydon
