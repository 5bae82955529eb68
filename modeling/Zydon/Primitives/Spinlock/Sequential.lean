/-
  Zydon.Primitives.Spinlock.Sequential

  The ticket spinlock without contention: complete calls of `lock`, `try_lock`,
  `is_locked` and guard drops, one after the other.

  `lock` takes a ticket and the drop serves the next one.  `try_lock` does both
  at once: the lock it has taken looks free, and the drop of its guard serves a
  ticket that nobody has taken.  Without a `try_lock` that takes the lock, the
  word counts the live guard (`Counts`).
-/

import Zydon.Primitives.Spinlock.Basic

namespace Zydon
namespace Spinlock

open Lib

-- ============================================================================
-- Complete calls
-- ============================================================================

/-- `try_lock`: the word its exchange stores, or `none` if it returns `None`.
    The exchange is a weak one, which may fail without cause (`spurious`). -/
def tryLock (spurious : Bool) (state : BitVec 32) : Option (BitVec 32) :=
  let next := nextTicket state
  let serving := serving state
  if next = serving then
    let newState := ((serving + 1#32) &&& ticketMask) <<< ticketBits
      ||| ((next + 1#32) &&& ticketMask)
    if spurious then none else some newState
  else none

/-- `is_locked`. -/
def isLocked (state : BitVec 32) : Bool := nextTicket state != serving state

/-- The ticket of a call of `lock` is the one that is served. -/
def lockReturns (state : BitVec 32) : Bool :=
  isServed (fetchTicket state).1 (fetchTicket state).2

/-- The word, and the number of guards that are alive. -/
structure Alone where
  state : BitVec 32
  guards : Nat
  deriving DecidableEq

/-- The calls, and the drop of a guard. -/
inductive Call where
  | lock
  | tryLock (spurious : Bool)
  | isLocked
  | drop
  deriving DecidableEq, Repr

/-- One call.  `lock` is called when no guard is alive; where it does not return
    at once it never does, and the run cannot go on. -/
def call (s : Alone) : Call → Option Alone
  | .lock =>
      if s.guards = 0 ∧ lockReturns s.state then
        some { state := (fetchTicket s.state).2, guards := 1 }
      else none
  | .tryLock spurious =>
      match tryLock spurious s.state with
      | some state => some { state := state, guards := s.guards + 1 }
      | none => some s
  | .isLocked => some s
  | .drop =>
      if 0 < s.guards then some { state := dropStore s.state, guards := s.guards - 1 } else none

/-- The calls on a new lock. -/
def sequential : Machine Alone Call where
  init := { state := 0, guards := 0 }
  step := call

/-- What the calls say of the guards is right: `is_locked` tells whether one is
    alive, no `try_lock` succeeds while one is, and `lock` returns at once when
    none is. -/
structure Alone.Truthful (s : Alone) : Prop where
  isLocked_iff : isLocked s.state = true ↔ 0 < s.guards
  tryLock_none : 0 < s.guards → ∀ spurious, tryLock spurious s.state = none
  lock_returns : s.guards = 0 → lockReturns s.state = true

instance (s : Alone) : Decidable s.Truthful :=
  decidable_of_iff ((isLocked s.state = true ↔ 0 < s.guards) ∧
      (0 < s.guards → ∀ spurious, tryLock spurious s.state = none) ∧
      (s.guards = 0 → lockReturns s.state = true))
    ⟨fun ⟨h₁, h₂, h₃⟩ => ⟨h₁, h₂, h₃⟩, fun h => ⟨h.isLocked_iff, h.tryLock_none, h.lock_returns⟩⟩

/-- No `try_lock` takes the lock: a guard is alive when it is called, or its weak
    exchange fails without cause. -/
def NotTaken (s : Alone) (a : Call) : Prop := a = .tryLock false → 0 < s.guards

instance (s : Alone) (a : Call) : Decidable (NotTaken s a) := inferInstanceAs (Decidable (_ → _))

-- ============================================================================
-- The word
-- ============================================================================

theorem isLocked_iff (w : BitVec 32) :
    isLocked w = true ↔ (nextTicket w).toNat ≠ (serving w).toNat := by
  rw [isLocked, bne_iff_ne, Ne, Ne, BitVec.toNat_inj]

/-- A word put together from two halves. -/
theorem pack_toNat (high low : BitVec 32) :
    (((high &&& ticketMask) <<< ticketBits) ||| (low &&& ticketMask)).toNat =
      high.toNat % 65536 * 65536 + low.toNat % 65536 := by
  have h_high : (high &&& ticketMask).toNat = high.toNat % 65536 := nextTicket_toNat high
  have h_low : (low &&& ticketMask).toNat = low.toNat % 65536 := nextTicket_toNat low
  have h_shift : (high.toNat % 65536) <<< ticketBits % 2 ^ 32 = (high.toNat % 65536) <<< 16 := by
    apply Nat.mod_eq_of_lt
    simp only [ticketBits, Nat.shiftLeft_eq]
    omega
  rw [BitVec.toNat_or, BitVec.toNat_shiftLeft, h_high, h_low, h_shift,
    ← Nat.shiftLeft_add_eq_or_of_lt (Nat.mod_lt _ (by decide)), Nat.shiftLeft_eq]

/-- A `try_lock` that takes the lock advances both halves: the lock still looks
    free. -/
theorem isLocked_tryLock {w w' : BitVec 32} {spurious : Bool}
    (h : tryLock spurious w = some w') : isLocked w' = false := by
  simp only [tryLock] at h
  split at h
  · next h_free =>
      split at h
      · exact nomatch h
      · obtain rfl := Option.some.inj h
        rw [← Bool.not_eq_true, isLocked_iff, not_not, nextTicket_toNat, serving_toNat, pack_toNat,
          h_free]
        omega
  · exact nomatch h

/-- A word with different halves is not taken by `try_lock`. -/
theorem tryLock_of_isLocked {w : BitVec 32} (h : isLocked w = true) (spurious : Bool) :
    tryLock spurious w = none := by
  rw [isLocked, bne_iff_ne] at h
  simp only [tryLock, if_neg h]

/-- One with equal halves is, if the exchange does not fail without cause. -/
theorem tryLock_of_not_isLocked {w : BitVec 32} (h : isLocked w = false) :
    ∃ w', tryLock false w = some w' := by
  have h_free : nextTicket w = serving w := by simpa [isLocked] using h
  exact ⟨_, by simp only [tryLock, if_pos h_free]; rfl⟩

/-- `lock` returns at once when the next ticket is the one that is served. -/
theorem lockReturns_iff_served {w : BitVec 32} (h : (nextTicket w).toNat + 1 < 65536) :
    lockReturns w = true ↔ (nextTicket w).toNat = (serving w).toNat := by
  obtain ⟨-, h_serving⟩ := fetchTicket_snd_toNat h
  show isServed (nextTicket w) (fetchTicket w).2 = true ↔ _
  rw [isServed_iff (nextTicket_lt w), h_serving]

-- ============================================================================
-- Runs
-- ============================================================================

/-- After `n` calls of which no `try_lock` has taken the lock: the halves of the
    word differ by the live guards, of which there is one at most. -/
structure Counts (n : Nat) (s : Alone) : Prop where
  /-- A call advances one of the halves at most. -/
  halves_le : (nextTicket s.state).toNat + (serving s.state).toNat ≤ n
  next_eq : (nextTicket s.state).toNat = (serving s.state).toNat + s.guards
  guards_le : s.guards ≤ 1

theorem counts_init : Counts 0 sequential.init where
  halves_le := by decide
  next_eq := by decide
  guards_le := by decide

variable {n : Nat} {s s' : Alone} {a : Call}

theorem Counts.next_lt (hs : Counts n s) (h_n : n < 65536) :
    (nextTicket s.state).toNat + 1 < 65536 := by
  have h_halves := hs.halves_le
  have h_eq := hs.next_eq
  have h_guards := hs.guards_le
  omega

theorem Counts.truthful (hs : Counts n s) (h_n : n < 65536) : s.Truthful := by
  have h_eq := hs.next_eq
  have h_locked : isLocked s.state = true ↔ 0 < s.guards := by
    rw [isLocked_iff]
    omega
  refine ⟨h_locked, fun h_alive => tryLock_of_isLocked (h_locked.mpr h_alive), fun h_free => ?_⟩
  rw [lockReturns_iff_served (hs.next_lt h_n)]
  omega

theorem Counts.succ (hs : Counts n s) : Counts (n + 1) s :=
  ⟨Nat.le_succ_of_le hs.halves_le, hs.next_eq, hs.guards_le⟩

/-- Every call keeps the count. -/
theorem Counts.call (hs : Counts n s) (h_n : n < 65536) (h_ok : NotTaken s a)
    (h : Spinlock.call s a = some s') : Counts (n + 1) s' := by
  have h_halves := hs.halves_le
  have h_eq := hs.next_eq
  have h_guards := hs.guards_le
  cases a with
  | lock =>
      obtain ⟨h_next, h_serving⟩ := fetchTicket_snd_toNat (hs.next_lt h_n)
      simp only [Spinlock.call] at h
      split at h
      · obtain rfl := Option.some.inj h
        constructor
        case halves_le =>
          show (nextTicket (fetchTicket s.state).2).toNat +
            (serving (fetchTicket s.state).2).toNat ≤ n + 1
          rw [h_next, h_serving]
          omega
        case next_eq =>
          show (nextTicket (fetchTicket s.state).2).toNat =
            (serving (fetchTicket s.state).2).toNat + 1
          rw [h_next, h_serving]
          omega
        case guards_le => exact le_refl 1
      · exact nomatch h
  | tryLock spurious =>
      have h_none : tryLock spurious s.state = none := by
        cases spurious with
        | false => exact (hs.truthful h_n).tryLock_none (h_ok rfl) false
        | true => simp [tryLock]
      simp only [Spinlock.call, h_none] at h
      obtain rfl := Option.some.inj h
      exact hs.succ
  | isLocked =>
      obtain rfl := Option.some.inj h
      exact hs.succ
  | drop =>
      have h_serving := dropStore_serving_toNat s.state
      have h_next := nextTicket_lt s.state
      simp only [Spinlock.call] at h
      split at h
      · obtain rfl := Option.some.inj h
        constructor
        case halves_le =>
          show (nextTicket (dropStore s.state)).toNat + (serving (dropStore s.state)).toNat ≤ n + 1
          rw [dropStore_nextTicket, h_serving]
          omega
        case next_eq =>
          show (nextTicket (dropStore s.state)).toNat =
            (serving (dropStore s.state)).toNat + (s.guards - 1)
          rw [dropStore_nextTicket, h_serving]
          omega
        case guards_le =>
          show s.guards - 1 ≤ 1
          omega
      · exact nomatch h

/-- A `try_lock` that takes the lock leaves a state that is not truthful. -/
theorem not_truthful_of_taken (h_truthful : s.Truthful) (h : ¬ NotTaken s a) :
    ∃ s', sequential.step s a = some s' ∧ ¬ s'.Truthful := by
  obtain ⟨rfl, h_free⟩ : a = .tryLock false ∧ ¬ 0 < s.guards := by
    simpa [NotTaken] using h
  have h_unlocked : isLocked s.state = false := by
    rw [← Bool.not_eq_true, h_truthful.isLocked_iff]
    exact h_free
  obtain ⟨w, h_take⟩ := tryLock_of_not_isLocked h_unlocked
  refine ⟨{ state := w, guards := s.guards + 1 }, ?_, fun h_after => ?_⟩
  · simp only [sequential, call, h_take]
  · have h_locked := h_after.isLocked_iff.mpr (Nat.succ_pos s.guards)
    rw [isLocked_tryLock h_take] at h_locked
    exact absurd h_locked (by simp)

/-- A run of fewer than `2 ^ 16` calls is truthful in every state exactly when no
    `try_lock` takes the lock. -/
theorem truthful_iff {tr : List Call} (h_length : tr.length < 2 ^ 16)
    (h_run : sequential.exec sequential.init tr = some s) :
    (∀ pre post m, tr = pre ++ post → sequential.exec sequential.init pre = some m →
        m.Truthful) ↔
      sequential.StepsMeet NotTaken sequential.init tr := by
  constructor
  · intro h_truthful
    refine Machine.stepsMeet_iff.mpr fun pre a post m h_tr h_pre => ?_
    by_contra h_taken
    obtain ⟨m', h_step, h_not⟩ :=
      not_truthful_of_taken (h_truthful pre (a :: post) m h_tr h_pre) h_taken
    refine h_not (h_truthful (pre ++ [a]) post m' (by rw [h_tr]; simp) ?_)
    exact Machine.exec_append_eq_some.mpr
      ⟨m, h_pre, Machine.exec_cons_eq_some.mpr ⟨m', h_step, rfl⟩⟩
  · rintro h_meet pre post m rfl h_pre
    rw [List.length_append] at h_length
    have h_calls : 0 + pre.countP (fun _ => true) < 65536 := by
      rw [List.countP_true]
      omega
    have h_step : ∀ n s a s', Counts n s → NotTaken s a → n + 1 < 65536 →
        sequential.step s a = some s' → Counts (n + 1) s' :=
      fun n s a s' hs h_ok h_n => hs.call (by omega) h_ok
    have h_counts := Machine.exec_invariant_countP h_step counts_init h_meet.of_append h_calls h_pre
    exact h_counts.truthful h_calls

/-- `lock`, a `try_lock` that finds it taken, the drop of the guard, and `lock`
    again. -/
def lockedRun : List Call := [.lock, .isLocked, .tryLock false, .drop, .isLocked, .lock]

theorem truthful_lockedRun :
    ∃ s, sequential.exec sequential.init lockedRun = some s ∧ s.Truthful := by
  have h_meet : sequential.StepsMeet NotTaken sequential.init lockedRun := by decide
  exact ⟨_, rfl, (truthful_iff (by decide) rfl).mpr h_meet lockedRun [] _
    (List.append_nil _).symm rfl⟩

/-- `try_lock` on a new lock: a guard is alive, the lock looks free, another
    `try_lock` takes it as well, and once both guards are dropped `lock` does not
    return. -/
theorem tryLock_leaves_unlocked :
    (∃ s, sequential.exec sequential.init [.tryLock false] = some s ∧
      s.guards = 1 ∧ isLocked s.state = false ∧ ¬ s.Truthful) ∧
    (∃ s, sequential.exec sequential.init [.tryLock false, .tryLock false] = some s ∧
      s.guards = 2) ∧
    ∃ s, sequential.exec sequential.init [.tryLock false, .drop] = some s ∧
      s.guards = 0 ∧ lockReturns s.state = false := by
  refine ⟨⟨_, rfl, by decide, by decide, by decide⟩, ⟨_, rfl, by decide⟩,
    ⟨_, rfl, by decide, by decide⟩⟩

end Spinlock
end Zydon
