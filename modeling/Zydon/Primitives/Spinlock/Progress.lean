/-
  Zydon.Primitives.Spinlock.Progress

  The ticket spinlock without contention: calls of `lock` and guard drops
  strictly alternate, each call made by whichever core comes next.

  After `k` rounds both halves of the word are `k`.  At `k = 2 ^ 16 - 1` the
  word is full, and the `fetch_add` of the next call carries out of the low
  half into the high one: the ticket handed out is `2 ^ 16 - 1` while the
  half being served has wrapped to `0`.  Nobody holds the lock, so no later
  step changes the word, and the call spins forever.
-/

import Zydon.Primitives.Spinlock.Basic

namespace Zydon
namespace Spinlock

open Lib

variable {Core : Type*} [DecidableEq Core]

/-! ## Alternating runs -/

/-- One uncontended round of core `c`: `lock`, whose first load finds its
    ticket served, and the drop of the guard. -/
def round (c : Core) : List (Action Core) :=
  [.lock c, .wait c, .dropLoad c, .dropStore c]

/-- The rounds of the cores `core 0 … core (k - 1)`. -/
def alternating (core : Nat → Core) : Nat → List (Action Core)
  | 0 => []
  | k + 1 => alternating core k ++ round (core k)

/-- In the alternating run the call of `lock` after `k` finished rounds (the
    `k + 1`-st one) returns at its first load. -/
def LockReturns (core : Nat → Core) (k : Nat) : Prop :=
  ∃ s, (machine Core).exec (machine Core).init
      (alternating core k ++ [.lock (core k), .wait (core k)]) = some s ∧
    s.pc (core k) = .holding

/-- Nobody is in a call and both halves of the word are `k`. -/
structure Balanced (k : Nat) (s : State Core) : Prop where
  next_eq : (nextTicket s.state).toNat = k
  serving_eq : (serving s.state).toNat = k
  idle : ∀ c, s.pc c = .idle

theorem balanced_init : Balanced 0 (machine Core).init where
  next_eq := by simp [machine, nextTicket]
  serving_eq := by simp [machine, serving]
  idle := by simp [machine]

/-- The state of an uncontended core that has taken its ticket. -/
def State.afterFetch (s : State Core) (c : Core) : State Core :=
  { s with state := (fetchTicket s.state).2 }.setPc c (.waiting (nextTicket s.state))

theorem step_lock {s : State Core} {c : Core} (h : s.pc c = .idle) :
    (machine Core).step s (.lock c) = some (s.afterFetch c) := by
  simp [machine, step, h, State.afterFetch, fetchTicket, nextTicket]

/-- The first load of a call: it finds the ticket served or it does not. -/
theorem step_wait_afterFetch (s : State Core) (c : Core) :
    (machine Core).step (s.afterFetch c) (.wait c) =
      if isServed (nextTicket s.state) (fetchTicket s.state).2 then
        some ((s.afterFetch c).setPc c .holding)
      else some (s.afterFetch c) := by
  simp [machine, step, State.afterFetch, State.setPc]

omit [DecidableEq Core] in
/-- Below the boundary the ticket of an uncontended call is the one served. -/
theorem Balanced.isServed {k : Nat} {s : State Core} (hs : Balanced k s) (h_k : k + 1 < 65536) :
    isServed (nextTicket s.state) (fetchTicket s.state).2 = true := by
  obtain ⟨-, h_serving⟩ := fetchTicket_snd_toNat (w := s.state) (by rw [hs.next_eq]; exact h_k)
  rw [isServed_iff (nextTicket_lt _), h_serving, hs.next_eq, hs.serving_eq]

omit [DecidableEq Core] in
/-- At the boundary the carry of the `fetch_add` has moved the half served. -/
theorem Balanced.not_isServed {s : State Core} (hs : Balanced 65535 s) :
    Spinlock.isServed (nextTicket s.state) (fetchTicket s.state).2 = false := by
  have h_next := hs.next_eq
  have h_serving := hs.serving_eq
  rw [nextTicket_toNat] at h_next
  rw [serving_toNat] at h_serving
  have h_word : s.state = 0xFFFFFFFF#32 := by
    apply BitVec.eq_of_toNat_eq
    simp only [BitVec.toNat_ofNat]
    omega
  rw [h_word]
  decide

/-- Below the boundary a round leaves the lock balanced, one ticket further. -/
theorem Balanced.round {k : Nat} {s : State Core} (hs : Balanced k s) (h_k : k + 1 < 65536)
    (c : Core) :
    ∃ s', (machine Core).exec s (round c) = some s' ∧ Balanced (k + 1) s' := by
  obtain ⟨h_next, h_serving⟩ := fetchTicket_snd_toNat (w := s.state) (by rw [hs.next_eq]; exact h_k)
  set w := (fetchTicket s.state).2 with hw
  have h_run : (machine Core).exec s (Spinlock.round c)
      = some { state := dropStore w, pc := Function.update s.pc c .idle } := by
    simp only [Spinlock.round, Machine.exec, step_lock (hs.idle c), step_wait_afterFetch,
      hs.isServed h_k, if_true]
    simp [machine, step, State.afterFetch, State.setPc, ← hw]
  refine ⟨_, h_run, ?_, ?_, ?_⟩
  · change (nextTicket (dropStore w)).toNat = k + 1
    rw [dropStore_nextTicket, h_next, hs.next_eq]
  · change (serving (dropStore w)).toNat = k + 1
    rw [dropStore_serving_toNat, h_serving, hs.serving_eq]
    omega
  · intro d
    by_cases hd : d = c
    · subst hd; simp
    · simpa [hd] using hs.idle d

/-- The alternating run reaches every round below the boundary. -/
theorem exec_alternating (core : Nat → Core) {k : Nat} (h_k : k < 65536) :
    ∃ s, (machine Core).exec (machine Core).init (alternating core k) = some s ∧
      Balanced k s := by
  induction k with
  | zero => exact ⟨_, rfl, balanced_init⟩
  | succ k ih =>
      obtain ⟨s, h_run, hs⟩ := ih (by omega)
      obtain ⟨s', h_round, hs'⟩ := hs.round h_k (core k)
      exact ⟨s', Machine.exec_append_eq_some.mpr ⟨s, h_run, h_round⟩, hs'⟩

/-- From the boundary on the alternating run cannot be continued: the drop of a
    guard that was never obtained is not enabled. -/
theorem exec_alternating_eq_none (core : Nat → Core) (k : Nat) :
    (machine Core).exec (machine Core).init (alternating core (65536 + k)) = none := by
  induction k with
  | zero =>
      obtain ⟨s, h_run, hs⟩ := exec_alternating core (k := 65535) (by decide)
      rw [show 65536 + 0 = 65535 + 1 from rfl, alternating, Machine.exec_append, h_run,
        Option.bind_some, round, Machine.exec, step_lock (hs.idle _)]
      simp only [Machine.exec, step_wait_afterFetch, hs.not_isServed]
      simp [machine, step, State.afterFetch, State.setPc]
  | succ k ih =>
      rw [← Nat.add_assoc, alternating, Machine.exec_append, ih, Option.bind_none]

/-- With calls of `lock` and guard drops strictly alternating, the `n`-th call
    returns exactly when `n < 2 ^ 16`. -/
theorem lockReturns_iff (core : Nat → Core) (n : Nat) (h_n : 1 ≤ n) :
    LockReturns core (n - 1) ↔ n < 2 ^ 16 := by
  constructor
  · rintro ⟨s, h_run, h_pc⟩
    by_contra h_ge
    obtain ⟨m, h_rounds, h_last⟩ := Machine.exec_append_eq_some.mp h_run
    rcases Nat.lt_or_ge (n - 1) 65536 with h_lt | h_far
    · -- the call at the boundary itself
      obtain ⟨s', h_run', hs'⟩ := exec_alternating core h_lt
      obtain rfl : s' = m := Option.some.inj (h_run'.symm.trans h_rounds)
      have h_k : n - 1 = 65535 := by omega
      rw [h_k] at hs' h_last h_pc
      simp only [Machine.exec, step_lock (hs'.idle _), step_wait_afterFetch,
        hs'.not_isServed, Bool.false_eq_true, if_false, Option.some.injEq] at h_last
      rw [← h_last] at h_pc
      simp [State.afterFetch, State.setPc] at h_pc
    · have h_none := exec_alternating_eq_none core (n - 1 - 65536)
      rw [Nat.add_sub_cancel' h_far] at h_none
      rw [h_none] at h_rounds
      exact absurd h_rounds (by simp)
  · intro h_lt
    obtain ⟨s, h_run, hs⟩ := exec_alternating core (k := n - 1) (by omega)
    refine ⟨(s.afterFetch (core (n - 1))).setPc (core (n - 1)) .holding,
      Machine.exec_append_eq_some.mpr ⟨s, h_run, ?_⟩, by simp [State.setPc]⟩
    simp only [Machine.exec, step_lock (hs.idle _), step_wait_afterFetch,
      hs.isServed (show n - 1 + 1 < 65536 by omega), if_true]

theorem lockReturns_iff_three : LockReturns (fun _ => ()) (3 - 1) ↔ 3 < 2 ^ 16 :=
  lockReturns_iff (fun _ => ()) 3 (by decide)

/-- The `2 ^ 16`-th uncontended call never returns: its load finds another
    ticket served, and so does every further load. -/
theorem lock_boundary_spins :
    ¬ LockReturns (fun _ => ()) (2 ^ 16 - 1) ∧
    ∃ s, (machine Unit).exec (machine Unit).init
        (alternating (fun _ => ()) (2 ^ 16 - 1) ++ [.lock ()]) = some s ∧
      ∀ j, (machine Unit).exec s (List.replicate j (.wait ())) = some s ∧ s.pc () ≠ .holding := by
  obtain ⟨s, h_run, hs⟩ := exec_alternating (fun _ => ()) (k := 65535) (by decide)
  have h_wait : (machine Unit).step (s.afterFetch ()) (.wait ()) = some (s.afterFetch ()) := by
    simp [step_wait_afterFetch, hs.not_isServed]
  have h_lock : (machine Unit).exec s [.lock ()] = some (s.afterFetch ()) := by
    simp [Machine.exec, step_lock (hs.idle ())]
  refine ⟨?_, s.afterFetch (), Machine.exec_append_eq_some.mpr ⟨s, h_run, h_lock⟩,
    fun j => ⟨?_, ?_⟩⟩
  · rintro ⟨m, h_m, h_pc⟩
    obtain ⟨s', h_run', h_last⟩ := Machine.exec_append_eq_some.mp h_m
    obtain rfl : s = s' := Option.some.inj (h_run.symm.trans h_run')
    simp only [Machine.exec, step_lock (hs.idle ()), h_wait, Option.some.injEq] at h_last
    rw [← h_last] at h_pc
    simp [State.afterFetch, State.setPc] at h_pc
  · induction j with
    | zero => rfl
    | succ j ih => simp only [List.replicate_succ, Machine.exec, h_wait, ih]
  · simp [State.afterFetch, State.setPc]

end Spinlock
end Zydon
