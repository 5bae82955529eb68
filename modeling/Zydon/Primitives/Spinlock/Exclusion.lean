/-
  Zydon.Primitives.Spinlock.Exclusion

  Mutual exclusion of the ticket spinlock.

  A guard drop loads the state word and stores a rebuilt one in a second
  step.  A ticket taken between the two is overwritten: the store puts the old
  low half back, the ticket is handed out a second time, and two cores wait
  for (and get) the same turn.  `lostTicket_breaks_exclusion` replays such a
  run with three cores.

  Runs without such an interleaving are safe.  The invariant `Inv n` says that
  the `n` tickets taken so far are numbered by the low half, that the waiting
  cores hold pairwise different tickets which are still to be served, and that
  a live guard is the one being served.
-/

import Zydon.Primitives.Spinlock.Basic

namespace Zydon
namespace Spinlock

open Lib

variable {Core : Type*} [DecidableEq Core]

/-! ## The condition on a run -/

/-- No ticket is taken while a guard drop is between its load and its store. -/
def NoTicketInDrop (s : State Core) (a : Action Core) : Prop :=
  a.isLock → ∀ d, (s.pc d).inDrop = false

instance [Fintype Core] (s : State Core) (a : Action Core) : Decidable (NoTicketInDrop s a) :=
  inferInstanceAs (Decidable (_ → _))

/-! ## The invariant -/

/-- The state after `n` calls of `lock`. -/
structure Inv (n : Nat) (s : State Core) : Prop where
  /-- The low half numbers the tickets. -/
  next_eq : (nextTicket s.state).toNat = n
  serving_le : (serving s.state).toNat ≤ n
  /-- A waiting core's ticket has been handed out and not been passed over. -/
  ticket_range : ∀ c t, s.pc c = .waiting t → (serving s.state).toNat ≤ t.toNat ∧ t.toNat < n
  ticket_inj : ∀ c d t, s.pc c = .waiting t → s.pc d = .waiting t → c = d
  guard_unique : s.MutualExclusion
  /-- While a guard is alive nobody waits for the ticket being served. -/
  guard_served : ∀ c, (s.pc c).guardAlive → (serving s.state).toNat < n ∧
    ∀ d t, s.pc d = .waiting t → t.toNat ≠ (serving s.state).toNat
  /-- What a guard drop has loaded is still the word. -/
  drop_loaded : ∀ c old, s.pc c = .dropping old → old = s.state

theorem inv_init : Inv 0 (machine Core).init where
  next_eq := by simp [machine, nextTicket]
  serving_le := by simp [machine, serving]
  ticket_range := by simp [machine]
  ticket_inj := by simp [machine]
  guard_unique := by simp [machine, State.MutualExclusion, Pc.guardAlive]
  guard_served := by simp [machine, Pc.guardAlive]
  drop_loaded := by simp [machine]

omit [DecidableEq Core] in
theorem Inv.ticket_lt {n : Nat} {s : State Core} (hs : Inv n s) {c : Core} {t : BitVec 32}
    (h_pc : s.pc c = .waiting t) : t.toNat < 65536 := by
  have h_lt := (hs.ticket_range c t h_pc).2
  have h_next := nextTicket_lt s.state
  rw [hs.next_eq] at h_next
  omega

/-- A ticket is taken while no guard drop is in its window. -/
theorem Inv.lock {n : Nat} {s : State Core} (hs : Inv n s) {c : Core} (h_n : n + 1 < 65536)
    (h_window : ∀ d, (s.pc d).inDrop = false) :
    Inv (n + 1)
      ({ s with state := (fetchTicket s.state).2 }.setPc c (.waiting (nextTicket s.state))) := by
  obtain ⟨h_next, h_serving⟩ := fetchTicket_snd_toNat (w := s.state) (by rw [hs.next_eq]; exact h_n)
  set s₁ : State Core := { s with state := (fetchTicket s.state).2 } with hs₁
  -- the new ticket is `n`; all older ones are below `n`
  have h_wait : ∀ d t, (s₁.setPc c (.waiting (nextTicket s.state))).pc d = .waiting t →
      d = c ∧ t.toNat = n ∨ d ≠ c ∧ s.pc d = .waiting t := by
    intro d t h
    by_cases hd : d = c
    · subst hd
      have h_t : nextTicket s.state = t := by simpa [State.setPc] using h
      exact .inl ⟨rfl, h_t ▸ hs.next_eq⟩
    · exact .inr ⟨hd, by simpa [State.setPc, hd, hs₁] using h⟩
  have h_alive : ∀ d, ((s₁.setPc c (.waiting (nextTicket s.state))).pc d).guardAlive →
      (s.pc d).guardAlive :=
    fun d => State.guardAlive_of_setPc (s := s₁) (by simp [Pc.guardAlive])
  refine ⟨?_, ?_, ?_, ?_, ?_, ?_, ?_⟩
  · change (nextTicket (fetchTicket s.state).2).toNat = n + 1
    rw [h_next, hs.next_eq]
  · change (serving (fetchTicket s.state).2).toNat ≤ n + 1
    rw [h_serving]
    exact Nat.le_succ_of_le hs.serving_le
  · intro d t h
    change (serving (fetchTicket s.state).2).toNat ≤ t.toNat ∧ t.toNat < n + 1
    rw [h_serving]
    have h_le := hs.serving_le
    rcases h_wait d t h with ⟨-, h_t⟩ | ⟨-, h_old⟩
    · omega
    · have := hs.ticket_range d t h_old
      omega
  · intro d e t hd he
    rcases h_wait d t hd with ⟨rfl, h_t⟩ | ⟨-, h_d⟩ <;>
      rcases h_wait e t he with ⟨rfl, h_t'⟩ | ⟨-, h_e⟩
    · rfl
    · have := (hs.ticket_range e t h_e).2
      omega
    · have := (hs.ticket_range d t h_d).2
      omega
    · exact hs.ticket_inj d e t h_d h_e
  · intro d e hd he
    exact hs.guard_unique d e (h_alive d hd) (h_alive e he)
  · intro d hd
    obtain ⟨h_lt, h_free⟩ := hs.guard_served d (h_alive d hd)
    refine ⟨lt_of_eq_of_lt (congrArg BitVec.toNat h_serving) (by omega), fun e t he => ?_⟩
    change t.toNat ≠ (serving (fetchTicket s.state).2).toNat
    rw [h_serving]
    rcases h_wait e t he with ⟨-, h_t⟩ | ⟨-, h_old⟩
    · omega
    · exact h_free e t h_old
  · intro d old h
    have h_old : s.pc d = .dropping old := State.dropping_of_setPc (s := s₁) rfl h
    have h_no := h_window d
    rw [h_old] at h_no
    exact absurd h_no (by simp [Pc.inDrop])

/-- The waiting core whose ticket is served gets the guard. -/
theorem Inv.acquire {n : Nat} {s : State Core} (hs : Inv n s) {c : Core} {t : BitVec 32}
    (h_pc : s.pc c = .waiting t) (h_served : t.toNat = (serving s.state).toNat) :
    Inv n (s.setPc c .holding) := by
  have h_range := hs.ticket_range c t h_pc
  have h_wait : ∀ d u, (s.setPc c .holding).pc d = .waiting u → d ≠ c ∧ s.pc d = .waiting u :=
    fun d u => State.waiting_of_setPc (by simp)
  -- a live guard would be the one being served, and `c` waits for that turn
  have h_alive : ∀ d, ((s.setPc c .holding).pc d).guardAlive → d = c := by
    intro d h
    by_contra hd
    have h_d : (s.pc d).guardAlive := by simpa [State.setPc, hd] using h
    exact (hs.guard_served d h_d).2 c t h_pc h_served
  refine ⟨hs.next_eq, hs.serving_le, ?_, ?_, ?_, ?_, ?_⟩
  · intro d u h
    exact hs.ticket_range d u (h_wait d u h).2
  · intro d e u hd he
    exact hs.ticket_inj d e u (h_wait d u hd).2 (h_wait e u he).2
  · intro d e hd he
    rw [h_alive d hd, h_alive e he]
  · intro d _
    refine ⟨lt_of_eq_of_lt h_served.symm h_range.2, fun e u he h_eq => ?_⟩
    obtain ⟨h_ne, h_old⟩ := h_wait e u he
    have h_tu : u = t := BitVec.eq_of_toNat_eq (h_eq.trans h_served.symm)
    exact h_ne (hs.ticket_inj e c t (h_tu ▸ h_old) h_pc)
  · intro d old h
    exact hs.drop_loaded d old (State.dropping_of_setPc rfl h)

/-- A guard drop loads the word. -/
theorem Inv.dropLoad {n : Nat} {s : State Core} (hs : Inv n s) {c : Core}
    (h_pc : s.pc c = .holding) : Inv n (s.setPc c (.dropping s.state)) := by
  have h_wait : ∀ d u, (s.setPc c (.dropping s.state)).pc d = .waiting u →
      s.pc d = .waiting u :=
    fun d u h => (State.waiting_of_setPc (by simp) h).2
  have h_alive : ∀ d, ((s.setPc c (.dropping s.state)).pc d).guardAlive →
      (s.pc d).guardAlive :=
    fun d => State.guardAlive_of_setPc (by simp [h_pc, Pc.guardAlive])
  refine ⟨hs.next_eq, hs.serving_le, ?_, ?_, ?_, ?_, ?_⟩
  · intro d u h
    exact hs.ticket_range d u (h_wait d u h)
  · intro d e u hd he
    exact hs.ticket_inj d e u (h_wait d u hd) (h_wait e u he)
  · intro d e hd he
    exact hs.guard_unique d e (h_alive d hd) (h_alive e he)
  · intro d hd
    obtain ⟨h_lt, h_free⟩ := hs.guard_served d (h_alive d hd)
    exact ⟨h_lt, fun e u he => h_free e u (h_wait e u he)⟩
  · intro d old h
    by_cases hd : d = c
    · subst hd
      have h_eq : s.state = old := by simpa [State.setPc] using h
      exact h_eq.symm
    · exact hs.drop_loaded d old (by simpa [State.setPc, hd] using h)

/-- A guard drop stores the word it loaded, with the next turn served. -/
theorem Inv.dropStore {n : Nat} {s : State Core} (hs : Inv n s) {c : Core} {old : BitVec 32}
    (h_pc : s.pc c = .dropping old) :
    Inv n ({ s with state := Spinlock.dropStore old }.setPc c .idle) := by
  obtain rfl := hs.drop_loaded c old h_pc
  have h_c : (s.pc c).guardAlive := by simp [h_pc, Pc.guardAlive]
  obtain ⟨h_lt, h_free⟩ := hs.guard_served c h_c
  have h_serving : (serving (Spinlock.dropStore s.state)).toNat = (serving s.state).toNat + 1 := by
    have h_n := nextTicket_lt s.state
    rw [hs.next_eq] at h_n
    rw [dropStore_serving_toNat]
    omega
  set s₁ : State Core := { s with state := Spinlock.dropStore s.state }
  have h_wait : ∀ d u, (s₁.setPc c .idle).pc d = .waiting u → s.pc d = .waiting u :=
    fun d u h => (State.waiting_of_setPc (s := s₁) (by simp) h).2
  -- the guard of `c` was the only one
  have h_dead : ∀ d, ¬ ((s₁.setPc c .idle).pc d).guardAlive := by
    intro d h
    by_cases hd : d = c
    · subst hd
      simp [State.setPc, Pc.guardAlive] at h
    · have h_d : (s.pc d).guardAlive :=
        State.guardAlive_of_setPc (s := s₁) (by simp [Pc.guardAlive]) h
      exact hd (hs.guard_unique d c h_d h_c)
  refine ⟨?_, ?_, ?_, ?_, ?_, ?_, ?_⟩
  · change (nextTicket (Spinlock.dropStore s.state)).toNat = n
    rw [dropStore_nextTicket, hs.next_eq]
  · change (serving (Spinlock.dropStore s.state)).toNat ≤ n
    omega
  · intro d u h
    change (serving (Spinlock.dropStore s.state)).toNat ≤ u.toNat ∧ u.toNat < n
    have h_range := hs.ticket_range d u (h_wait d u h)
    have h_ne := h_free d u (h_wait d u h)
    omega
  · intro d e u hd he
    exact hs.ticket_inj d e u (h_wait d u hd) (h_wait e u he)
  · intro d _ hd _
    exact absurd hd (h_dead d)
  · intro d hd
    exact absurd hd (h_dead d)
  · intro d old h
    exact absurd (by rw [h]; rfl) (h_dead d)

/-- One step under the condition. -/
theorem Inv.step {n : Nat} {s s' : State Core} {a : Action Core} (hs : Inv n s)
    (h_window : NoTicketInDrop s a) (h_n : n + (if a.isLock then 1 else 0) < 65536)
    (h : (machine Core).step s a = some s') : Inv (n + if a.isLock then 1 else 0) s' := by
  rcases step_cases h with ⟨c, rfl, -, rfl⟩ | ⟨c, t, rfl, h_pc, h_wait⟩ |
    ⟨c, rfl, h_pc, rfl⟩ | ⟨c, old, rfl, h_pc, rfl⟩
  · exact hs.lock h_n (h_window rfl)
  · rcases h_wait with ⟨h_served, rfl⟩ | ⟨-, rfl⟩
    · exact hs.acquire h_pc ((isServed_iff (hs.ticket_lt h_pc)).mp h_served)
    · exact hs
  · exact hs.dropLoad h_pc
  · exact hs.dropStore h_pc

/-! ## Runs -/

/-- In every run of fewer than `2 ^ 16` calls of `lock` in which no ticket is
    taken between the load and the store of a guard drop, at most one guard is
    alive in the state reached. -/
theorem mutualExclusion_of_noTicketInDrop {tr : List (Action Core)} {s : State Core}
    (h_meet : (machine Core).StepsMeet NoTicketInDrop (machine Core).init tr)
    (h_calls : tr.countP Action.isLock < 2 ^ 16)
    (h_run : (machine Core).exec (machine Core).init tr = some s) : s.MutualExclusion := by
  have h_inv : Inv (0 + tr.countP Action.isLock) s :=
    Machine.exec_invariant_countP (fun _ _ _ _ hs h_ok h_n h => hs.step h_ok h_n h)
      inv_init h_meet (by omega) h_run
  exact h_inv.guard_unique

/-- A run of two cores in which the second one takes its ticket before the
    first one's drop starts. -/
def handoverRun : List (Action (Fin 2)) :=
  [.lock 0, .wait 0, .lock 1, .wait 1, .dropLoad 0, .dropStore 0, .wait 1]

theorem mutualExclusion_handoverRun :
    ∃ s, (machine (Fin 2)).exec (machine (Fin 2)).init handoverRun = some s ∧
      s.MutualExclusion := by
  have h_meet : (machine (Fin 2)).StepsMeet NoTicketInDrop (machine (Fin 2)).init handoverRun := by
    decide
  exact ⟨_, rfl, mutualExclusion_of_noTicketInDrop h_meet (by decide) rfl⟩

/-- Core 0 holds the lock and starts to drop its guard; core 1 takes a ticket
    inside the window; core 2 then gets the same ticket. -/
def lostTicketRun : List (Action (Fin 3)) :=
  [.lock 0, .wait 0, .dropLoad 0, .lock 1, .dropStore 0, .wait 1, .lock 2, .wait 2]

theorem lostTicket_breaks_exclusion :
    ∃ s, (machine (Fin 3)).exec (machine (Fin 3)).init lostTicketRun = some s ∧
      lostTicketRun.countP Action.isLock < 2 ^ 16 ∧ ¬ s.MutualExclusion := by
  refine ⟨_, rfl, by decide, fun h => ?_⟩
  exact absurd (h 1 2 rfl rfl) (by decide)

end Spinlock
end Zydon
