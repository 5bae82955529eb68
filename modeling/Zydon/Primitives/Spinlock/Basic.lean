/-
  Zydon.Primitives.Spinlock.Basic

  The ticket spinlock of `primitives/spinlock.rs`: the packed 32-bit state
  word, the functions that read and write it, and the machine in which any
  number of cores call `lock` and drop the guard, one atomic access to the
  word at a time.

  The word holds two 16-bit counters: the low half is the next ticket, the
  high half the ticket being served.  `fetchTicket` adds one to the *whole*
  word, while `dropStore` rebuilds it from a value loaded in a separate step.
-/

import Mathlib.Data.Fintype.Basic
import Mathlib.Tactic.Linarith
import Zydon.Lib.Machine

namespace Zydon
namespace Spinlock

open Lib

-- ============================================================================
-- The state word
-- ============================================================================

/-- `TICKET_BITS`. -/
def ticketBits : Nat := 16

/-- `TICKET_MASK`. -/
def ticketMask : BitVec 32 := (1#32 <<< ticketBits) - 1#32

/-- The next ticket: the low half of the word. -/
def nextTicket (state : BitVec 32) : BitVec 32 := state &&& ticketMask

/-- The ticket being served: the high half of the word. -/
def serving (state : BitVec 32) : BitVec 32 := state >>> ticketBits

/-- `fetch_ticket`: the ticket handed out and the word left by the wrapping
    `fetch_add(1)`. -/
def fetchTicket (state : BitVec 32) : BitVec 32 × BitVec 32 :=
  (state &&& ticketMask, state + 1#32)

/-- The test of the loop of `wait_for_ticket` on the word it has loaded. -/
def isServed (ticket state : BitVec 32) : Bool :=
  serving state == ticket &&& ticketMask

/-- The word `SpinlockGuard::drop` stores after loading `old`. -/
def dropStore (old : BitVec 32) : BitVec 32 :=
  let newServing := ((old >>> ticketBits) + 1#32) &&& ticketMask
  (old &&& ~~~(~~~0#32 <<< ticketBits)) ||| (newServing <<< ticketBits)

/-! ## The halves as numbers -/

theorem nextTicket_toNat (w : BitVec 32) : (nextTicket w).toNat = w.toNat % 65536 := by
  have h_mask : ticketMask.toNat = 2 ^ 16 - 1 := by decide
  rw [nextTicket, BitVec.toNat_and, h_mask, Nat.and_two_pow_sub_one_eq_mod]

theorem serving_toNat (w : BitVec 32) : (serving w).toNat = w.toNat / 65536 := by
  simp [serving, ticketBits, Nat.shiftRight_eq_div_pow]

theorem serving_lt (w : BitVec 32) : (serving w).toNat < 65536 := by
  have := w.isLt
  rw [serving_toNat]
  omega

theorem nextTicket_lt (w : BitVec 32) : (nextTicket w).toNat < 65536 := by
  rw [nextTicket_toNat]
  omega

/-- While the low half is not full, taking a ticket does not touch the high half. -/
theorem fetchTicket_snd_toNat {w : BitVec 32} (h : (nextTicket w).toNat + 1 < 65536) :
    (nextTicket (fetchTicket w).2).toNat = (nextTicket w).toNat + 1 ∧
      serving (fetchTicket w).2 = serving w := by
  rw [nextTicket_toNat] at h
  have hw := w.isLt
  have h_add : (fetchTicket w).2.toNat = w.toNat + 1 := by
    simp only [fetchTicket, BitVec.toNat_add, BitVec.toNat_ofNat]
    omega
  refine ⟨?_, BitVec.eq_of_toNat_eq ?_⟩
  · rw [nextTicket_toNat, nextTicket_toNat, h_add]
    omega
  · rw [serving_toNat, serving_toNat, h_add]
    omega

/-- The word a guard drop stores: the low half of the word it loaded, the high
    half advanced by one. -/
theorem dropStore_toNat (w : BitVec 32) :
    (dropStore w).toNat = ((serving w).toNat + 1) % 65536 * 65536 + (nextTicket w).toNat := by
  have h_low : (w &&& ~~~(~~~0#32 <<< ticketBits)).toNat = w.toNat % 65536 := by
    rw [show ~~~(~~~0#32 <<< ticketBits) = ticketMask by decide]
    exact nextTicket_toNat w
  have h_new : ((((w >>> ticketBits) + 1#32) &&& ticketMask) : BitVec 32).toNat
      = ((serving w).toNat + 1) % 65536 := by
    have h := nextTicket_toNat ((w >>> ticketBits) + 1#32)
    have h_lt := serving_lt w
    rw [nextTicket] at h
    rw [h, BitVec.toNat_add]
    change ((serving w).toNat + 1) % 2 ^ 32 % 65536 = _
    omega
  have h_shift : (((serving w).toNat + 1) % 65536) <<< ticketBits % 2 ^ 32
      = (((serving w).toNat + 1) % 65536) <<< 16 := by
    apply Nat.mod_eq_of_lt
    simp only [ticketBits, Nat.shiftLeft_eq]
    omega
  simp only [dropStore, BitVec.toNat_or, BitVec.toNat_shiftLeft, h_low, h_new, h_shift]
  rw [Nat.or_comm, ← Nat.shiftLeft_add_eq_or_of_lt (Nat.mod_lt _ (by decide)), Nat.shiftLeft_eq,
    nextTicket_toNat]

theorem dropStore_nextTicket (w : BitVec 32) : nextTicket (dropStore w) = nextTicket w := by
  have h := nextTicket_lt w
  apply BitVec.eq_of_toNat_eq
  rw [nextTicket_toNat (dropStore w), dropStore_toNat]
  omega

theorem dropStore_serving_toNat (w : BitVec 32) :
    (serving (dropStore w)).toNat = ((serving w).toNat + 1) % 65536 := by
  have h := nextTicket_lt w
  rw [serving_toNat (dropStore w), dropStore_toNat]
  omega

/-- A ticket below `2 ^ 16` is served exactly when it equals the high half. -/
theorem isServed_iff {ticket w : BitVec 32} (h : ticket.toNat < 65536) :
    isServed ticket w = true ↔ ticket.toNat = (serving w).toNat := by
  have h_mask : (ticket &&& ticketMask).toNat = ticket.toNat := by
    have := nextTicket_toNat ticket
    rw [nextTicket] at this
    rw [this]
    omega
  rw [isServed, beq_iff_eq, ← BitVec.toNat_inj, h_mask]
  exact eq_comm

-- ============================================================================
-- Cores
-- ============================================================================

/-- Where a core is. -/
inductive Pc where
  /-- Neither in `lock` nor owner of a guard. -/
  | idle
  /-- In `wait_for_ticket`. -/
  | waiting (ticket : BitVec 32)
  /-- `lock` has returned: the core owns a guard. -/
  | holding
  /-- In `SpinlockGuard::drop`, between its load (of `old`) and its store. -/
  | dropping (old : BitVec 32)
  deriving DecidableEq, Repr

/-- The guard of the core is alive (a guard in `drop` counts until its store). -/
def Pc.guardAlive : Pc → Bool
  | .holding | .dropping _ => true
  | .idle | .waiting _ => false

/-- The core is between the load and the store of `SpinlockGuard::drop`. -/
def Pc.inDrop : Pc → Bool
  | .dropping _ => true
  | _ => false

/-- One lock and the cores that use it. -/
structure State (Core : Type*) where
  state : BitVec 32
  pc : Core → Pc

/-- The atomic steps, each of one core. -/
inductive Action (Core : Type*) where
  /-- `lock` starts: the `fetch_add` of `fetch_ticket`. -/
  | lock (c : Core)
  /-- One load of the loop of `wait_for_ticket`. -/
  | wait (c : Core)
  /-- The load of `SpinlockGuard::drop`. -/
  | dropLoad (c : Core)
  /-- The store of `SpinlockGuard::drop`. -/
  | dropStore (c : Core)
  deriving DecidableEq, Repr

/-- The label starts a call of `lock`. -/
def Action.isLock {Core : Type*} : Action Core → Bool
  | .lock _ => true
  | _ => false

variable {Core : Type*} [DecidableEq Core]

/-- Core `c` moves to `p`. -/
def State.setPc (s : State Core) (c : Core) (p : Pc) : State Core :=
  { s with pc := Function.update s.pc c p }

/-- One atomic step.  The backoff of the waiting loop touches nothing shared. -/
def step (s : State Core) : Action Core → Option (State Core)
  | .lock c =>
      match s.pc c with
      | .idle =>
          let (ticket, state) := fetchTicket s.state
          some ({ s with state := state }.setPc c (.waiting ticket))
      | _ => none
  | .wait c =>
      match s.pc c with
      | .waiting ticket =>
          if isServed ticket s.state then some (s.setPc c .holding) else some s
      | _ => none
  | .dropLoad c =>
      match s.pc c with
      | .holding => some (s.setPc c (.dropping s.state))
      | _ => none
  | .dropStore c =>
      match s.pc c with
      | .dropping old => some ({ s with state := dropStore old }.setPc c .idle)
      | _ => none

/-- The lock just after `new`, with every core idle. -/
def machine (Core : Type*) [DecidableEq Core] : Machine (State Core) (Action Core) where
  init := { state := 0, pc := fun _ => .idle }
  step := step

/-- What one step can do. -/
theorem step_cases {s s' : State Core} {a : Action Core}
    (h : (machine Core).step s a = some s') :
    (∃ c, a = .lock c ∧ s.pc c = .idle ∧
      s' = { s with state := (fetchTicket s.state).2 }.setPc c (.waiting (nextTicket s.state))) ∨
    (∃ c t, a = .wait c ∧ s.pc c = .waiting t ∧
      (isServed t s.state = true ∧ s' = s.setPc c .holding ∨
        isServed t s.state = false ∧ s' = s)) ∨
    (∃ c, a = .dropLoad c ∧ s.pc c = .holding ∧ s' = s.setPc c (.dropping s.state)) ∨
    (∃ c old, a = .dropStore c ∧ s.pc c = .dropping old ∧
      s' = { s with state := dropStore old }.setPc c .idle) := by
  cases a with
  | lock c =>
      left
      cases h_pc : s.pc c <;> simp only [machine, step, h_pc, reduceCtorEq] at h
      exact ⟨c, rfl, h_pc, (Option.some.inj h).symm⟩
  | wait c =>
      right; left
      cases h_pc : s.pc c with
      | waiting t =>
          simp only [machine, step, h_pc] at h
          refine ⟨c, t, rfl, h_pc, ?_⟩
          split at h
          · next h_served => exact .inl ⟨h_served, (Option.some.inj h).symm⟩
          · next h_served => exact .inr ⟨by simpa using h_served, (Option.some.inj h).symm⟩
      | idle | holding | dropping _ =>
          simp only [machine, step, h_pc, reduceCtorEq] at h
  | dropLoad c =>
      right; right; left
      cases h_pc : s.pc c <;> simp only [machine, step, h_pc, reduceCtorEq] at h
      exact ⟨c, rfl, h_pc, (Option.some.inj h).symm⟩
  | dropStore c =>
      right; right; right
      cases h_pc : s.pc c <;> simp only [machine, step, h_pc, reduceCtorEq] at h
      exact ⟨c, _, rfl, h_pc, (Option.some.inj h).symm⟩

/-! ## Moving one core -/

/-- A core that does not move to the waiting loop leaves the waiting ones as they were. -/
theorem State.waiting_of_setPc {s : State Core} {c d : Core} {p : Pc} {t : BitVec 32}
    (hp : ∀ u, p ≠ .waiting u) (h : (s.setPc c p).pc d = .waiting t) :
    d ≠ c ∧ s.pc d = .waiting t := by
  by_cases hd : d = c
  · subst hd
    exact absurd (by simpa [State.setPc] using h) (hp t)
  · exact ⟨hd, by simpa [State.setPc, hd] using h⟩

/-- A core that does not gain a guard leaves the live guards as they were. -/
theorem State.guardAlive_of_setPc {s : State Core} {c d : Core} {p : Pc}
    (hp : p.guardAlive → (s.pc c).guardAlive) (h : ((s.setPc c p).pc d).guardAlive) :
    (s.pc d).guardAlive := by
  by_cases hd : d = c
  · subst hd
    exact hp (by simpa [State.setPc] using h)
  · simpa [State.setPc, hd] using h

/-- A core that does not start to drop leaves the drops in progress as they were. -/
theorem State.dropping_of_setPc {s : State Core} {c d : Core} {p : Pc} {old : BitVec 32}
    (hp : p.inDrop = false) (h : (s.setPc c p).pc d = .dropping old) :
    s.pc d = .dropping old := by
  by_cases hd : d = c
  · subst hd
    rw [show p = .dropping old by simpa [State.setPc] using h] at hp
    exact absurd hp (by simp [Pc.inDrop])
  · simpa [State.setPc, hd] using h

/-- At most one guard of the lock is alive. -/
def State.MutualExclusion (s : State Core) : Prop :=
  ∀ c d, (s.pc c).guardAlive → (s.pc d).guardAlive → c = d

end Spinlock
end Zydon
