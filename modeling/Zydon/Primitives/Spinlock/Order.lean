/-
  Zydon.Primitives.Spinlock.Order

  The order in which the cores get a ticket spinlock, in the runs in which it is a lock
  at all: fewer than `2 ^ 16` tickets, none of them taken inside a guard drop.

  "FIFO acquisition order prevents starvation": the cores get the lock in the order of
  their tickets.  A load of the waiting loop succeeds for the first of the waiting
  cores, as soon as no guard is alive, and for no other.
-/

import Zydon.Lib.History
import Zydon.Primitives.Spinlock.Exclusion

namespace Zydon
namespace Spinlock

open Lib

variable {Core : Type*}

-- ============================================================================
-- The turns of a run
-- ============================================================================

/-- The cores in the order of their tickets, and in the order in which `lock` returned. -/
structure Turns (Core : Type*) where
  taken : List Core
  served : List Core

/-- The tickets and the guards are recorded. -/
def Turns.note (_ : State Core) (a : Action Core) (s' : State Core) (r : Turns Core) :
    Turns Core :=
  match a with
  | .lock c => { r with taken := r.taken ++ [c] }
  | .wait c =>
      match s'.pc c with
      | .holding => { r with served := r.served ++ [c] }
      | _ => r
  | .dropLoad _ | .dropStore _ => r

/-- The lock with the record of its turns. -/
def turnsMachine (Core : Type*) [DecidableEq Core] :
    Machine (Recorded (State Core) (Turns Core)) (Action Core) :=
  (machine Core).recorded Turns.note ⟨[], []⟩

/-- The lock is handed on in the order of the tickets. -/
structure FirstComeFirstServed (s : Recorded (State Core) (Turns Core)) : Prop where
  /-- The cores that have got the lock are the first that took a ticket, and the others
      wait, each once. -/
  inOrder : ∃ rest, s.record.taken = s.record.served ++ rest ∧ rest.Nodup ∧
    ∀ c, c ∈ rest ↔ ∃ ticket, s.state.pc c = .waiting ticket
  /-- The next load of a waiting core lets it in if it is the first of them and no guard
      is alive, and only then. -/
  lets_in : ∀ c ticket, s.state.pc c = .waiting ticket →
    (isServed ticket s.state.state = true ↔
      (∀ d, (s.state.pc d).guardAlive = false) ∧ s.record.served ++ [c] <+: s.record.taken)

-- ============================================================================
-- The invariant
-- ============================================================================

variable [DecidableEq Core]

/-- The state after `n` calls of `lock`: ticket `i` is that of the core in place `i`. -/
structure OrderInv (n : Nat) (s : State Core) (r : Turns Core) : Prop where
  inv : Inv n s
  taken_length : r.taken.length = n
  served_eq : r.served = r.taken.take r.served.length
  /-- The guard that is alive has had its turn. -/
  alive : ∀ c, (s.pc c).guardAlive → r.served.length = (serving s.state).toNat + 1
  free : (∀ c, (s.pc c).guardAlive = false) → r.served.length = (serving s.state).toNat
  place : ∀ c t, s.pc c = .waiting t → r.taken[t.toNat]? = some c ∧ r.served.length ≤ t.toNat
  filled : ∀ i, r.served.length ≤ i → i < n → ∃ c t, s.pc c = .waiting t ∧ t.toNat = i

theorem orderInv_init : OrderInv 0 (machine Core).init ⟨[], []⟩ where
  inv := inv_init
  taken_length := rfl
  served_eq := rfl
  alive := fun c h => absurd h (by simp [machine, Pc.guardAlive])
  free := fun _ => by simp [machine, serving]
  place := fun c t h => absurd h (by simp [machine])
  filled := fun i _ h => absurd h (Nat.not_lt_zero i)

variable {n : Nat} {s : State Core} {r : Turns Core} {c : Core} {t old : BitVec 32}

omit [DecidableEq Core] in
/-- A core that waits for the ticket being served: no guard is alive. -/
theorem OrderInv.free_of_served (h : OrderInv n s r) (h_pc : s.pc c = .waiting t)
    (h_served : t.toNat = (serving s.state).toNat) (d : Core) : (s.pc d).guardAlive = false := by
  rw [Bool.eq_false_iff]
  exact fun h_alive => (h.inv.guard_served d h_alive).2 c t h_pc h_served

/-- A ticket is taken. -/
theorem OrderInv.lock (h : OrderInv n s r) (h_pc : s.pc c = .idle) (h_n : n + 1 < 65536)
    (h_window : ∀ d, (s.pc d).inDrop = false) :
    OrderInv (n + 1)
      ({ s with state := (fetchTicket s.state).2 }.setPc c (.waiting (nextTicket s.state)))
      { r with taken := r.taken ++ [c] } := by
  have h_serving := (fetchTicket_snd_toNat (w := s.state) (by rw [h.inv.next_eq]; exact h_n)).2
  have h_length := h.taken_length
  have h_le : r.served.length ≤ n := by
    have h_take := congrArg List.length h.served_eq
    rw [List.length_take] at h_take
    omega
  have h_alive : ∀ d, (Function.update s.pc c (.waiting (nextTicket s.state)) d).guardAlive =
      (s.pc d).guardAlive := by
    intro d
    rw [Function.update_apply]
    split
    · next h_d =>
        rw [h_d, h_pc]
        rfl
    · rfl
  constructor
  case inv => exact h.inv.lock h_n h_window
  case taken_length => rw [List.length_append, h_length, List.length_singleton]
  case served_eq =>
    show r.served = (r.taken ++ [c]).take r.served.length
    rw [List.take_append_of_le_length (by omega)]
    exact h.served_eq
  case alive =>
    intro d h_d
    show r.served.length = (serving (fetchTicket s.state).2).toNat + 1
    rw [h_serving]
    exact h.alive d ((h_alive d).symm.trans h_d)
  case free =>
    intro h_d
    show r.served.length = (serving (fetchTicket s.state).2).toNat
    rw [h_serving]
    exact h.free fun d => (h_alive d).symm.trans (h_d d)
  case place =>
    intro d u h_d
    replace h_d : Function.update s.pc c (.waiting (nextTicket s.state)) d = .waiting u := h_d
    rw [Function.update_apply] at h_d
    split at h_d
    · next h_dc =>
        have h_u : u.toNat = r.taken.length := by
          rw [h_length, ← h.inv.next_eq, ← Pc.waiting.inj h_d]
        show (r.taken ++ [c])[u.toNat]? = some d ∧ r.served.length ≤ u.toNat
        rw [h_u, List.getElem?_concat_length, h_dc]
        exact ⟨rfl, by omega⟩
    · obtain ⟨h_place, h_ge⟩ := h.place d u h_d
      have h_lt := (h.inv.ticket_range d u h_d).2
      refine ⟨?_, h_ge⟩
      rw [List.getElem?_append_left (by omega)]
      exact h_place
  case filled =>
    intro i h_ge h_i
    show ∃ d u, Function.update s.pc c (.waiting (nextTicket s.state)) d = .waiting u ∧ _
    rcases Nat.lt_succ_iff_lt_or_eq.mp h_i with h_lt | rfl
    · obtain ⟨d, u, h_d, h_u⟩ := h.filled i h_ge h_lt
      have h_ne : d ≠ c := by
        rintro rfl
        exact absurd (h_pc.symm.trans h_d) (by simp)
      exact ⟨d, u, (Function.update_of_ne h_ne ..).trans h_d, h_u⟩
    · exact ⟨c, nextTicket s.state, Function.update_self .., h.inv.next_eq⟩

/-- The core whose turn it is gets the lock. -/
theorem OrderInv.acquire (h : OrderInv n s r) (h_pc : s.pc c = .waiting t)
    (h_served : t.toNat = (serving s.state).toNat) :
    OrderInv n (s.setPc c .holding) { r with served := r.served ++ [c] } := by
  have h_free := h.free (h.free_of_served h_pc h_served)
  obtain ⟨h_place, -⟩ := h.place c t h_pc
  have h_count : r.served.length = t.toNat := h_free.trans h_served.symm
  have h_wait : ∀ d u, (s.setPc c .holding).pc d = .waiting u → d ≠ c ∧ s.pc d = .waiting u :=
    fun d u => State.waiting_of_setPc (by simp)
  constructor
  case inv => exact h.inv.acquire h_pc h_served
  case taken_length => exact h.taken_length
  case served_eq =>
    show r.served ++ [c] = r.taken.take (r.served ++ [c]).length
    rw [List.length_append, List.length_singleton, List.take_add_one, ← h.served_eq, h_count,
      h_place]
    rfl
  case alive =>
    intro d _
    show (r.served ++ [c]).length = (serving s.state).toNat + 1
    rw [List.length_append, List.length_singleton, h_free]
  case free =>
    intro h_none
    exact absurd (h_none c) (by simp [State.setPc, Pc.guardAlive])
  case place =>
    intro d u h_d
    obtain ⟨h_ne, h_old⟩ := h_wait d u h_d
    obtain ⟨h_place', h_ge⟩ := h.place d u h_old
    refine ⟨h_place', ?_⟩
    show (r.served ++ [c]).length ≤ u.toNat
    have h_u : u.toNat ≠ t.toNat := by
      intro h_eq
      rw [h_eq, h_place] at h_place'
      exact h_ne (Option.some.inj h_place').symm
    rw [List.length_append, List.length_singleton]
    omega
  case filled =>
    intro i h_ge h_i
    replace h_ge : (r.served ++ [c]).length ≤ i := h_ge
    rw [List.length_append, List.length_singleton] at h_ge
    obtain ⟨d, u, h_d, h_u⟩ := h.filled i (by omega) h_i
    have h_ne : d ≠ c := by
      rintro rfl
      have h_eq := Pc.waiting.inj (h_pc.symm.trans h_d)
      rw [h_eq] at h_count
      omega
    exact ⟨d, u, (Function.update_of_ne h_ne ..).trans h_d, h_u⟩

/-- A guard drop loads the word. -/
theorem OrderInv.dropLoad (h : OrderInv n s r) (h_pc : s.pc c = .holding) :
    OrderInv n (s.setPc c (.dropping s.state)) r := by
  have h_alive : (s.pc c).guardAlive := by
    rw [h_pc]
    rfl
  have h_wait : ∀ d u, (s.setPc c (.dropping s.state)).pc d = .waiting u →
      s.pc d = .waiting u := fun d u h => (State.waiting_of_setPc (by simp) h).2
  constructor
  case inv => exact h.inv.dropLoad h_pc
  case taken_length => exact h.taken_length
  case served_eq => exact h.served_eq
  case alive => exact fun _ _ => h.alive c h_alive
  case free =>
    intro h_none
    exact absurd (h_none c) (by simp [State.setPc, Pc.guardAlive])
  case place => exact fun d u h_d => h.place d u (h_wait d u h_d)
  case filled =>
    intro i h_ge h_i
    obtain ⟨d, u, h_d, h_u⟩ := h.filled i h_ge h_i
    have h_ne : d ≠ c := by
      rintro rfl
      exact absurd (h_pc.symm.trans h_d) (by simp)
    exact ⟨d, u, (Function.update_of_ne h_ne ..).trans h_d, h_u⟩

/-- A guard drop lets the next ticket be served. -/
theorem OrderInv.dropStore (h : OrderInv n s r) (h_pc : s.pc c = .dropping old) :
    OrderInv n ({ s with state := Spinlock.dropStore old }.setPc c .idle) r := by
  have h_inv := h.inv.dropStore h_pc
  obtain rfl := h.inv.drop_loaded c old h_pc
  have h_alive : (s.pc c).guardAlive := by
    rw [h_pc]
    rfl
  have h_count := h.alive c h_alive
  have h_lt := (h.inv.guard_served c h_alive).1
  have h_next := nextTicket_lt s.state
  rw [h.inv.next_eq] at h_next
  have h_serving : (serving (Spinlock.dropStore s.state)).toNat =
      (serving s.state).toNat + 1 := by
    rw [dropStore_serving_toNat, Nat.mod_eq_of_lt (by omega)]
  have h_wait : ∀ d u, (State.setPc { s with state := Spinlock.dropStore s.state } c .idle).pc d =
      .waiting u → s.pc d = .waiting u := fun d u h => (State.waiting_of_setPc (by simp) h).2
  constructor
  case inv => exact h_inv
  case taken_length => exact h.taken_length
  case served_eq => exact h.served_eq
  case alive =>
    intro d h_d
    -- the guard that has been dropped was the only one
    by_cases h_dc : d = c
    · subst h_dc
      exact absurd h_d (by simp [State.setPc, Pc.guardAlive])
    · refine absurd (h.inv.guard_unique d c ?_ h_alive) h_dc
      simpa [State.setPc, h_dc] using h_d
  case free => exact fun _ => h_count.trans h_serving.symm
  case place => exact fun d u h_d => h.place d u (h_wait d u h_d)
  case filled =>
    intro i h_ge h_i
    obtain ⟨d, u, h_d, h_u⟩ := h.filled i h_ge h_i
    have h_ne : d ≠ c := by
      rintro rfl
      exact absurd (h_pc.symm.trans h_d) (by simp)
    exact ⟨d, u, (Function.update_of_ne h_ne ..).trans h_d, h_u⟩

/-- One step under the condition. -/
theorem OrderInv.step {s' : State Core} {a : Action Core} (h : OrderInv n s r)
    (h_window : NoTicketInDrop s a) (h_n : n + (if a.isLock then 1 else 0) < 65536)
    (h_step : (machine Core).step s a = some s') :
    OrderInv (n + if a.isLock then 1 else 0) s' (Turns.note s a s' r) := by
  rcases step_cases h_step with ⟨c, rfl, h_pc, rfl⟩ | ⟨c, t, rfl, h_pc, h_wait⟩ |
    ⟨c, rfl, h_pc, rfl⟩ | ⟨c, old, rfl, h_pc, rfl⟩
  · exact h.lock h_pc h_n (h_window rfl)
  · rcases h_wait with ⟨h_served, rfl⟩ | ⟨-, rfl⟩
    · have h_note : Turns.note s (.wait c) (s.setPc c .holding) r =
          { r with served := r.served ++ [c] } := by
        simp [Turns.note, State.setPc]
      rw [h_note]
      exact h.acquire h_pc ((isServed_iff (h.inv.ticket_lt h_pc)).mp h_served)
    · have h_note : Turns.note s' (.wait c) s' r = r := by simp [Turns.note, h_pc]
      rw [h_note]
      exact h
  · exact h.dropLoad h_pc
  · exact h.dropStore h_pc

-- ============================================================================
-- Runs
-- ============================================================================

theorem orderInv_of_run {tr : List (Action Core)} {s : Recorded (State Core) (Turns Core)}
    (h_meet : (turnsMachine Core).StepsMeet (fun s a => NoTicketInDrop s.state a)
      (turnsMachine Core).init tr)
    (h_calls : tr.countP Action.isLock < 2 ^ 16)
    (h_run : (turnsMachine Core).exec (turnsMachine Core).init tr = some s) :
    OrderInv (tr.countP Action.isLock) s.state s.record := by
  have h_inv : OrderInv (0 + tr.countP Action.isLock) s.state s.record := by
    have h_bound : 0 + tr.countP Action.isLock < 65536 := by omega
    refine Machine.exec_invariant_countP (P := fun n s => OrderInv n s.state s.record)
      (fun n s a s' hs h_ok h_n h => ?_) orderInv_init h_meet h_bound h_run
    obtain ⟨h_machine, h_record⟩ := Machine.recorded_step_eq_some.mp h
    rw [h_record]
    exact hs.step h_ok h_n h_machine
  rwa [Nat.zero_add] at h_inv

omit [DecidableEq Core] in
theorem OrderInv.firstComeFirstServed (h : OrderInv n s r) :
    FirstComeFirstServed (⟨s, r⟩ : Recorded (State Core) (Turns Core)) := by
  have h_length := h.taken_length
  have h_rest : ∀ i c, (r.taken.drop r.served.length)[i]? = some c →
      ∃ t, s.pc c = .waiting t ∧ t.toNat = r.served.length + i := by
    intro i c h_i
    rw [List.getElem?_drop] at h_i
    obtain ⟨h_lt, -⟩ := List.getElem?_eq_some_iff.mp h_i
    obtain ⟨d, t, h_d, h_t⟩ := h.filled (r.served.length + i) (Nat.le_add_right _ _) (by omega)
    have h_place := (h.place d t h_d).1
    rw [h_t, h_i] at h_place
    obtain rfl : c = d := Option.some.inj h_place
    exact ⟨t, h_d, h_t⟩
  constructor
  case inOrder =>
    refine ⟨r.taken.drop r.served.length, ?_, ?_, fun c => ⟨fun h_c => ?_, ?_⟩⟩
    · show r.taken = r.served ++ r.taken.drop r.served.length
      conv_lhs => rw [← List.take_append_drop r.served.length r.taken, ← h.served_eq]
    · rw [List.nodup_iff_getElem?_ne_getElem?]
      intro i j h_ij h_j h_eq
      obtain ⟨t, h_t, h_i'⟩ := h_rest i _ (h_eq.trans (List.getElem?_eq_getElem h_j))
      obtain ⟨u, h_u, h_j'⟩ := h_rest j _ (List.getElem?_eq_getElem h_j)
      have h_tu := Pc.waiting.inj (h_t.symm.trans h_u)
      rw [h_tu] at h_i'
      omega
    · obtain ⟨i, h_i⟩ := List.getElem?_of_mem h_c
      obtain ⟨t, h_t, -⟩ := h_rest i c h_i
      exact ⟨t, h_t⟩
    · rintro ⟨t, h_t⟩
      obtain ⟨h_place, h_ge⟩ := h.place c t h_t
      refine List.mem_of_getElem? (i := t.toNat - r.served.length) ?_
      rw [List.getElem?_drop, Nat.add_sub_cancel' h_ge]
      exact h_place
  case lets_in =>
    intro c t h_t
    obtain ⟨h_place, h_ge⟩ := h.place c t h_t
    have h_served : r.served ++ [c] <+: r.taken ↔ r.taken[r.served.length]? = some c := by
      rw [List.prefix_iff_eq_take, List.length_append, List.length_singleton, List.take_add_one,
        ← h.served_eq, List.append_cancel_left_eq]
      cases r.taken[r.served.length]? <;> simp [eq_comm]
    show isServed t s.state = true ↔ _ ∧ r.served ++ [c] <+: r.taken
    rw [isServed_iff (h.inv.ticket_lt h_t), h_served]
    constructor
    · intro h_eq
      have h_none := h.free_of_served h_t h_eq
      have h_free := h.free h_none
      exact ⟨h_none, by rwa [h_free, ← h_eq]⟩
    · rintro ⟨h_none, h_first⟩
      have h_free := h.free h_none
      obtain ⟨u, h_u, h_eq⟩ := h_rest 0 c (by rwa [List.getElem?_drop])
      obtain rfl : t = u := Pc.waiting.inj (h_t.symm.trans h_u)
      omega

/-- For any number of cores, in every order of their steps under the condition. -/
theorem firstComeFirstServed_of_run {tr : List (Action Core)}
    {s : Recorded (State Core) (Turns Core)}
    (h_meet : (turnsMachine Core).StepsMeet (fun s a => NoTicketInDrop s.state a)
      (turnsMachine Core).init tr)
    (h_calls : tr.countP Action.isLock < 2 ^ 16)
    (h_run : (turnsMachine Core).exec (turnsMachine Core).init tr = some s) :
    FirstComeFirstServed s :=
  (orderInv_of_run h_meet h_calls h_run).firstComeFirstServed

/-- The core with the second ticket waits in vain until the first has dropped its
    guard. -/
def secondWaits : List (Action Bool) :=
  [.lock true, .lock false, .wait true, .wait false, .dropLoad true, .wait false,
    .dropStore true, .wait false]

theorem firstComeFirstServed_secondWaits :
    ∃ s, (turnsMachine Bool).exec (turnsMachine Bool).init secondWaits = some s ∧
      s.record.served = [true, false] ∧ FirstComeFirstServed s := by
  have h_meet : (turnsMachine Bool).StepsMeet (fun s a => NoTicketInDrop s.state a)
      (turnsMachine Bool).init secondWaits := by decide +kernel
  exact ⟨_, rfl, rfl, firstComeFirstServed_of_run h_meet (by decide) rfl⟩

end Spinlock
end Zydon
