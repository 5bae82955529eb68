/-
  Zydon.Primitives.Channel.Delivery

  Which values come out of the channel, over every interleaving of its consumer
  with any number of producers.

  A producer checks `len`, claims a position, writes the slot and counts it in
  `len` in four separate operations.  Producers that have passed the check
  together overrun the ring, and `len` can count a later position while an
  earlier one is not written yet (`runs_break_delivery`).  `KeepsSlots`
  excludes the two; the runs within it are `Safe` (`safe_of_keepsSlots`).
-/

import Mathlib.Data.Fintype.Basic
import Zydon.Primitives.Channel.Slots

namespace Zydon
namespace Channel

open Lib

variable {Producer SF RF Waker V : Type*}

-- ============================================================================
-- Delivery
-- ============================================================================

/-- The position whose slot the producer writes next. -/
def SendPc.writes : SendPc SF RF Waker V → Option Usize
  | .write _ pos _ => some pos
  | _ => none

/-- The position whose slot the consumer reads next. -/
def RecvPc.reads : RecvPc SF RF Waker V → Option Usize
  | .read _ pos => some pos
  | _ => none

/-- A slot that is about to be written holds no undelivered value. -/
def WritesFree (s : State Producer SF RF Waker V) : Prop :=
  ∀ p, ∀ pos ∈ (s.thread p).writes, ∀ x ∈ s.shared.data (s.shared.idx pos),
    some x ∈ s.shared.delivered

/-- A slot that is about to be read holds a value sent and not delivered. -/
def ReadsLive (s : State Producer SF RF Waker V) : Prop :=
  ∀ pos ∈ s.owner.reads, ∃ x ∈ s.shared.claimed,
    s.shared.data (s.shared.idx pos) = some x ∧ some x ∉ s.shared.delivered

/-- Values are only written to free slots, and every one delivered has been
    sent, and is delivered once. -/
structure Safe (s : State Producer SF RF Waker V) : Prop where
  writes_free : WritesFree s
  reads_live : ReadsLive s
  len_le : s.shared.len.toNat ≤ s.shared.capacity.val
  delivered_once : s.shared.delivered.Nodup
  delivered_claimed : ∀ y ∈ s.shared.delivered, ∃ x ∈ s.shared.claimed, y = some x

section Decide

variable [DecidableEq V] (s : State Producer SF RF Waker V)

instance WritesFree.decidable [Fintype Producer] : Decidable (WritesFree s) :=
  -- not the instance that tries every `BitVec 64`
  have := fun p => Option.decidableForallMem (s.thread p).writes
    (p := fun pos => ∀ x ∈ s.shared.data (s.shared.idx pos), some x ∈ s.shared.delivered)
  inferInstanceAs (Decidable (∀ p, ∀ pos ∈ (s.thread p).writes, _))

instance ReadsLive.decidable : Decidable (ReadsLive s) :=
  Option.decidableForallMem s.owner.reads

instance Safe.decidable [Fintype Producer] : Decidable (Safe s) :=
  decidable_of_iff
    (WritesFree s ∧ ReadsLive s ∧ s.shared.len.toNat ≤ s.shared.capacity.val ∧
      s.shared.delivered.Nodup ∧ ∀ y ∈ s.shared.delivered, ∃ x ∈ s.shared.claimed, y = some x)
    ⟨fun ⟨h_writes, h_reads, h_len, h_once, h_claimed⟩ =>
        ⟨h_writes, h_reads, h_len, h_once, h_claimed⟩,
      fun h => ⟨h.writes_free, h.reads_live, h.len_le, h.delivered_once, h.delivered_claimed⟩⟩

end Decide

/-- The step keeps the slots of different values apart:

    * a producer claims a position only while the positions claimed and not
      released by a `fetch_sub` are fewer than the slots, and the claim leaves
      `send_pos` below `2^64`, or the capacity divides `2^64`;
    * the consumer claims a position only when its slot has been written. -/
def KeepsSlots (s : State Producer SF RF Waker V) : Action Producer SF RF Waker V → Prop
  | .inl _ => s.owner.phase = .claiming →
      ∀ p, (s.thread p).phase.unwritten ≠ some s.shared.delivered.length
  | .inr (p, _) => (s.thread p).phase = .claiming →
      s.shared.claimed.length + s.owner.phase.held <
          s.shared.delivered.length + s.shared.capacity.val ∧
        (s.shared.sendPos.toNat + 1 < 2 ^ 64 ∨ s.shared.capacity.val ∣ 2 ^ 64)

instance KeepsSlots.decidable [Fintype Producer] [DecidableEq V]
    (s : State Producer SF RF Waker V) : ∀ a, Decidable (KeepsSlots s a)
  | .inl _ => inferInstanceAs (Decidable (_ → ∀ _, _))
  | .inr _ => inferInstanceAs (Decidable (_ → _ ∧ _))

/-- The invariant of the channel. -/
def StateInv (s : State Producer SF RF Waker V) : Prop :=
  ∃ l, Inv s.shared.toRing s.owner.phase (fun p => (s.thread p).phase) l

theorem StateInv.safe {s : State Producer SF RF Waker V} (h : StateInv s) : Safe s := by
  obtain ⟨l, hs⟩ := h
  have h_le := hs.delivered_le
  constructor
  · intro p pos h_pos x h_x
    obtain ⟨call, y, h_pc⟩ : ∃ call y, s.thread p = .write call pos y := by
      cases h_pc : s.thread p <;> simp [h_pc, SendPc.writes] at h_pos
      exact ⟨_, _, by rw [h_pos]⟩
    have h_phase : (s.thread p).phase = .writing pos y := by rw [h_pc]; rfl
    have h_each : SendPhase.Inv s.shared.toRing s.owner.phase (s.thread p).phase :=
      hs.inFlight.each p
    rw [h_phase] at h_each
    obtain ⟨h_y, h_y_slot, h_y_low⟩ := h_each
    have h_y_lt := (List.getElem?_eq_some_iff.mp h_y).1
    obtain ⟨h_claimed, h_slot, h_settled⟩ := hs.slots.content _ x h_x
    rw [hs.mem_delivered h_claimed]
    by_contra h_high
    -- two positions in the window that share a slot are the same
    have h_room := hs.counts.room
    have h_x_lt := (List.getElem?_eq_some_iff.mp h_claimed).1
    have h_cell : x.1 % s.shared.capacity.val = y.1 % s.shared.capacity.val := by
      rw [← h_slot]
      exact h_y_slot
    have h_eq : x.1 = y.1 := eq_of_mod_eq h_cell (by omega) (by omega)
    apply h_settled p
    show (s.thread p).phase.unwritten = some x.1
    rw [h_phase, h_eq]
    rfl
  · intro pos h_pos
    have h_phase : s.owner.phase = .reading pos := by
      cases h_pc : s.owner <;> simp [h_pc, RecvPc.reads] at h_pos
      rw [h_pos]
      rfl
    have h_lt : s.shared.delivered.length < s.shared.claimed.length :=
      hs.delivered_lt (by rw [h_phase]; simp) (by rw [h_phase]; rfl)
    have h_next := List.getElem?_eq_getElem h_lt
    refine ⟨_, List.getElem_mem h_lt, (hs.data_reading h_phase).trans h_next, ?_⟩
    have h_number := fst_of_numbered hs.numbered h_next
    rw [hs.mem_delivered (by rw [h_number, h_next]), h_number]
    exact lt_irrefl _
  · exact hs.counts.len_le
  · have h_nodup : (s.shared.claimed.map some).Nodup :=
      (nodup_of_numbered hs.numbered).map (Option.some_injective _)
    exact hs.fifo.sublist.nodup h_nodup
  · intro y h_y
    obtain ⟨x, h_x, h_eq⟩ := List.mem_map.mp (hs.fifo.subset h_y)
    exact ⟨x, h_x, h_eq.symm⟩

section Runs

variable [DecidableEq Producer] [DecidableEq SF] [DecidableEq RF]

/-- One step that keeps the slots apart. -/
theorem StateInv.step {capacity : Capacity} {values : SF → V} {s s' : State Producer SF RF Waker V}
    {a : Action Producer SF RF Waker V} (hs : StateInv s) (h_keeps : KeepsSlots s a)
    (h : (machine Producer RF Waker capacity values).step s a = some s') : StateInv s' := by
  obtain ⟨l, hs⟩ := hs
  rcases a with a | ⟨p, a⟩
  · obtain ⟨c, q, h_step, rfl⟩ := OwnerAndThreads.step_owner_eq_some h
    exact ⟨l, hs.recv_step (recvStep_effect h_step) h_keeps⟩
  · obtain ⟨c, q, h_step, rfl⟩ := OwnerAndThreads.step_thread_eq_some h
    obtain ⟨l', h_inv⟩ := hs.send_step (sendStep_effect h_step) h_keeps
    have h_phases : (fun i => (Function.update s.thread p q i).phase) =
        Function.update (fun i => (s.thread i).phase) p q.phase :=
      Function.comp_update SendPc.phase s.thread p q
    refine ⟨l', ?_⟩
    rw [h_phases]
    exact h_inv

/-- In every run that keeps the slots apart, the channel delivers every value at
    most once, and nothing else. -/
theorem safe_of_keepsSlots {capacity : Capacity} {values : SF → V}
    {tr : List (Action Producer SF RF Waker V)} {s : State Producer SF RF Waker V}
    (h_meet : (machine Producer RF Waker capacity values).StepsMeet KeepsSlots
      (machine Producer RF Waker capacity values).init tr)
    (h_run : (machine Producer RF Waker capacity values).exec
      (machine Producer RF Waker capacity values).init tr = some s) : Safe s :=
  (Machine.exec_invariant (P := StateInv) (fun _ _ _ hs h_keeps h => hs.step h_keeps h)
    ⟨[], Inv.new capacity⟩ h_meet h_run).safe

end Runs

/-! ## Runs -/

def capacityOne : Capacity := ⟨1, by decide, by decide⟩

def capacityTwo : Capacity := ⟨2, by decide, by decide⟩

/-- The next operations of a producer. -/
def sends (p : Bool) (n : Nat) : List (Action Bool Unit Unit Unit Nat) :=
  List.replicate n (.inr (p, .run))

/-- A `try_recv`; it takes five operations after its first if it wakes nobody. -/
def receives (n : Nat) : List (Action Bool Unit Unit Unit Nat) :=
  .inl .tryRecv :: List.replicate n (.inl .run)

/-- Two producers are in `try_send` together, and the one that has claimed the
    second position is the first to write and count its value. -/
def keptRun : List (Action Bool Unit Unit Unit Nat) :=
  [.inr (false, .trySend 10), .inr (true, .trySend 20)] ++ sends false 2 ++ sends true 4 ++
    sends false 4 ++ sends true 2 ++ receives 5 ++ receives 5

theorem safe_keptRun :
    ∃ s, (machine Bool Unit Unit capacityTwo fun _ : Unit => 0).exec
        (machine Bool Unit Unit capacityTwo fun _ : Unit => 0).init keptRun = some s ∧ Safe s := by
  have h_meet : (machine Bool Unit Unit capacityTwo fun _ : Unit => 0).StepsMeet KeepsSlots
      (machine Bool Unit Unit capacityTwo fun _ : Unit => 0).init keptRun := by
    decide +kernel
  obtain ⟨s, h_run⟩ := Option.isSome_iff_exists.mp (show
    ((machine Bool Unit Unit capacityTwo fun _ : Unit => 0).exec
      (machine Bool Unit Unit capacityTwo fun _ : Unit => 0).init keptRun).isSome by
        decide +kernel)
  exact ⟨s, h_run, safe_of_keepsSlots h_meet h_run⟩

/-- Both producers find room in a channel of capacity one, and claim a position;
    the first one writes the slot. -/
def overrunRun : List (Action Bool Unit Unit Unit Nat) :=
  [.inr (false, .trySend 10), .inr (true, .trySend 20)] ++ sends false 1 ++ sends true 1 ++
    sends false 1 ++ sends true 1 ++ sends false 1

/-- The first producer claims position `0`, and the second one sends through
    position `1`; the consumer claims position `0`. -/
def earlyReadRun : List (Action Bool Unit Unit Unit Nat) :=
  [.inr (false, .trySend 10), .inr (true, .trySend 20)] ++ sends false 2 ++ sends true 6 ++
    receives 2

/-- Each run breaks the channel: in the first one a producer is about to
    overwrite a value that has not been delivered, and its value is delivered
    twice in the end; in the second one the consumer is about to read a slot
    that has never been written. -/
theorem runs_break_delivery :
    (∃ s, (machine Bool Unit Unit capacityOne fun _ : Unit => 0).exec
        (machine Bool Unit Unit capacityOne fun _ : Unit => 0).init overrunRun = some s ∧
          ¬ WritesFree s) ∧
      (∃ s, (machine Bool Unit Unit capacityOne fun _ : Unit => 0).exec
        (machine Bool Unit Unit capacityOne fun _ : Unit => 0).init
          (overrunRun ++ sends true 4 ++ sends false 3 ++ receives 5 ++ receives 5) = some s ∧
            s.shared.delivered = [some (1, 20), some (1, 20)]) ∧
      ∃ s, (machine Bool Unit Unit capacityTwo fun _ : Unit => 0).exec
        (machine Bool Unit Unit capacityTwo fun _ : Unit => 0).init earlyReadRun = some s ∧
          ¬ ReadsLive s := by
  refine ⟨?_, ?_, ?_⟩
  · exact Machine.exec_of_decide (by decide +kernel)
  · exact Machine.exec_of_decide (by decide +kernel)
  · exact Machine.exec_of_decide (by decide +kernel)

end Channel
end Zydon
