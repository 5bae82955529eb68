/-
  Zydon.Ipc.SpscRing.Length

  An observer of the ring: a third core that calls `len` and `is_empty` while the
  producer and the consumer go on.

  `len` loads `head`, and `tail` in a second step.  The counters are of different
  moments, and the consumer may by then have received what was sent in between.
  While it has not (`NotOvertaken`), the difference is the number of messages sent
  by the first load that were still to be received at the second.
-/

import Zydon.Ipc.SpscRing.Fifo

namespace Zydon
namespace SpscRing

open Lib

variable {M : Type*}

-- ============================================================================
-- The observer
-- ============================================================================

/-- The calls of the observer. -/
inductive Query where
  | len
  | isEmpty
  deriving DecidableEq, Repr

/-- What a call returns. -/
inductive Reply where
  | len (value : Usize)
  | isEmpty (empty : Bool)
  deriving DecidableEq

/-- `len`, and `is_empty`, from the two counters they load. -/
def Query.reply (head tail : Usize) : Query → Reply
  | .len => .len (head - tail)
  | .isEmpty => .isEmpty (head - tail == 0)

/-- The reply of a call, with the numbers of messages sent at its load of `head`
    and received at its load of `tail`. -/
structure Observation where
  reply : Reply
  sent : Nat
  received : Nat
  deriving DecidableEq

/-- Where the observer is: outside the ring, with its last call, or in a call,
    with the messages that had been sent at its load of `head`. -/
inductive ObserverPc where
  | idle (last : Option Observation)
  /-- The load of `tail`. -/
  | loadTail (query : Query) (head : Usize) (sent : Nat)
  deriving DecidableEq

/-- The labels of the observer: the start of a call with its first load, and the
    second load. -/
inductive ObserverAction where
  | call (query : Query)
  | run
  deriving DecidableEq

/-- `SpscRing::len` and `SpscRing::is_empty`. -/
def observerStep (s : State M) : ObserverPc → ObserverAction → Option (State M × ObserverPc)
  | .idle _, .call query =>
      some (s, .loadTail query s.shared.head s.shared.accepted.length)
  | .loadTail query head sent, .run =>
      some (s, .idle (some
        { reply := query.reply head s.shared.tail
          sent := sent
          received := s.shared.received.length }))
  | _, _ => none

/-- The observer. -/
def observer (M : Type*) : ThreadProgram (State M) ObserverPc ObserverAction where
  start := .idle none
  step := observerStep

/-- The ring with its producer, its consumer and an observer, interleaved. -/
def observed (M : Type*) (capacity : Capacity) :
    Machine (Beside (State M) ObserverPc) ((SendAction M ⊕ RecvAction) ⊕ ObserverAction) :=
  (machine M capacity).beside (observer M)

/-- The reply is right: a length is at most the capacity and the exact difference
    of the two numbers, and a ring is empty when all that had been sent has been
    received. -/
def Observation.Possible (capacity : Capacity) (o : Observation) : Prop :=
  match o.reply with
  | .len value =>
      value.toNat ≤ capacity.val.toNat ∧ (value.toNat : Int) = (o.sent : Int) - o.received
  | .isEmpty empty => empty = true ↔ o.sent ≤ o.received

/-- The last call of the observer has replied something right. -/
def RepliesPossible (capacity : Capacity) (s : Beside (State M) ObserverPc) : Prop :=
  ∀ o, s.thread = .idle (some o) → o.Possible capacity

/-- When the observer loads `tail`, no message has been received that was sent
    after it loaded `head`. -/
def NotOvertaken (s : Beside (State M) ObserverPc) :
    (SendAction M ⊕ RecvAction) ⊕ ObserverAction → Prop
  | .inr .run =>
      match s.thread with
      | .loadTail _ _ sent => s.machine.shared.received.length ≤ sent
      | .idle _ => True
  | _ => True

-- ============================================================================
-- The invariant
-- ============================================================================

/-- The local variables of the observer. -/
def ObserverInv (capacity : Capacity) (r : Ring M) : ObserverPc → Prop
  | .idle last => ∀ o, last = some o → o.Possible capacity
  | .loadTail _ head sent => head.toNat = sent % 2 ^ 64 ∧ sent ≤ r.accepted.length

/-- The invariant of the ring, and of the observer. -/
structure ObservedInv (capacity : Capacity) (s : Beside (State M) ObserverPc) : Prop where
  ring : Inv s.machine.shared s.machine.left s.machine.right
  capacity_eq : s.machine.shared.capacity = capacity
  observer : ObserverInv capacity s.machine.shared s.thread

variable {capacity : Capacity} {s s' : Beside (State M) ObserverPc}

/-- Counters of which the consumer's has not overtaken the producer's differ by
    what lies between them. -/
theorem possible_of_le {r : Ring M} {p : SendPc M} {q : RecvPc M} {head : Usize} {sent : Nat}
    (h : Inv r p q) (h_head : head.toNat = sent % 2 ^ 64) (h_sent : sent ≤ r.accepted.length)
    (h_le : r.received.length ≤ sent) (query : Query) :
    Observation.Possible r.capacity
      { reply := query.reply head r.tail, sent := sent, received := r.received.length } := by
  have h_tail := h.tail_eq
  have h_fits := h.fits
  have h_half := r.capacity.le_half
  have h_diff : (head - r.tail).toNat = sent - r.received.length := by
    rw [BitVec.toNat_sub, h_head, h_tail]
    omega
  cases query with
  | len =>
      show (head - r.tail).toNat ≤ r.capacity.val.toNat ∧
        ((head - r.tail).toNat : Int) = (sent : Int) - r.received.length
      rw [h_diff]
      omega
  | isEmpty =>
      show (head - r.tail == 0) = true ↔ sent ≤ r.received.length
      rw [beq_iff_eq, ← BitVec.toNat_inj, h_diff]
      show sent - r.received.length = 0 ↔ _
      omega

/-- The producer leaves the capacity as it is, and takes no message back. -/
theorem sendStep_frame {r r' : Ring M} {p p' : SendPc M} {a : SendAction M}
    (h : sendStep r p a = some (r', p')) :
    r'.capacity = r.capacity ∧ r.accepted.length ≤ r'.accepted.length := by
  cases a with
  | trySend msg =>
      cases p with
      | idle result =>
          cases h
          exact ⟨rfl, le_refl _⟩
      | loadTail | write | setOccupied | storeHead => exact nomatch h
  | run =>
      cases p with
      | idle result => exact nomatch h
      | loadTail head msg =>
          simp only [sendStep] at h
          split at h <;> cases h <;> exact ⟨rfl, le_refl _⟩
      | write head msg | setOccupied head msg =>
          cases h
          exact ⟨rfl, le_refl _⟩
      | storeHead head msg =>
          cases h
          exact ⟨rfl, by simp⟩

/-- The consumer leaves the capacity and what has been accepted as they are. -/
theorem recvStep_frame {r r' : Ring M} {q q' : RecvPc M} {a : RecvAction}
    (h : recvStep r q a = some (r', q')) :
    r'.capacity = r.capacity ∧ r.accepted.length ≤ r'.accepted.length := by
  cases a with
  | tryRecv =>
      cases q with
      | idle result =>
          cases h
          exact ⟨rfl, le_refl _⟩
      | loadHead | waitOccupied | take | clear | storeTail => exact nomatch h
  | run =>
      cases q with
      | idle result => exact nomatch h
      | loadHead tail | waitOccupied tail =>
          simp only [recvStep] at h
          split at h <;> cases h <;> exact ⟨rfl, le_refl _⟩
      | take tail | clear tail msg | storeTail tail msg =>
          cases h
          exact ⟨rfl, le_refl _⟩

theorem observedInv_init : ObservedInv capacity (observed M capacity).init where
  ring := inv_new capacity
  capacity_eq := rfl
  observer := fun _ h => nomatch h

/-- A step of the producer or the consumer. -/
theorem ObservedInv.step_machine {m : State M} {a : SendAction M ⊕ RecvAction}
    (hs : ObservedInv capacity s) (h_step : (machine M capacity).step s.machine a = some m) :
    ObservedInv capacity { s with machine := m } := by
  obtain ⟨h_capacity, h_accepted⟩ : m.shared.capacity = s.machine.shared.capacity ∧
      s.machine.shared.accepted.length ≤ m.shared.accepted.length := by
    cases a with
    | inl a =>
        obtain ⟨r, p, h_send, rfl⟩ := Pair.step_left_eq_some h_step
        exact sendStep_frame h_send
    | inr a =>
        obtain ⟨r, q, h_recv, rfl⟩ := Pair.step_right_eq_some h_step
        exact recvStep_frame h_recv
  refine ⟨hs.ring.step h_step, h_capacity.trans hs.capacity_eq, ?_⟩
  have h_observer := hs.observer
  show ObserverInv capacity m.shared s.thread
  cases h_pc : s.thread with
  | idle last =>
      rw [h_pc] at h_observer
      exact h_observer
  | loadTail query head sent =>
      rw [h_pc] at h_observer
      exact ⟨h_observer.1, h_observer.2.trans h_accepted⟩

/-- A step of the observer. -/
theorem ObservedInv.step_observer {m : State M} {p : ObserverPc} {a : ObserverAction}
    (hs : ObservedInv capacity s) (h_ok : NotOvertaken s (.inr a))
    (h_step : observerStep s.machine s.thread a = some (m, p)) :
    ObservedInv capacity { machine := m, thread := p } := by
  obtain ⟨machine, thread⟩ := s
  have h_observer := hs.observer
  cases a with
  | call query =>
      cases thread with
      | idle last =>
          cases h_step
          exact ⟨hs.ring, hs.capacity_eq, hs.ring.head_eq, le_refl _⟩
      | loadTail query' head sent => exact nomatch h_step
  | run =>
      cases thread with
      | idle last => exact nomatch h_step
      | loadTail query head sent =>
          cases h_step
          refine ⟨hs.ring, hs.capacity_eq, ?_⟩
          rintro o ⟨rfl⟩
          rw [← hs.capacity_eq]
          exact possible_of_le hs.ring h_observer.1 h_observer.2 h_ok query

/-- In every run in which the consumer does not overtake the observer's load of
    `head`, each reply is a possible one. -/
theorem repliesPossible_of_notOvertaken
    {tr : List ((SendAction M ⊕ RecvAction) ⊕ ObserverAction)}
    (h_run : (observed M capacity).exec (observed M capacity).init tr = some s)
    (h_meet : (observed M capacity).StepsMeet NotOvertaken (observed M capacity).init tr) :
    RepliesPossible capacity s := by
  have h_inv : ObservedInv capacity s := by
    refine Machine.exec_invariant ?_ observedInv_init h_meet h_run
    intro s a s' hs h_ok h_step
    cases a with
    | inl a =>
        obtain ⟨m, h_machine, rfl⟩ := Beside.step_machine_eq_some h_step
        exact hs.step_machine h_machine
    | inr a =>
        obtain ⟨m, p, h_observer, rfl⟩ := Beside.step_thread_eq_some h_step
        exact hs.step_observer h_ok h_observer
  intro o h_idle
  have h_observer := h_inv.observer
  rw [h_idle] at h_observer
  exact h_observer o rfl

instance (s : Beside (State M) ObserverPc) (a : (SendAction M ⊕ RecvAction) ⊕ ObserverAction) :
    Decidable (NotOvertaken s a) :=
  match s, a with
  | ⟨_, .loadTail _ _ _⟩, .inr .run => inferInstanceAs (Decidable (_ ≤ _))
  | ⟨_, .idle _⟩, .inr .run => .isTrue trivial
  | _, .inl _ => .isTrue trivial
  | _, .inr (.call _) => .isTrue trivial

/-- A complete `try_send` and a complete `try_recv`. -/
def passOne : List ((SendAction Nat ⊕ RecvAction) ⊕ ObserverAction) :=
  [.inl (.inl (.trySend 10)), .inl (.inl .run), .inl (.inl .run), .inl (.inl .run),
    .inl (.inl .run), .inl (.inr .tryRecv), .inl (.inr .run), .inl (.inr .run), .inl (.inr .run),
    .inl (.inr .run), .inl (.inr .run)]

/-- A complete `try_send`. -/
def sendAlone (msg : Nat) : List ((SendAction Nat ⊕ RecvAction) ⊕ ObserverAction) :=
  .inl (.inl (.trySend msg)) :: List.replicate 4 (.inl (.inl .run))

/-- A complete `try_recv`. -/
def recvAlone : List ((SendAction Nat ⊕ RecvAction) ⊕ ObserverAction) :=
  .inl (.inr .tryRecv) :: List.replicate 5 (.inl (.inr .run))

/-- Between the two loads of `len` on a full ring a message is received, and another one
    is sent. -/
def passWhileFull : List ((SendAction Nat ⊕ RecvAction) ⊕ ObserverAction) :=
  sendAlone 10 ++ sendAlone 20 ++ [.inr (.call .len)] ++ recvAlone ++ sendAlone 30 ++ [.inr .run]

theorem repliesPossible_passWhileFull :
    ∃ s, (observed Nat capacityTwo).exec (observed Nat capacityTwo).init passWhileFull = some s ∧
      s.thread = .idle (some ⟨.len 1, 2, 1⟩) ∧ RepliesPossible capacityTwo s := by
  have h_replay : ((observed Nat capacityTwo).exec (observed Nat capacityTwo).init
      passWhileFull).any (fun s => decide (s.thread = .idle (some ⟨.len 1, 2, 1⟩))) = true := by
    decide +kernel
  obtain ⟨s, h_run, h_last⟩ := Machine.exec_of_decide h_replay
  exact ⟨s, h_run, h_last, repliesPossible_of_notOvertaken h_run (by decide +kernel)⟩

/-- A message is sent and received between the two loads: `len` returns
    `2 ^ 64 - 1`, and `is_empty` says of the empty ring that it is not. -/
theorem passOne_overtakes :
    (∃ s, (observed Nat capacityOne).exec (observed Nat capacityOne).init
        ([.inr (.call .len)] ++ passOne ++ [.inr .run]) = some s ∧
      s.thread = .idle (some ⟨.len (-1), 0, 1⟩) ∧ ¬ RepliesPossible capacityOne s) ∧
    ∃ s, (observed Nat capacityOne).exec (observed Nat capacityOne).init
        ([.inr (.call .isEmpty)] ++ passOne ++ [.inr .run]) = some s ∧
      s.thread = .idle (some ⟨.isEmpty false, 0, 1⟩) ∧
      s.machine.shared.head = s.machine.shared.tail ∧ ¬ RepliesPossible capacityOne s := by
  constructor
  · obtain ⟨s, h_run, h_last⟩ : ∃ s, (observed Nat capacityOne).exec
        (observed Nat capacityOne).init ([.inr (.call .len)] ++ passOne ++ [.inr .run]) = some s ∧
          s.thread = .idle (some ⟨.len (-1), 0, 1⟩) :=
      Machine.exec_of_decide (by decide +kernel)
    refine ⟨s, h_run, h_last, fun h_possible => ?_⟩
    exact absurd (h_possible _ h_last).1 (by decide)
  · obtain ⟨s, h_run, h_last, h_empty⟩ : ∃ s, (observed Nat capacityOne).exec
        (observed Nat capacityOne).init ([.inr (.call .isEmpty)] ++ passOne ++ [.inr .run]) =
          some s ∧ s.thread = .idle (some ⟨.isEmpty false, 0, 1⟩) ∧
            s.machine.shared.head = s.machine.shared.tail :=
      Machine.exec_of_decide (by decide +kernel)
    refine ⟨s, h_run, h_last, h_empty, fun h_possible => ?_⟩
    exact absurd ((h_possible _ h_last).mpr (Nat.zero_le 1)) (by simp)

end SpscRing
end Zydon
