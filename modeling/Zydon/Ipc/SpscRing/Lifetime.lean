/-
  Zydon.Ipc.SpscRing.Lifetime

  What becomes of each message that is given to a ring, over every interleaving of its
  producer and its consumer and until the ring is dropped.

  `try_send` gives a message back or puts it into the ring; a message in the ring is
  received or, by the loop of `Drop`, dropped with it.  The slots are freed empty.
-/

import Zydon.Ipc.SpscRing.Fifo
import Zydon.Lib.History

namespace Zydon
namespace SpscRing

open Lib

variable {M : Type*}

-- ============================================================================
-- The drop of a ring
-- ============================================================================

/-- A call of `try_recv` has returned. -/
def RecvPc.isIdle : RecvPc M → Bool
  | .idle _ => true
  | _ => false

namespace Ring

/-- `try_recv` while nobody else uses the ring; `spins` bounds its operations. -/
def tryRecv (spins : Nat) (r : Ring M) : Option (Option M × Ring M) :=
  match recvStep r (.idle none) .tryRecv with
  | some (r, q) =>
      match (consumer M).soloUntil RecvPc.isIdle .run spins r q with
      | some (r, .idle (some msg)) => some (msg, r)
      | _ => none
  | none => none

/-- The loop of `SpscRing::drop`: the messages that it drops, in order, and the ring
    whose slots are then freed.  `rounds` bounds its rounds. -/
def drain (spins : Nat) : Nat → Ring M → Option (List M × Ring M)
  | 0, _ => none
  | rounds + 1, r =>
      match r.tryRecv spins with
      | some (some msg, r) =>
          match drain spins rounds r with
          | some (msgs, r) => some (msg :: msgs, r)
          | none => none
      | some (none, r) => some ([], r)
      | none => none

end Ring

-- ============================================================================
-- The messages of a run
-- ============================================================================

/-- The messages that `try_send` has been called with, and those it has given back. -/
structure Offers (M : Type*) where
  offered : List M
  refused : List M

/-- The producer's calls and its failures are recorded. -/
def noteOffer (_ : State M) (a : SendAction M ⊕ RecvAction) (s' : State M) (o : Offers M) :
    Offers M :=
  match a with
  | .inl (.trySend msg) => { o with offered := o.offered ++ [msg] }
  | .inl .run =>
      match s'.left with
      | .idle (some (.error (.full msg))) => { o with refused := o.refused ++ [msg] }
      | _ => o
  | .inr _ => o

/-- The ring with the record of its producer. -/
def offeredMachine (M : Type*) (capacity : Capacity) :
    Machine (Recorded (State M) (Offers M)) (SendAction M ⊕ RecvAction) :=
  (machine M capacity).recorded noteOffer ⟨[], []⟩

/-- The message that `try_send` has in hand. -/
def SendPc.inHand : SendPc M → List M
  | .idle _ => []
  | .loadTail _ msg | .write _ msg | .setOccupied _ msg | .storeHead _ msg => [msg]

/-- Where the messages are. -/
structure KeepsMessages (s : Recorded (State M) (Offers M)) : Prop where
  /-- Each is given back, in the ring or out of it, or in the hand of the producer:
      one of the three, once. -/
  once : s.record.offered.Perm
    (s.record.refused ++ s.state.shared.accepted ++ s.state.left.inHand)
  /-- They go into the ring in the order in which they are offered. -/
  inOrder : (s.state.shared.accepted ++ s.state.left.inHand).Sublist s.record.offered
  /-- When the ring is dropped, those that have not been received are dropped, once and
      in order, and the slots are empty. -/
  dropped : s.state.left.inHand = [] → s.state.right.isIdle →
    ∃ received rest, s.state.shared.received = received.map some ∧
      s.state.shared.accepted = received ++ rest ∧
      ∀ spins rounds, 5 ≤ spins → rest.length < rounds →
        ∃ r, s.state.shared.drain spins rounds = some (rest, r) ∧
          ∀ i < r.capacity.val.toNat, r.slots i = ⟨0, none⟩

-- ============================================================================
-- `try_recv` alone
-- ============================================================================

variable {r : Ring M} {p : SendPc M} {q : RecvPc M} {spins rounds : Nat}

/-- The counters agree when everything has been received. -/
theorem Inv.tail_eq_head_iff (h : Inv r p q) :
    r.tail = r.head ↔ r.received.length = r.accepted.length := by
  constructor
  · intro h_eq
    have h_half := r.capacity.le_half
    have h_head := h.head_eq
    have h_tail := h.tail_eq
    have h_le := h.le
    have h_fits := h.fits
    rw [h_eq, h_head] at h_tail
    omega
  · intro h_eq
    by_contra h_ne
    have h_lt := h.lt_of_ne h_ne
    omega

/-- The ring is empty. -/
theorem Inv.tryRecv_empty (h : Inv r p q) (h_eq : r.received.length = r.accepted.length)
    (h_spins : 1 ≤ spins) : r.tryRecv spins = some (none, r) := by
  have h_solo : (consumer M).Solo RecvPc.isIdle .run 1 r (.loadHead r.tail) r
      (.idle (some none)) := by
    refine .step rfl ?_ (.refl _ _)
    show recvStep r (.loadHead r.tail) .run = _
    rw [recvStep, if_pos (h.tail_eq_head_iff.mpr h_eq)]
  simp only [Ring.tryRecv, recvStep, h_solo.soloUntil rfl h_spins]

/-- The first message is received. -/
theorem Inv.tryRecv_next {result : Option (Option M)} (h : Inv r p (.idle result))
    (h_lt : r.received.length < r.accepted.length) (h_spins : 5 ≤ spins) :
    ∃ r' msg, r.accepted[r.received.length]? = some msg ∧
      r.tryRecv spins = some (some msg, r') ∧ Inv r' p (.idle (some (some msg))) ∧
      r'.accepted = r.accepted ∧ r'.received.length = r.received.length + 1 := by
  obtain ⟨msg, h_msg⟩ : ∃ msg, r.accepted[r.received.length]? = some msg :=
    ⟨_, List.getElem?_eq_getElem h_lt⟩
  have h_tail : r.tail ≠ r.head := fun h_eq => by
    have h_all := h.tail_eq_head_iff.mp h_eq
    omega
  have h_slot : r.slot r.tail = ⟨1, some msg⟩ := by
    rw [h.slot_tail h_lt, h_msg]
    rfl
  obtain ⟨r₁, h_r₁⟩ : ∃ r₁, r₁ = r.setSlot r.tail fun x => { x with message := none } := ⟨_, rfl⟩
  obtain ⟨r₂, h_r₂⟩ : ∃ r₂, r₂ = r₁.setSlot r.tail fun x => { x with occupied := 0 } := ⟨_, rfl⟩
  have h_load : recvStep r (.loadHead r.tail) .run = some (r, .waitOccupied r.tail) := by
    rw [recvStep, if_neg h_tail]
  have h_wait : recvStep r (.waitOccupied r.tail) .run = some (r, .take r.tail) := by
    rw [recvStep, h_slot]
    rfl
  have h_take : recvStep r (.take r.tail) .run = some (r₁, .clear r.tail (some msg)) := by
    rw [recvStep, h_slot, h_r₁]
  have h_clear : recvStep r₁ (.clear r.tail (some msg)) .run =
      some (r₂, .storeTail r.tail (some msg)) := by
    rw [recvStep, h_r₂]
  have h_store : recvStep r₂ (.storeTail r.tail (some msg)) .run =
      some ({ r₂ with tail := r.tail + 1, received := r₂.received ++ [some msg] },
        .idle (some (some msg))) := rfl
  have h_solo : (consumer M).Solo RecvPc.isIdle .run 5 r (.loadHead r.tail) _
      (.idle (some (some msg))) :=
    .step rfl h_load (.step rfl h_wait (.step rfl h_take (.step rfl h_clear
      (.step rfl h_store (.refl _ _)))))
  have h_start : Inv r p (.loadHead r.tail) := h.recv_step (a := .tryRecv) rfl
  refine ⟨_, msg, h_msg, ?_, ((((h_start.recv_step h_load).recv_step h_wait).recv_step
    h_take).recv_step h_clear).recv_step h_store, ?_, ?_⟩
  · simp only [Ring.tryRecv, recvStep, h_solo.soloUntil rfl h_spins]
  · rw [h_r₂, h_r₁]
    rfl
  · rw [h_r₂, h_r₁, List.length_append]
    rfl

-- ============================================================================
-- The loop of the drop
-- ============================================================================

/-- A ring out of which everything has come has empty slots. -/
theorem Inv.slots_empty {result : Option (Option M)} (h : Inv r p (.idle result))
    (h_p : p.inHand = []) (h_all : r.accepted.length = r.received.length) :
    ∀ i < r.capacity.val.toNat, r.slots i = ⟨0, none⟩ := by
  intro i h_i
  obtain ⟨n, h_ge, h_near, rfl⟩ := exists_mod_eq h_i r.received.length
  rw [h.slots n h_ge h_near, content, if_neg (by omega)]
  split
  · cases p with
    | idle _ => rfl
    | loadTail | write | setOccupied | storeHead => exact absurd h_p (by simp [SendPc.inHand])
  · rfl

/-- The loop drops what is left, in order, and comes to its end. -/
theorem Inv.drain_eq {result : Option (Option M)} {received rest : List M}
    (h : Inv r p (.idle result)) (h_p : p.inHand = [])
    (h_received : r.received = received.map some) (h_rest : r.accepted = received ++ rest)
    (h_spins : 5 ≤ spins) (h_rounds : rest.length < rounds) :
    ∃ r', r.drain spins rounds = some (rest, r') ∧
      ∀ i < r'.capacity.val.toNat, r'.slots i = ⟨0, none⟩ := by
  have h_length : r.received.length = received.length := by rw [h_received, List.length_map]
  induction rest generalizing r received result rounds with
  | nil =>
      obtain ⟨rounds, rfl⟩ := Nat.exists_eq_add_of_le' h_rounds
      have h_all : r.accepted.length = r.received.length := by
        rw [h_rest, List.append_nil, h_length]
      refine ⟨r, ?_, h.slots_empty h_p h_all⟩
      simp only [Ring.drain, h.tryRecv_empty h_all.symm (Nat.le_trans (by decide) h_spins)]
  | cons x rest ih =>
      obtain ⟨rounds, rfl⟩ := Nat.exists_eq_add_of_le' (Nat.le_trans (Nat.succ_le_succ
        (Nat.zero_le _)) h_rounds)
      have h_lt : r.received.length < r.accepted.length := by
        rw [h_rest, h_length, List.length_append, List.length_cons]
        omega
      obtain ⟨r₁, msg, h_msg, h_recv, h_inv, h_accepted, h_count⟩ := h.tryRecv_next h_lt h_spins
      -- the first message that is left
      obtain rfl : x = msg := by
        rw [h_rest, h_length, List.getElem?_append_right (Nat.le_refl _), Nat.sub_self] at h_msg
        exact Option.some.inj h_msg
      have h_received₁ : r₁.received = (received ++ [x]).map some := by
        rw [h_inv.fifo, h_count, h_accepted, h_rest, h_length, List.append_cons,
          List.take_left' (by simp)]
      obtain ⟨r', h_drain, h_slots⟩ := ih h_inv h_received₁ (by rw [h_accepted, h_rest]; simp)
        (Nat.lt_of_succ_lt_succ h_rounds) (by rw [h_received₁, List.length_map])
      refine ⟨r', ?_, h_slots⟩
      simp only [Ring.drain, h_recv, h_drain]

-- ============================================================================
-- Runs
-- ============================================================================

/-- The invariant of a ring with its record. -/
structure OfferInv (s : State M) (o : Offers M) : Prop where
  inv : Inv s.shared s.left s.right
  once : o.offered.Perm (o.refused ++ s.shared.accepted ++ s.left.inHand)
  inOrder : (s.shared.accepted ++ s.left.inHand).Sublist o.offered

theorem offerInv_init (capacity : Capacity) :
    OfferInv (machine M capacity).init (⟨[], []⟩ : Offers M) where
  inv := inv_new capacity
  once := List.Perm.refl _
  inOrder := List.Sublist.refl _

/-- What an operation of the producer does to the messages. -/
inductive SendEffect (r : Ring M) (p : SendPc M) (r' : Ring M) :
    SendAction M → SendPc M → Prop
  | offered (msg : M) (p' : SendPc M) : p.inHand = [] → p'.inHand = [msg] →
      r'.accepted = r.accepted → SendEffect r p r' (.trySend msg) p'
  | refused (msg : M) : p.inHand = [msg] → r'.accepted = r.accepted →
      SendEffect r p r' .run (.idle (some (.error (.full msg))))
  | accepted (msg : M) : p.inHand = [msg] → r'.accepted = r.accepted ++ [msg] →
      SendEffect r p r' .run (.idle (some (.ok ())))
  | other (p' : SendPc M) : p'.inHand = p.inHand → (∀ result, p' ≠ .idle result) →
      r'.accepted = r.accepted → SendEffect r p r' .run p'

theorem sendStep_effect {r' : Ring M} {p' : SendPc M} {a : SendAction M}
    (h : sendStep r p a = some (r', p')) : SendEffect r p r' a p' := by
  cases p <;> cases a <;> simp only [sendStep, reduceCtorEq, Option.some.injEq] at h
  case idle.trySend result msg =>
    cases h
    exact .offered msg _ rfl rfl rfl
  case loadTail.run head msg =>
    split at h <;> cases h
    · exact .refused msg rfl rfl
    · exact .other _ rfl (by simp) rfl
  case write.run head msg | setOccupied.run head msg =>
    cases h
    exact .other _ rfl (by simp) rfl
  case storeHead.run head msg =>
    cases h
    exact .accepted msg rfl rfl

theorem recvStep_accepted {r' : Ring M} {q' : RecvPc M} {a : RecvAction}
    (h : recvStep r q a = some (r', q')) : r'.accepted = r.accepted := by
  cases q <;> cases a <;> simp only [recvStep, reduceCtorEq, Option.some.injEq] at h
  case loadHead.run | waitOccupied.run => split at h <;> cases h <;> rfl
  all_goals
    cases h
    rfl

/-- An operation of the producer. -/
theorem OfferInv.send {r' : Ring M} {p' : SendPc M} {a : SendAction M} {o : Offers M} {s : State M}
    (h : OfferInv s o) (h_step : sendStep s.shared s.left a = some (r', p')) :
    OfferInv ⟨r', p', s.right⟩ (noteOffer s (.inl a) ⟨r', p', s.right⟩ o) := by
  have h_inv : Inv r' p' s.right := h.inv.send_step h_step
  have h_once := h.once
  have h_order := h.inOrder
  cases sendStep_effect h_step with
  | offered msg p' h_none h_hand h_accepted =>
      rw [h_none, List.append_nil] at h_once h_order
      refine ⟨h_inv, ?_, ?_⟩
      · show (o.offered ++ [msg]).Perm (o.refused ++ r'.accepted ++ p'.inHand)
        rw [h_accepted, h_hand]
        exact h_once.append_right [msg]
      · show (r'.accepted ++ p'.inHand).Sublist (o.offered ++ [msg])
        rw [h_accepted, h_hand]
        exact h_order.append_right [msg]
  | refused msg h_hand h_accepted =>
      rw [h_hand] at h_once h_order
      refine ⟨h_inv, ?_, ?_⟩
      · show o.offered.Perm (o.refused ++ [msg] ++ r'.accepted ++ [])
        rw [h_accepted, List.append_nil, List.append_assoc]
        rw [List.append_assoc] at h_once
        exact h_once.trans (List.perm_append_comm.append_left o.refused)
      · show (r'.accepted ++ []).Sublist o.offered
        rw [h_accepted, List.append_nil]
        exact (List.sublist_append_left _ _).trans h_order
  | accepted msg h_hand h_accepted =>
      rw [h_hand] at h_once h_order
      refine ⟨h_inv, ?_, ?_⟩
      · show o.offered.Perm (o.refused ++ r'.accepted ++ [])
        rw [h_accepted, List.append_nil, ← List.append_assoc]
        exact h_once
      · show (r'.accepted ++ []).Sublist o.offered
        rw [h_accepted, List.append_nil]
        exact h_order
  | other p' h_hand h_idle h_accepted =>
      have h_note : noteOffer s (.inl .run) ⟨r', p', s.right⟩ o = o := by
        cases p' with
        | idle result => exact absurd rfl (h_idle result)
        | loadTail | write | setOccupied | storeHead => rfl
      rw [h_note]
      refine ⟨h_inv, ?_, ?_⟩
      · rw [h_accepted, h_hand]
        exact h_once
      · rw [h_accepted, h_hand]
        exact h_order

theorem offerInv_of_reachable {capacity : Capacity} {s : Recorded (State M) (Offers M)}
    (h : (offeredMachine M capacity).Reachable s) : OfferInv s.state s.record := by
  refine h.invariant (P := fun s => OfferInv s.state s.record) (offerInv_init capacity) ?_
  rintro s a s' hs h_step
  obtain ⟨h_machine, h_record⟩ := Machine.recorded_step_eq_some.mp h_step
  rw [h_record]
  cases a with
  | inl a =>
      obtain ⟨m, p, h_send, h_state⟩ := Pair.step_left_eq_some h_machine
      rw [h_state]
      exact hs.send h_send
  | inr a =>
      have h_inv := hs.inv.step h_machine
      obtain ⟨m, q, h_recv, h_state⟩ := Pair.step_right_eq_some h_machine
      rw [h_state] at h_inv ⊢
      have h_accepted := recvStep_accepted h_recv
      refine ⟨h_inv, ?_, ?_⟩
      · show s.record.offered.Perm (s.record.refused ++ m.accepted ++ s.state.left.inHand)
        rw [h_accepted]
        exact hs.once
      · show (m.accepted ++ s.state.left.inHand).Sublist s.record.offered
        rw [h_accepted]
        exact hs.inOrder

/-- For every capacity, with any number of messages left over. -/
theorem keepsMessages_of_reachable {capacity : Capacity} {s : Recorded (State M) (Offers M)}
    (h : (offeredMachine M capacity).Reachable s) : KeepsMessages s := by
  have hs := offerInv_of_reachable h
  refine ⟨hs.once, hs.inOrder, fun h_left h_right => ?_⟩
  obtain ⟨⟨r, p, q⟩, o⟩ := s
  cases q with
  | idle result =>
      have h_inv : Inv r p (.idle result) := hs.inv
      refine ⟨r.accepted.take r.received.length, r.accepted.drop r.received.length, h_inv.fifo,
        (List.take_append_drop _ _).symm, fun spins rounds h_spins h_rounds => ?_⟩
      exact h_inv.drain_eq h_left h_inv.fifo (List.take_append_drop _ _).symm h_spins h_rounds
  | loadHead | waitOccupied | take | clear | storeTail =>
      exact absurd h_right (by simp [RecvPc.isIdle])

/-- Of three messages the last is given back, and one of the others is received. -/
def threeOffered : List (SendAction Nat ⊕ RecvAction) :=
  .inl (.trySend 10) :: List.replicate 4 (.inl .run) ++
    .inl (.trySend 20) :: List.replicate 4 (.inl .run) ++
    [.inl (.trySend 30), .inr .tryRecv, .inl .run] ++ List.replicate 5 (.inr .run)

theorem keepsMessages_threeOffered :
    ∃ s, (offeredMachine Nat capacityTwo).exec (offeredMachine Nat capacityTwo).init threeOffered
        = some s ∧
      (s.record.refused = [30] ∧ s.state.shared.received = [some 10] ∧
        (s.state.shared.drain 5 2).map Prod.fst = some [20]) ∧ KeepsMessages s := by
  have h_replay : ((offeredMachine Nat capacityTwo).exec (offeredMachine Nat capacityTwo).init
      threeOffered).any (fun s => decide (s.record.refused = [30] ∧
        s.state.shared.received = [some 10] ∧
        (s.state.shared.drain 5 2).map Prod.fst = some [20])) = true := by
    decide +kernel
  obtain ⟨s, h_run, h_values⟩ := Machine.exec_of_decide h_replay
  exact ⟨s, h_run, h_values, keepsMessages_of_reachable ⟨_, h_run⟩⟩

end SpscRing
end Zydon
