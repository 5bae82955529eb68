/-
  Zydon.Ipc.SpscRing.Fifo

  The ring delivers its messages in order, over every interleaving of its
  producer and its consumer, and runs of any length.

  The positions are counted without wrapping: `r` messages have been received,
  `a` accepted, and the counters are their residues.  The slots of the
  positions from `r` up to a capacity further on are different; what each of
  them holds is `content`: a message from `r` to `a`, nothing from `a` on, with
  the exception of the slot the consumer is emptying (position `r`) and the one
  the producer is filling (position `a`).
-/

import Zydon.Ipc.SpscRing.Basic

namespace Zydon
namespace SpscRing

open Lib

variable {M : Type*}

-- ============================================================================
-- The invariant
-- ============================================================================

/-- The slot of a message, when the consumer may be emptying it. -/
def RecvPc.first (msg : Option M) : RecvPc M → Slot M
  | .clear _ _ => ⟨1, none⟩
  | .storeTail _ _ => ⟨0, none⟩
  | _ => ⟨1, msg⟩

/-- The slot behind the last message, when the producer may be filling it. -/
def SendPc.last : SendPc M → Slot M
  | .setOccupied _ msg => ⟨0, some msg⟩
  | .storeHead _ msg => ⟨1, some msg⟩
  | _ => ⟨0, none⟩

/-- What the slot of position `n` holds. -/
def content (accepted : List M) (r : Nat) (send : SendPc M) (recv : RecvPc M) (n : Nat) : Slot M :=
  if n < accepted.length then
    if n = r then recv.first accepted[n]? else ⟨1, accepted[n]?⟩
  else if n = accepted.length then send.last
  else ⟨0, none⟩

/-- The local variables of the producer; past its check there is room. -/
def SendInv (r : Ring M) : SendPc M → Prop
  | .idle _ => True
  | .loadTail head _ => head = r.head
  | .write head _ | .setOccupied head _ | .storeHead head _ =>
      head = r.head ∧ r.accepted.length < r.received.length + r.capacity.val.toNat

/-- The local variables of the consumer; past its check there is a message. -/
def RecvInv (r : Ring M) : RecvPc M → Prop
  | .idle _ => True
  | .loadHead tail => tail = r.tail
  | .waitOccupied tail | .take tail => tail = r.tail ∧ r.received.length < r.accepted.length
  | .clear tail msg | .storeTail tail msg =>
      tail = r.tail ∧ r.received.length < r.accepted.length ∧
        msg = r.accepted[r.received.length]?

/-- The invariant of the ring. -/
structure Inv (r : Ring M) (p : SendPc M) (q : RecvPc M) : Prop where
  head_eq : r.head.toNat = r.accepted.length % 2 ^ 64
  tail_eq : r.tail.toNat = r.received.length % 2 ^ 64
  le : r.received.length ≤ r.accepted.length
  fits : r.accepted.length ≤ r.received.length + r.capacity.val.toNat
  fifo : r.received = (r.accepted.take r.received.length).map some
  slots : ∀ n, r.received.length ≤ n → n < r.received.length + r.capacity.val.toNat →
    r.slots (n % r.capacity.val.toNat) = content r.accepted r.received.length p q n
  send : SendInv r p
  recv : RecvInv r q

theorem inv_new (capacity : Capacity) :
    Inv (Ring.new (M := M) capacity) (.idle none) (.idle none) where
  head_eq := rfl
  tail_eq := rfl
  le := le_refl 0
  fits := Nat.zero_le _
  fifo := rfl
  slots := by
    intro n _ _
    show (⟨0, none⟩ : Slot M) = if n < 0 then _ else if n = 0 then ⟨0, none⟩ else ⟨0, none⟩
    rw [if_neg (Nat.not_lt_zero n), ite_self]
  send := trivial
  recv := trivial

/-! ## Counters and slots -/

namespace Capacity

theorem pos (capacity : Capacity) : 0 < capacity.val.toNat := by
  obtain ⟨k, h⟩ := capacity.is_power_of_two
  rw [h]
  exact Nat.two_pow_pos k

theorem dvd (capacity : Capacity) : capacity.val.toNat ∣ 2 ^ 64 := by
  obtain ⟨k, h⟩ := capacity.is_power_of_two
  have h_lt := capacity.val.isLt
  rw [h] at h_lt ⊢
  have h_k : k < 64 := (Nat.pow_lt_pow_iff_right (by decide)).mp h_lt
  exact Nat.pow_dvd_pow 2 (by omega)

/-- A capacity fits a counter with room to spare. -/
theorem le_half (capacity : Capacity) : capacity.val.toNat ≤ 2 ^ 63 := by
  obtain ⟨k, h⟩ := capacity.is_power_of_two
  have h_lt := capacity.val.isLt
  rw [h] at h_lt ⊢
  have h_k : k < 64 := (Nat.pow_lt_pow_iff_right (by decide)).mp h_lt
  exact Nat.pow_le_pow_right (by decide) (by omega)

end Capacity

/-- The slot of a counter is the residue of its position. -/
theorem Ring.idx_eq {r : Ring M} {pos : Usize} {n : Nat} (h : pos.toNat = n % 2 ^ 64) :
    r.idx pos = n % r.capacity.val.toNat := by
  obtain ⟨k, h_k⟩ := r.capacity.is_power_of_two
  have h_one : 1 ≤ r.capacity.val.toNat := r.capacity.pos
  have h_mask : (r.capacity.val - 1).toNat = 2 ^ k - 1 := by
    rw [BitVec.toNat_sub_of_le (by rw [BitVec.le_def]; exact h_one), h_k]
    rfl
  rw [Ring.idx, BitVec.toNat_and, h_mask, Nat.and_two_pow_sub_one_eq_mod, ← h_k, h]
  exact Nat.mod_mod_of_dvd n r.capacity.dvd

/-- A counter moves on to the next position. -/
theorem toNat_succ {pos : Usize} {n : Nat} (h : pos.toNat = n % 2 ^ 64) :
    (pos + 1).toNat = (n + 1) % 2 ^ 64 := by
  rw [BitVec.toNat_add, h]
  show (n % 2 ^ 64 + 1) % 2 ^ 64 = _
  omega

variable {r : Ring M} {p : SendPc M} {q : RecvPc M}

/-- The difference of the counters is the number of messages buffered. -/
theorem Inv.isFull_iff (h : Inv r p q) :
    r.isFull r.head = true ↔
      r.accepted.length = r.received.length + r.capacity.val.toNat := by
  have h_head := h.head_eq
  have h_tail := h.tail_eq
  have h_le := h.le
  have h_fits := h.fits
  have h_half := r.capacity.le_half
  have h_used : (r.head - r.tail).toNat = r.accepted.length - r.received.length := by
    rw [BitVec.toNat_sub, h_head, h_tail]
    omega
  have h_room : (r.capacity.val - (r.head - r.tail)).toNat =
      r.capacity.val.toNat - (r.accepted.length - r.received.length) := by
    rw [BitVec.toNat_sub, h_used]
    omega
  rw [Ring.isFull, beq_iff_eq, ← BitVec.toNat_inj, h_room]
  show _ = 0 ↔ _
  omega

/-- The counters agree only when nothing is buffered. -/
theorem Inv.lt_of_ne (h : Inv r p q) (h_ne : r.tail ≠ r.head) :
    r.received.length < r.accepted.length := by
  have h_le := h.le
  rcases Nat.lt_or_ge r.received.length r.accepted.length with h_lt | h_ge
  · exact h_lt
  · have h_eq : r.received.length = r.accepted.length := by omega
    have h_tail := h.tail_eq
    rw [h_eq, ← h.head_eq] at h_tail
    exact absurd (BitVec.toNat_inj.mp h_tail) h_ne

-- ============================================================================
-- Writes to slots
-- ============================================================================

/-- A write to the slot of position `n` changes what that position holds, and no
    other position of the window. -/
theorem setSlot_slots {pos : Usize} {n m lo : Nat} {f : Slot M → Slot M}
    (h_pos : pos.toNat = n % 2 ^ 64) (h_n : lo ≤ n ∧ n < lo + r.capacity.val.toNat)
    (h_m : lo ≤ m ∧ m < lo + r.capacity.val.toNat) :
    (r.setSlot pos f).slots (m % r.capacity.val.toNat) =
      if m = n then f (r.slots (n % r.capacity.val.toNat))
      else r.slots (m % r.capacity.val.toNat) := by
  show Function.update r.slots (r.idx pos) (f (r.slots (r.idx pos))) _ = _
  rw [Ring.idx_eq h_pos, Function.update_apply]
  by_cases h : m = n
  · rw [h, if_pos rfl, if_pos rfl]
  · rw [if_neg h, if_neg]
    intro h_cell
    exact h (eq_of_mod_eq h_cell (by omega) (by omega))

/-- What the slot of the consumer holds. -/
theorem content_first {n : Nat} (h : n < r.accepted.length) :
    content r.accepted n p q n = q.first r.accepted[n]? := by
  rw [content, if_pos h, if_pos rfl]

/-- What the slot of the producer holds. -/
theorem content_last {n : Nat} : content r.accepted n p q r.accepted.length = p.last := by
  rw [content, if_neg (lt_irrefl _), if_pos rfl]

/-- The producer only sees its own slot. -/
theorem content_send {n m : Nat} {p' : SendPc M} (h : m ≠ r.accepted.length) :
    content r.accepted n p' q m = content r.accepted n p q m := by
  simp only [content, if_neg h]

/-- The consumer only sees its own slot. -/
theorem content_recv {n m : Nat} {q' : RecvPc M} (h : m ≠ n) :
    content r.accepted n p q' m = content r.accepted n p q m := by
  simp only [content, if_neg h]

/-- The producer writes the slot it is filling. -/
theorem Inv.fill (h : Inv r p q) {f : Slot M → Slot M} {p' : SendPc M}
    (h_room : r.accepted.length < r.received.length + r.capacity.val.toNat)
    (h_last : f p.last = p'.last) (h_send : SendInv r p') : Inv (r.setSlot r.head f) p' q where
  head_eq := h.head_eq
  tail_eq := h.tail_eq
  le := h.le
  fits := h.fits
  fifo := h.fifo
  send := by cases p' <;> exact h_send
  recv := by
    have h_recv := h.recv
    cases q <;> exact h_recv
  slots := by
    intro n h_low h_high
    have h_write := setSlot_slots (f := f) h.head_eq ⟨h.le, h_room⟩ ⟨h_low, h_high⟩
    refine h_write.trans ?_
    split
    · next h_n =>
        subst h_n
        rw [h.slots _ h_low h_high, content_last, h_last]
        exact content_last.symm
    · next h_n =>
        rw [h.slots n h_low h_high]
        exact (content_send h_n).symm

/-- The consumer writes the slot it is emptying. -/
theorem Inv.drain (h : Inv r p q) {f : Slot M → Slot M} {q' : RecvPc M}
    (h_lt : r.received.length < r.accepted.length)
    (h_first : f (q.first r.accepted[r.received.length]?) =
      q'.first r.accepted[r.received.length]?)
    (h_recv : RecvInv r q') : Inv (r.setSlot r.tail f) p q' where
  head_eq := h.head_eq
  tail_eq := h.tail_eq
  le := h.le
  fits := h.fits
  fifo := h.fifo
  send := by
    have h_send := h.send
    cases p <;> exact h_send
  recv := by cases q' <;> exact h_recv
  slots := by
    intro n h_low h_high
    have h_pos := r.capacity.pos
    have h_write := setSlot_slots (r := r) (f := f) h.tail_eq ⟨le_refl _, by omega⟩ ⟨h_low, h_high⟩
    refine h_write.trans ?_
    split
    · next h_n =>
        subst h_n
        rw [h.slots _ h_low h_high, content_first h_lt, h_first]
        exact (content_first h_lt).symm
    · next h_n =>
        rw [h.slots n h_low h_high]
        exact (content_recv h_n).symm

/-- The producer moves on and leaves the ring as it is. -/
theorem Inv.setSend (h : Inv r p q) {p' : SendPc M} (h_last : p'.last = p.last)
    (h_send : SendInv r p') : Inv r p' q :=
  { h with
    send := h_send
    slots := by
      intro n h_low h_high
      rw [h.slots n h_low h_high]
      simp only [content, h_last] }

/-- The consumer moves on and leaves the ring as it is. -/
theorem Inv.setRecv (h : Inv r p q) {q' : RecvPc M}
    (h_first : ∀ msg : Option M, q'.first msg = q.first msg) (h_recv : RecvInv r q') :
    Inv r p q' :=
  { h with
    recv := h_recv
    slots := by
      intro n h_low h_high
      rw [h.slots n h_low h_high]
      simp only [content, h_first] }

-- ============================================================================
-- The stores to the counters
-- ============================================================================

/-- A consumer that has seen no message is not emptying a slot. -/
theorem RecvInv.first_eq (h : RecvInv r q) (h_ge : r.accepted.length ≤ r.received.length)
    (msg : Option M) : q.first msg = ⟨1, msg⟩ := by
  cases q with
  | idle result | loadHead tail | waitOccupied tail | take tail => rfl
  | clear tail taken | storeTail tail taken => exact absurd h.2.1 (by omega)

/-- The consumer goes on when a message is accepted. -/
theorem RecvInv.accept (h : RecvInv r q) (msg : M) (head : Usize) :
    RecvInv { r with head := head, accepted := r.accepted ++ [msg] } q := by
  have h_length : (r.accepted ++ [msg]).length = r.accepted.length + 1 := by simp
  cases q with
  | idle result | loadHead tail => exact h
  | waitOccupied tail | take tail =>
      refine ⟨h.1, ?_⟩
      show _ < (r.accepted ++ [msg]).length
      rw [h_length]
      exact Nat.lt_succ_of_lt h.2
  | clear tail taken | storeTail tail taken =>
      refine ⟨h.1, ?_, ?_⟩
      · show _ < (r.accepted ++ [msg]).length
        rw [h_length]
        exact Nat.lt_succ_of_lt h.2.1
      · show taken = (r.accepted ++ [msg])[_]?
        rw [List.getElem?_append_left h.2.1]
        exact h.2.2

/-- The store to `head` accepts the message. -/
theorem Inv.accept {msg : M} (h : Inv r (.storeHead r.head msg) q)
    (result : Option (Except (TrySendError M) Unit)) :
    Inv { r with head := r.head + 1, accepted := r.accepted ++ [msg] } (.idle result) q := by
  have h_le := h.le
  obtain ⟨-, h_room⟩ := h.send
  have h_length : (r.accepted ++ [msg]).length = r.accepted.length + 1 := by simp
  constructor
  case head_eq =>
    show (r.head + 1).toNat = (r.accepted ++ [msg]).length % 2 ^ 64
    rw [h_length]
    exact toNat_succ h.head_eq
  case tail_eq => exact h.tail_eq
  case le =>
    show _ ≤ (r.accepted ++ [msg]).length
    rw [h_length]
    exact Nat.le_succ_of_le h_le
  case fits =>
    show (r.accepted ++ [msg]).length ≤ _
    rw [h_length]
    exact h_room
  case fifo =>
    show r.received = ((r.accepted ++ [msg]).take _).map some
    rw [List.take_append_of_le_length h_le]
    exact h.fifo
  case send => trivial
  case recv => exact h.recv.accept msg _
  case slots =>
    intro n h_low h_high
    refine (h.slots n h_low h_high).trans ?_
    show _ = content (r.accepted ++ [msg]) _ (.idle result) q n
    rcases Nat.lt_trichotomy n r.accepted.length with h_n | h_n | h_n
    · simp only [content, h_length, if_pos h_n, if_pos (Nat.lt_succ_of_lt h_n),
        List.getElem?_append_left h_n]
    · -- the slot that has been filled; the consumer is not emptying one
      subst h_n
      have h_new : (r.accepted ++ [msg])[r.accepted.length]? = some msg := by simp
      rw [content_last, content, h_length, if_pos (Nat.lt_succ_self _), h_new]
      split
      · next h_eq => rw [h.recv.first_eq (le_of_eq h_eq), SendPc.last]
      · rfl
    · have h_not : ¬ n < r.accepted.length + 1 := by omega
      simp only [content, h_length, if_neg (not_lt_of_gt h_n), if_neg h_not,
        if_neg (ne_of_gt h_n), SendPc.last, ite_self]

/-- The producer goes on when a slot is freed. -/
theorem SendInv.release (h : SendInv r p) (msg : Option M) (tail : Usize) :
    SendInv { r with tail := tail, received := r.received ++ [msg] } p := by
  have h_length : (r.received ++ [msg]).length = r.received.length + 1 := by simp
  cases p with
  | idle result => trivial
  | loadTail head msg => exact h
  | write head msg | setOccupied head msg | storeHead head msg =>
      refine ⟨h.1, ?_⟩
      show r.accepted.length < (r.received ++ [_]).length + r.capacity.val.toNat
      have h_room := h.2
      omega

/-- A producer that has no room is not filling a slot. -/
theorem SendInv.last_eq (h : SendInv r p)
    (h_full : r.accepted.length = r.received.length + r.capacity.val.toNat) :
    p.last = ⟨0, none⟩ := by
  cases p with
  | idle result | loadTail head msg | write head msg => rfl
  | setOccupied head msg | storeHead head msg => exact absurd h.2 (by omega)

/-- The store to `tail` frees the slot for the position a capacity further on. -/
theorem Inv.release {msg : Option M} (h : Inv r p (.storeTail r.tail msg))
    (result : Option (Option M)) :
    Inv { r with tail := r.tail + 1, received := r.received ++ [msg] } p (.idle result) := by
  obtain ⟨-, h_lt, h_msg⟩ := h.recv
  have h_fits := h.fits
  have h_pos := r.capacity.pos
  have h_length : (r.received ++ [msg]).length = r.received.length + 1 := by simp
  constructor
  case head_eq => exact h.head_eq
  case tail_eq =>
    show (r.tail + 1).toNat = (r.received ++ [msg]).length % 2 ^ 64
    rw [h_length]
    exact toNat_succ h.tail_eq
  case le =>
    show (r.received ++ [msg]).length ≤ _
    rw [h_length]
    exact h_lt
  case fits =>
    show r.accepted.length ≤ (r.received ++ [msg]).length + r.capacity.val.toNat
    rw [h_length]
    omega
  case fifo =>
    show r.received ++ [msg] = (r.accepted.take (r.received ++ [msg]).length).map some
    have h_next := List.getElem?_eq_getElem h_lt
    rw [h_length, List.take_add_one, h_next, List.map_append, ← h.fifo, h_msg, h_next]
    rfl
  case send => exact h.send.release msg _
  case recv => trivial
  case slots =>
    intro n h_low h_high
    have h_low' : r.received.length + 1 ≤ n := h_length ▸ h_low
    have h_high' : n < r.received.length + 1 + r.capacity.val.toNat := h_length ▸ h_high
    show r.slots (n % r.capacity.val.toNat) =
      content r.accepted (r.received ++ [msg]).length p (.idle result) n
    rw [h_length]
    by_cases h_n : n = r.received.length + r.capacity.val.toNat
    · -- the slot that has been emptied
      have h_cell : n % r.capacity.val.toNat = r.received.length % r.capacity.val.toNat := by
        rw [h_n, Nat.add_mod_right]
      have h_not : ¬ n < r.accepted.length := by omega
      rw [h_cell, h.slots _ (le_refl _) (by omega), content_first h_lt, content, if_neg h_not]
      split
      · next h_eq => rw [h.send.last_eq (h_eq.symm.trans h_n), RecvPc.first]
      · rfl
    · rw [h.slots n (by omega) (by omega), content, content]
      have h_ne : n ≠ r.received.length := by omega
      simp only [if_neg h_ne, RecvPc.first, ite_self]

-- ============================================================================
-- Steps
-- ============================================================================

/-- One step of the producer. -/
theorem Inv.send_step {r' : Ring M} {p' : SendPc M} {a : SendAction M} (h : Inv r p q)
    (h_step : sendStep r p a = some (r', p')) : Inv r' p' q := by
  have h_send := h.send
  cases p with
  | idle result =>
      cases a with
      | trySend msg =>
          cases h_step
          exact h.setSend rfl rfl
      | run => exact absurd h_step (by simp [sendStep])
  | loadTail head msg =>
      cases a with
      | trySend msg => exact absurd h_step (by simp [sendStep])
      | run =>
          obtain rfl : head = r.head := h_send
          simp only [sendStep] at h_step
          split at h_step <;> cases h_step
          · exact h.setSend rfl trivial
          · next h_full =>
              have h_fits := h.fits
              have h_room := mt h.isFull_iff.mpr h_full
              exact h.setSend rfl ⟨rfl, by omega⟩
  | write head msg =>
      cases a with
      | trySend msg => exact absurd h_step (by simp [sendStep])
      | run =>
          obtain ⟨rfl, h_room⟩ := h_send
          cases h_step
          exact h.fill h_room rfl ⟨rfl, h_room⟩
  | setOccupied head msg =>
      cases a with
      | trySend msg => exact absurd h_step (by simp [sendStep])
      | run =>
          obtain ⟨rfl, h_room⟩ := h_send
          cases h_step
          exact h.fill h_room rfl ⟨rfl, h_room⟩
  | storeHead head msg =>
      cases a with
      | trySend msg => exact absurd h_step (by simp [sendStep])
      | run =>
          obtain ⟨rfl, -⟩ := h_send
          cases h_step
          exact h.accept _

/-- The slot the consumer waits for. -/
theorem Inv.slot_tail (h : Inv r p q) (h_lt : r.received.length < r.accepted.length) :
    r.slot r.tail = q.first r.accepted[r.received.length]? := by
  have h_pos := r.capacity.pos
  rw [Ring.slot, Ring.idx_eq h.tail_eq, h.slots _ (le_refl _) (by omega), content_first h_lt]

/-- One step of the consumer. -/
theorem Inv.recv_step {r' : Ring M} {q' : RecvPc M} {a : RecvAction} (h : Inv r p q)
    (h_step : recvStep r q a = some (r', q')) : Inv r' p q' := by
  have h_recv := h.recv
  cases q with
  | idle result =>
      cases a with
      | tryRecv =>
          cases h_step
          exact h.setRecv (fun _ => rfl) rfl
      | run => exact absurd h_step (by simp [recvStep])
  | loadHead tail =>
      cases a with
      | tryRecv => exact absurd h_step (by simp [recvStep])
      | run =>
          obtain rfl : tail = r.tail := h_recv
          simp only [recvStep] at h_step
          split at h_step <;> cases h_step
          · exact h.setRecv (fun _ => rfl) trivial
          · next h_ne => exact h.setRecv (fun _ => rfl) ⟨rfl, h.lt_of_ne h_ne⟩
  | waitOccupied tail =>
      cases a with
      | tryRecv => exact absurd h_step (by simp [recvStep])
      | run =>
          simp only [recvStep] at h_step
          split at h_step <;> cases h_step
          · exact h
          · exact h.setRecv (fun _ => rfl) h_recv
  | take tail =>
      cases a with
      | tryRecv => exact absurd h_step (by simp [recvStep])
      | run =>
          obtain ⟨rfl, h_lt⟩ := h_recv
          cases h_step
          refine h.drain h_lt rfl ⟨rfl, h_lt, ?_⟩
          rw [h.slot_tail h_lt, RecvPc.first]
          all_goals simp
  | clear tail msg =>
      cases a with
      | tryRecv => exact absurd h_step (by simp [recvStep])
      | run =>
          obtain ⟨rfl, h_lt, h_msg⟩ := h_recv
          cases h_step
          exact h.drain h_lt rfl ⟨rfl, h_lt, h_msg⟩
  | storeTail tail msg =>
      cases a with
      | tryRecv => exact absurd h_step (by simp [recvStep])
      | run =>
          obtain ⟨rfl, -⟩ := h_recv
          cases h_step
          exact h.release _

/-- One step of either. -/
theorem Inv.step {capacity : Capacity} {s s' : State M} {a : SendAction M ⊕ RecvAction}
    (h : Inv s.shared s.left s.right) (h_step : (machine M capacity).step s a = some s') :
    Inv s'.shared s'.left s'.right := by
  cases a with
  | inl a =>
      obtain ⟨m, p, h_send, rfl⟩ := Pair.step_left_eq_some h_step
      exact h.send_step h_send
  | inr a =>
      obtain ⟨m, q, h_recv, rfl⟩ := Pair.step_right_eq_some h_step
      exact h.recv_step h_recv

-- ============================================================================
-- Runs
-- ============================================================================

/-- The ring is a first-in-first-out queue:

    * what has been received is the beginning of what has been accepted;
    * a slot that is about to be written holds no message;
    * a `try_send` that fails hands its message back, and as many messages were
      buffered at its load of `tail` as the ring has slots;
    * a `try_recv` that waits for its slot finds it occupied, with a message. -/
structure IsFifo (s : State M) : Prop where
  fifo : s.shared.received <+: s.shared.accepted.map some
  writes_free : ∀ head msg, s.left = .write head msg → (s.shared.slot head).message = none
  full_only : ∀ head msg, s.left = .loadTail head msg → ∀ r error,
    sendStep s.shared s.left .run = some (r, .idle (some (.error error))) →
      error = .full msg ∧ s.shared.accepted.length =
        s.shared.received.length + s.shared.capacity.val.toNat
  never_spins : ∀ tail, s.right = .waitOccupied tail →
    (s.shared.slot tail).occupied = 1 ∧ (s.shared.slot tail).message.isSome

theorem Inv.isFifo (h : Inv r p q) : IsFifo (⟨r, p, q⟩ : State M) where
  fifo := by
    show r.received <+: r.accepted.map some
    rw [h.fifo]
    exact (List.take_prefix _ _).map some
  writes_free := by
    rintro head msg rfl
    obtain ⟨rfl, h_room⟩ := h.send
    show (r.slots (r.idx r.head)).message = none
    rw [Ring.idx_eq h.head_eq, h.slots _ h.le h_room, content_last]
    rfl
  full_only := by
    rintro head msg rfl r' error h_step
    obtain rfl : head = r.head := h.send
    simp only [sendStep] at h_step
    split at h_step <;> cases h_step
    next h_full => exact ⟨rfl, h.isFull_iff.mp h_full⟩
  never_spins := by
    rintro tail rfl
    obtain ⟨rfl, h_lt⟩ := h.recv
    show (r.slot r.tail).occupied = 1 ∧ (r.slot r.tail).message.isSome
    rw [h.slot_tail h_lt, List.getElem?_eq_getElem h_lt]
    exact ⟨rfl, rfl⟩

/-- In every reachable state the ring is a first-in-first-out queue. -/
theorem isFifo_of_reachable {capacity : Capacity} {s : State M}
    (h : (machine M capacity).Reachable s) : IsFifo s := by
  have h_inv : Inv s.shared s.left s.right := by
    apply h.invariant (P := fun s => Inv s.shared s.left s.right) (inv_new capacity)
    exact fun s a s' hs h_step => hs.step h_step
  exact h_inv.isFifo

def capacityOne : Capacity := ⟨1, 0, rfl⟩

def capacityTwo : Capacity := ⟨2, 1, rfl⟩

/-- The consumer waits for the slot of a message, while the producer is about to
    find the ring full. -/
def waitingRun : List (SendAction Nat ⊕ RecvAction) :=
  [.inl (.trySend 10), .inl .run, .inl .run, .inl .run, .inl .run, .inr .tryRecv, .inr .run,
    .inl (.trySend 20)]

theorem isFifo_waitingRun :
    ∃ s, (machine Nat capacityOne).exec (machine Nat capacityOne).init waitingRun = some s ∧
      IsFifo s := by
  obtain ⟨s, h_run⟩ := Option.isSome_iff_exists.mp (show
    ((machine Nat capacityOne).exec (machine Nat capacityOne).init waitingRun).isSome by
      decide +kernel)
  exact ⟨s, h_run, isFifo_of_reachable ⟨waitingRun, h_run⟩⟩

end SpscRing
end Zydon
