/-
  Zydon.Primitives.Channel.Slots

  The invariant of the ring of the channel.  Its parts are the counters
  (`Counts`), the claims in flight (`InFlight`), and what the slots hold
  (`Slots`).

  The room for a claim, and the write before a claim of the consumer, are what
  the steps of the invariant ask for (`Inv.send_step`, `Inv.recv_step`); the
  rest of what keeps values apart follows from the counters.
-/

import Zydon.Lib.Ring
import Zydon.Lib.Tokens
import Zydon.Primitives.Channel.Phases

namespace Zydon
namespace Channel

open Lib

variable {Producer V : Type*}

-- ============================================================================
-- The counters
-- ============================================================================

/-- The counters, with `k` claims in flight. -/
structure Counts (r : Ring V) (own : RecvPhase) (k : Nat) : Prop where
  sendPos : r.sendPos.toNat = r.claimed.length % 2 ^ 64
  recvPos : r.recvPos.toNat = (r.delivered.length + own.unread) % 2 ^ 64
  wrap : r.capacity.val ∣ 2 ^ 64 ∨ r.claimed.length < 2 ^ 64
  /-- The positions claimed and not released have different slots. -/
  room : r.claimed.length + own.held ≤ r.delivered.length + r.capacity.val
  len : r.len.toNat + r.delivered.length + k = r.claimed.length + own.held
  len_pos : own ≠ .outside → 0 < r.len.toNat

namespace Counts

variable {r : Ring V} {own : RecvPhase} {k : Nat}

theorem new (capacity : Capacity) : Counts (Ring.new (V := V) capacity) .outside 0 where
  sendPos := rfl
  recvPos := rfl
  wrap := Or.inr (show 0 < 2 ^ 64 by decide)
  room := Nat.zero_le _
  len := rfl
  len_pos := fun h => absurd rfl h

theorem len_le (h : Counts r own k) : r.len.toNat ≤ r.capacity.val := by
  have h_len := h.len
  have h_room := h.room
  omega

/-- The slot of a position that counts up to `n`. -/
theorem idx_eq {pos : Usize} {n : Nat} (h_pos : pos.toNat = n % 2 ^ 64)
    (h_wrap : r.capacity.val ∣ 2 ^ 64 ∨ n < 2 ^ 64) : r.idx pos = n % r.capacity.val := by
  rw [Ring.idx, h_pos]
  rcases h_wrap with h_dvd | h_lt
  · exact Nat.mod_mod_of_dvd n h_dvd
  · rw [Nat.mod_eq_of_lt h_lt]

/-- A producer claims a position. -/
theorem claim (h : Counts r own k) (value : V)
    (h_room : r.claimed.length + own.held < r.delivered.length + r.capacity.val)
    (h_wrap : r.sendPos.toNat + 1 < 2 ^ 64 ∨ r.capacity.val ∣ 2 ^ 64) :
    Counts (r.claim value) own (k + 1) where
  sendPos := by
    show (r.sendPos + 1).toNat = (r.claimed ++ [_]).length % 2 ^ 64
    have h_pos := h.sendPos
    rw [BitVec.toNat_add, List.length_append, List.length_singleton, h_pos]
    show (r.claimed.length % 2 ^ 64 + 1) % 2 ^ 64 = _
    omega
  recvPos := h.recvPos
  wrap := by
    show r.capacity.val ∣ 2 ^ 64 ∨ (r.claimed ++ [_]).length < 2 ^ 64
    rw [List.length_append, List.length_singleton]
    rcases h.wrap with h_dvd | h_lt
    · exact Or.inl h_dvd
    · rcases h_wrap with h_next | h_dvd
      · rw [h.sendPos, Nat.mod_eq_of_lt h_lt] at h_next
        exact Or.inr h_next
      · exact Or.inl h_dvd
  room := by
    show (r.claimed ++ [_]).length + own.held ≤ r.delivered.length + r.capacity.val
    rw [List.length_append, List.length_singleton]
    omega
  len := by
    have h_len := h.len
    show r.len.toNat + r.delivered.length + (k + 1) = (r.claimed ++ [_]).length + own.held
    rw [List.length_append, List.length_singleton]
    omega
  len_pos := h.len_pos

/-- A producer counts its value. -/
theorem count (h : Counts r own (k + 1)) : Counts r.lenAdd own k := by
  have h_len := h.len
  have h_room := h.room
  have h_next : (r.len + 1).toNat = r.len.toNat + 1 := Ring.lenAdd_len (by omega)
  constructor
  · exact h.sendPos
  · exact h.recvPos
  · exact h.wrap
  · exact h_room
  · show (r.len + 1).toNat + r.delivered.length + k = r.claimed.length + own.held
    omega
  · intro _
    show 0 < (r.len + 1).toNat
    omega

/-- The consumer has found `len` positive. -/
theorem enter (h : Counts r .outside k) {ph : RecvPhase} (h_len : 0 < r.len.toNat)
    (h_ph : ph = .seeing ∨ ph = .claiming) : Counts r ph k := by
  obtain rfl | rfl := h_ph
  · exact { h with len_pos := fun _ => h_len }
  · exact { h with len_pos := fun _ => h_len }

/-- The consumer claims a position. -/
theorem claimRecv (h : Counts r .claiming k) : Counts r.claimRecv (.reading r.recvPos) k where
  sendPos := h.sendPos
  recvPos := by
    have h_pos : r.recvPos.toNat = r.delivered.length % 2 ^ 64 := h.recvPos
    show (r.recvPos + 1).toNat = (r.delivered.length + 1) % 2 ^ 64
    rw [BitVec.toNat_add, h_pos]
    show (r.delivered.length % 2 ^ 64 + 1) % 2 ^ 64 = _
    omega
  wrap := h.wrap
  room := h.room
  len := h.len
  len_pos := fun _ => h.len_pos (by simp)

/-- The consumer reads the slot of its position. -/
theorem read {pos : Usize} (h : Counts r (.reading pos) k) :
    Counts (r.read pos) .holding k := by
  have h_length : (r.delivered ++ [r.data (r.idx pos)]).length = r.delivered.length + 1 := by
    rw [List.length_append, List.length_singleton]
  have h_room : r.claimed.length ≤ r.delivered.length + r.capacity.val := h.room
  have h_len : r.len.toNat + r.delivered.length + k = r.claimed.length := h.len
  constructor
  · exact h.sendPos
  · show r.recvPos.toNat = (r.delivered ++ [_]).length % 2 ^ 64
    rw [h_length]
    exact h.recvPos
  · exact h.wrap
  · show r.claimed.length + 1 ≤ (r.delivered ++ [_]).length + r.capacity.val
    rw [h_length]
    omega
  · show r.len.toNat + (r.delivered ++ [_]).length + k = r.claimed.length + 1
    rw [h_length]
    omega
  · exact fun _ => h.len_pos (by simp)

/-- The consumer counts the value off. -/
theorem release (h : Counts r .holding k) : Counts r.lenSub .outside k := by
  have h_pos : 0 < r.len.toNat := h.len_pos (by simp)
  have h_room : r.claimed.length + 1 ≤ r.delivered.length + r.capacity.val := h.room
  have h_len : r.len.toNat + r.delivered.length + k = r.claimed.length + 1 := h.len
  have h_next : (r.len - 1).toNat = r.len.toNat - 1 := Ring.lenSub_len h_pos
  constructor
  · exact h.sendPos
  · exact h.recvPos
  · exact h.wrap
  · show r.claimed.length ≤ r.delivered.length + r.capacity.val
    omega
  · show (r.len - 1).toNat + r.delivered.length + k = r.claimed.length
    omega
  · exact fun h_own => absurd rfl h_own

end Counts

-- ============================================================================
-- The claims in flight
-- ============================================================================

/-- What holds of a producer in each of its phases: its claim has been made, and
    the consumer has not claimed a slot that is still to be written. -/
def SendPhase.Inv (r : Ring V) (own : RecvPhase) : SendPhase V → Prop
  | .writing pos x => r.claimed[x.1]? = some x ∧ r.idx pos = x.1 % r.capacity.val ∧
      r.delivered.length + own.unread ≤ x.1
  | .counting x => r.claimed[x.1]? = some x
  | .outside | .claiming => True

namespace SendPhase

variable {r r' : Ring V} {own own' : RecvPhase} {ph : SendPhase V}

theorem eq_of_unwritten {n : Nat} (h : ph.unwritten = some n) :
    ∃ pos x, ph = .writing pos x ∧ x.1 = n := by
  cases ph with
  | writing pos x => exact ⟨pos, x, rfl, Option.some.inj h⟩
  | outside | claiming | counting x => exact absurd h (by simp [unwritten])

theorem Inv.claimed (h : ph.Inv r own) {x : Elem V} (h_x : ph.elem = some x) :
    r.claimed[x.1]? = some x := by
  cases ph with
  | writing pos y =>
      obtain rfl : y = x := Option.some.inj h_x
      exact h.1
  | counting y =>
      obtain rfl : y = x := Option.some.inj h_x
      exact h
  | outside | claiming => exact absurd h_x (by simp [elem])

theorem Inv.unread (h : ph.Inv r own) {n : Nat} (h_n : ph.unwritten = some n) :
    r.delivered.length + own.unread ≤ n := by
  obtain ⟨pos, x, rfl, rfl⟩ := eq_of_unwritten h_n
  exact h.2.2

/-- Later claims, and reads of slots that have been written, leave a producer
    alone. -/
theorem Inv.mono (h : ph.Inv r own)
    (h_claimed : ∀ (n : Nat) (x : Elem V), r.claimed[n]? = some x → r'.claimed[n]? = some x)
    (h_capacity : r'.capacity = r.capacity)
    (h_unread : ∀ n, ph.unwritten = some n → r'.delivered.length + own'.unread ≤ n) :
    ph.Inv r' own' := by
  cases ph with
  | writing pos x =>
      obtain ⟨h_x, h_slot, -⟩ := h
      refine ⟨h_claimed _ _ h_x, ?_, h_unread _ rfl⟩
      rw [Ring.idx, h_capacity]
      exact h_slot
  | counting x => exact h_claimed _ _ h
  | outside | claiming => trivial

end SendPhase

/-- The claims `l` are in flight. -/
structure InFlight (r : Ring V) (own : RecvPhase) (ph : Producer → SendPhase V) (l : List Nat) :
    Prop where
  held : Held (fun p => (ph p).elem.map Prod.fst) l
  each : ∀ p, (ph p).Inv r own

namespace InFlight

variable {r r' : Ring V} {own own' : RecvPhase} {ph : Producer → SendPhase V} {l l' : List Nat}
  {p : Producer}

theorem new (capacity : Capacity) :
    InFlight (Ring.new (V := V) capacity) .outside (fun _ : Producer => .outside) [] where
  held := Held.nil fun _ => rfl
  each := fun _ => trivial

/-- A claim in flight has been made. -/
theorem lt_claimed (h : InFlight r own ph l) {n : Nat} (h_n : n ∈ l) : n < r.claimed.length := by
  obtain ⟨q, h_q⟩ := (h.held.mem_iff n).mp h_n
  obtain ⟨x, h_x, rfl⟩ := Option.map_eq_some_iff.mp h_q
  exact (List.getElem?_eq_some_iff.mp ((h.each q).claimed h_x)).1

/-- No two producers are about to write for one claim. -/
theorem unwritten_unique (h : InFlight r own ph l) {p q : Producer} {n : Nat}
    (h_p : (ph p).unwritten = some n) (h_q : (ph q).unwritten = some n) : p = q := by
  obtain ⟨pos, x, h_x, rfl⟩ := SendPhase.eq_of_unwritten h_p
  obtain ⟨pos', y, h_y, h_eq⟩ := SendPhase.eq_of_unwritten h_q
  apply h.held.unique (a := x.1)
  · rw [h_x]
    rfl
  · rw [h_y, ← h_eq]
    rfl

/-- The consumer moves on, and reads no slot that is still to be written. -/
theorem ofOwner (h : InFlight r own ph l) (h_claimed : r'.claimed = r.claimed)
    (h_capacity : r'.capacity = r.capacity)
    (h_unread : ∀ p n, (ph p).unwritten = some n → r'.delivered.length + own'.unread ≤ n) :
    InFlight r' own' ph l where
  held := h.held
  each := by
    intro q
    apply (h.each q).mono _ h_capacity (h_unread q)
    intro n x h_x
    rw [h_claimed, h_x]

variable [DecidableEq Producer]

/-- The claims the producers hold, when one of them moves on. -/
theorem tokens_update (ph' : SendPhase V) :
    (fun q => (Function.update ph p ph' q).elem.map Prod.fst) =
      Function.update (fun q => (ph q).elem.map Prod.fst) p (ph'.elem.map Prod.fst) :=
  Function.comp_update (fun φ : SendPhase V => φ.elem.map Prod.fst) ph p ph'

/-- A producer moves on to the phase `ph'`. -/
theorem move (h : InFlight r own ph l) {ph' : SendPhase V}
    (h_claimed : ∀ (n : Nat) (x : Elem V), r.claimed[n]? = some x → r'.claimed[n]? = some x)
    (h_delivered : r'.delivered = r.delivered) (h_capacity : r'.capacity = r.capacity)
    (h_held : Held (Function.update (fun q => (ph q).elem.map Prod.fst) p
      (ph'.elem.map Prod.fst)) l')
    (h_ph' : ph'.Inv r' own) : InFlight r' own (Function.update ph p ph') l' where
  held := by
    rw [tokens_update]
    exact h_held
  each := by
    rw [Function.forall_update_iff ph (p := fun _ φ => φ.Inv r' own)]
    refine ⟨h_ph', fun q _ => ?_⟩
    apply (h.each q).mono h_claimed h_capacity
    rw [h_delivered]
    exact fun n h_n => (h.each q).unread h_n

/-- A producer claims a position. -/
theorem claim (h : InFlight r own ph l) (h_ph : ph p = .claiming) (value : V)
    (h_slot : r.idx r.sendPos = r.claimed.length % r.capacity.val)
    (h_read : r.delivered.length + own.unread ≤ r.claimed.length) :
    InFlight (r.claim value) own
      (Function.update ph p (.writing r.sendPos (r.claimed.length, value)))
      (r.claimed.length :: l) := by
  refine h.move ?_ rfl rfl ?_ ⟨?_, h_slot, h_read⟩
  · intro n x h_x
    show (r.claimed ++ [_])[n]? = some x
    rw [List.getElem?_append_left (List.getElem?_eq_some_iff.mp h_x).1, h_x]
  · apply h.held.take
    · rw [h_ph]
      rfl
    · intro h_mem
      exact absurd (h.lt_claimed h_mem) (lt_irrefl _)
  · show (r.claimed ++ [_])[r.claimed.length]? = some _
    rw [List.getElem?_append_right (le_refl _), Nat.sub_self]
    rfl

/-- A producer moves on with the claim it has. -/
theorem keep (h : InFlight r own ph l) {ph' : SendPhase V} (h_elem : ph'.elem = (ph p).elem)
    (h_claimed : r'.claimed = r.claimed) (h_delivered : r'.delivered = r.delivered)
    (h_capacity : r'.capacity = r.capacity) (h_ph' : ph'.Inv r' own) :
    InFlight r' own (Function.update ph p ph') l := by
  refine h.move (fun n x h_x => ?_) h_delivered h_capacity ?_ h_ph'
  · rw [h_claimed, h_x]
  · rw [h_elem, Function.update_eq_self]
    exact h.held

/-- A producer writes its slot. -/
theorem write (h : InFlight r own ph l) {pos : Usize} {x : Elem V} (h_ph : ph p = .writing pos x) :
    InFlight (r.write pos x) own (Function.update ph p (.counting x)) l := by
  have h_x : r.claimed[x.1]? = some x := (h.each p).claimed (by rw [h_ph]; rfl)
  refine h.keep ?_ rfl rfl rfl h_x
  rw [h_ph]
  rfl

/-- A producer counts its value, and its claim is not in flight any more. -/
theorem count (h : InFlight r own ph l) {x : Elem V} (h_ph : ph p = .counting x) :
    InFlight r.lenAdd own (Function.update ph p .outside) (l.erase x.1) := by
  refine h.move (fun _ _ h_x => h_x) rfl rfl ?_ trivial
  apply h.held.give
  rw [h_ph]
  rfl

/-- A producer is about to claim a position. -/
theorem enter (h : InFlight r own ph l) (h_ph : ph p = .outside) :
    InFlight r own (Function.update ph p .claiming) l := by
  refine h.keep ?_ rfl rfl rfl trivial
  rw [h_ph]
  rfl

end InFlight

-- ============================================================================
-- The slots
-- ============================================================================

/-- No producer is about to write for the claim `n`. -/
def Settled (ph : Producer → SendPhase V) (n : Nat) : Prop := ∀ p, (ph p).unwritten ≠ some n

theorem settled_update [DecidableEq Producer] {ph : Producer → SendPhase V} {p : Producer}
    {ph' : SendPhase V} {n : Nat} : Settled (Function.update ph p ph') n ↔
      ph'.unwritten ≠ some n ∧ ∀ q, q ≠ p → (ph q).unwritten ≠ some n :=
  Function.forall_update_iff ph (p := fun _ φ => φ.unwritten ≠ some n)

/-- What the slots hold.  A slot keeps the value that was read from it last. -/
structure Slots (r : Ring V) (ph : Producer → SendPhase V) : Prop where
  content : ∀ i x, r.data i = some x → r.claimed[x.1]? = some x ∧ i = x.1 % r.capacity.val ∧
    Settled ph x.1
  written : ∀ n, r.delivered.length ≤ n → n < r.claimed.length → Settled ph n →
    r.data (n % r.capacity.val) = r.claimed[n]?

namespace Slots

variable {r r' : Ring V} {ph ph' : Producer → SendPhase V}

theorem new (capacity : Capacity) :
    Slots (Ring.new (V := V) capacity) (fun _ : Producer => .outside) where
  content := fun i x h => absurd h (by simp [Ring.new])
  written := fun n _ h => absurd h (Nat.not_lt_zero n)

/-- A step that leaves the slots and the claims to be written alone. -/
theorem move (h : Slots r ph) (h_data : r'.data = r.data) (h_claimed : r'.claimed = r.claimed)
    (h_capacity : r'.capacity = r.capacity) (h_delivered : r.delivered.length ≤ r'.delivered.length)
    (h_settled : ∀ n, Settled ph' n ↔ Settled ph n) : Slots r' ph' where
  content := by
    intro i x h_x
    simp only [h_data, h_claimed, h_capacity, h_settled] at h_x ⊢
    exact h.content i x h_x
  written := by
    intro n h_low h_high h_n
    simp only [h_data, h_claimed, h_capacity, h_settled] at h_high h_n ⊢
    exact h.written n (h_delivered.trans h_low) h_high h_n

variable [DecidableEq Producer] {p : Producer}

/-- A producer moves on between phases in which it writes nothing. -/
theorem settled_move {φ : SendPhase V} (h_old : (ph p).unwritten = none)
    (h_new : φ.unwritten = none) (n : Nat) :
    Settled (Function.update ph p φ) n ↔ Settled ph n := by
  rw [settled_update, h_new]
  constructor
  · intro h_n q
    by_cases h_q : q = p
    · rw [h_q, h_old]
      exact h_n.1
    · exact h_n.2 q h_q
  · exact fun h_n => ⟨by simp, fun q _ => h_n q⟩

omit [DecidableEq Producer] in
/-- A claim leaves the ones before it where they are. -/
theorem getElem?_claim {value : V} {n : Nat} (h_n : n < r.claimed.length) :
    (r.claim value).claimed[n]? = r.claimed[n]? :=
  List.getElem?_append_left h_n

/-- A producer claims a position. -/
theorem claim (h : Slots r ph) (h_ph : ph p = .claiming) (value : V) :
    Slots (r.claim value)
      (Function.update ph p (.writing r.sendPos (r.claimed.length, value))) where
  content := by
    intro i x h_x
    obtain ⟨h_claimed, h_i, h_settled⟩ := h.content i x h_x
    have h_lt : x.1 < r.claimed.length := (List.getElem?_eq_some_iff.mp h_claimed).1
    refine ⟨?_, h_i, settled_update.mpr ⟨?_, fun q _ => h_settled q⟩⟩
    · rw [getElem?_claim h_lt, h_claimed]
    · intro h_eq
      obtain h_new : r.claimed.length = x.1 := Option.some.inj h_eq
      omega
  written := by
    intro n h_low h_high h_n
    obtain ⟨h_new, h_others⟩ := settled_update.mp h_n
    have h_ne : r.claimed.length ≠ n := fun h_eq => h_new (congrArg some h_eq)
    have h_length : (r.claim value).claimed.length = r.claimed.length + 1 := by
      show (r.claimed ++ [_]).length = _
      rw [List.length_append, List.length_singleton]
    have h_lt : n < r.claimed.length := by omega
    rw [getElem?_claim h_lt]
    apply h.written n h_low h_lt
    intro q
    by_cases h_q : q = p
    · rw [h_q, h_ph]
      exact fun h_eq => absurd h_eq (by simp [SendPhase.unwritten])
    · exact h_others q h_q

/-- A producer writes its slot. -/
theorem write {own : RecvPhase} {l : List Nat} (h : Slots r ph) (hf : InFlight r own ph l)
    (h_room : r.claimed.length ≤ r.delivered.length + r.capacity.val) {pos : Usize} {x : Elem V}
    (h_ph : ph p = .writing pos x) :
    Slots (r.write pos x) (Function.update ph p (.counting x)) := by
  have h_unwritten : (ph p).unwritten = some x.1 := by
    rw [h_ph]
    rfl
  obtain ⟨h_claimed, h_slot, h_low⟩ : SendPhase.Inv r own (.writing pos x) := h_ph ▸ hf.each p
  have h_lt : x.1 < r.claimed.length := (List.getElem?_eq_some_iff.mp h_claimed).1
  constructor
  · intro i y h_y
    by_cases h_i : i = r.idx pos
    · -- the slot written
      have h_self : (r.write pos x).data i = some x := by
        rw [h_i]
        exact Function.update_self ..
      obtain rfl : x = y := Option.some.inj (h_self.symm.trans h_y)
      refine ⟨h_claimed, h_i.trans h_slot, settled_update.mpr ⟨by simp [SendPhase.unwritten], ?_⟩⟩
      exact fun q h_q h_eq => h_q (hf.unwritten_unique h_eq h_unwritten)
    · have h_old : r.data i = some y := (Function.update_of_ne h_i (some x) r.data) ▸ h_y
      obtain ⟨h_y_claimed, h_y_slot, h_settled⟩ := h.content i y h_old
      refine ⟨h_y_claimed, h_y_slot, settled_update.mpr ⟨by simp [SendPhase.unwritten], ?_⟩⟩
      exact fun q _ => h_settled q
  · intro n h_n_low h_n_high h_n
    show Function.update r.data (r.idx pos) (some x) (n % r.capacity.val) = r.claimed[n]?
    have h_delivered : r.delivered.length ≤ n := h_n_low
    have h_n_lt : n < r.claimed.length := h_n_high
    by_cases h_eq : n = x.1
    · rw [h_eq, ← h_slot, Function.update_self, h_claimed]
    · rw [Function.update_of_ne]
      · apply h.written n h_delivered h_n_lt
        intro q
        by_cases h_q : q = p
        · rw [h_q, h_unwritten]
          exact fun h_some => h_eq (Option.some.inj h_some).symm
        · exact (settled_update.mp h_n).2 q h_q
      · intro h_cell
        rw [h_slot] at h_cell
        exact h_eq (eq_of_mod_eq h_cell (by omega) (by omega))

end Slots

-- ============================================================================
-- The invariant
-- ============================================================================

/-- The invariant of the ring, with the claims `l` in flight. -/
structure Inv (r : Ring V) (own : RecvPhase) (ph : Producer → SendPhase V) (l : List Nat) :
    Prop where
  numbered : r.claimed.map Prod.fst = List.range r.claimed.length
  /-- The values come out in the order of their claims. -/
  fifo : r.delivered <+: r.claimed.map some
  counts : Counts r own l.length
  inFlight : InFlight r own ph l
  slots : Slots r ph
  reading : ∀ pos, own = .reading pos → r.idx pos = r.delivered.length % r.capacity.val

namespace Inv

variable {r r' : Ring V} {own own' : RecvPhase} {ph : Producer → SendPhase V} {l : List Nat}

theorem new (capacity : Capacity) :
    Inv (Ring.new (V := V) capacity) .outside (fun _ : Producer => .outside) [] where
  numbered := rfl
  fifo := List.nil_prefix
  counts := Counts.new capacity
  inFlight := InFlight.new capacity
  slots := Slots.new capacity
  reading := fun pos h => absurd h (by simp)

theorem delivered_le (h : Inv r own ph l) : r.delivered.length ≤ r.claimed.length := by
  have h_le := h.fifo.length_le
  rwa [List.length_map] at h_le

/-- A consumer that has seen a value has a claimed position to read. -/
theorem delivered_lt (h : Inv r own ph l) (h_own : own ≠ .outside) (h_held : own.held = 0) :
    r.delivered.length < r.claimed.length := by
  have h_len := h.counts.len
  have h_pos := h.counts.len_pos h_own
  omega

/-- The slot the consumer reads holds the next value. -/
theorem data_reading (h : Inv r own ph l) {pos : Usize} (h_own : own = .reading pos) :
    r.data (r.idx pos) = r.claimed[r.delivered.length]? := by
  subst h_own
  rw [h.reading pos rfl]
  refine h.slots.written _ (le_refl _) (h.delivered_lt (by simp) rfl) fun p h_p => ?_
  have h_le : r.delivered.length + 1 ≤ r.delivered.length := (h.inFlight.each p).unread h_p
  omega

/-- An element delivered is at its number. -/
theorem getElem?_claimed (h : Inv r own ph l) {n : Nat} {y : Option (Elem V)}
    (h_y : r.delivered[n]? = some y) : ∃ x, y = some x ∧ r.claimed[n]? = some x := by
  obtain ⟨rest, h_rest⟩ := h.fifo
  have h_map : (r.claimed.map some)[n]? = some y := by
    rw [← h_rest, List.getElem?_append_left (List.getElem?_eq_some_iff.mp h_y).1, h_y]
  rw [List.getElem?_map] at h_map
  obtain ⟨x, h_x, rfl⟩ := Option.map_eq_some_iff.mp h_map
  exact ⟨x, rfl, h_x⟩

/-- The values claimed at delivered positions are delivered. -/
theorem mem_delivered (h : Inv r own ph l) {x : Elem V} (h_x : r.claimed[x.1]? = some x) :
    some x ∈ r.delivered ↔ x.1 < r.delivered.length := by
  constructor
  · intro h_mem
    obtain ⟨n, h_n⟩ := List.mem_iff_getElem?.mp h_mem
    obtain ⟨y, h_eq, h_y⟩ := h.getElem?_claimed h_n
    obtain rfl : x = y := Option.some.inj h_eq
    rw [fst_of_numbered h.numbered h_y]
    exact (List.getElem?_eq_some_iff.mp h_n).1
  · intro h_lt
    obtain ⟨y, h_eq, h_y⟩ := h.getElem?_claimed (List.getElem?_eq_getElem h_lt)
    rw [h_x] at h_y
    obtain rfl : x = y := Option.some.inj h_y
    exact h_eq ▸ List.getElem_mem h_lt

/-! ## Steps -/

/-- A step of the consumer that leaves the claims, the slots and the values
    delivered alone. -/
theorem move (h : Inv r own ph l) (h_data : r'.data = r.data) (h_claimed : r'.claimed = r.claimed)
    (h_delivered : r'.delivered = r.delivered) (h_capacity : r'.capacity = r.capacity)
    (h_counts : Counts r' own' l.length)
    (h_unread : ∀ p n, (ph p).unwritten = some n → r.delivered.length + own'.unread ≤ n)
    (h_reading : ∀ pos, own' = .reading pos →
      r.idx pos = r.delivered.length % r.capacity.val) : Inv r' own' ph l where
  numbered := by
    rw [h_claimed]
    exact h.numbered
  fifo := by
    rw [h_claimed, h_delivered]
    exact h.fifo
  counts := h_counts
  inFlight := by
    apply h.inFlight.ofOwner h_claimed h_capacity
    rw [h_delivered]
    exact h_unread
  slots := h.slots.move h_data h_claimed h_capacity (by rw [h_delivered]) fun _ => Iff.rfl
  reading := by
    intro pos h_pos
    rw [Ring.idx, h_capacity, h_delivered]
    exact h_reading pos h_pos

/-- The consumer reads the next value. -/
theorem read {pos : Usize} (h : Inv r (.reading pos) ph l) : Inv (r.read pos) .holding ph l where
  numbered := h.numbered
  fifo := by
    have h_take := List.prefix_iff_eq_take.mp h.fifo
    have h_lt := h.delivered_lt (by simp) rfl
    show r.delivered ++ [r.data (r.idx pos)] <+: r.claimed.map some
    rw [h.data_reading rfl, List.getElem?_eq_getElem h_lt]
    have h_next : (r.claimed.map some)[r.delivered.length]? =
        some (some (r.claimed[r.delivered.length])) := by
      rw [List.getElem?_map, List.getElem?_eq_getElem h_lt, Option.map_some]
    rw [List.prefix_iff_eq_take, List.length_append, List.length_singleton, List.take_add_one,
      ← h_take, h_next]
    rfl
  counts := h.counts.read
  inFlight := by
    refine h.inFlight.ofOwner rfl rfl fun p n h_n => ?_
    have h_le : r.delivered.length + 1 ≤ n := (h.inFlight.each p).unread h_n
    show (r.delivered ++ [_]).length + 0 ≤ n
    rw [List.length_append, List.length_singleton]
    exact h_le
  slots := by
    refine h.slots.move rfl rfl rfl ?_ fun _ => Iff.rfl
    show r.delivered.length ≤ (r.delivered ++ [_]).length
    rw [List.length_append]
    exact Nat.le_add_right ..
  reading := fun pos h_pos => absurd h_pos (by simp)

/-- One step of the consumer, which claims only slots that have been written. -/
theorem recv_step (h : Inv r own ph l) (h_effect : RecvEffect r own r' own')
    (h_written : own = .claiming → ∀ p, (ph p).unwritten ≠ some r.delivered.length) :
    Inv r' own' ph l := by
  have h_unread : ∀ p n, (ph p).unwritten = some n → r.delivered.length + own.unread ≤ n :=
    fun p n h_n => (h.inFlight.each p).unread h_n
  cases h_effect with
  | stay => exact h
  | enter own' h_len h_own =>
      obtain rfl | rfl := h_own
      · exact h.move rfl rfl rfl rfl (h.counts.enter h_len (Or.inl rfl)) h_unread
          fun pos h_pos => absurd h_pos (by simp)
      · exact h.move rfl rfl rfl rfl (h.counts.enter h_len (Or.inr rfl)) h_unread
          fun pos h_pos => absurd h_pos (by simp)
  | resume =>
      exact h.move rfl rfl rfl rfl { h.counts with len_pos := fun _ => h.counts.len_pos (by simp) }
        h_unread fun pos h_pos => absurd h_pos (by simp)
  | claim =>
      refine h.move rfl rfl rfl rfl h.counts.claimRecv (fun p n h_n => ?_) fun pos h_pos => ?_
      · have h_le : r.delivered.length ≤ n := h_unread p n h_n
        have h_ne : r.delivered.length ≠ n := fun h_eq => h_written rfl p (by rw [h_n, h_eq])
        show r.delivered.length + 1 ≤ n
        omega
      · obtain rfl : r.recvPos = pos := RecvPhase.reading.inj h_pos
        have h_le := h.delivered_le
        apply Counts.idx_eq h.counts.recvPos
        rcases h.counts.wrap with h_dvd | h_lt
        · exact Or.inl h_dvd
        · exact Or.inr (by show r.delivered.length + 0 < 2 ^ 64; omega)
  | clear pos =>
      exact h.move rfl rfl rfl rfl { h.counts with } h_unread h.reading
  | read pos => exact h.read
  | release =>
      exact h.move rfl rfl rfl rfl h.counts.release h_unread
        fun pos h_pos => absurd h_pos (by simp)

variable [DecidableEq Producer]

/-- One step of a producer, which claims a position only when there is room for it. -/
theorem send_step (h : Inv r own ph l) {p : Producer} {ph' : SendPhase V}
    (h_effect : SendEffect r (ph p) r' ph')
    (h_claim : ph p = .claiming →
      r.claimed.length + own.held < r.delivered.length + r.capacity.val ∧
        (r.sendPos.toNat + 1 < 2 ^ 64 ∨ r.capacity.val ∣ 2 ^ 64)) :
    ∃ l', Inv r' own (Function.update ph p ph') l' := by
  generalize h_ph : ph p = ph₀ at h_effect h_claim
  cases h_effect with
  | stay => exact ⟨l, by rw [← h_ph, Function.update_eq_self]; exact h⟩
  | setOccupied pos x =>
      refine ⟨l, ?_⟩
      rw [← h_ph, Function.update_eq_self]
      exact { h with
        counts := { h.counts with }
        inFlight := { h.inFlight with }
        slots := { h.slots with } }
  | enter =>
      refine ⟨l, { h with inFlight := h.inFlight.enter h_ph, slots := ?_ }⟩
      exact h.slots.move rfl rfl rfl (le_refl _) (Slots.settled_move (by rw [h_ph]; rfl) rfl)
  | claim value =>
      obtain ⟨h_room, h_wrap⟩ := h_claim rfl
      have h_slot : r.idx r.sendPos = r.claimed.length % r.capacity.val :=
        Counts.idx_eq h.counts.sendPos h.counts.wrap
      have h_read : r.delivered.length + own.unread ≤ r.claimed.length := by
        cases own with
        | reading pos => exact h.delivered_lt (by simp) rfl
        | outside | seeing | claiming | holding => exact h.delivered_le
      refine ⟨r.claimed.length :: l, ?_⟩
      constructor
      · exact numbered_append h.numbered value
      · refine h.fifo.trans ?_
        show r.claimed.map some <+: (r.claimed ++ [_]).map some
        rw [List.map_append]
        exact List.prefix_append ..
      · exact h.counts.claim value h_room h_wrap
      · exact h.inFlight.claim h_ph value h_slot h_read
      · exact h.slots.claim h_ph value
      · exact h.reading
  | write pos x =>
      have h_room : r.claimed.length ≤ r.delivered.length + r.capacity.val :=
        (Nat.le_add_right ..).trans h.counts.room
      exact ⟨l, { h with
        counts := { h.counts with }
        inFlight := h.inFlight.write h_ph
        slots := h.slots.write h.inFlight h_room h_ph }⟩
  | count x =>
      have h_mem : x.1 ∈ l := h.inFlight.held.mem (t := p) (by rw [h_ph]; rfl)
      have h_length : l.length = (l.erase x.1).length + 1 := by
        rw [List.length_erase_of_mem h_mem]
        have h_pos := List.length_pos_of_mem h_mem
        omega
      refine ⟨l.erase x.1, { h with
        counts := Counts.count (by rw [← h_length]; exact h.counts)
        inFlight := h.inFlight.count h_ph
        slots := ?_ }⟩
      exact h.slots.move rfl rfl rfl (le_refl _) (Slots.settled_move (by rw [h_ph]; rfl) rfl)

end Inv

end Channel
end Zydon
