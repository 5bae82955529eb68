/-
  Zydon.Primitives.Channel.Fifo

  The channel is a bounded FIFO queue when no call is interrupted.

  What a call returns is an event of a bounded FIFO queue (`event`), and the
  values the queue holds are those claimed and not delivered (`Ring.buffer`).
  In every run with fewer than `2^64` accepted sends, the events are ones that a
  queue of the channel's capacity can have, and the counters and the `occupied`
  flags agree with it (`refines_boundedFifo`).

  A `put` and a `take` are stretches of the steps that keep the invariant of the
  ring under interleaving, so that the invariant is used as it is.
-/

import Zydon.Lib.BoundedFifo
import Zydon.Primitives.Channel.Lines
import Zydon.Primitives.Channel.Slots

namespace Zydon
namespace Channel

open Lib

variable {SF RF Waker V : Type*}

-- ============================================================================
-- The ring between calls
-- ============================================================================

/-- The values in the channel: claimed, and not delivered. -/
def Ring.buffer (r : Ring V) : List V := (r.claimed.drop r.delivered.length).map Prod.snd

/-- The flags are those of the positions claimed and not delivered. -/
def Flags (r : Ring V) : Prop :=
  ∀ i, r.occupied i = true ↔
    ∃ n, r.delivered.length ≤ n ∧ n < r.claimed.length ∧ i = n % r.capacity.val

/-- The ring between calls. -/
structure Rest (r : Ring V) : Prop where
  inv : Inv r .outside (fun _ : Unit => .outside) []
  flags : Flags r

/-- No claim is in flight when every producer is outside the ring. -/
theorem Inv.rest {r : Ring V} {l : List Nat} (h : Inv r .outside (fun _ : Unit => .outside) l) :
    Inv r .outside (fun _ : Unit => .outside) [] := by
  obtain rfl : l = [] := by
    refine List.eq_nil_iff_forall_not_mem.mpr fun n h_n => ?_
    obtain ⟨p, h_p⟩ := (h.inFlight.held.mem_iff n).mp h_n
    exact absurd h_p (by simp [SendPhase.elem])
  exact h

namespace Rest

variable {r : Ring V}

theorem new (capacity : Capacity) : Rest (Ring.new (V := V) capacity) where
  inv := Inv.new capacity
  flags := by simp [Flags, Ring.new]

theorem len_eq (h : Rest r) : r.len.toNat + r.delivered.length = r.claimed.length :=
  h.inv.counts.len

theorem length_buffer (h : Rest r) : r.buffer.length = r.len.toNat := by
  have h_len := h.len_eq
  rw [Ring.buffer, List.length_map, List.length_drop]
  omega

/-- The slot of the next position to send. -/
theorem idx_sendPos (h : Rest r) : r.idx r.sendPos = r.claimed.length % r.capacity.val :=
  Counts.idx_eq h.inv.counts.sendPos h.inv.counts.wrap

/-- The slot of the next position to receive. -/
theorem idx_recvPos (h : Rest r) : r.idx r.recvPos = r.delivered.length % r.capacity.val := by
  have h_le := h.inv.delivered_le
  apply Counts.idx_eq h.inv.counts.recvPos
  rcases h.inv.counts.wrap with h_dvd | h_lt
  · exact Or.inl h_dvd
  · exact Or.inr (show r.delivered.length + 0 < 2 ^ 64 by omega)

/-- The slot at the front holds the next value. -/
theorem front_eq (h : Rest r) (h_some : 0 < r.len.toNat) :
    r.front = r.claimed[r.delivered.length]? := by
  have h_len := h.len_eq
  rw [Ring.front, h.idx_recvPos]
  exact h.inv.slots.written _ (le_refl _) (by omega) fun _ => by simp [SendPhase.unwritten]

/-- A value goes in, when there is room. -/
theorem put (h : Rest r) (value : V) (h_room : r.len.toNat < r.capacity.val)
    (h_few : r.claimed.length + 1 < 2 ^ 64) : Rest (r.put value) := by
  have h_len := h.len_eq
  have h_le := h.inv.delivered_le
  have h_move : ∀ ph ph' : Unit → SendPhase V, Function.update ph () (ph' ()) = ph' :=
    fun ph ph' => funext fun _ => Function.update_self ..
  have h_sendPos : r.sendPos.toNat = r.claimed.length := by
    rw [h.inv.counts.sendPos]
    exact Nat.mod_eq_of_lt (by omega)
  constructor
  · obtain ⟨l₁, h₁⟩ := h.inv.send_step (p := ()) SendEffect.enter (fun h_ph => by simp at h_ph)
    rw [h_move _ fun _ => .claiming] at h₁
    obtain ⟨l₂, h₂⟩ := h₁.send_step (p := ()) (SendEffect.claim value) fun _ =>
      ⟨show r.claimed.length + 0 < r.delivered.length + r.capacity.val by omega, .inl (by omega)⟩
    rw [h_move _ fun _ => .writing r.sendPos (r.claimed.length, value)] at h₂
    obtain ⟨l₃, h₃⟩ := h₂.send_step (p := ()) (SendEffect.write _ _) (fun h_ph => by simp at h_ph)
    rw [h_move _ fun _ => .counting (r.claimed.length, value)] at h₃
    obtain ⟨l₄, h₄⟩ := h₃.send_step (p := ()) (SendEffect.setOccupied r.sendPos _)
      (fun h_ph => by simp at h_ph)
    rw [h_move _ fun _ => .counting (r.claimed.length, value)] at h₄
    obtain ⟨l₅, h₅⟩ := h₄.send_step (p := ()) (SendEffect.count _) (fun h_ph => by simp at h_ph)
    rw [h_move _ fun _ => .outside] at h₅
    exact h₅.rest
  · intro i
    show Function.update r.occupied (r.idx r.sendPos) true i = true ↔ ∃ n, r.delivered.length ≤ n ∧
      n < (r.claimed ++ [(r.claimed.length, value)]).length ∧ i = n % r.capacity.val
    rw [h.idx_sendPos, List.length_append, List.length_singleton]
    by_cases h_i : i = r.claimed.length % r.capacity.val
    · rw [h_i, Function.update_self]
      exact ⟨fun _ => ⟨r.claimed.length, h_le, by omega, rfl⟩, fun _ => rfl⟩
    · rw [Function.update_of_ne h_i, h.flags i]
      refine exists_congr fun n => and_congr_right fun _ => ?_
      constructor
      · rintro ⟨h_n, h_eq⟩
        exact ⟨by omega, h_eq⟩
      · rintro ⟨h_n, h_eq⟩
        have h_ne : n ≠ r.claimed.length := fun h_last => h_i (h_last ▸ h_eq)
        exact ⟨by omega, h_eq⟩

/-- A value goes out, when there is one. -/
theorem take (h : Rest r) (h_some : 0 < r.len.toNat) : Rest r.take := by
  have h_len := h.len_eq
  have h_room : r.claimed.length ≤ r.delivered.length + r.capacity.val := h.inv.counts.room
  constructor
  · have h₁ := h.inv.recv_step (RecvEffect.enter .claiming h_some (.inr rfl)) (by simp)
    have h₂ := h₁.recv_step RecvEffect.claim fun _ _ => by simp [SendPhase.unwritten]
    have h₃ := h₂.recv_step (RecvEffect.clear r.recvPos) (by simp)
    have h₄ := h₃.recv_step (RecvEffect.read r.recvPos) (by simp)
    exact h₄.recv_step RecvEffect.release (by simp)
  · intro i
    show Function.update r.occupied (r.idx r.recvPos) false i = true ↔
      ∃ n, (r.delivered ++ [r.front]).length ≤ n ∧ n < r.claimed.length ∧ i = n % r.capacity.val
    rw [h.idx_recvPos, List.length_append, List.length_singleton]
    by_cases h_i : i = r.delivered.length % r.capacity.val
    · rw [h_i, Function.update_self]
      refine ⟨fun h_false => absurd h_false (by simp), ?_⟩
      rintro ⟨n, h_n, h_lt, h_eq⟩
      -- two positions in the window that share a slot are the same
      have h_same : r.delivered.length = n := eq_of_mod_eq h_eq (by omega) (by omega)
      omega
    · rw [Function.update_of_ne h_i, h.flags i]
      refine exists_congr fun n => ?_
      constructor
      · rintro ⟨h_n, h_lt, h_eq⟩
        have h_ne : n ≠ r.delivered.length := fun h_first => h_i (h_first ▸ h_eq)
        exact ⟨by omega, h_lt, h_eq⟩
      · rintro ⟨h_n, h_lt, h_eq⟩
        exact ⟨by omega, h_lt, h_eq⟩

theorem buffer_put (h : Rest r) (value : V) : (r.put value).buffer = r.buffer ++ [value] := by
  show ((r.claimed ++ [(r.claimed.length, value)]).drop r.delivered.length).map Prod.snd = _
  rw [List.drop_append_of_le_length h.inv.delivered_le, List.map_append]
  rfl

theorem buffer_take (h : Rest r) (h_some : 0 < r.len.toNat) :
    ∃ x, r.front = some x ∧ r.buffer = x.2 :: r.take.buffer := by
  have h_len := h.len_eq
  have h_lt : r.delivered.length < r.claimed.length := by omega
  refine ⟨r.claimed[r.delivered.length], ?_, ?_⟩
  · rw [h.front_eq h_some, List.getElem?_eq_getElem h_lt]
  · show (r.claimed.drop r.delivered.length).map Prod.snd =
      _ :: (r.claimed.drop (r.delivered ++ [_]).length).map Prod.snd
    rw [List.drop_eq_getElem_cons h_lt, List.map_cons, List.length_append, List.length_singleton]

end Rest

-- ============================================================================
-- Events
-- ============================================================================

/-- How a call of a producer has gone; `values` are the values of the futures. -/
def sendEvent (values : SF → V) :
    SendAction SF Waker V → SendOutcome V → Option (BoundedFifo.Event V)
  | .trySend value, .trySend (.ok ()) => some (.accept value)
  | .poll f _, .poll (some (.ok ())) => some (.accept (values f))
  | _, .trySend (.error (.full _)) => some .refuse
  | _, .poll none => some .refuse
  | _, .dropped => some .skip
  | _, _ => none

/-- How a call of the consumer has gone.  A read of a slot that has never been
    written is no event. -/
def recvEvent : RecvOutcome V → Option (BoundedFifo.Event V)
  | .tryRecv (.ok (some x)) | .poll (some (.ok (some x))) => some (.take x.2)
  | .tryRecv (.error .empty) | .poll none => some .empty
  | .dropped => some .skip
  | _ => none

/-- How a call has gone, if it has gone as one of a queue that is open. -/
def event (values : SF → V) : Call SF RF Waker V × Outcome V → Option (BoundedFifo.Event V)
  | (.inl a, .inl o) => sendEvent values a o
  | (.inr _, .inr o) => recvEvent o
  | _ => none

/-- The events of a log. -/
def events (values : SF → V) (log : List (Call SF RF Waker V × Outcome V)) :
    List (BoundedFifo.Event V) :=
  log.filterMap (event values)

/-- The values accepted, in order. -/
def accepted (values : SF → V) (log : List (Call SF RF Waker V × Outcome V)) : List V :=
  (events values log).filterMap BoundedFifo.Event.accepted

/-- The call is a poll of `f` that has sent. -/
def sentBy [DecidableEq SF] (f : SF) : Call SF RF Waker V × Outcome V → Bool
  | (.inl (.poll g _), .inl (.poll (some (.ok ())))) => g = f
  | _ => false

/-- The calls that can be made: a future is not polled after it has been ready,
    and not used after it has been dropped. -/
def MayCall (c : ChannelInner SF RF Waker V) : Call SF RF Waker V → Prop
  | .inl (.trySend _) | .inr .tryRecv => True
  | .inl (.poll f _) => (c.sendFutures f).status = .fresh ∨ (c.sendFutures f).status = .pending
  | .inr (.poll f _) => (c.recvFutures f).status = .fresh ∨ (c.recvFutures f).status = .pending
  | .inl (.dropFuture f) =>
      (c.sendFutures f).status ≠ .polling ∧ (c.sendFutures f).status ≠ .dropped
  | .inr (.dropFuture f) =>
      (c.recvFutures f).status ≠ .polling ∧ (c.recvFutures f).status ≠ .dropped
  | .inl .run | .inr .run => False

/-- The channel has gone as a bounded FIFO queue with the values of its buffer. -/
structure RefinesFifo [DecidableEq SF] [DecidableEq RF] (capacity : Capacity) (values : SF → V)
    (s : History SF RF Waker V) : Prop where
  answered : ∀ e ∈ s.log, (event values e).isSome
  run : BoundedFifo.Run capacity.val (events values s.log) s.channel.buffer
  /-- What has gone in is what has been accepted. -/
  entered : s.channel.claimed.map Prod.snd = accepted values s.log
  /-- A future that has its value, dropped or not, has never sent it; one that has
      not has sent it once. -/
  sent_once : ∀ f, s.log.countP (sentBy f) = if (s.channel.sendFutures f).value.isSome then 0 else 1
  len_eq : s.channel.len.toNat + s.channel.recvPos.toNat = s.channel.sendPos.toNat
  len_buffer : s.channel.len.toNat = s.channel.buffer.length
  len_le : s.channel.len.toNat ≤ capacity.val
  /-- The flags are those of the slots with a value not delivered. -/
  occupied_iff : ∀ i, s.channel.occupied i = true ↔
    ∃ x ∈ s.channel.claimed, s.channel.data i = some x ∧ some x ∉ s.channel.delivered
  returns : ∀ a, MayCall s.channel a → (callAlone s.channel a).isSome

/-- The accepted values are those received, in this order, and then those of the
    buffer. -/
theorem RefinesFifo.accepted_eq [DecidableEq SF] [DecidableEq RF] {capacity : Capacity}
    {values : SF → V} {s : History SF RF Waker V} (h : RefinesFifo capacity values s) :
    accepted values s.log =
      (events values s.log).filterMap BoundedFifo.Event.taken ++ s.channel.buffer :=
  h.run.accepted_eq

-- ============================================================================
-- The invariant
-- ============================================================================

/-- The ring has gone by the events of the log. -/
structure RingLog (values : SF → V) (r : Ring V)
    (log : List (Call SF RF Waker V × Outcome V)) : Prop where
  rest : Rest r
  answered : ∀ e ∈ log, (event values e).isSome
  run : BoundedFifo.Run r.capacity.val (events values log) r.buffer
  entered : r.claimed.map Prod.snd = accepted values log

/-- The futures that have given their values away are those the log says. -/
structure FutureLog [DecidableEq SF] (values : SF → V) (futures : SF → SendFuture V)
    (log : List (Call SF RF Waker V × Outcome V)) : Prop where
  unsent : ∀ f, (futures f).status = .fresh ∨ (futures f).status = .pending →
    (futures f).value = some (values f)
  sent_once : ∀ f, log.countP (sentBy f) = if (futures f).value.isSome then 0 else 1

namespace RingLog

variable {values : SF → V} {r r' : Ring V} {log : List (Call SF RF Waker V × Outcome V)}
  {entry : Call SF RF Waker V × Outcome V} {e : BoundedFifo.Event V}

theorem events_snoc (h_entry : event values entry = some e) :
    events values (log ++ [entry]) = events values log ++ [e] := by
  rw [events, List.filterMap_append, List.filterMap_cons, h_entry]
  rfl

theorem accepted_snoc (h_entry : event values entry = some e) :
    accepted values (log ++ [entry]) = accepted values log ++ e.accepted.toList := by
  rw [accepted, events_snoc h_entry, List.filterMap_append, List.filterMap_cons]
  cases e.accepted <;> rfl

/-- The ring goes on by one event. -/
theorem snoc (h : RingLog values r log) (h_entry : event values entry = some e)
    (h_rest : Rest r') (h_capacity : r'.capacity = r.capacity)
    (h_step : BoundedFifo.Step r.capacity.val r.buffer e r'.buffer)
    (h_entered : r'.claimed.map Prod.snd = r.claimed.map Prod.snd ++ e.accepted.toList) :
    RingLog values r' (log ++ [entry]) where
  rest := h_rest
  answered := by
    intro x h_x
    rcases List.mem_append.mp h_x with h_x | h_x
    · exact h.answered x h_x
    · obtain rfl : x = entry := by simpa using h_x
      rw [h_entry]
      rfl
  run := by
    rw [events_snoc h_entry, h_capacity]
    exact .snoc h.run h_step
  entered := by rw [h_entered, accepted_snoc h_entry, h.entered]

/-- The length of the list of accepted values is the next position. -/
theorem length_claimed (h : RingLog values r log) :
    r.claimed.length = (accepted values log).length := by
  rw [← h.entered, List.length_map]

/-- A call that sends. -/
theorem put (h : RingLog values r log) {value : V}
    (h_entry : event values entry = some (.accept value)) (h_room : r.len.toNat < r.capacity.val)
    (h_few : (accepted values (log ++ [entry])).length < 2 ^ 64) :
    RingLog values (r.put value) (log ++ [entry]) := by
  have h_length : (accepted values (log ++ [entry])).length = r.claimed.length + 1 := by
    rw [accepted_snoc h_entry, List.length_append, h.length_claimed]
    rfl
  refine h.snoc h_entry (h.rest.put value h_room (h_length ▸ h_few)) rfl ?_ ?_
  · rw [h.rest.buffer_put]
    exact .accept value (by rwa [h.rest.length_buffer])
  · show (r.claimed ++ [_]).map Prod.snd = _
    rw [List.map_append]
    rfl

/-- A call that finds no room. -/
theorem refuse (h : RingLog values r log) (h_entry : event values entry = some .refuse)
    (h_full : r.capacity.val ≤ r.len.toNat) : RingLog values r (log ++ [entry]) := by
  refine h.snoc h_entry h.rest rfl ?_ (List.append_nil _).symm
  exact .refuse (by rwa [h.rest.length_buffer])

/-- A call that receives what it has read. -/
theorem take (h : RingLog values r log)
    (h_entry : ∀ x, r.front = some x → event values entry = some (.take x.2))
    (h_some : 0 < r.len.toNat) : RingLog values r.take (log ++ [entry]) := by
  obtain ⟨x, h_front, h_buffer⟩ := h.rest.buffer_take h_some
  refine h.snoc (h_entry x h_front) (h.rest.take h_some) rfl ?_ (List.append_nil _).symm
  rw [h_buffer]
  exact .take x.2 _

/-- A call that finds no value. -/
theorem empty (h : RingLog values r log) (h_entry : event values entry = some .empty)
    (h_empty : r.len.toNat = 0) : RingLog values r (log ++ [entry]) := by
  refine h.snoc h_entry h.rest rfl ?_ (List.append_nil _).symm
  have h_nil : r.buffer = [] :=
    List.eq_nil_of_length_eq_zero (h.rest.length_buffer.trans h_empty)
  rw [h_nil]
  exact .empty

/-- A call that does nothing to the ring. -/
theorem skip (h : RingLog values r log) (h_entry : event values entry = some .skip) :
    RingLog values r (log ++ [entry]) :=
  h.snoc h_entry h.rest rfl (.skip r.buffer) (List.append_nil _).symm

end RingLog

namespace FutureLog

variable [DecidableEq SF] {values : SF → V} {futures futures' : SF → SendFuture V}
  {log : List (Call SF RF Waker V × Outcome V)} {entry : Call SF RF Waker V × Outcome V}

/-- No future gives its value away. -/
theorem keep (h : FutureLog values futures log) (h_entry : ∀ f, sentBy f entry = false)
    (h_value : ∀ f, (futures' f).value = (futures f).value)
    (h_live : ∀ f, (futures' f).status = .fresh ∨ (futures' f).status = .pending →
      (futures f).status = .fresh ∨ (futures f).status = .pending) :
    FutureLog values futures' (log ++ [entry]) where
  unsent := fun f h_f => (h_value f).trans (h.unsent f (h_live f h_f))
  sent_once := by
    intro f
    rw [List.countP_append, List.countP_singleton, h_entry, h_value, h.sent_once f]
    rfl

/-- The future `f` gives its value away. -/
theorem send (h : FutureLog values futures log) {f : SF} {waker : Waker} {value : V}
    (h_value : (futures f).value = some value) :
    FutureLog values (Function.update futures f ⟨none, false, .ready, false⟩)
      (log ++ [((.inl (.poll f waker) : Call SF RF Waker V), .inl (.poll (some (.ok ()))))]) where
  unsent := by
    intro g h_g
    by_cases h_gf : g = f
    · subst h_gf
      rw [Function.update_self] at h_g
      exact absurd h_g (by simp)
    · rw [Function.update_of_ne h_gf] at h_g ⊢
      exact h.unsent g h_g
  sent_once := by
    intro g
    rw [List.countP_append, List.countP_singleton, h.sent_once g]
    by_cases h_gf : g = f
    · subst h_gf
      rw [Function.update_self, h_value]
      simp [sentBy]
    · rw [Function.update_of_ne h_gf]
      simp [sentBy, Ne.symm h_gf]

end FutureLog

section Steps

variable [DecidableEq SF] [DecidableEq RF] {values : SF → V} {v v' : LineChannel SF RF V}
  {log : List (Call SF RF Waker V × Outcome V)} {a : Call SF RF Waker V} {o : Outcome V}

/-- The ring, after one call. -/
theorem RingLog.step (h : RingLog values v.toRing log)
    (h_futures : FutureLog values v.sendFutures log) (h_call : CallEffect v a v' o)
    (h_few : (accepted values (log ++ [(a, o)])).length < 2 ^ 64) :
    RingLog values v'.toRing (log ++ [(a, o)]) := by
  cases h_call with
  | trySend h_room =>
      rw [LineChannel.put_toRing]
      exact h.put rfl h_room h_few
  | tryFull h_full => exact h.refuse rfl h_full
  | @send f waker value h_status h_room h_value =>
      obtain rfl : values f = value := by
        rw [h_futures.unsent f h_status] at h_value
        exact Option.some.inj h_value
      show RingLog values (v.put (values f)).toRing _
      rw [LineChannel.put_toRing]
      exact h.put rfl h_room h_few
  | @sendPark f waker h_status h_full =>
      refine h.refuse rfl (Nat.not_lt.mp fun h_room => ?_)
      rw [h_futures.unsent f h_status] at h_full
      exact absurd (h_full h_room) (by simp)
  | sendDrop => exact h.skip rfl
  | tryRecv h_some =>
      rw [LineChannel.take_toRing]
      exact h.take (fun x h_x => by rw [h_x]; rfl) h_some
  | tryEmpty h_empty => exact h.empty rfl h_empty
  | recv h_some =>
      show RingLog values v.take.toRing _
      rw [LineChannel.take_toRing]
      exact h.take (fun x h_x => by rw [h_x]; rfl) h_some
  | recvPark h_empty => exact h.empty rfl h_empty
  | recvDrop => exact h.skip rfl

/-- The futures, after one call. -/
theorem FutureLog.step (h : FutureLog values v.sendFutures log) (h_call : CallEffect v a v' o) :
    FutureLog values v'.sendFutures (log ++ [(a, o)]) := by
  cases h_call with
  | trySend h_room =>
      rw [LineChannel.put_sendFutures]
      exact h.keep (fun _ => rfl) (fun _ => rfl) fun _ h_f => h_f
  | tryFull h_full => exact h.keep (fun _ => rfl) (fun _ => rfl) fun _ h_f => h_f
  | send h_status h_room h_value =>
      show FutureLog values (Function.update (v.put _).sendFutures _ _) _
      rw [LineChannel.put_sendFutures]
      exact h.send h_value
  | @sendPark f waker h_status h_full =>
      refine h.keep (fun _ => rfl) (fun g => ?_) fun g h_g => ?_
      · by_cases h_gf : g = f
        · subst h_gf
          simp [LineChannel.parkSend]
        · simp [LineChannel.parkSend, h_gf]
      · by_cases h_gf : g = f
        · exact h_gf ▸ h_status
        · simpa [LineChannel.parkSend, h_gf] using h_g
  | @sendDrop f =>
      refine h.keep (fun _ => rfl) (fun g => ?_) fun g h_g => ?_
      · by_cases h_gf : g = f
        · subst h_gf
          simp [LineChannel.leaveSend]
        · simp [LineChannel.leaveSend, h_gf]
      · by_cases h_gf : g = f
        · subst h_gf
          simp [LineChannel.leaveSend] at h_g
        · simpa [LineChannel.leaveSend, h_gf] using h_g
  | tryRecv h_some | recv h_some =>
      refine h.keep (fun _ => rfl) (fun g => (v.take_sendFutures g).1) fun g h_g => ?_
      rw [← (v.take_sendFutures g).2]
      exact h_g
  | tryEmpty h_empty | recvPark h_empty | recvDrop =>
      exact h.keep (fun _ => rfl) (fun _ => rfl) fun _ h_f => h_f

omit [DecidableEq SF] [DecidableEq RF] in
theorem log_grows (entry : Call SF RF Waker V × Outcome V) :
    (accepted values log).length ≤ (accepted values (log ++ [entry])).length := by
  rw [accepted, accepted, events, events, List.filterMap_append, List.filterMap_append,
    List.length_append]
  exact Nat.le_add_right ..

theorem call_capacity (h_call : CallEffect v a v' o) : v'.capacity = v.capacity := by
  cases h_call with
  | trySend | send => exact (congrArg Ring.capacity (v.put_toRing _)).trans rfl
  | tryRecv | recv => exact (congrArg Ring.capacity v.take_toRing).trans rfl
  | tryFull | sendPark | sendDrop | tryEmpty | recvPark | recvDrop => rfl

end Steps

namespace Rest

variable {r : Ring V}

/-- The flags are those of the slots with a value not delivered. -/
theorem occupied_iff (h : Rest r) (i : Nat) :
    r.occupied i = true ↔ ∃ x ∈ r.claimed, r.data i = some x ∧ some x ∉ r.delivered := by
  rw [h.flags i]
  constructor
  · rintro ⟨n, h_n, h_lt, rfl⟩
    have h_next := List.getElem?_eq_getElem h_lt
    have h_number := fst_of_numbered h.inv.numbered h_next
    refine ⟨r.claimed[n], List.getElem_mem h_lt, ?_, ?_⟩
    · rw [h.inv.slots.written n h_n h_lt fun _ => by simp [SendPhase.unwritten], h_next]
    · rw [h.inv.mem_delivered (by rw [h_number, h_next]), h_number]
      exact Nat.not_lt.mpr h_n
  · rintro ⟨x, -, h_data, h_x⟩
    obtain ⟨h_claimed, h_slot, -⟩ := h.inv.slots.content i x h_data
    rw [h.inv.mem_delivered h_claimed] at h_x
    exact ⟨x.1, Nat.not_lt.mp h_x, (List.getElem?_eq_some_iff.mp h_claimed).1, h_slot⟩

/-- The positions, as long as they have not wrapped. -/
theorem positions_eq (h : Rest r) (h_few : r.claimed.length < 2 ^ 64) :
    r.len.toNat + r.recvPos.toNat = r.sendPos.toNat := by
  have h_len := h.len_eq
  have h_send := h.inv.counts.sendPos
  have h_recv : r.recvPos.toNat = r.delivered.length % 2 ^ 64 := h.inv.counts.recvPos
  rw [Nat.mod_eq_of_lt h_few] at h_send
  rw [Nat.mod_eq_of_lt (by omega)] at h_recv
  omega

end Rest

-- ============================================================================
-- Runs
-- ============================================================================

section Runs

variable [DecidableEq SF] [DecidableEq RF] {capacity : Capacity} {values : SF → V}

/-- Every call that can be made returns. -/
theorem callAlone_returns {c : ChannelInner SF RF Waker V} {ls : List SF} {lr : List RF}
    (hc : Quiet c ls lr) {a : Call SF RF Waker V} (h_may : MayCall c a) :
    (callAlone c a).isSome := by
  obtain ⟨⟨v, o⟩, h_v⟩ : ∃ r, (c.lined ls lr).call a = some r := by
    apply Option.isSome_iff_exists.mp
    rcases a with (value | ⟨f, waker⟩ | f | _) | (_ | ⟨f, waker⟩ | f | _)
    · rfl
    · rcases h_may with h_status | h_status <;>
        simp [LineChannel.call, LineChannel.send, ChannelInner.lined, h_status]
    · obtain ⟨h_polling, h_dropped⟩ := h_may
      cases h_status : (c.sendFutures f).status <;>
        simp_all [LineChannel.call, LineChannel.send, ChannelInner.lined]
    · exact h_may.elim
    · rfl
    · rcases h_may with h_status | h_status <;>
        simp [LineChannel.call, LineChannel.recv, ChannelInner.lined, h_status]
    · obtain ⟨h_polling, h_dropped⟩ := h_may
      cases h_status : (c.recvFutures f).status <;>
        simp_all [LineChannel.call, LineChannel.recv, ChannelInner.lined]
    · exact h_may.elim
  have h_sim := callAlone_sim hc a
  rw [h_v] at h_sim
  obtain ⟨c', h_c', -⟩ := h_sim
  rw [h_c']
  rfl

/-- The invariant of the runs with fewer than `2^64` accepted sends. -/
structure FifoInv (capacity : Capacity) (values : SF → V) (s : History SF RF Waker V) : Prop where
  quiet : ∃ ls lr, Quiet s.channel ls lr
  capacity_eq : s.channel.capacity = capacity
  ring : RingLog values s.channel.toRing s.log
  futures : FutureLog values s.channel.sendFutures s.log

theorem FifoInv.init : FifoInv capacity values (aloneMachine RF Waker capacity values).init where
  quiet := ⟨[], [], quiet_channel capacity values⟩
  capacity_eq := rfl
  ring :=
    { rest := Rest.new capacity
      answered := fun _ h_e => absurd h_e List.not_mem_nil
      run := .nil
      entered := rfl }
  futures :=
    { unsent := fun _ _ => rfl
      sent_once := fun _ => rfl }

theorem FifoInv.step {s s' : History SF RF Waker V} {a : Call SF RF Waker V}
    (hs : FifoInv capacity values s)
    (h : (aloneMachine RF Waker capacity values).step s a = some s')
    (h_few : (accepted values s'.log).length < 2 ^ 64) : FifoInv capacity values s' := by
  obtain ⟨ls, lr, h_quiet⟩ := hs.quiet
  simp only [aloneMachine] at h
  split at h
  · next c o h_call =>
      cases h
      obtain ⟨ls', lr', h_quiet', h_effect⟩ := callAlone_effect h_quiet h_call
      have h_ring : RingLog values (s.channel.lined ls lr).toRing s.log := hs.ring
      have h_futures : FutureLog values (s.channel.lined ls lr).sendFutures s.log := hs.futures
      exact
        { quiet := ⟨ls', lr', h_quiet'⟩
          capacity_eq := (call_capacity h_effect).trans hs.capacity_eq
          ring := h_ring.step h_futures h_effect h_few
          futures := h_futures.step h_effect }
  · exact absurd h (by simp)

theorem FifoInv.refines {s : History SF RF Waker V} (hs : FifoInv capacity values s)
    (h_few : (accepted values s.log).length < 2 ^ 64) : RefinesFifo capacity values s := by
  obtain ⟨ls, lr, h_quiet⟩ := hs.quiet
  have h_rest := hs.ring.rest
  have h_run : BoundedFifo.Run capacity.val (events values s.log) s.channel.buffer :=
    hs.capacity_eq ▸ hs.ring.run
  exact
    { answered := hs.ring.answered
      run := h_run
      entered := hs.ring.entered
      sent_once := hs.futures.sent_once
      len_eq := h_rest.positions_eq (by rwa [hs.ring.length_claimed])
      len_buffer := h_rest.length_buffer.symm
      len_le := h_rest.length_buffer ▸ h_run.length_le
      occupied_iff := h_rest.occupied_iff
      returns := fun a h_may => callAlone_returns h_quiet h_may }

/-- In every run of uninterrupted calls with fewer than `2^64` accepted sends, the
    channel has gone as a bounded FIFO queue of its capacity. -/
theorem refines_boundedFifo {tr : List (Call SF RF Waker V)} {s : History SF RF Waker V}
    (h_run : (aloneMachine RF Waker capacity values).exec
      (aloneMachine RF Waker capacity values).init tr = some s)
    (h_few : (accepted values s.log).length < 2 ^ 64) : RefinesFifo capacity values s := by
  have h_inv : (accepted values s.log).length < 2 ^ 64 → FifoInv capacity values s := by
    refine Machine.exec_invariant
      (P := fun s => (accepted values s.log).length < 2 ^ 64 → FifoInv capacity values s)
      (fun s a s' hs _ h_step h_few => ?_) (fun _ => FifoInv.init)
      (Machine.stepsMeet_true _ tr) h_run
    -- earlier states have accepted no more
    have h_before : (accepted values s.log).length < 2 ^ 64 := by
      simp only [aloneMachine] at h_step
      split at h_step
      · cases h_step
        exact (log_grows _).trans_lt h_few
      · exact absurd h_step (by simp)
    exact (hs h_before).step h_step h_few
  exact (h_inv h_few).refines h_few

end Runs

def capacityThree : Capacity := ⟨3, by decide, by decide⟩

/-- The channel is filled and two sends wait; one is dropped, and the other one
    goes on in the first slot after a receive.  The consumer empties the channel
    and waits. -/
def wrappedRun : List (Call Bool Unit Unit Nat) :=
  [.inl (.trySend 10), .inl (.trySend 20), .inl (.trySend 30), .inl (.poll false ()),
    .inl (.poll true ()), .inl (.trySend 40), .inl (.dropFuture true), .inr .tryRecv,
    .inl (.poll false ()), .inr .tryRecv, .inr .tryRecv, .inr .tryRecv, .inr (.poll () ())]

theorem refines_wrappedRun :
    ∃ s, (aloneMachine Unit Unit capacityThree fun f => if f then 60 else 50).exec
        (aloneMachine Unit Unit capacityThree fun f => if f then 60 else 50).init wrappedRun =
          some s ∧ RefinesFifo capacityThree (fun f => if f then 60 else 50) s := by
  obtain ⟨s, h_run, h_few⟩ : ∃ s, (aloneMachine Unit Unit capacityThree
      fun f => if f then 60 else 50).exec (aloneMachine Unit Unit capacityThree
        fun f => if f then 60 else 50).init wrappedRun = some s ∧
          (accepted (fun f => if f then 60 else 50) s.log).length < 2 ^ 64 :=
    Machine.exec_of_decide (by decide +kernel)
  exact ⟨s, h_run, refines_boundedFifo h_run h_few⟩

end Channel
end Zydon
