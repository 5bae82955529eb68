/-
  Zydon.Primitives.Oneshot.Delivery

  What the receiver of a oneshot channel gets, over every interleaving of the two
  halves: the value that was sent, or that the sender was dropped.

  Until the receiver has seen `READY` or `CLOSED` the shared state is what the
  sender has made of it (`Undelivered`), whatever the receiver does; from then on
  the sender changes neither the state nor the value any more (`Delivered`).
-/

import Zydon.Primitives.Oneshot.Basic

namespace Zydon
namespace Oneshot

open Lib

variable {T W : Type*}

-- ============================================================================
-- The invariant
-- ============================================================================

/-- The value of which `READY` has been stored. -/
def SendPc.announced : SendPc T W → Option T
  | .takeWaker v | .wake v _ | .sent v _ => some v
  | _ => none

/-- `CLOSED` has been stored after `WAITING` was loaded, or `drop` has returned. -/
def SendPc.closed : SendPc T W → Bool
  | .dropTakeWaker | .dropWake _ | .dropped => true
  | _ => false

/-- The receiver has seen neither `READY` nor `CLOSED`. -/
def RecvPc.awaiting : RecvPc T W → Bool
  | .idle _ _ | .storeWaker _ _ | .exchange _ | .recheck _ | .dropped => true
  | _ => false

/-- The shared state with the sender at `p`, as long as the receiver is awaiting. -/
def Undelivered (s : OneshotInner T W) : SendPc T W → Prop
  | .idle | .closeEmpty => s.state = .empty ∨ s.state = .waiting
  | .load v | .exchange v => (s.state = .empty ∨ s.state = .waiting) ∧ s.value = some v
  | .storeReady v => s.state = .waiting ∧ s.value = some v
  | .closeWaiting => s.state = .waiting
  | .takeWaker v | .wake v _ | .sent v _ => s.state = .ready ∧ s.value = some v
  | .dropTakeWaker | .dropWake _ | .dropped => s.state = .closed
  | .unreachable => False

/-- The shared state once the receiver at `q` has seen `READY` or `CLOSED`. -/
def Delivered (s : OneshotInner T W) (p : SendPc T W) : RecvPc T W → Prop
  | .consume => ∃ v, p.announced = some v ∧ s.state = .ready ∧ s.value = some v
  | .takeValue => ∃ v, p.announced = some v ∧ s.state = .consumed ∧ s.value = some v
  | .done (.ok v) => p.announced = some v ∧ s.value = none
  | .done (.error _) => p.closed = true
  | _ => False

/-- The invariant of the two halves. -/
structure Inv (s : OneshotInner T W) (p : SendPc T W) (q : RecvPc T W) : Prop where
  undelivered : q.awaiting = true → Undelivered s p
  delivered : q.awaiting = false → Delivered s p q

variable {s s' : OneshotInner T W} {p p' : SendPc T W} {q q' : RecvPc T W}

theorem inv_new : Inv (T := T) (W := W) .new .idle (.idle false none) where
  undelivered := fun _ => .inl rfl
  delivered := fun h => nomatch h

namespace Undelivered

theorem of_ready (h : Undelivered s p) (h_state : s.state = .ready) :
    ∃ v, p.announced = some v ∧ s.value = some v := by
  cases p <;> simp_all [Undelivered, SendPc.announced]

theorem of_closed (h : Undelivered s p) (h_state : s.state = .closed) : p.closed = true := by
  cases p <;> simp_all [Undelivered, SendPc.closed]

theorem ne_consumed (h : Undelivered s p) : s.state ≠ .consumed := by
  cases p <;> simp_all [Undelivered] <;> rcases h with h | h <;> simp_all

/-- The receiver announces itself. -/
theorem setWaiting (h : Undelivered s p) (h_state : s.state = .empty) :
    Undelivered (s.setState .waiting) p := by
  cases p <;> simp_all [Undelivered, OneshotInner.setState]

/-- The receiver stores its waker. -/
theorem storeWaker (h : Undelivered s p) (waker : Option W) :
    Undelivered { s with recvWaker := waker } p := by
  cases p <;> exact h

/-- What the sender makes of the state. -/
theorem sendEffect (h : Undelivered s p) (h_step : SendEffect s p s' p') :
    Undelivered s' p' := by
  cases h_step with
  | send v => exact ⟨h, rfl⟩
  | dropWaiting h_state => exact h_state
  | dropEmpty h_state => exact h
  | dropOther h_waiting h_empty => exact absurd h (not_or.mpr ⟨h_empty, h_waiting⟩)
  | loadEmpty v h_state => exact h
  | loadWaiting v h_state => exact ⟨h_state, h.2⟩
  | loadOther v h_waiting h_empty => exact absurd h.1 (not_or.mpr ⟨h_empty, h_waiting⟩)
  | exchanged v h_state => exact ⟨rfl, h.2⟩
  | exchangeFailed v h_state => exact h
  | storedReady v => exact ⟨rfl, h.2⟩
  | tookWaker v w h_waker => exact h
  | noWaker v h_waker => exact h
  | woke v w => exact h
  | closedWaiting => exact rfl
  | dropTookWaker w h_waker => exact h
  | dropNoWaker h_waker => exact h
  | dropWoke w => exact h
  | closedEmpty => exact rfl

end Undelivered

/-- The sender has nothing more to do with the state or the value. -/
def SendPc.settled (p : SendPc T W) : Prop := (∃ v, p.announced = some v) ∨ p.closed = true

theorem Delivered.settled (h : Delivered s p q) : p.settled := by
  cases q with
  | consume | takeValue =>
      obtain ⟨v, h_v, -⟩ := h
      exact .inl ⟨v, h_v⟩
  | done result =>
      cases result with
      | ok v => exact .inl ⟨v, h.1⟩
      | error e => exact .inr h
  | idle _ _ | storeWaker _ _ | exchange _ | recheck _ | dropped | unreachable => exact h.elim

/-- A settled sender leaves the state and the value alone. -/
theorem SendPc.settled.sendEffect (h : p.settled) (h_step : SendEffect s p s' p') :
    s'.state = s.state ∧ s'.value = s.value ∧ p'.announced = p.announced ∧
      p'.closed = p.closed := by
  cases h_step with
  | tookWaker _ _ _ | noWaker _ _ | woke _ _ => exact ⟨rfl, rfl, rfl, rfl⟩
  | dropTookWaker _ _ | dropNoWaker _ | dropWoke _ => exact ⟨rfl, rfl, rfl, rfl⟩
  | send _ | dropWaiting _ | dropEmpty _ | dropOther _ _ | loadEmpty _ _ | loadWaiting _ _
  | loadOther _ _ _ | exchanged _ _ | exchangeFailed _ _ | storedReady _ | closedWaiting
  | closedEmpty =>
      rcases h with ⟨v, h_v⟩ | h_closed
      · exact nomatch h_v
      · exact nomatch h_closed

/-- What the receiver has seen stays. -/
theorem Delivered.sendEffect (h : Delivered s p q) (h_step : SendEffect s p s' p') :
    Delivered s' p' q := by
  obtain ⟨h_state, h_value, h_announced, h_closed⟩ := h.settled.sendEffect h_step
  cases q with
  | consume | takeValue =>
      obtain ⟨v, h_v, h_s, h_some⟩ := h
      exact ⟨v, h_announced.trans h_v, h_state.trans h_s, h_value.trans h_some⟩
  | done result =>
      cases result with
      | ok v => exact ⟨h_announced.trans h.1, h_value.trans h.2⟩
      | error e => exact h_closed.trans h
  | idle _ _ | storeWaker _ _ | exchange _ | recheck _ | dropped | unreachable => exact h.elim

-- ============================================================================
-- Steps
-- ============================================================================

theorem Inv.sendEffect (h : Inv s p q) (h_step : SendEffect s p s' p') : Inv s' p' q where
  undelivered := fun h_q => (h.undelivered h_q).sendEffect h_step
  delivered := fun h_q => (h.delivered h_q).sendEffect h_step

/-- The receiver goes on waiting. -/
theorem Inv.of_undelivered (h : Undelivered s p) (h_q : q.awaiting = true) : Inv s p q where
  undelivered := fun _ => h
  delivered := fun h_not => absurd (h_q.symm.trans h_not) (by decide)

/-- The receiver has seen the end. -/
theorem Inv.of_delivered (h : Delivered s p q) (h_q : q.awaiting = false) : Inv s p q where
  undelivered := fun h_not => absurd (h_q.symm.trans h_not) (by decide)
  delivered := fun _ => h

/-- A receiver that sees `READY` takes a value that is there. -/
theorem Undelivered.consume (h : Undelivered s p) (h_state : s.state = .ready) :
    Inv s p .consume := by
  obtain ⟨v, h_v, h_value⟩ := h.of_ready h_state
  exact .of_delivered ⟨v, h_v, h_state, h_value⟩ rfl

theorem Inv.recvEffect (h : Inv s p q) (h_step : RecvEffect s q s' q') : Inv s' p q' := by
  cases h_step with
  | pollReady h_state => exact (h.undelivered rfl).consume h_state
  | pollClosed h_state => exact .of_delivered ((h.undelivered rfl).of_closed h_state) rfl
  | pollOpen w h_state => exact .of_undelivered (h.undelivered rfl) rfl
  | pollConsumed h_state => exact absurd h_state (h.undelivered rfl).ne_consumed
  | updated w => exact .of_undelivered ((h.undelivered rfl).storeWaker (some w)) rfl
  | stored w => exact .of_undelivered ((h.undelivered rfl).storeWaker (some w)) rfl
  | exchanged w h_state => exact .of_undelivered ((h.undelivered rfl).setWaiting h_state) rfl
  | exchangeFailed w h_state => exact .of_undelivered (h.undelivered rfl) rfl
  | recheckReady w h_state => exact (h.undelivered rfl).consume h_state
  | recheckClosed w h_state => exact .of_delivered ((h.undelivered rfl).of_closed h_state) rfl
  | pending w h_ready h_closed => exact .of_undelivered (h.undelivered rfl) rfl
  | consumed =>
      obtain ⟨v, h_v, -, h_value⟩ := h.delivered rfl
      exact .of_delivered ⟨v, h_v, rfl, h_value⟩ rfl
  | took v h_value =>
      obtain ⟨v', h_v, -, h_value'⟩ := h.delivered rfl
      obtain rfl : v' = v := Option.some.inj (h_value'.symm.trans h_value)
      exact .of_delivered ⟨h_v, rfl⟩ rfl
  | noValue h_value =>
      obtain ⟨v, -, -, h_value'⟩ := h.delivered rfl
      exact nomatch h_value'.symm.trans h_value
  | dropped => exact .of_undelivered (h.undelivered rfl) rfl

/-- What a step of either half does. -/
theorem oneshot_step {s s' : Halves T W} {a : SendAction T ⊕ RecvAction W}
    (h : (oneshot T W).step s a = some s') :
    SendEffect s.shared s.left s'.shared s'.left ∧ s'.right = s.right ∨
      RecvEffect s.shared s.right s'.shared s'.right ∧ s'.left = s.left := by
  cases a with
  | inl a =>
      obtain ⟨m, p, h_step, rfl⟩ := Pair.step_left_eq_some h
      exact .inl ⟨sendStep_effect h_step, rfl⟩
  | inr a =>
      obtain ⟨m, q, h_step, rfl⟩ := Pair.step_right_eq_some h
      exact .inr ⟨recvStep_effect h_step, rfl⟩

theorem inv_step {s s' : Halves T W} {a : SendAction T ⊕ RecvAction W}
    (h : Inv s.shared s.left s.right) (h_step : (oneshot T W).step s a = some s') :
    Inv s'.shared s'.left s'.right := by
  rcases oneshot_step h_step with ⟨h_effect, h_right⟩ | ⟨h_effect, h_left⟩
  · rw [h_right]
    exact h.sendEffect h_effect
  · rw [h_left]
    exact h.recvEffect h_effect

theorem inv_of_reachable {s : Halves T W} (h : (oneshot T W).Reachable s) :
    Inv s.shared s.left s.right :=
  h.invariant inv_new fun _ _ _ h_inv h_step => inv_step h_inv h_step

-- ============================================================================
-- Delivery
-- ============================================================================

/-- The value with which `send` was called. -/
def SendPc.value : SendPc T W → Option T
  | .load v | .exchange v | .storeReady v | .takeWaker v | .wake v _ | .sent v _ => some v
  | _ => none

/-- The sender is dropped, or being dropped, without a call of `send`. -/
def SendPc.dropping : SendPc T W → Bool
  | .closeWaiting | .dropTakeWaker | .dropWake _ | .closeEmpty | .dropped => true
  | _ => false

/-- The result of the receiver is what the sender did, the value is gone with it,
    and no thread is in an `unreachable!()`. -/
structure DeliversOnce (s : OneshotInner T W) (p : SendPc T W) (q : RecvPc T W) : Prop where
  ok : ∀ v, q = .done (.ok v) → p.value = some v
  taken : ∀ v, q = .done (.ok v) → s.value = none
  closed : ∀ e, q = .done (.error e) → p.dropping = true
  send_reachable : p ≠ .unreachable
  recv_reachable : q ≠ .unreachable

/-- In every interleaving the receiver gets the value that was sent, or the news
    that the sender was dropped, and neither half panics. -/
theorem deliversOnce_of_reachable {s : Halves T W} (h : (oneshot T W).Reachable s) :
    DeliversOnce s.shared s.left s.right := by
  have h_inv := inv_of_reachable h
  constructor
  case ok =>
    intro v h_q
    rw [h_q] at h_inv
    have h_v : s.left.announced = some v := (h_inv.delivered rfl).1
    cases h_left : s.left <;> rw [h_left] at h_v <;> first | exact h_v | exact nomatch h_v
  case taken =>
    intro v h_q
    rw [h_q] at h_inv
    exact (h_inv.delivered rfl).2
  case closed =>
    intro e h_q
    rw [h_q] at h_inv
    have h_closed : s.left.closed = true := h_inv.delivered rfl
    cases h_left : s.left <;> rw [h_left] at h_closed <;> first | rfl | exact nomatch h_closed
  case send_reachable =>
    intro h_p
    rw [h_p] at h_inv
    cases h_q : s.right.awaiting with
    | true => exact h_inv.undelivered h_q
    | false =>
        rcases (h_inv.delivered h_q).settled with ⟨v, h_v⟩ | h_closed
        · exact nomatch h_v
        · exact nomatch h_closed
  case recv_reachable =>
    intro h_q
    rw [h_q] at h_inv
    exact h_inv.delivered rfl

/-- The value the receiver has got. -/
def RecvPc.got : RecvPc T W → Option T
  | .done (.ok v) => some v
  | _ => none

/-- The receiver parks between the load and the exchange of `send`. -/
def parkedInSend : List (SendAction Nat ⊕ RecvAction Nat) :=
  [.inl (.send 7), .inl .next, .inr (.poll 1), .inr .next, .inr .next, .inr .next, .inl .next,
    .inl .next, .inl .next, .inl .next, .inl .next, .inr (.poll 2), .inr .next, .inr .next]

theorem deliversOnce_parkedInSend :
    ∃ s, (oneshot Nat Nat).exec (oneshot Nat Nat).init parkedInSend = some s ∧
      s.right.got = some 7 ∧ DeliversOnce s.shared s.left s.right := by
  have h_replay : ((oneshot Nat Nat).exec (oneshot Nat Nat).init parkedInSend).any
      (fun s => decide (s.right.got = some 7)) = true := by decide +kernel
  obtain ⟨s, h_run, h_got⟩ := Machine.exec_of_decide h_replay
  exact ⟨s, h_run, h_got, deliversOnce_of_reachable ⟨_, h_run⟩⟩

end Oneshot
end Zydon
