/-
  Zydon.Primitives.Oneshot.Waking

  Whether the receiver of a oneshot channel is woken, over every interleaving of
  the two halves.

  `send` exchanges `EMPTY` for `READY` and tries again if the receiver has parked
  in between.  `drop` stores `CLOSED` without looking again: a receiver that has
  parked after `drop` loaded `EMPTY` is not woken (`asleep_closedUnseen`).  Every
  other receiver is (`awake_iff`).
-/

import Zydon.Primitives.Oneshot.Delivery

namespace Zydon
namespace Oneshot

open Lib

variable {T W : Type*}

-- ============================================================================
-- Parked receivers
-- ============================================================================

/-- `send` or `drop` has returned. -/
def SendPc.finished : SendPc T W → Bool
  | .sent _ _ | .dropped => true
  | _ => false

/-- The waker of the last poll, which has returned `Pending`. -/
def RecvPc.pending : RecvPc T W → Option W
  | .idle _ last => last
  | _ => none

/-- The receiver is registered and between two polls. -/
def RecvPc.parked : RecvPc T W → Bool
  | .idle registered _ => registered
  | _ => false

/-- If the sender has finished and the last poll has returned `Pending`, the waker
    of that poll has been invoked. -/
def Awake (s : Halves T W) : Prop :=
  s.left.finished = true → ∀ w, s.right.pending = some w → w ∈ s.shared.invoked

/-- `drop` does not store `CLOSED` over the state of a parked receiver after it has
    loaded `EMPTY`. -/
def SeesParked (s : Halves T W) : SendAction T ⊕ RecvAction W → Prop
  | .inl .next =>
      match s.left with
      | .closeEmpty => s.right.parked = false
      | _ => True
  | _ => True

-- ============================================================================
-- The invariant
-- ============================================================================

/-- The state is not `EMPTY` any more: the receiver has registered. -/
def RecvPc.registered : RecvPc T W → Bool
  | .idle registered _ | .storeWaker registered _ => registered
  | .recheck _ => true
  | _ => false

/-- The waker the receiver has stored last. -/
def RecvPc.stored : RecvPc T W → Option W
  | .idle _ last => last
  | .exchange w | .recheck w => some w
  | _ => none

/-- The waker `w` is on its way: in its cell, with the sender, or invoked. -/
def Handed (s : OneshotInner T W) (w : W) : SendPc T W → Prop
  | .takeWaker _ | .dropTakeWaker => s.recvWaker = some w
  | .wake _ w' | .dropWake w' => w' = w
  | .sent _ _ | .dropped => w ∈ s.invoked
  | _ => True

/-- A future is registered once a poll has returned `Pending`, and nobody is woken
    before `send` or `drop` is over. -/
structure Calm (s : OneshotInner T W) (p : SendPc T W) (q : RecvPc T W) : Prop where
  parked : q.pending.isSome = q.parked
  quiet : p.finished = false → s.invoked = []

/-- What the sender finds when it looks for a receiver to wake. -/
structure Watched (s : OneshotInner T W) (p : SendPc T W) (q : RecvPc T W) : Prop where
  registered : q.registered = true → s.state ≠ .empty
  stored : s.state = .empty ∨ s.state = .waiting → ∀ w, q.stored = some w → s.recvWaker = some w
  handed : ∀ w, q.pending = some w → Handed s w p

variable {s s' : OneshotInner T W} {p p' : SendPc T W} {q q' : RecvPc T W}

theorem calm_new : Calm (T := T) (W := W) .new .idle (.idle false none) where
  parked := rfl
  quiet := fun _ => rfl

/-- A receiver whose last poll returned `Pending` is parked. -/
theorem Calm.parked_of_pending (h : Calm s p q) {w : W} (h_w : q.pending = some w) :
    q.parked = true := by
  rw [← h.parked, h_w]
  rfl

theorem Calm.sendEffect (h : Calm s p q) (h_step : SendEffect s p s' p') : Calm s' p' q where
  parked := h.parked
  quiet := by
    have h_quiet : s.invoked = [] := h.quiet (by cases h_step <;> rfl)
    intro h_p'
    cases h_step <;> first | exact h_quiet | exact nomatch h_p'

theorem Calm.recvEffect (h : Calm s p q) (h_step : RecvEffect s q s' q') : Calm s' p q' where
  parked := by cases h_step <;> rfl
  quiet := by
    have h_invoked : s'.invoked = s.invoked := by cases h_step <;> rfl
    rw [h_invoked]
    exact h.quiet

theorem watched_new : Watched (T := T) (W := W) .new .idle (.idle false none) where
  registered := fun h => nomatch h
  stored := fun _ _ h => nomatch h
  handed := fun _ h => nomatch h

theorem RecvPc.awaiting_of_stored {w : W} (h : q.stored = some w) : q.awaiting = true := by
  cases q <;> first | rfl | exact nomatch h

theorem RecvPc.stored_of_pending {w : W} (h : q.pending = some w) : q.stored = some w := by
  cases q <;> first | exact h | exact nomatch h

theorem RecvPc.registered_of_parked (h : q.parked = true) : q.registered = true := by
  cases q <;> first | exact h | exact nomatch h

theorem RecvPc.awaiting_of_registered (h : q.registered = true) : q.awaiting = true := by
  cases q <;> first | rfl | exact nomatch h

/-- A waker that a finished sender has to take is the one in the cell. -/
theorem Watched.in_cell (h : Watched s p q) (h_state : s.state = .waiting) {w : W}
    (h_w : q.pending = some w) : s.recvWaker = some w :=
  h.stored (.inr h_state) w (RecvPc.stored_of_pending h_w)

-- ============================================================================
-- Steps
-- ============================================================================

/-- The sender moves without a store to the state or to the cell of the waker. -/
theorem Watched.sendMove (h : Watched s p q) (h_handed : ∀ w, q.pending = some w → Handed s w p') :
    Watched s p' q :=
  { h with handed := h_handed }

/-- A store of `READY` or `CLOSED`. -/
theorem Watched.sendStore {state : ChannelState} (h_empty : state ≠ .empty)
    (h_waiting : state ≠ .waiting) (h_handed : ∀ w, q.pending = some w → Handed s w p') :
    Watched (s.setState state) p' q where
  registered := fun _ => h_empty
  stored := fun h_state => absurd h_state (not_or.mpr ⟨h_empty, h_waiting⟩)
  handed := fun w h_w => by
    have h_p' := h_handed w h_w
    cases p' <;> exact h_p'

/-- The sender takes the waker, when the state has changed for good. -/
theorem Watched.sendTake
    (h_state : q.awaiting = true → s.state ≠ .empty ∧ s.state ≠ .waiting)
    (h_handed : ∀ w, q.pending = some w → Handed { s with recvWaker := none } w p') :
    Watched { s with recvWaker := none } p' q where
  registered := fun h_q => (h_state (RecvPc.awaiting_of_registered h_q)).1
  stored := fun h_or _ h_w =>
    absurd h_or (not_or.mpr (h_state (RecvPc.awaiting_of_stored h_w)))
  handed := h_handed

theorem RecvPc.awaiting_of_pending {w : W} (h : q.pending = some w) : q.awaiting = true :=
  RecvPc.awaiting_of_stored (RecvPc.stored_of_pending h)

theorem Watched.sendEffect (h : Watched s p q) (h_inv : Inv s p q) (h_calm : Calm s p q)
    (h_step : SendEffect s p s' p') (h_sees : p = .closeEmpty → q.parked = false) :
    Watched s' p' q := by
  -- the state is still `WAITING` when the sender stores over it
  have h_waiting : ∀ w, q.pending = some w → (Undelivered s p → s.state = .waiting) →
      s.recvWaker = some w := fun w h_w h_state =>
    h.in_cell (h_state (h_inv.undelivered (RecvPc.awaiting_of_pending h_w))) h_w
  cases h_step with
  | send v =>
      exact { h with handed := fun _ _ => trivial }
  | dropWaiting h_state => exact h.sendMove fun _ _ => trivial
  | dropEmpty h_state => exact h.sendMove fun _ _ => trivial
  | dropOther h_not_waiting h_empty =>
      refine h.sendMove fun w h_w => ?_
      have h_open := h_inv.undelivered (RecvPc.awaiting_of_pending h_w)
      exact absurd h_open (not_or.mpr ⟨h_empty, h_not_waiting⟩)
  | loadEmpty v h_state => exact h.sendMove fun _ _ => trivial
  | loadWaiting v h_state => exact h.sendMove fun _ _ => trivial
  | loadOther v h_not_waiting h_empty => exact h.sendMove fun _ _ => trivial
  | exchanged v h_state =>
      -- a receiver that has parked would have left `EMPTY`
      refine Watched.sendStore (by decide) (by decide) fun w h_w => ?_
      have h_registered := RecvPc.registered_of_parked (h_calm.parked_of_pending h_w)
      exact absurd h_state (h.registered h_registered)
  | exchangeFailed v h_state => exact h.sendMove fun _ _ => trivial
  | storedReady v =>
      refine Watched.sendStore (by decide) (by decide) fun w h_w => ?_
      exact h_waiting w h_w fun h_open => h_open.1
  | tookWaker v w h_waker =>
      refine Watched.sendTake (fun h_q => ?_) fun w' h_w' => ?_
      · have h_ready := (h_inv.undelivered h_q).1
        exact ⟨by rw [h_ready]; decide, by rw [h_ready]; decide⟩
      · exact Option.some.inj (h_waker.symm.trans (h.handed w' h_w'))
  | noWaker v h_waker =>
      exact h.sendMove fun w h_w => nomatch h_waker.symm.trans (h.handed w h_w)
  | woke v w =>
      refine { h with handed := fun w' h_w' => ?_ }
      obtain rfl : w = w' := h.handed w' h_w'
      exact List.mem_append_right _ (List.mem_singleton_self w)
  | closedWaiting =>
      exact Watched.sendStore (by decide) (by decide) fun w h_w => h_waiting w h_w id
  | dropTookWaker w h_waker =>
      refine Watched.sendTake (fun h_q => ?_) fun w' h_w' => ?_
      · have h_closed : s.state = .closed := h_inv.undelivered h_q
        exact ⟨by rw [h_closed]; decide, by rw [h_closed]; decide⟩
      · exact Option.some.inj (h_waker.symm.trans (h.handed w' h_w'))
  | dropNoWaker h_waker =>
      exact h.sendMove fun w h_w => nomatch h_waker.symm.trans (h.handed w h_w)
  | dropWoke w =>
      refine { h with handed := fun w' h_w' => ?_ }
      obtain rfl : w = w' := h.handed w' h_w'
      exact List.mem_append_right _ (List.mem_singleton_self w)
  | closedEmpty =>
      refine Watched.sendStore (by decide) (by decide) fun w h_w => ?_
      have h_parked := h_calm.parked_of_pending h_w
      exact nomatch h_parked.symm.trans (h_sees rfl)

/-- A receiver that does not wait any more is owed nothing. -/
theorem Watched.of_not_awaiting (h_q : q.awaiting = false) : Watched s p q where
  registered := fun h => nomatch h_q.symm.trans (RecvPc.awaiting_of_registered h)
  stored := fun _ _ h_w => nomatch h_q.symm.trans (RecvPc.awaiting_of_stored h_w)
  handed := fun _ h_w => nomatch h_q.symm.trans (RecvPc.awaiting_of_pending h_w)

/-- While the state is `WAITING` nothing is handed over yet. -/
theorem Undelivered.handed (h : Undelivered s p) (h_state : s.state = .waiting) (w : W) :
    Handed s w p := by
  cases p with
  | takeWaker v | wake v w' | sent v result => exact nomatch h_state.symm.trans h.1
  | dropTakeWaker | dropWake w' | dropped => exact nomatch h_state.symm.trans h
  | idle | load v | exchange v | storeReady v | closeWaiting | closeEmpty | unreachable =>
      exact trivial

theorem Watched.recvEffect (h : Watched s p q) (h_inv : Inv s p q)
    (h_step : RecvEffect s q s' q') : Watched s' p q' := by
  cases h_step with
  | pollReady h_state => exact .of_not_awaiting rfl
  | pollClosed h_state => exact .of_not_awaiting rfl
  | pollOpen w h_state =>
      exact ⟨h.registered, fun _ _ h_w => (nomatch h_w), fun _ h_w => (nomatch h_w)⟩
  | pollConsumed h_state => exact .of_not_awaiting rfl
  | updated w =>
      exact ⟨fun _ => h.registered rfl, fun _ _ h_w => h_w, fun _ h_w => (nomatch h_w)⟩
  | stored w =>
      exact ⟨fun h_q => (nomatch h_q), fun _ _ h_w => h_w, fun _ h_w => (nomatch h_w)⟩
  | exchanged w h_state =>
      have h_set : (s.setState .waiting).state ≠ .empty := fun h_s => nomatch h_s
      exact ⟨fun _ => h_set, fun _ => h.stored (.inl h_state), fun _ h_w => (nomatch h_w)⟩
  | exchangeFailed w h_state =>
      exact ⟨fun _ => h_state, h.stored, fun _ h_w => (nomatch h_w)⟩
  | recheckReady w h_state => exact .of_not_awaiting rfl
  | recheckClosed w h_state => exact .of_not_awaiting rfl
  | pending w h_ready h_closed =>
      have h_open := h_inv.undelivered rfl
      have h_empty : s.state ≠ .empty := h.registered rfl
      have h_consumed := h_open.ne_consumed
      have h_state : s.state = .waiting := by
        cases h_s : s.state <;> simp_all
      exact ⟨fun _ => h_empty, h.stored, fun w' _ => h_open.handed h_state w'⟩
  | consumed => exact .of_not_awaiting rfl
  | took v h_value => exact .of_not_awaiting rfl
  | noValue h_value => exact .of_not_awaiting rfl
  | dropped =>
      exact ⟨fun h_q => (nomatch h_q), fun _ _ h_w => (nomatch h_w),
        fun _ h_w => (nomatch h_w)⟩

-- ============================================================================
-- Runs
-- ============================================================================

variable {m m' : Halves T W} {a : SendAction T ⊕ RecvAction W}

theorem calm_step (h : Calm m.shared m.left m.right) (h_step : (oneshot T W).step m a = some m') :
    Calm m'.shared m'.left m'.right := by
  rcases oneshot_step h_step with ⟨h_effect, h_right⟩ | ⟨h_effect, h_left⟩
  · rw [h_right]
    exact h.sendEffect h_effect
  · rw [h_left]
    exact h.recvEffect h_effect

theorem calm_of_reachable (h : (oneshot T W).Reachable m) : Calm m.shared m.left m.right :=
  h.invariant (P := fun m => Calm m.shared m.left m.right) calm_new
    fun _ _ _ h_calm h_step => calm_step h_calm h_step

/-- A step that sees a parked receiver keeps it watched. -/
theorem watched_step (h_inv : Inv m.shared m.left m.right) (h_calm : Calm m.shared m.left m.right)
    (h : Watched m.shared m.left m.right) (h_sees : SeesParked m a)
    (h_step : (oneshot T W).step m a = some m') : Watched m'.shared m'.left m'.right := by
  cases a with
  | inl a =>
      obtain ⟨s, p, h_send, rfl⟩ := Pair.step_left_eq_some h_step
      refine h.sendEffect h_inv h_calm (sendStep_effect h_send) fun h_p => ?_
      change sendStep m.shared m.left a = _ at h_send
      rw [h_p] at h_send
      cases a with
      | next => simpa only [SeesParked, h_p] using h_sees
      | send v | drop => exact nomatch h_send
  | inr a =>
      obtain ⟨s, q, h_recv, rfl⟩ := Pair.step_right_eq_some h_step
      exact h.recvEffect h_inv (recvStep_effect h_recv)

theorem Watched.awake (h : Watched m.shared m.left m.right) : Awake m := by
  intro h_p w h_w
  have h_handed := h.handed w h_w
  cases h_left : m.left <;> rw [h_left] at h_p h_handed <;>
    first | exact h_handed | exact nomatch h_p

/-- A parked receiver that `drop` does not see is left asleep. -/
theorem not_awake (h : (oneshot T W).Reachable m) (h_p : m.left = .closeEmpty)
    (h_q : m.right.parked = true) :
    ∃ m', (oneshot T W).step m (.inl .next) = some m' ∧ ¬ Awake m' := by
  have h_calm := calm_of_reachable h
  obtain ⟨w, h_w⟩ := Option.isSome_iff_exists.mp (h_calm.parked.trans h_q)
  refine ⟨{ m with shared := m.shared.setState .closed, left := .dropped }, ?_, fun h_awake => ?_⟩
  · simp only [oneshot, pair, sender, h_p, sendStep]
  · have h_mem : w ∈ m.shared.invoked := h_awake rfl w h_w
    rw [h_calm.quiet (by rw [h_p]; rfl)] at h_mem
    exact List.not_mem_nil h_mem

/-- A run leaves no receiver asleep, in any state it goes through, exactly when
    `drop` sees every parked receiver. -/
theorem awake_iff (tr : List (SendAction T ⊕ RecvAction W)) :
    (∀ pre post m, tr = pre ++ post → (oneshot T W).exec (oneshot T W).init pre = some m →
      Awake m) ↔
    (oneshot T W).StepsMeet SeesParked (oneshot T W).init tr := by
  constructor
  · intro h_awake
    refine Machine.stepsMeet_iff.mpr fun pre a post m h_tr h_run => ?_
    cases a with
    | inr a => exact trivial
    | inl a =>
        cases a with
        | send v | drop => exact trivial
        | next =>
            cases h_p : m.left <;> simp only [SeesParked, h_p]
            cases h_q : m.right.parked with
            | false => rfl
            | true =>
                obtain ⟨m', h_step, h_asleep⟩ := not_awake ⟨pre, h_run⟩ h_p h_q
                refine absurd (h_awake (pre ++ [.inl .next]) post m' ?_ ?_) h_asleep
                · rw [h_tr, List.append_assoc]
                  rfl
                · exact Machine.exec_append_eq_some.mpr
                    ⟨m, h_run, Machine.exec_cons_eq_some.mpr ⟨m', h_step, rfl⟩⟩
  · intro h_meet pre post m h_tr h_run
    rw [h_tr] at h_meet
    obtain ⟨-, -, h_watched⟩ := Machine.exec_invariant
      (P := fun m : Halves T W => Inv m.shared m.left m.right ∧
        Calm m.shared m.left m.right ∧ Watched m.shared m.left m.right)
      (fun m a m' h h_sees h_step => ⟨inv_step h.1 h_step, calm_step h.2.1 h_step,
        watched_step h.1 h.2.1 h.2.2 h_sees h_step⟩)
      ⟨inv_new, calm_new, watched_new⟩ h_meet.of_append h_run
    exact h_watched.awake

/-- The receiver parks between the load and the store of `drop`. -/
def closedUnseen : List (SendAction Nat ⊕ RecvAction Nat) :=
  [.inl .drop, .inr (.poll 1), .inr .next, .inr .next, .inr .next, .inl .next]

/-- The receiver is left asleep. -/
theorem asleep_closedUnseen :
    ∃ s, (oneshot Nat Nat).exec (oneshot Nat Nat).init closedUnseen = some s ∧ ¬ Awake s := by
  have h_replay : ((oneshot Nat Nat).exec (oneshot Nat Nat).init closedUnseen).any
      (fun s => decide (s.left.finished = true ∧ s.right.pending = some 1 ∧ 1 ∉ s.shared.invoked)) =
        true := by decide +kernel
  obtain ⟨s, h_run, h_left, h_right, h_invoked⟩ := Machine.exec_of_decide h_replay
  exact ⟨s, h_run, fun h_awake => h_invoked (h_awake h_left 1 h_right)⟩

end Oneshot
end Zydon
