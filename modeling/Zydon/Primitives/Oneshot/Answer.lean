/-
  Zydon.Primitives.Oneshot.Answer

  What `send` answers, over every interleaving with the receiver.

  A call of `send` returns after at most six steps of its own (`sendRank`), and
  the only result there is in it is `Ok`.  The receiving half leaves nothing in
  the shared state when it is dropped: `SendError::Closed` is never returned.
-/

import Zydon.Primitives.Oneshot.Delivery

namespace Zydon
namespace Oneshot

open Lib

variable {T W : Type*}

-- ============================================================================
-- The answer
-- ============================================================================

/-- The label is the sender's. -/
def isSender : SendAction T ⊕ RecvAction W → Bool
  | .inl _ => true
  | .inr _ => false

/-- What `send(v)` answers when it is called in the state `m`, whatever the
    receiving half does meanwhile: it returns, with `Closed` and the value if the
    receiving half was dropped before, with `Ok` if that is alive throughout. -/
structure SendAnswers (m : Halves T W) (v : T) : Prop where
  /-- The sender takes at most six steps, and can take the next until it has
      returned. -/
  returns : ∀ tr s, (oneshot T W).exec m (.inl (.send v) :: tr) = some s →
    tr.countP isSender ≤ 6 ∧
      ((∃ result, s.left = .sent v result) ∨ ∃ s', (oneshot T W).step s (.inl .next) = some s')
  closed_of_dropped : m.right = .dropped → ∀ tr s result,
    (oneshot T W).exec m (.inl (.send v) :: tr) = some s → s.left = .sent v result →
      result = .error (.closed v)
  ok_of_alive : ∀ tr s result, (oneshot T W).exec m (.inl (.send v) :: tr) = some s →
    s.left = .sent v result → s.right ≠ .dropped → result = .ok ()

-- ============================================================================
-- The steps of a call
-- ============================================================================

variable {s s' : OneshotInner T W} {p p' : SendPc T W} {q q' : RecvPc T W} {v : T}

/-- The steps that a call of `send` has still to take: a receiver that parks after
    the load of `EMPTY` costs it a second round of its loop. -/
def sendRank (s : OneshotInner T W) : SendPc T W → Nat
  | .load _ => if s.state = .empty then 6 else 4
  | .exchange _ => 5
  | .storeReady _ => 3
  | .takeWaker _ => 2
  | .wake _ _ => 1
  | _ => 0

/-- Inside `send` the state is one that its loop expects. -/
theorem Inv.open_of_load (h : Inv s p q) (h_p : p = .load v ∨ p = .exchange v) :
    s.state = .empty ∨ s.state = .waiting := by
  cases h_q : q.awaiting with
  | true =>
      have h_open := h.undelivered h_q
      rcases h_p with rfl | rfl <;> exact h_open.1
  | false =>
      have h_settled := (h.delivered h_q).settled
      rcases h_p with rfl | rfl <;> rcases h_settled with ⟨w, h_w⟩ | h_closed
      all_goals first | exact nomatch h_w | exact nomatch h_closed

/-- A step of a call keeps its value, and brings it closer to its end. -/
theorem Inv.send_progress (h : Inv s p q) (h_value : p.value = some v)
    (h_step : SendEffect s p s' p') : p'.value = some v ∧ sendRank s' p' < sendRank s p := by
  cases h_step with
  | send _ | dropWaiting _ | dropEmpty _ | dropOther _ _ | closedWaiting | dropTookWaker _ _
  | dropNoWaker _ | dropWoke _ | closedEmpty => exact nomatch h_value
  | loadEmpty w h_state => exact ⟨h_value, by simp [sendRank, h_state]⟩
  | loadWaiting w h_state => exact ⟨h_value, by simp [sendRank, h_state]⟩
  | loadOther w h_waiting h_empty =>
      exact absurd (h.open_of_load (.inl rfl)) (not_or.mpr ⟨h_empty, h_waiting⟩)
  | exchanged w h_state => exact ⟨h_value, by simp [sendRank]⟩
  | exchangeFailed w h_state => exact ⟨h_value, by simp [sendRank, h_state]⟩
  | storedReady w => exact ⟨h_value, by simp [sendRank]⟩
  | tookWaker w waker h_waker => exact ⟨h_value, by simp [sendRank]⟩
  | noWaker w h_waker => exact ⟨h_value, by simp [sendRank]⟩
  | woke w waker => exact ⟨h_value, by simp [sendRank]⟩

/-- The receiver never stores `EMPTY`. -/
theorem RecvEffect.empty_of_empty (h_step : RecvEffect s q s' q') (h : s'.state = .empty) :
    s.state = .empty := by
  cases h_step with
  | exchanged w h_state => exact h_state
  | consumed => exact nomatch h
  | pollReady _ | pollClosed _ | pollOpen _ _ | pollConsumed _ | updated _ | stored _
  | exchangeFailed _ _ | recheckReady _ _ | recheckClosed _ _ | pending _ _ _ | took _ _ | noValue _
  | dropped => exact h

/-- A step of the receiver leaves a call no more to do. -/
theorem RecvEffect.sendRank_le (h_step : RecvEffect s q s' q') (p : SendPc T W) :
    sendRank s' p ≤ sendRank s p := by
  cases p with
  | load w =>
      simp only [sendRank]
      by_cases h_empty : s'.state = .empty
      · apply Nat.le_of_eq
        rw [if_pos h_empty, if_pos (h_step.empty_of_empty h_empty)]
      · rw [if_neg h_empty]
        split <;> decide
  | idle | exchange | storeReady | takeWaker | wake | sent | closeWaiting | dropTakeWaker
  | dropWake | closeEmpty | dropped | unreachable => exact Nat.le_refl _

/-- A result that a step of the sender gives is `Ok`. -/
theorem SendEffect.ok_of_sent {result : Except (SendError T) Unit}
    (h_step : SendEffect s p s' p') (h_sent : p' = .sent v result) : result = .ok () := by
  cases h_step with
  | exchanged w h_state | noWaker w h_waker =>
      cases h_sent
      rfl
  | woke w waker =>
      cases h_sent
      rfl
  | send _ | loadEmpty _ _ | loadWaiting _ _ | loadOther _ _ _ | exchangeFailed _ _ | storedReady _
  | tookWaker _ _ _ | dropWaiting _ | dropEmpty _ | dropOther _ _ | closedWaiting
  | dropTookWaker _ _ | dropNoWaker _ | dropWoke _ | closedEmpty => exact nomatch h_sent

/-- A call that has not returned can go on. -/
theorem sent_or_step (h : p.value = some v) :
    (∃ result, p = .sent v result) ∨ ∃ r, sendStep s p .next = some r := by
  cases p with
  | load w =>
      right
      simp only [sendStep]
      split <;> exact ⟨_, rfl⟩
  | exchange w =>
      right
      simp only [sendStep]
      split <;> exact ⟨_, rfl⟩
  | takeWaker w =>
      right
      simp only [sendStep]
      split <;> exact ⟨_, rfl⟩
  | storeReady w => exact .inr ⟨_, rfl⟩
  | wake w waker => exact .inr ⟨_, rfl⟩
  | sent w result =>
      obtain rfl : w = v := Option.some.inj h
      exact .inl ⟨result, rfl⟩
  | idle | closeWaiting | dropTakeWaker | dropWake | closeEmpty | dropped | unreachable =>
      exact absurd h (by simp [SendPc.value])

-- ============================================================================
-- Runs
-- ============================================================================

/-- In a call of `send(v)`, of which `n` steps are done. -/
structure InSend (v : T) (n : Nat) (s : Halves T W) : Prop where
  inv : Inv s.shared s.left s.right
  value : s.left.value = some v
  rank_le : n + sendRank s.shared s.left ≤ 6

/-- A step of either half. -/
theorem InSend.step {s s' : Halves T W} {n : Nat} {a : SendAction T ⊕ RecvAction W}
    (h : InSend v n s) (h_step : (oneshot T W).step s a = some s') :
    InSend v (n + if isSender a then 1 else 0) s' := by
  have h_rank := h.rank_le
  have h_inv := inv_step h.inv h_step
  cases a with
  | inl a =>
      obtain ⟨m, p, h_send, rfl⟩ := Pair.step_left_eq_some h_step
      obtain ⟨h_value, h_less⟩ := h.inv.send_progress h.value (sendStep_effect h_send)
      refine ⟨h_inv, h_value, ?_⟩
      show n + 1 + sendRank m p ≤ 6
      omega
  | inr a =>
      obtain ⟨m, q, h_recv, rfl⟩ := Pair.step_right_eq_some h_step
      have h_same := (recvStep_effect h_recv).sendRank_le s.left
      refine ⟨h_inv, h.value, ?_⟩
      show n + 0 + sendRank m s.left ≤ 6
      omega

/-- The state after the first step of the call. -/
theorem inSend_start {m s : Halves T W} (h : (oneshot T W).Reachable m) (h_idle : m.left = .idle)
    (h_step : (oneshot T W).step m (.inl (.send v)) = some s) : InSend v 0 s := by
  have h_inv := inv_step (inv_of_reachable h) h_step
  obtain ⟨shared, p, h_send, rfl⟩ := Pair.step_left_eq_some h_step
  rw [h_idle] at h_send
  obtain ⟨rfl, rfl⟩ : _ = shared ∧ _ = p := by simpa [sender, sendStep] using h_send
  refine ⟨h_inv, rfl, ?_⟩
  simp only [sendRank]
  split <;> omega

theorem inSend_of_run {m s : Halves T W} {tr : List (SendAction T ⊕ RecvAction W)}
    (h : (oneshot T W).Reachable m) (h_idle : m.left = .idle)
    (h_run : (oneshot T W).exec m (.inl (.send v) :: tr) = some s) :
    InSend v (tr.countP isSender) s := by
  obtain ⟨m₁, h_first, h_rest⟩ := Machine.exec_cons_eq_some.mp h_run
  have h_count : 0 + tr.countP isSender < tr.countP isSender + 1 := by omega
  have h_end := Machine.exec_invariant_countP
    (fun n s a s' (h : InSend v n s) (_ : True) _ h_step => h.step h_step)
    (inSend_start h h_idle h_first) (Machine.stepsMeet_true m₁ tr) h_count h_rest
  rwa [Nat.zero_add] at h_end

/-- `send` has no other result than `Ok`. -/
theorem sent_ok {m s : Halves T W} {tr : List (SendAction T ⊕ RecvAction W)}
    {result : Except (SendError T) Unit} (h_idle : m.left = .idle)
    (h_run : (oneshot T W).exec m tr = some s) (h_sent : s.left = .sent v result) :
    result = .ok () := by
  have h_ok : ∀ w r, s.left = .sent w r → r = .ok () := by
    refine Machine.exec_invariant
      (P := fun s : Halves T W => ∀ w r, s.left = .sent w r → r = .ok ())
      (fun s a s' hs _ h_step w r h_left => ?_) (fun w r h_left => ?_)
      (Machine.stepsMeet_true m tr) h_run
    · rcases oneshot_step h_step with ⟨h_effect, -⟩ | ⟨-, h_same⟩
      · exact h_effect.ok_of_sent h_left
      · exact hs w r (h_same ▸ h_left)
    · rw [h_idle] at h_left
      exact nomatch h_left
  exact h_ok v result h_sent

/-- A call whose steps are bounded, and that can go on until it has returned, does
    return if it is left to run. -/
theorem SendAnswers.returned {m s : Halves T W} (h : SendAnswers m v)
    (h_start : (oneshot T W).step m (.inl (.send v)) = some s) :
    ∃ tr s result, (oneshot T W).exec m (.inl (.send v) :: tr) = some s ∧
      s.left = .sent v result := by
  by_contra h_never
  have h_long : ∀ k, ∃ tr s, (oneshot T W).exec m (.inl (.send v) :: tr) = some s ∧
      tr.countP isSender = k := by
    intro k
    induction k with
    | zero => exact ⟨[], s, Machine.exec_cons_eq_some.mpr ⟨s, h_start, rfl⟩, rfl⟩
    | succ k ih =>
        obtain ⟨tr, s₁, h_run, h_count⟩ := ih
        rcases (h.returns tr s₁ h_run).2 with ⟨result, h_sent⟩ | ⟨s₂, h_next⟩
        · exact absurd ⟨tr, s₁, result, h_run, h_sent⟩ h_never
        · refine ⟨tr ++ [.inl .next], s₂, ?_, ?_⟩
          · rw [← List.cons_append]
            exact Machine.exec_append_eq_some.mpr
              ⟨s₁, h_run, Machine.exec_cons_eq_some.mpr ⟨s₂, h_next, rfl⟩⟩
          · rw [List.countP_append, h_count]
            rfl
  obtain ⟨tr, s₁, h_run, h_count⟩ := h_long 7
  have h_le := (h.returns tr s₁ h_run).1
  omega

/-- A call of `send` answers as it should exactly when the receiving half has not
    been dropped before it. -/
theorem sendAnswers_iff {m : Halves T W} (h : (oneshot T W).Reachable m) (h_idle : m.left = .idle)
    (v : T) : SendAnswers m v ↔ m.right ≠ .dropped := by
  constructor
  · intro h_answers h_dropped
    have h_start : (oneshot T W).step m (.inl (.send v)) =
        some { m with shared := { m.shared with value := some v }, left := .load v } := by
      simp [oneshot, pair, sender, sendStep, h_idle]
    obtain ⟨tr, s, result, h_run, h_sent⟩ := h_answers.returned h_start
    have h_closed := h_answers.closed_of_dropped h_dropped tr s result h_run h_sent
    rw [sent_ok h_idle h_run h_sent] at h_closed
    exact absurd h_closed (by simp)
  · intro h_alive
    constructor
    case returns =>
      intro tr s h_run
      have h_in := inSend_of_run h h_idle h_run
      have h_rank := h_in.rank_le
      refine ⟨by omega, ?_⟩
      rcases sent_or_step (s := s.shared) h_in.value with h_sent | ⟨r, h_next⟩
      · exact .inl h_sent
      · exact .inr ⟨{ s with shared := r.1, left := r.2 }, by
          simp [oneshot, pair, sender, h_next]⟩
    case closed_of_dropped => exact fun h_dropped => absurd h_dropped h_alive
    case ok_of_alive => exact fun tr s result h_run h_sent _ => sent_ok h_idle h_run h_sent

/-- The receiver has been polled, and has parked. -/
def parkFirst : List (SendAction Nat ⊕ RecvAction Nat) :=
  [.inr (.poll 1), .inr .next, .inr .next, .inr .next]

theorem sendAnswers_parkFirst :
    ∃ m, (oneshot Nat Nat).exec (oneshot Nat Nat).init parkFirst = some m ∧
      m.right = .idle true (some 1) ∧ SendAnswers m 7 :=
  ⟨_, rfl, rfl, (sendAnswers_iff ⟨parkFirst, rfl⟩ rfl 7).mpr nofun⟩

/-- The receiver parks and is dropped: `send(7)` answers `Ok`, and the value is
    lost. -/
theorem dropped_not_told :
    ∃ m, (oneshot Nat Nat).exec (oneshot Nat Nat).init (parkFirst ++ [.inr .drop]) = some m ∧
      m.right = .dropped ∧
      (∃ s, (oneshot Nat Nat).exec m
          [.inl (.send 7), .inl .next, .inl .next, .inl .next, .inl .next] = some s ∧
        s.left = .sent 7 (.ok ())) ∧
      ¬ SendAnswers m 7 := by
  refine ⟨_, rfl, rfl, ⟨_, rfl, rfl⟩, fun h => ?_⟩
  exact nomatch h.closed_of_dropped rfl [.inl .next, .inl .next, .inl .next, .inl .next] _ _ rfl rfl

end Oneshot
end Zydon
