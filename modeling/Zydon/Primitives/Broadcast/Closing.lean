/-
  Zydon.Primitives.Broadcast.Closing

  Whether the close of a broadcast channel swallows a value, with every call
  uninterrupted.

  `drop` of the sender stores `u64::MAX` over the generation that announces the
  values sent so far, and `poll` looks for `u64::MAX` first.  A receiver that has
  not seen the last send is answered `Closed` from then on
  (`swallowed_sendThenDrop`); it obtains the last value as long as the sender lives
  (`delivers_iff`).
-/

import Zydon.Primitives.Broadcast.Calls

namespace Zydon
namespace Broadcast

open Lib

variable {R T Waker : Type*}

/-- An answer to a receiver that has not seen the last send: `Pending`, or the
    value of that send. -/
def System.Delivers (s : System R T Waker) : RecvPoll T → Prop
  | .pending => True
  | .ok v => v.1 = s.inner.sends
  | .closed => False

-- ============================================================================
-- Calls of the sender
-- ============================================================================

/-- The values written whose generation is still to be advanced. -/
def SendPc.ahead : SendPc Waker → Nat
  | .advance => 1
  | .idle | .wakeAll _ | .storeLen _ _ | .wake _ _ | .closed => 0

/-- The value is that of the last send. -/
structure Sent (s : BroadcastInner R T Waker) (p : SendPc Waker) : Prop where
  inv : SendInv s p
  written : s.writes = s.sends + p.ahead
  value : 0 < s.writes → ∃ v, s.value = some v
  noPriorities : s.waiters.NoPriorities

variable {s s' : BroadcastInner R T Waker} {p p' : SendPc Waker} {x : Receiver T}

theorem sent_new : Sent (.new : BroadcastInner R T Waker) .idle where
  inv := sendInv_new
  written := rfl
  value := fun h => absurd h (lt_irrefl 0)
  noPriorities := .new

theorem Sent.effect (h : Sent s p) (h_effect : SendEffect s p s' p') : Sent s' p' := by
  have h_inv : SendInv s' p' := h.inv.sendEffect h_effect
  obtain ⟨-, h_written, h_value, h_noPriorities⟩ := h
  cases h_effect with
  | send v => exact ⟨h_inv, congrArg (· + 1) h_written, fun _ => ⟨_, rfl⟩, h_noPriorities⟩
  | drop => exact ⟨h_inv, h_written, h_value, h_noPriorities⟩
  | advance => exact ⟨h_inv, h_written, h_value, h_noPriorities⟩
  | wakeAll invoked h_waking h_ne _ h_queue =>
      refine ⟨h_inv, h_written.trans ?_, h_value, h_queue h_noPriorities⟩
      have h_ahead : p.ahead = 0 := by
        cases p <;> first | rfl | exact nomatch h_waking
      have h_ahead' : p'.ahead = 0 := by
        cases p' <;> first | rfl | exact absurd rfl h_ne
      show s.sends + p.ahead = s.sends + p'.ahead
      rw [h_ahead, h_ahead']

/-- A change of the wait queue by a receiver. -/
theorem Sent.setWaiters (h : Sent s p) {q : WaitQueue R Waker} (h_q : q.NoPriorities) :
    Sent (s.setWaiters q) p where
  inv := ⟨h.inv.counts, h.inv.closed, h.inv.number⟩
  written := h.written
  value := h.value
  noPriorities := h_q

/-- The generation is the closed one after the drop of the sender, and when the
    sends have counted up to it. -/
theorem Sent.open_iff (h : Sent s p) :
    s.generation ≠ closedGeneration ↔ p.closing = false ∧ s.sends % 2 ^ 64 ≠ 2 ^ 64 - 1 := by
  have h_closed : closedGeneration.toNat = 2 ^ 64 - 1 := rfl
  cases h_closing : p.closing with
  | true => simp [h.inv.closed h_closing]
  | false =>
      have h_counts : s.generation.toNat = s.sends % 2 ^ 64 :=
        (h.inv.counts h_closing).toNat_mod
      rw [← h_counts, ← h_closed, ne_eq, ne_eq, BitVec.toNat_inj]
      simp

-- ============================================================================
-- Calls of a receiver
-- ============================================================================

variable [DecidableEq R] {r : R} {answer : Option (RecvPoll T)} {waker : Waker}

theorem recvAlone_subscribe {q q' : RecvPc T Waker}
    (h : recvAlone r s q .subscribe = some (s', q')) :
    s' = s ∧ q' = .idle ⟨s.generation, false, s.sends, []⟩ none := by
  cases q with
  | absent =>
      obtain ⟨rfl, rfl⟩ : _ = s' ∧ _ = q' := by
        simpa [recvAlone, recvStep, ThreadProgram.soloUntil, RecvPc.isIdle] using h
      exact ⟨rfl, rfl⟩
  | _ => simp [recvAlone, recvStep] at h

theorem recvAlone_poll_closed (h : x.check s.generation = .closed) :
    recvAlone r s (.idle x answer) (.poll waker) = some (s, .idle x (some .closed)) := by
  simp [recvAlone, recvStep, h, ThreadProgram.soloUntil, RecvPc.isIdle]

theorem recvAlone_poll_newer (h : x.check s.generation = .newer) {v : Elem T}
    (h_value : s.value = some v) :
    recvAlone r s (.idle x answer) (.poll waker) =
      some (s, .idle (x.obtain s.generation s.sends v) (some (.ok v))) := by
  simp [recvAlone, recvStep, h, h_value, receiver, ThreadProgram.soloUntil, RecvPc.isIdle]

/-- A poll with nothing new leaves the receiver registered.  The second load of the
    generation cannot differ from the first. -/
theorem recvAlone_poll_nothing (h : x.check s.generation = .nothing)
    (h_queue : s.waiters.NoPriorities) :
    ∃ q : WaitQueue R Waker, q.NoPriorities ∧
      recvAlone r s (.idle x answer) (.poll waker) =
        some (s.setWaiters q, .idle { x with registered := true } (some .pending)) := by
  have h_waker : (s.waiters.setWaker r waker).NoPriorities := h_queue.setWaker r waker
  cases h_registered : x.registered with
  | true =>
      refine ⟨s.waiters.setWaker r waker, h_waker, ?_⟩
      have h_x : { x with registered := true } = x := by rw [← h_registered]
      rw [h_x]
      simp [recvAlone, recvStep, h, h_registered, receiver, ThreadProgram.soloUntil, RecvPc.isIdle,
        BroadcastInner.setWaiters]
  | false =>
      obtain ⟨h_section, h_link⟩ := h_waker.enqueueSection 0 r
      refine ⟨((s.waiters.setWaker r waker).link r).lenAdd, h_link, ?_⟩
      have h_check : Receiver.check { x with registered := true } s.generation = .nothing := h
      simp [recvAlone, recvStep, h, h_check, h_registered, h_section, receiver,
        ThreadProgram.soloUntil, RecvPc.isIdle, BroadcastInner.setWaiters]

theorem recvAlone_dropFuture (h_queue : s.waiters.NoPriorities) :
    ∃ q : WaitQueue R Waker, q.NoPriorities ∧
      recvAlone r s (.idle x answer) .dropFuture =
        some (s.setWaiters q, .idle { x with registered := false } answer) := by
  cases h_registered : x.registered with
  | false =>
      refine ⟨s.waiters, h_queue, ?_⟩
      have h_x : { x with registered := false } = x := by rw [← h_registered]
      rw [h_x]
      simp [recvAlone, recvStep, h_registered, ThreadProgram.soloUntil, RecvPc.isIdle,
        BroadcastInner.setWaiters]
  | true =>
      have h_remove := h_queue.removeSection r
      cases h_unlinked : (s.waiters.removeSection r).1 with
      | true =>
          refine ⟨(s.waiters.removeSection r).2.lenSub, h_remove, ?_⟩
          simp [recvAlone, recvStep, h_registered, h_unlinked, lenSubIf, receiver,
            ThreadProgram.soloUntil, RecvPc.isIdle, BroadcastInner.setWaiters]
      | false =>
          refine ⟨(s.waiters.removeSection r).2, h_remove, ?_⟩
          simp [recvAlone, recvStep, h_registered, h_unlinked, lenSubIf, receiver,
            ThreadProgram.soloUntil, RecvPc.isIdle, BroadcastInner.setWaiters]

-- ============================================================================
-- Runs
-- ============================================================================

/-- A receiver between its calls. -/
inductive BetweenCalls (sends : Nat) (closing : Bool) : RecvPc T Waker → Prop
  | absent : BetweenCalls sends closing .absent
  | idle {x : Receiver T} {answer : Option (RecvPoll T)} :
      Consistent sends closing x → BetweenCalls sends closing (.idle x answer)

omit [DecidableEq R] in
theorem BetweenCalls.mono {sends sends' : Nat} {closing closing' : Bool} {q : RecvPc T Waker}
    (h : BetweenCalls sends closing q) (h_sends : sends ≤ sends')
    (h_closing : closing = true → closing' = true) : BetweenCalls sends' closing' q := by
  cases h with
  | absent => exact .absent
  | idle h_x => exact .idle (h_x.mono h_sends h_closing)

omit [DecidableEq R] in
theorem BetweenCalls.exists_idle {sends : Nat} {closing : Bool} {q : RecvPc T Waker}
    (h : BetweenCalls sends closing q) (h_x : q.receiver = some x) :
    ∃ answer, q = .idle x answer ∧ Consistent sends closing x := by
  cases h with
  | absent => exact nomatch h_x
  | @idle y answer h_y =>
      obtain rfl : y = x := Option.some.inj h_x
      exact ⟨answer, rfl, h_y⟩

/-- Only `subscribe` is a call of a receiver that is not there yet. -/
theorem BetweenCalls.idle_of_recvAlone {sends : Nat} {closing : Bool} {q q' : RecvPc T Waker}
    {a : RecvAction Waker} (h : BetweenCalls sends closing q) (h_a : a ≠ .subscribe)
    (h_alone : recvAlone r s q a = some (s', q')) :
    ∃ x answer, q = .idle x answer ∧ Consistent sends closing x := by
  cases h with
  | @idle x answer h_x => exact ⟨x, answer, rfl, h_x⟩
  | absent =>
      cases a with
      | subscribe => exact absurd rfl h_a
      | poll _ | dropFuture | next => simp [recvAlone, recvStep] at h_alone

/-- The invariant of a channel between calls. -/
structure Whole (s : System R T Waker) : Prop where
  sent : Sent s.inner s.sender
  quiet : s.sender.quiet = true
  receivers : ∀ r, BetweenCalls s.inner.sends s.sender.closing (s.receiver r)

omit [DecidableEq R] in
/-- A newer generation comes with the value of the last send. -/
theorem Sent.value_of_newer (h : Sent s p) (h_quiet : p.quiet = true)
    (h_x : Consistent s.sends p.closing x) (h_check : x.check s.generation = .newer) :
    ∃ v, s.value = some v ∧ v.1 = s.sends := by
  have h_writes : s.writes = s.sends := by
    rw [h.written]
    cases p <;> first | rfl | exact nomatch h_quiet
  have h_lt : x.seen < s.sends := (h_x.found h.inv h_check).lt
  obtain ⟨v, h_v⟩ := h.value (by omega)
  exact ⟨v, h_v, (h.inv.number v h_v).trans h_writes⟩

variable {σ σ' : System R T Waker} {fuel : Nat}

/-- A receiver has returned from a call: the channel has another wait queue at
    most. -/
theorem Whole.received {q : RecvPc T Waker} (h : Whole σ) {queue : WaitQueue R Waker}
    (h_queue : queue.NoPriorities) (h_q : BetweenCalls σ.inner.sends σ.sender.closing q) :
    Whole { σ with
      inner := σ.inner.setWaiters queue
      receiver := Function.update σ.receiver r q } where
  sent := h.sent.setWaiters h_queue
  quiet := h.quiet
  receivers := by
    intro r'
    by_cases h_r : r' = r
    · subst h_r
      simp only [Function.update_self]
      exact h_q
    · simp only [Function.update_of_ne h_r]
      exact h.receivers r'

/-- What a poll of an idle receiver answers. -/
theorem Whole.recvAlone_poll (h : Whole σ) (r : R) (answer : Option (RecvPoll T)) (waker : Waker)
    (h_x : Consistent σ.inner.sends σ.sender.closing x) :
    ∃ (queue : WaitQueue R Waker) (x' : Receiver T) (a : RecvPoll T), queue.NoPriorities ∧
      Consistent σ.inner.sends σ.sender.closing x' ∧
      recvAlone r σ.inner (.idle x answer) (.poll waker) =
        some (σ.inner.setWaiters queue, .idle x' (some a)) ∧
      (σ.Delivers a ↔ σ.inner.generation ≠ closedGeneration) := by
  have h_queue : σ.inner.waiters.NoPriorities := h.sent.noPriorities
  cases h_check : x.check σ.inner.generation with
  | closed =>
      refine ⟨σ.inner.waiters, x, .closed, h_queue, h_x, recvAlone_poll_closed h_check, ?_⟩
      exact iff_of_false id fun h_open => h_open (Receiver.check_eq_closed_iff.mp h_check)
  | newer =>
      obtain ⟨v, h_value, h_v⟩ := h.sent.value_of_newer h.quiet h_x h_check
      have h_found := h_x.found h.sent.inv h_check
      refine ⟨σ.inner.waiters, _, .ok v, h_queue, h_x.obtain h_found h_v,
        recvAlone_poll_newer h_check h_value, ?_⟩
      exact iff_of_true h_v (Receiver.check_eq_newer h_check).1
  | nothing =>
      obtain ⟨queue, h_q, h_alone⟩ := recvAlone_poll_nothing h_check h_queue
      refine ⟨queue, _, .pending, h_q, h_x.setRegistered true, h_alone, ?_⟩
      refine iff_of_true trivial fun h_closed => ?_
      exact nomatch h_check.symm.trans (Receiver.check_eq_closed_iff.mpr h_closed)

theorem Whole.new (first : R) : Whole (.new first : System R T Waker) where
  sent := sent_new
  quiet := rfl
  receivers := by
    intro r
    by_cases h_r : r = first
    · subst h_r
      simp only [System.new, Function.update_self]
      have h_new : SendInv (.new : BroadcastInner R T Waker) .idle := sendInv_new
      exact .idle h_new.subscribed
    · simp only [System.new, Function.update_of_ne h_r]
      exact .absent

theorem Whole.sent_of_sendAlone (h : Whole σ) {a : SendAction T}
    {inner : BroadcastInner R T Waker} {p : SendPc Waker}
    (h_alone : sendAlone fuel σ.inner σ.sender a = some (inner, p)) :
    Whole { σ with inner := inner, sender := p } := by
  obtain ⟨h_quiet, h_sent, h_sends, h_closing⟩ :=
    sendAlone_invariant
      (I := fun s p => Sent s p ∧ σ.inner.sends ≤ s.sends ∧
        (σ.sender.closing = true → p.closing = true))
      (fun s p s' p' ⟨h_sent, h_sends, h_closing⟩ h_effect =>
        ⟨h_sent.effect h_effect, le_trans h_sends h_effect.mono.1,
          fun h => h_effect.mono.2 (h_closing h)⟩)
      ⟨h.sent, le_refl _, id⟩ h_alone
  exact ⟨h_sent, h_quiet, fun r => (h.receivers r).mono h_sends h_closing⟩

theorem Whole.effect (h : Whole σ) (h_effect : CallEffect fuel σ σ') : Whole σ' := by
  cases h_effect with
  | fault h_freed => exact ⟨h.sent, h.quiet, h.receivers⟩
  | send h_allocated h_open h_alone => exact h.sent_of_sendAlone h_alone
  | dropSender h_allocated h_open h_alone =>
      obtain ⟨h_sent, h_quiet, h_receivers⟩ := h.sent_of_sendAlone h_alone
      exact ⟨h_sent, h_quiet, h_receivers⟩
  | @subscribe new inner q h_allocated h_new h_alone =>
      obtain ⟨rfl, rfl⟩ := recvAlone_subscribe h_alone
      obtain ⟨h_sent, h_quiet, h_receivers⟩ :=
        h.received h.sent.noPriorities (.idle h.sent.inv.subscribed)
      exact ⟨h_sent, h_quiet, h_receivers⟩
  | @poll r waker inner q h_alone =>
      obtain ⟨x, answer, h_pc, h_x⟩ := (h.receivers r).idle_of_recvAlone (by simp) h_alone
      obtain ⟨queue, x', a, h_queue, h_x', h_poll, -⟩ := h.recvAlone_poll r answer waker h_x
      rw [h_pc, h_poll] at h_alone
      obtain ⟨rfl, rfl⟩ : _ = inner ∧ _ = q := by simpa using h_alone
      exact h.received h_queue (.idle h_x')
  | @dropFuture r inner q h_alone =>
      obtain ⟨x, answer, h_pc, h_x⟩ := (h.receivers r).idle_of_recvAlone (by simp) h_alone
      obtain ⟨queue, h_queue, h_drop⟩ := recvAlone_dropFuture h.sent.noPriorities
      rw [h_pc, h_drop] at h_alone
      obtain ⟨rfl, rfl⟩ : _ = inner ∧ _ = q := by simpa using h_alone
      exact h.received h_queue (.idle (h_x.setRegistered false))
  | idle => exact h
  | dropReceiver h_allocated h_live => exact ⟨h.sent, h.quiet, h.receivers⟩

/-- A poll returns if the allocation is there. -/
theorem Whole.poll (h : Whole σ) (h_allocated : σ.allocated = true)
    (h_x : (σ.receiver r).receiver = some x) :
    ∃ a σ', σ.poll r waker = some (a, σ') ∧
      (σ.Delivers a ↔ σ.inner.generation ≠ closedGeneration) := by
  obtain ⟨answer, h_pc, h_consistent⟩ := (h.receivers r).exists_idle h_x
  obtain ⟨queue, x', a, -, -, h_alone, h_delivers⟩ :=
    h.recvAlone_poll r answer waker h_consistent
  rw [← h_pc] at h_alone
  exact ⟨a, { σ with
    inner := σ.inner.setWaiters queue
    receiver := Function.update σ.receiver r (.idle x' (some a)) },
    by simp [System.poll, System.receiving, h_allocated, h_alone, RecvPc.answer], h_delivers⟩

omit [DecidableEq R] in
theorem Whole.seen_le (h : Whole σ) (h_x : (σ.receiver r).receiver = some x) :
    x.seen ≤ σ.inner.sends := by
  obtain ⟨-, -, h_consistent⟩ := (h.receivers r).exists_idle h_x
  exact h_consistent.seen_le

/-- A poll of a receiver that has not seen the last send answers `Pending` or `Ok`
    of the value of that send, if and only if the allocation has not been freed, the
    sender has not been dropped, and the sends have not counted the generation up to
    `u64::MAX`. -/
theorem delivers_iff {first : R} (h : (calls T Waker first fuel).Reachable σ)
    (h_x : (σ.receiver r).receiver = some x) (waker : Waker) :
    (x.seen < σ.inner.sends →
        ∃ answer σ', σ.poll r waker = some (answer, σ') ∧ σ.Delivers answer) ↔
      x.seen = σ.inner.sends ∨
        (σ.allocated = true ∧ σ.sender.closing = false ∧
          σ.inner.sends % 2 ^ 64 ≠ 2 ^ 64 - 1) := by
  have h_whole : Whole σ :=
    h.invariant (.new first) fun _ _ _ h_whole h_step =>
      h_whole.effect (System.step_effect h_step).2
  have h_seen : x.seen ≤ σ.inner.sends := h_whole.seen_le h_x
  rw [← h_whole.sent.open_iff]
  constructor
  · intro h_delivers
    rcases Nat.eq_or_lt_of_le h_seen with h_eq | h_unseen
    · exact .inl h_eq
    · obtain ⟨answer, σ₁, h_poll, h_answer⟩ := h_delivers h_unseen
      have h_allocated : σ.allocated = true := (System.poll_eq_some h_poll).1
      obtain ⟨a, σ₂, h_poll', h_iff⟩ := h_whole.poll h_allocated h_x
      obtain ⟨rfl, rfl⟩ := Prod.mk.inj (Option.some.inj (h_poll.symm.trans h_poll'))
      exact .inr ⟨h_allocated, h_iff.mp h_answer⟩
  · rintro (h_eq | ⟨h_allocated, h_open⟩) h_unseen
    · exact absurd h_eq (Nat.ne_of_lt h_unseen)
    · obtain ⟨a, σ₁, h_poll, h_iff⟩ := h_whole.poll h_allocated h_x
      exact ⟨a, σ₁, h_poll, h_iff.mpr h_open⟩

/-- One of two receivers is polled after a send. -/
def twoReceivers : List (Call Nat Nat Unit) := [.subscribe 0 1, .send 10]

theorem delivers_twoReceivers :
    ∃ σ, (calls Nat Unit (0 : Nat) 0).exec (.new 0) twoReceivers = some σ ∧
      ∃ answer σ', σ.poll 1 () = some (answer, σ') ∧ σ.Delivers answer := by
  have h_replay : ((calls Nat Unit (0 : Nat) 0).exec (.new 0) twoReceivers).any
      (fun σ => decide ((σ.receiver 1).receiver.map Receiver.seen = some 0 ∧
        σ.inner.sends = 1 ∧ σ.allocated = true ∧ σ.sender.closing = false)) = true := by
    decide +kernel
  obtain ⟨σ, h_run, h_seen, h_sends, h_allocated, h_open⟩ := Machine.exec_of_decide h_replay
  obtain ⟨x, h_x, h_zero⟩ := Option.map_eq_some_iff.mp h_seen
  refine ⟨σ, h_run, (delivers_iff ⟨_, h_run⟩ h_x ()).mpr (.inr ⟨h_allocated, h_open, ?_⟩) ?_⟩
  · rw [h_sends]
    decide
  · omega

/-- After a send that no receiver has seen, the sender is dropped. -/
def sendThenDrop : List (Call Nat Nat Unit) := [.subscribe 0 1, .send 10, .dropSender]

/-- The receiver is answered `Closed`, and the value is lost. -/
theorem swallowed_sendThenDrop :
    ∃ σ x σ', (calls Nat Unit (0 : Nat) 0).exec (.new 0) sendThenDrop = some σ ∧
      (σ.receiver 1).receiver = some x ∧ x.seen < σ.inner.sends ∧
      σ.poll 1 () = some (.closed, σ') ∧ ¬ σ.Delivers .closed := by
  have h_replay : ((calls Nat Unit (0 : Nat) 0).exec (.new 0) sendThenDrop).any
      (fun σ => decide ((σ.receiver 1).receiver.map Receiver.seen = some 0 ∧
        σ.inner.sends = 1 ∧ (σ.poll 1 ()).map Prod.fst = some .closed)) = true := by
    decide +kernel
  obtain ⟨σ, h_run, h_seen, h_sends, h_poll⟩ := Machine.exec_of_decide h_replay
  obtain ⟨x, h_x, h_zero⟩ := Option.map_eq_some_iff.mp h_seen
  obtain ⟨⟨answer, σ'⟩, h_poll, rfl⟩ := Option.map_eq_some_iff.mp h_poll
  exact ⟨σ, x, σ', h_run, h_x, by omega, h_poll, id⟩

end Broadcast
end Zydon
