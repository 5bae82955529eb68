/-
  Zydon.Primitives.Broadcast.Calls

  The broadcast channel under uninterrupted calls, with the allocation it lives in.

  Each call is a run of the program of the sender or of a receiver, alone from its
  start to its return.  The halves are created by `broadcast` and `subscribe` and
  dropped one by one; the reference count of the allocation follows the source.  A
  call that reaches for the allocation after it was freed is a fault, and ends the
  run.
-/

import Mathlib.Data.Finset.Card
import Zydon.Primitives.Broadcast.Order

namespace Zydon
namespace Broadcast

open Lib

variable {R T Waker : Type*}

-- ============================================================================
-- The program of one call
-- ============================================================================

/-- The sender has returned from `send`, or from `drop` up to the release. -/
def SendPc.quiet : SendPc Waker → Bool
  | .idle | .closed => true
  | .advance | .wakeAll _ | .storeLen _ _ | .wake _ _ => false

/-- The call is that of `drop`. -/
def SendAction.closing : SendAction T → Bool
  | .drop => true
  | .send _ | .next => false

/-- The receiver is in no call. -/
def RecvPc.isIdle : RecvPc T Waker → Bool
  | .idle _ _ => true
  | _ => false

/-- What the last poll has returned. -/
def RecvPc.answer : RecvPc T Waker → Option (RecvPoll T)
  | .idle _ answer => answer
  | _ => none

/-- The node of the receiver is registered, and its future alive. -/
def RecvPc.registered (q : RecvPc T Waker) : Bool :=
  match q.receiver with
  | some x => x.registered
  | none => false

/-- The state of a channel, of its halves and of their allocation. -/
structure System (R T Waker : Type*) where
  inner : BroadcastInner R T Waker
  refcount : BitVec 32
  /-- `Box::from_raw` has not been called yet. -/
  allocated : Bool
  /-- A call has reached for the freed allocation. -/
  faulted : Bool
  sender : SendPc Waker
  /-- The receivers that have not been dropped. -/
  receivers : Finset R
  receiver : R → RecvPc T Waker

/-- A call of the owner of a half. -/
inductive Call (R T Waker : Type*) where
  | send (value : T)
  | dropSender
  /-- `subscribe` on the receiver `parent`, which makes the receiver `new`. -/
  | subscribe (parent new : R)
  /-- A poll of the future of `recv`. -/
  | poll (r : R) (waker : Waker)
  | dropFuture (r : R)
  | dropReceiver (r : R)

section Calls

variable [DecidableEq R]

/-- A call of the sender.  The loop of `wake_all` ends within `fuel` rounds, so
    that there are at most `fuel` wakers to invoke. -/
def sendAlone (fuel : Nat) (s : BroadcastInner R T Waker) (p : SendPc Waker) (a : SendAction T) :
    Option (BroadcastInner R T Waker × SendPc Waker) :=
  match sendStep fuel s p a with
  | some (s, p) => (sender R T Waker fuel).soloUntil SendPc.quiet .next (fuel + 4) s p
  | none => none

/-- A call of the receiver `r`; the longest one takes seven operations after the
    first. -/
def recvAlone (r : R) (s : BroadcastInner R T Waker) (q : RecvPc T Waker) (a : RecvAction Waker) :
    Option (BroadcastInner R T Waker × RecvPc T Waker) :=
  match recvStep r s q a with
  | some (s, q) => (receiver T Waker r).soloUntil RecvPc.isIdle .next 7 s q
  | none => none

namespace System

/-- `broadcast`: the count starts at 1, with the sender and the receiver `first`. -/
def new (first : R) : System R T Waker where
  inner := .new
  refcount := 1
  allocated := true
  faulted := false
  sender := .idle
  receivers := {first}
  receiver := Function.update (fun _ => .absent) first
    (.idle { lastSeen := 0, registered := false, seen := 0, got := [] } none)

/-- A call that reaches for the allocation. -/
def access (s : System R T Waker) (result : Option (System R T Waker)) :
    Option (System R T Waker) :=
  if s.allocated then result else some { s with faulted := true }

/-- `fetch_add` of the reference count. -/
def retain (s : System R T Waker) : System R T Waker := { s with refcount := s.refcount + 1 }

/-- `fetch_sub` of the reference count, and the `drop` of the box if that was the
    last reference. -/
def release (s : System R T Waker) : System R T Waker :=
  { s with
    refcount := s.refcount - 1
    allocated := if s.refcount = 1 then false else s.allocated }

/-- What the sender does in the channel. -/
def sending (s : System R T Waker) (fuel : Nat) (a : SendAction T) : Option (System R T Waker) :=
  match sendAlone fuel s.inner s.sender a with
  | some (inner, p) => some { s with inner := inner, sender := p }
  | none => none

/-- What the receiver `r` does in the channel. -/
def receiving (s : System R T Waker) (r : R) (a : RecvAction Waker) : Option (System R T Waker) :=
  match recvAlone r s.inner (s.receiver r) a with
  | some (inner, q) => some { s with inner := inner, receiver := Function.update s.receiver r q }
  | none => none

/-- A poll of the receiver `r`: the answer, unless the allocation is gone. -/
def poll (s : System R T Waker) (r : R) (waker : Waker) :
    Option (RecvPoll T × System R T Waker) :=
  if s.allocated then
    match s.receiving r (.poll waker) with
    | some s' => (s'.receiver r).answer.map fun answer => (answer, s')
    | none => none
  else none

/-- `subscribe`. -/
def subscribe (s : System R T Waker) (new : R) : Option (System R T Waker) :=
  match s.retain.receiving new .subscribe with
  | some s => some { s with receivers := insert new s.receivers }
  | none => none

/-- `drop` of the sender. -/
def dropSender (s : System R T Waker) (fuel : Nat) : Option (System R T Waker) :=
  (s.sending fuel .drop).map release

/-- `drop` of a receiver. -/
def dropReceiver (s : System R T Waker) (r : R) : System R T Waker :=
  release { s with receivers := s.receivers.erase r }

/-- One call.  A receiver is borrowed by its future, which is dropped before it. -/
def step (fuel : Nat) (s : System R T Waker) (call : Call R T Waker) : Option (System R T Waker) :=
  if s.faulted then none
  else
    match call with
    | .send v => if s.sender.closing then none else s.access (s.sending fuel (.send v))
    | .dropSender => if s.sender.closing then none else s.access (s.dropSender fuel)
    | .subscribe parent new =>
        if parent ∈ s.receivers ∧ new ∉ s.receivers then s.access (s.subscribe new) else none
    | .poll r waker =>
        if r ∈ s.receivers then s.access ((s.poll r waker).map Prod.snd) else none
    | .dropFuture r =>
        if r ∈ s.receivers then
          if (s.receiver r).registered then s.access (s.receiving r .dropFuture) else some s
        else none
    | .dropReceiver r =>
        if r ∈ s.receivers ∧ (s.receiver r).registered = false then
          s.access (some (s.dropReceiver r))
        else none

end System

/-- The channel that `broadcast` makes, under any sequence of calls. -/
def calls (T Waker : Type*) (first : R) (fuel : Nat) :
    Machine (System R T Waker) (Call R T Waker) where
  init := .new first
  step := System.step fuel

-- ============================================================================
-- What a call does
-- ============================================================================

/-- What a call has done: a fault, or what its half does. -/
inductive CallEffect (fuel : Nat) (s : System R T Waker) : System R T Waker → Prop
  | fault : s.allocated = false → CallEffect fuel s { s with faulted := true }
  | send {v : T} {inner : BroadcastInner R T Waker} {p : SendPc Waker} :
      s.allocated = true → s.sender.closing = false →
      sendAlone fuel s.inner s.sender (.send v) = some (inner, p) →
      CallEffect fuel s { s with inner := inner, sender := p }
  | dropSender {inner : BroadcastInner R T Waker} {p : SendPc Waker} :
      s.allocated = true → s.sender.closing = false →
      sendAlone fuel s.inner s.sender .drop = some (inner, p) →
      CallEffect fuel s (System.release { s with inner := inner, sender := p })
  | subscribe {new : R} {inner : BroadcastInner R T Waker} {q : RecvPc T Waker} :
      s.allocated = true → new ∉ s.receivers →
      recvAlone new s.inner (s.receiver new) .subscribe = some (inner, q) →
      CallEffect fuel s
        { s.retain with
          inner := inner
          receiver := Function.update s.receiver new q
          receivers := insert new s.receivers }
  | poll {r : R} {waker : Waker} {inner : BroadcastInner R T Waker} {q : RecvPc T Waker} :
      recvAlone r s.inner (s.receiver r) (.poll waker) = some (inner, q) →
      CallEffect fuel s { s with inner := inner, receiver := Function.update s.receiver r q }
  | dropFuture {r : R} {inner : BroadcastInner R T Waker} {q : RecvPc T Waker} :
      recvAlone r s.inner (s.receiver r) .dropFuture = some (inner, q) →
      CallEffect fuel s { s with inner := inner, receiver := Function.update s.receiver r q }
  | idle : CallEffect fuel s s
  | dropReceiver {r : R} : s.allocated = true → r ∈ s.receivers →
      CallEffect fuel s (s.dropReceiver r)

variable {fuel : Nat} {s s' : System R T Waker}

omit [DecidableEq R] in
/-- A call that reaches for the allocation faults or goes on. -/
theorem System.access_eq_some {result : Option (System R T Waker)}
    (h : s.access result = some s') :
    (s.allocated = false ∧ s' = { s with faulted := true }) ∨
      (s.allocated = true ∧ result = some s') := by
  rw [System.access] at h
  split at h
  · next h_allocated => exact .inr ⟨h_allocated, h⟩
  · next h_freed => exact .inl ⟨by simpa using h_freed, (Option.some.inj h).symm⟩

theorem System.sending_eq_some {a : SendAction T} (h : s.sending fuel a = some s') :
    ∃ inner p, sendAlone fuel s.inner s.sender a = some (inner, p) ∧
      s' = { s with inner := inner, sender := p } := by
  rw [System.sending] at h
  split at h
  · next inner p h_alone => exact ⟨inner, p, h_alone, (Option.some.inj h).symm⟩
  · exact nomatch h

theorem System.receiving_eq_some {r : R} {a : RecvAction Waker} (h : s.receiving r a = some s') :
    ∃ inner q, recvAlone r s.inner (s.receiver r) a = some (inner, q) ∧
      s' = { s with inner := inner, receiver := Function.update s.receiver r q } := by
  rw [System.receiving] at h
  split at h
  · next inner q h_alone => exact ⟨inner, q, h_alone, (Option.some.inj h).symm⟩
  · exact nomatch h

/-- A poll that has returned. -/
theorem System.poll_eq_some {r : R} {waker : Waker} {answer : RecvPoll T}
    (h : s.poll r waker = some (answer, s')) :
    s.allocated = true ∧ s.receiving r (.poll waker) = some s' ∧
      (s'.receiver r).answer = some answer := by
  rw [System.poll] at h
  split at h
  · next h_allocated =>
      split at h
      · next s₁ h_receiving =>
          obtain ⟨answer', h_answer, h_pair⟩ := Option.map_eq_some_iff.mp h
          obtain ⟨rfl, rfl⟩ := Prod.mk.inj h_pair
          exact ⟨h_allocated, h_receiving, h_answer⟩
      · exact nomatch h
  · exact nomatch h

theorem System.step_effect {call : Call R T Waker} (h : s.step fuel call = some s') :
    s.faulted = false ∧ CallEffect fuel s s' := by
  unfold System.step at h
  split at h
  · exact nomatch h
  · next h_faulted =>
      refine ⟨by simpa using h_faulted, ?_⟩
      cases call with
      | send v =>
          dsimp only at h
          split at h
          · exact nomatch h
          · next h_open =>
              obtain ⟨h_freed, rfl⟩ | ⟨h_allocated, h_call⟩ := System.access_eq_some h
              · exact .fault h_freed
              · obtain ⟨inner, p, h_alone, rfl⟩ := System.sending_eq_some h_call
                exact .send h_allocated (by simpa using h_open) h_alone
      | dropSender =>
          dsimp only at h
          split at h
          · exact nomatch h
          · next h_open =>
              obtain ⟨h_freed, rfl⟩ | ⟨h_allocated, h_call⟩ := System.access_eq_some h
              · exact .fault h_freed
              · obtain ⟨s₁, h_sending, rfl⟩ := Option.map_eq_some_iff.mp h_call
                obtain ⟨inner, p, h_alone, rfl⟩ := System.sending_eq_some h_sending
                exact .dropSender h_allocated (by simpa using h_open) h_alone
      | subscribe parent new =>
          dsimp only at h
          split at h
          · next h_live =>
              obtain ⟨h_freed, rfl⟩ | ⟨h_allocated, h_call⟩ := System.access_eq_some h
              · exact .fault h_freed
              · rw [System.subscribe] at h_call
                split at h_call
                · next s₁ h_receiving =>
                    obtain rfl := Option.some.inj h_call
                    obtain ⟨inner, q, h_alone, rfl⟩ := System.receiving_eq_some h_receiving
                    exact .subscribe h_allocated h_live.2 h_alone
                · exact nomatch h_call
          · exact nomatch h
      | poll r waker =>
          dsimp only at h
          split at h
          · obtain ⟨h_freed, rfl⟩ | ⟨h_allocated, h_call⟩ := System.access_eq_some h
            · exact .fault h_freed
            · obtain ⟨⟨answer, s₁⟩, h_poll, rfl⟩ := Option.map_eq_some_iff.mp h_call
              obtain ⟨-, h_receiving, -⟩ := System.poll_eq_some h_poll
              obtain ⟨inner, q, h_alone, rfl⟩ := System.receiving_eq_some h_receiving
              exact .poll h_alone
          · exact nomatch h
      | dropFuture r =>
          dsimp only at h
          split at h
          · split at h
            · obtain ⟨h_freed, rfl⟩ | ⟨h_allocated, h_call⟩ := System.access_eq_some h
              · exact .fault h_freed
              · obtain ⟨inner, q, h_alone, rfl⟩ := System.receiving_eq_some h_call
                exact .dropFuture h_alone
            · obtain rfl := Option.some.inj h
              exact .idle
          · exact nomatch h
      | dropReceiver r =>
          dsimp only at h
          split at h
          · next h_live =>
              obtain ⟨h_freed, rfl⟩ | ⟨h_allocated, h_call⟩ := System.access_eq_some h
              · exact .fault h_freed
              · obtain rfl := Option.some.inj h_call
                exact .dropReceiver h_allocated h_live.1
          · exact nomatch h

-- ============================================================================
-- Calls of the sender
-- ============================================================================

variable {inner inner' : BroadcastInner R T Waker} {p p' : SendPc Waker}

omit [DecidableEq R] in
/-- `wake_all` and the advance belong to one call. -/
theorem SendEffect.closing_eq (h : SendEffect inner p inner' p') (h_quiet : p.quiet = false) :
    p'.closing = p.closing := by
  cases h with
  | send v => exact nomatch h_quiet
  | drop => exact nomatch h_quiet
  | advance => rfl
  | wakeAll _ _ _ h_closing _ => exact h_closing

/-- The invariant rule for a call of the sender that has started. -/
theorem sender_soloUntil_invariant {I : BroadcastInner R T Waker → SendPc Waker → Prop}
    (h_step : ∀ s p s' p', p.quiet = false → I s p → SendEffect s p s' p' → I s' p') {k : Nat}
    (h_init : I inner p)
    (h_run : (sender R T Waker fuel).soloUntil SendPc.quiet .next k inner p = some (inner', p')) :
    p'.quiet = true ∧ I inner' p' :=
  ThreadProgram.soloUntil_invariant
    (fun s p s' p' h_quiet h_inv h_next => h_step s p s' p' h_quiet h_inv (sendStep_effect h_next))
    h_init h_run

/-- The invariant rule for a call of the sender. -/
theorem sendAlone_invariant {I : BroadcastInner R T Waker → SendPc Waker → Prop}
    (h_step : ∀ s p s' p', I s p → SendEffect s p s' p' → I s' p') {a : SendAction T}
    (h_init : I inner p) (h : sendAlone fuel inner p a = some (inner', p')) :
    p'.quiet = true ∧ I inner' p' := by
  rw [sendAlone] at h
  split at h
  · next s₁ p₁ h_start =>
      have h_first : I s₁ p₁ := h_step _ _ _ _ h_init (sendStep_effect h_start)
      exact sender_soloUntil_invariant (fun s p s' p' _ => h_step s p s' p') h_first h
  · exact nomatch h

omit [DecidableEq R] in
theorem SendPc.eq_idle (h_quiet : p.quiet = true) (h_open : p.closing = false) : p = .idle := by
  cases p with
  | idle => rfl
  | closed => exact nomatch h_open
  | advance | wakeAll _ | storeLen _ _ | wake _ _ => exact nomatch h_quiet

/-- A `send` leaves the sender alive, and `drop` does not. -/
theorem sendAlone_pc {a : SendAction T} (h_quiet : p.quiet = true) (h_open : p.closing = false)
    (h : sendAlone fuel inner p a = some (inner', p')) :
    p'.quiet = true ∧ p'.closing = a.closing := by
  obtain rfl := SendPc.eq_idle h_quiet h_open
  rw [sendAlone] at h
  split at h
  · next s₁ p₁ h_start =>
      have h_closing : p₁.closing = a.closing := by
        cases a with
        | send v =>
            obtain ⟨rfl, rfl⟩ : _ = s₁ ∧ _ = p₁ := by simpa [sendStep] using h_start
            rfl
        | drop =>
            obtain ⟨rfl, rfl⟩ : _ = s₁ ∧ _ = p₁ := by simpa [sendStep] using h_start
            rfl
        | next => simp [sendStep] at h_start
      rw [← h_closing]
      exact sender_soloUntil_invariant (I := fun _ p => p.closing = p₁.closing)
        (fun s p s' p' h_quiet h_inv h_next => (h_next.closing_eq h_quiet).trans h_inv) rfl h
  · exact absurd h (by simp)

end Calls

end Broadcast
end Zydon
