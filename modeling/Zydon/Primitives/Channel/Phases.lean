/-
  Zydon.Primitives.Channel.Phases

  What the operations of the channel do to its ring.

  For the ring, a producer and the consumer each go round a few phases; the
  operations on futures and wait queues leave the ring and the phase as they
  are (`sendStep_effect`, `recvStep_effect`).
-/

import Zydon.Primitives.Channel.Basic

namespace Zydon
namespace Channel

open Lib

variable {SF RF Waker V : Type*}

-- ============================================================================
-- Phases
-- ============================================================================

/-- Where a producer is on its way round the ring. -/
inductive SendPhase (V : Type*) where
  | outside
  /-- It is about to claim a position. -/
  | claiming
  /-- It has claimed the position of `x`, and has not written it. -/
  | writing (pos : Usize) (x : Elem V)
  /-- It has written `x`, and has not counted it in `len`. -/
  | counting (x : Elem V)
  deriving DecidableEq

/-- Where the consumer is. -/
inductive RecvPhase where
  | outside
  /-- It has found `len` positive. -/
  | seeing
  /-- It is about to claim a position. -/
  | claiming
  /-- It has claimed a position, and has not read it. -/
  | reading (pos : Usize)
  /-- It has read a value, and has not counted it off `len`. -/
  | holding
  deriving DecidableEq

def SendPc.phase : SendPc SF RF Waker V → SendPhase V
  | .claim _ _ => .claiming
  | .write _ pos x => .writing pos x
  | .setOccupied _ _ x | .lenAdd _ x => .counting x
  | _ => .outside

def RecvPc.phase : RecvPc SF RF Waker V → RecvPhase
  | .remove _ .dequeue | .removeLenSub _ .dequeue => .seeing
  | .claim _ => .claiming
  | .clear _ pos | .read _ pos => .reading pos
  | .lenSub _ _ => .holding
  | _ => .outside

/-- The value whose claim is in flight: claimed, and not counted in `len`. -/
def SendPhase.elem : SendPhase V → Option (Elem V)
  | .writing _ x | .counting x => some x
  | _ => none

/-- The claim whose slot is still to be written. -/
def SendPhase.unwritten : SendPhase V → Option Nat
  | .writing _ x => some x.1
  | _ => none

/-- The number of positions claimed and not read. -/
def RecvPhase.unread : RecvPhase → Nat
  | .reading _ => 1
  | _ => 0

/-- The number of values read that `len` still counts. -/
def RecvPhase.held : RecvPhase → Nat
  | .holding => 1
  | _ => 0

/-! ## Effects on the ring -/

namespace Ring

variable {r : Ring V}

theorem lenAdd_len (h_room : r.len.toNat < r.capacity.val) :
    r.lenAdd.len.toNat = r.len.toNat + 1 := by
  have h_max := r.capacity.le_max
  show (r.len + 1).toNat = _
  rw [BitVec.toNat_add]
  show (r.len.toNat + 1) % 2 ^ 64 = _
  omega

theorem lenSub_len (h_some : 0 < r.len.toNat) : r.lenSub.len.toNat = r.len.toNat - 1 := by
  have h_lt := r.len.isLt
  show (r.len - 1).toNat = _
  rw [BitVec.toNat_sub]
  show (2 ^ 64 - 1 + r.len.toNat) % 2 ^ 64 = _
  omega

end Ring

/-- What a step of a producer does to the ring. -/
inductive SendEffect (r : Ring V) : SendPhase V → Ring V → SendPhase V → Prop
  | stay (ph : SendPhase V) : SendEffect r ph r ph
  | enter : SendEffect r .outside r .claiming
  | claim (value : V) :
      SendEffect r .claiming (r.claim value) (.writing r.sendPos (r.claimed.length, value))
  | write (pos : Usize) (x : Elem V) : SendEffect r (.writing pos x) (r.write pos x) (.counting x)
  | setOccupied (pos : Usize) (x : Elem V) :
      SendEffect r (.counting x) (r.setOccupied pos true) (.counting x)
  | count (x : Elem V) : SendEffect r (.counting x) r.lenAdd .outside

/-- What a step of the consumer does to the ring. -/
inductive RecvEffect (r : Ring V) : RecvPhase → Ring V → RecvPhase → Prop
  | stay (ph : RecvPhase) : RecvEffect r ph r ph
  | enter (ph : RecvPhase) : 0 < r.len.toNat → ph = .seeing ∨ ph = .claiming →
      RecvEffect r .outside r ph
  | resume : RecvEffect r .seeing r .claiming
  | claim : RecvEffect r .claiming r.claimRecv (.reading r.recvPos)
  | clear (pos : Usize) : RecvEffect r (.reading pos) (r.setOccupied pos false) (.reading pos)
  | read (pos : Usize) : RecvEffect r (.reading pos) (r.read pos) .holding
  | release : RecvEffect r .holding r.lenSub .outside

section Effects

variable [DecidableEq SF] [DecidableEq RF] {c c' : ChannelInner SF RF Waker V}

/-! ### Producers -/

omit [DecidableEq RF] in
/-- What follows `wake_one` is outside the ring. -/
theorem sendWoken_outside {p' : SendPc SF RF Waker V} {call : SendCall SF}
    (h : sendWoken c call = (c', p')) : c'.toRing = c.toRing ∧ p'.phase = .outside := by
  cases call with
  | trySend =>
      obtain ⟨rfl, rfl⟩ : c = c' ∧ _ = p' := by simpa [sendWoken] using h
      exact ⟨rfl, rfl⟩
  | poll f =>
      simp only [sendWoken] at h
      split at h <;> cases h <;> exact ⟨rfl, rfl⟩

omit [DecidableEq RF] in
theorem sendPark_outside {p' : SendPc SF RF Waker V} {f : SF} {waker : Waker}
    (h : sendPark c f waker = (c', p')) : c'.toRing = c.toRing ∧ p'.phase = .outside := by
  simp only [sendPark] at h
  split at h <;> cases h <;> exact ⟨rfl, rfl⟩

omit [DecidableEq RF] in
theorem sendDrop_outside {p' : SendPc SF RF Waker V} {f : SF} (h : sendDrop c f = (c', p')) :
    c'.toRing = c.toRing ∧ p'.phase = .outside := by
  simp only [sendDrop] at h
  split at h <;> cases h
  · refine ⟨rfl, ?_⟩
    split <;> rfl
  · exact ⟨rfl, rfl⟩

omit [DecidableEq RF] in
/-- The start of a call of a producer is outside the ring. -/
theorem sendStart_outside {a : SendAction SF Waker V} {p' : SendPc SF RF Waker V}
    (h : sendStart c a = some (c', p')) : c'.toRing = c.toRing ∧ p'.phase = .outside := by
  cases a with
  | trySend value =>
      simp only [sendStart] at h
      split at h <;> cases h <;> exact ⟨rfl, rfl⟩
  | poll f waker =>
      simp only [sendStart] at h
      split at h
      · split at h
        · split at h <;> cases h
          exact ⟨rfl, rfl⟩
        · cases h
          exact ⟨rfl, rfl⟩
      · exact absurd h (by simp)
  | dropFuture f =>
      simp only [sendStart] at h
      split at h
      · exact sendDrop_outside (Option.some.inj h)
      · exact sendDrop_outside (Option.some.inj h)
      · exact sendDrop_outside (Option.some.inj h)
      · exact absurd h (by simp)
      · exact absurd h (by simp)
  | run => exact absurd h (by simp [sendStart])

/-- A step from outside the ring to outside it. -/
theorem SendEffect.outside {r r' : Ring V} {ph ph' : SendPhase V} (h_ph : ph = .outside)
    (h : r' = r ∧ ph' = .outside) : SendEffect r ph r' ph' := by
  rw [h_ph, h.1, h.2]
  exact .stay .outside

/-- What one operation inside a call of a producer does to the ring. -/
theorem sendRun_effect {p p' : SendPc SF RF Waker V} (h : sendRun c p = some (c', p')) :
    SendEffect c.toRing p.phase c'.toRing p'.phase := by
  cases p with
  | idle result => exact absurd h (by simp [sendRun])
  | tryLoadLen value =>
      simp only [sendRun] at h
      split at h <;> cases h
      · exact .stay .outside
      · exact .enter
  | pollLoadLen f waker =>
      simp only [sendRun] at h
      split at h
      · split at h
        · cases h
          exact .enter
        · exact .outside rfl (sendPark_outside (Option.some.inj h))
      · exact .outside rfl (sendPark_outside (Option.some.inj h))
  | claim call value =>
      cases h
      exact .claim value
  | write call pos x =>
      cases h
      exact .write pos x
  | setOccupied call pos x =>
      cases h
      exact .setOccupied pos x
  | lenAdd call x =>
      cases h
      exact .count x
  | wakeOne call =>
      simp only [sendRun] at h
      split at h
      · have h_end := sendWoken_outside (Option.some.inj h)
        exact .outside rfl h_end
      · cases h
        exact .stay .outside
  | wakeLenSub call g hasWaker =>
      simp only [sendRun, Option.some.injEq] at h
      split at h
      · cases h
        exact .stay .outside
      · have h_end := sendWoken_outside h
        exact .outside rfl h_end
  | wakeCall call g =>
      simp only [sendRun, Option.some.injEq] at h
      have h_end := sendWoken_outside h
      exact .outside rfl h_end
  | remove f =>
      simp only [sendRun] at h
      split at h <;> cases h <;> exact .stay .outside
  | removeLenSub f | dropLenSub f | enqueueLenAdd f | setWaker f waker =>
      cases h
      exact .stay .outside
  | enqueue f =>
      simp only [sendRun] at h
      split at h <;> cases h
      exact .stay .outside

/-- What one operation of a producer does to the ring. -/
theorem sendStep_effect {p p' : SendPc SF RF Waker V} {a : SendAction SF Waker V}
    (h : sendStep c p a = some (c', p')) : SendEffect c.toRing p.phase c'.toRing p'.phase := by
  cases p <;> cases a <;> simp only [sendStep] at h
  all_goals first
    | exact .outside rfl (sendStart_outside h)
    | exact sendRun_effect h
    | exact absurd h (by simp)

/-! ### The consumer -/

omit [DecidableEq SF] in
/-- What follows `wake_one` is outside the ring. -/
theorem recvWoken_outside {p' : RecvPc SF RF Waker V} {value : Option (Elem V)}
    {call : RecvCall RF} (h : recvWoken c value call = (c', p')) :
    c'.toRing = c.toRing ∧ p'.phase = .outside := by
  cases call with
  | tryRecv =>
      obtain ⟨rfl, rfl⟩ : c = c' ∧ _ = p' := by simpa [recvWoken] using h
      exact ⟨rfl, rfl⟩
  | poll f =>
      simp only [recvWoken] at h
      split at h <;> cases h <;> exact ⟨rfl, rfl⟩

omit [DecidableEq SF] in
theorem recvPark_outside {p' : RecvPc SF RF Waker V} {f : RF} {waker : Waker}
    (h : recvPark c f waker = (c', p')) : c'.toRing = c.toRing ∧ p'.phase = .outside := by
  simp only [recvPark] at h
  split at h <;> cases h <;> exact ⟨rfl, rfl⟩

omit [DecidableEq SF] in
theorem recvDrop_outside {p' : RecvPc SF RF Waker V} {f : RF} (h : recvDrop c f = (c', p')) :
    c'.toRing = c.toRing ∧ p'.phase = .outside := by
  simp only [recvDrop] at h
  split at h <;> cases h
  · refine ⟨rfl, ?_⟩
    split <;> rfl
  · exact ⟨rfl, rfl⟩

/-- A step from outside the ring to outside it. -/
theorem RecvEffect.outside {r r' : Ring V} {ph ph' : RecvPhase} (h_ph : ph = .outside)
    (h : r' = r ∧ ph' = .outside) : RecvEffect r ph r' ph' := by
  rw [h_ph, h.1, h.2]
  exact .stay .outside

omit [DecidableEq SF] in
/-- What the start of a call of the consumer does to the ring. -/
theorem recvStart_effect {a : RecvAction RF Waker} {p' : RecvPc SF RF Waker V}
    (h : recvStart c a = some (c', p')) : RecvEffect c.toRing .outside c'.toRing p'.phase := by
  cases a with
  | tryRecv =>
      cases h
      split
      · exact .stay .outside
      · exact .enter .claiming (by omega) (Or.inr rfl)
  | poll f waker =>
      simp only [recvStart] at h
      split at h <;> cases h
      split
      · next h_len => exact .enter .claiming h_len (Or.inr rfl)
      · exact .stay .outside
  | dropFuture f =>
      simp only [recvStart] at h
      split at h
      · exact .outside rfl (recvDrop_outside (Option.some.inj h))
      · exact .outside rfl (recvDrop_outside (Option.some.inj h))
      · exact .outside rfl (recvDrop_outside (Option.some.inj h))
      · exact absurd h (by simp)
      · exact absurd h (by simp)
  | run => exact absurd h (by simp [recvStart])

omit [DecidableEq SF] in
/-- What follows `remove` does to the ring what the call goes on to do. -/
theorem recvRemoved_effect {p' : RecvPc SF RF Waker V} {f : RF} {after : AfterRemove V}
    (h : recvRemoved c f after = (c', p')) (p : RecvPc SF RF Waker V)
    (h_p : p = .remove f after ∨ p = .removeLenSub f after) :
    RecvEffect c.toRing p.phase c'.toRing p'.phase := by
  cases after with
  | ready value | closed =>
      cases h
      obtain rfl | rfl := h_p
      · exact .stay .outside
      · exact .stay .outside
  | dequeue =>
      cases h
      obtain rfl | rfl := h_p
      · exact .resume
      · exact .resume

/-- What one operation inside a call of the consumer does to the ring. -/
theorem recvRun_effect {p p' : RecvPc SF RF Waker V} (h : recvRun c p = some (c', p')) :
    RecvEffect c.toRing p.phase c'.toRing p'.phase := by
  cases p with
  | idle result => exact absurd h (by simp [recvRun])
  | tryClosed | dropLenSub f | enqueueLenAdd f | setWaker f waker =>
      cases h
      exact .stay .outside
  | claim call =>
      cases h
      exact .claim
  | clear call pos =>
      cases h
      exact .clear pos
  | read call pos =>
      cases h
      exact .read pos
  | lenSub call value =>
      cases h
      exact .release
  | wakeOne call value =>
      simp only [recvRun] at h
      split at h
      · have h_end := recvWoken_outside (Option.some.inj h)
        exact .outside rfl h_end
      · cases h
        exact .stay .outside
  | wakeLenSub call value g hasWaker =>
      simp only [recvRun, Option.some.injEq] at h
      split at h
      · cases h
        exact .stay .outside
      · have h_end := recvWoken_outside h
        exact .outside rfl h_end
  | wakeCall call value g =>
      simp only [recvRun, Option.some.injEq] at h
      have h_end := recvWoken_outside h
      exact .outside rfl h_end
  | remove f after =>
      simp only [recvRun] at h
      split at h
      · cases h
        cases after <;> exact .stay _
      · have h_end := recvRemoved_effect (Option.some.inj h) (.remove f after) (Or.inl rfl)
        exact h_end
  | removeLenSub f after =>
      simp only [recvRun, Option.some.injEq] at h
      have h_end := recvRemoved_effect h (.removeLenSub f after) (Or.inr rfl)
      exact h_end
  | pollClosed f waker =>
      simp only [recvRun] at h
      split at h
      · simp only [Option.some.injEq] at h
        split at h <;> cases h <;> exact .stay .outside
      · exact .outside rfl (recvPark_outside (Option.some.inj h))
  | enqueue f =>
      simp only [recvRun] at h
      split at h <;> cases h
      exact .stay .outside
  | recheckLen f =>
      cases h
      split
      · next h_len => exact .enter .seeing h_len (Or.inl rfl)
      · exact .stay .outside
  | recheckClosed f =>
      simp only [recvRun] at h
      split at h <;> cases h <;> exact .stay .outside

/-- What one operation of the consumer does to the ring. -/
theorem recvStep_effect {p p' : RecvPc SF RF Waker V} {a : RecvAction RF Waker}
    (h : recvStep c p a = some (c', p')) : RecvEffect c.toRing p.phase c'.toRing p'.phase := by
  cases p <;> cases a <;> simp only [recvStep] at h
  all_goals first
    | exact recvStart_effect h
    | exact recvRun_effect h
    | exact absurd h (by simp)

end Effects
end Channel
end Zydon
