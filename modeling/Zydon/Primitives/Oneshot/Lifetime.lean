/-
  Zydon.Primitives.Oneshot.Lifetime

  The box that the two halves of a oneshot channel share (`Shared`, `SharedBox` of
  `primitives/oneshot.rs`), over every interleaving of their accesses and of the
  releases of their references.

  `send`, the drop of the sender and the drop of the receiver's future end with
  the drop of their `Shared`: the `fetch_sub` on the count, and for the last of
  them the drop of the box, with what is left in it.
-/

import Zydon.Lib.SharedBox
import Zydon.Primitives.Oneshot.Delivery

namespace Zydon
namespace Oneshot

open Lib

variable {T W : Type*}

-- ============================================================================
-- The halves with their references
-- ============================================================================

/-- The sender has come to where its `Shared` is dropped. -/
def SendPc.returned : SendPc T W → Bool
  | .sent _ _ | .dropped => true
  | _ => false

/-- The receiver, or its future, is being dropped. -/
def RecvPc.returned : RecvPc T W → Bool
  | .done _ | .dropped => true
  | _ => false

/-- A channel with the reference count of its box. -/
def sharedOneshot (T W : Type*) :
    Machine (Pair (SharedBox (OneshotInner T W)) (Holder (SendPc T W)) (Holder (RecvPc T W)))
      (HolderAction (SendAction T) ⊕ HolderAction (RecvAction W)) :=
  sharedPair (sender T W) (receiver T W) SendPc.returned RecvPc.returned .new

-- ============================================================================
-- The value
-- ============================================================================

/-- The values that are in the box, or have been handed to the receiver. -/
def OneshotInner.values (s : OneshotInner T W) (q : RecvPc T W) : List T :=
  s.value.toList ++ q.got.toList

/-- Without a call of `send` there is no value. -/
def Unsent (s : OneshotInner T W) (p : SendPc T W) : Prop := p.value = none → s.value = none

variable {s s' : OneshotInner T W} {p p' : SendPc T W} {q q' : RecvPc T W}

theorem Unsent.sendEffect (h : Unsent s p) (h_inv : Inv s p q) (h_step : SendEffect s p s' p') :
    Unsent s' p' := by
  intro h_none
  cases h_step with
  | send v => exact absurd h_none (by simp [SendPc.value])
  | loadOther v h_waiting h_empty =>
      cases h_q : q.awaiting with
      | true => exact absurd (h_inv.undelivered h_q).1 (not_or.mpr ⟨h_empty, h_waiting⟩)
      | false =>
          rcases (h_inv.delivered h_q).settled with ⟨w, h_w⟩ | h_closed
          · exact absurd h_w (by simp [SendPc.announced])
          · exact absurd h_closed (by simp [SendPc.closed])
  | dropWaiting _ | dropEmpty _ | dropOther _ _ | closedWaiting | dropTookWaker _ _
  | dropNoWaker _ | dropWoke _ | closedEmpty => exact h rfl
  | loadEmpty _ _ | loadWaiting _ _ | exchanged _ _ | exchangeFailed _ _ | storedReady _
  | tookWaker _ _ _ | noWaker _ _ | woke _ _ => exact absurd h_none (by simp [SendPc.value])

theorem Unsent.recvEffect (h : Unsent s p) (h_step : RecvEffect s q s' q') : Unsent s' p := by
  intro h_none
  have h_value := h h_none
  cases h_step with
  | took _ _ | noValue _ => rfl
  | pollReady _ | pollClosed _ | pollOpen _ _ | pollConsumed _ | updated _ | stored _
  | exchanged _ _ | exchangeFailed _ _ | recheckReady _ _ | recheckClosed _ _ | pending _ _ _
  | consumed | dropped => exact h_value

theorem unsent_of_reachable {s : Halves T W} (h : (oneshot T W).Reachable s) :
    Unsent s.shared s.left := by
  have h_both : Inv s.shared s.left s.right ∧ Unsent s.shared s.left := by
    apply h.invariant (P := fun s => Inv s.shared s.left s.right ∧ Unsent s.shared s.left)
    · exact ⟨inv_new, fun _ => rfl⟩
    · rintro s a s' ⟨h_inv, h_unsent⟩ h_step
      refine ⟨inv_step h_inv h_step, ?_⟩
      rcases oneshot_step h_step with ⟨h_effect, -⟩ | ⟨h_effect, h_left⟩
      · exact h_unsent.sendEffect h_inv h_effect
      · rw [h_left]
        exact h_unsent.recvEffect h_effect
  exact h_both.2

/-- A value that `READY` announces is the one `send` was called with. -/
theorem SendPc.value_of_announced {v : T} (h : p.announced = some v) : p.value = some v := by
  cases p <;> first | exact h | exact absurd h (by simp [SendPc.announced])

theorem SendPc.value_of_closed (h : p.closed = true) : p.value = none := by
  cases p <;> first | rfl | exact absurd h (by simp [SendPc.closed])

/-- As long as the receiver waits, the value that was sent is in the box. -/
theorem Undelivered.value_eq {v : T} (h : Undelivered s p) (h_v : p.value = some v) :
    s.value = some v := by
  cases p <;> simp only [SendPc.value, reduceCtorEq, Option.some.injEq] at h_v <;>
    exact h_v ▸ h.2

/-- The value that was sent is in the box or with the receiver, and nowhere twice. -/
theorem values_of_reachable {s : Halves T W} (h : (oneshot T W).Reachable s) :
    s.shared.values s.right = s.left.value.toList := by
  have h_inv := inv_of_reachable h
  have h_unsent := unsent_of_reachable h
  obtain ⟨shared, p, q⟩ := s
  dsimp only at h_inv h_unsent ⊢
  cases h_v : p.value with
  | none =>
      have h_got : q.got = none := by
        cases q with
        | done result =>
            cases result with
            | ok v =>
                have h_w := SendPc.value_of_announced (h_inv.delivered rfl).1
                exact absurd (h_v.symm.trans h_w) (by simp)
            | error e => rfl
        | _ => rfl
      rw [OneshotInner.values, h_unsent h_v, h_got]
      rfl
  | some v =>
      cases h_q : q.awaiting with
      | true =>
          have h_got : q.got = none := by
            cases q <;> first | rfl | exact absurd h_q (by simp [RecvPc.awaiting])
          rw [OneshotInner.values, (h_inv.undelivered h_q).value_eq h_v, h_got]
          rfl
      | false =>
          have h_delivered := h_inv.delivered h_q
          cases q with
          | consume | takeValue =>
              obtain ⟨w, h_w, -, h_value⟩ := h_delivered
              obtain rfl : v = w :=
                Option.some.inj (h_v.symm.trans (SendPc.value_of_announced h_w))
              rw [OneshotInner.values, h_value]
              rfl
          | done result =>
              cases result with
              | ok w =>
                  obtain ⟨h_w, h_value⟩ := h_delivered
                  obtain rfl : v = w :=
                    Option.some.inj (h_v.symm.trans (SendPc.value_of_announced h_w))
                  rw [OneshotInner.values, h_value]
                  rfl
              | error e =>
                  exact absurd (h_v.symm.trans (SendPc.value_of_closed h_delivered)) (by simp)
          | idle _ _ | storeWaker _ _ | exchange _ | recheck _ | dropped | unreachable =>
              exact h_delivered.elim

-- ============================================================================
-- The box
-- ============================================================================

/-- The box of a channel lives as long as one of the halves, and takes with it the
    value that the receiver has not got. -/
structure FreedOnce
    (s : Pair (SharedBox (OneshotInner T W)) (Holder (SendPc T W)) (Holder (RecvPc T W))) :
    Prop where
  /-- No access to the box comes after it is freed. -/
  no_fault : s.shared.faults = 0
  counts : s.shared.refcount.toNat = s.left.isHolding.toNat + s.right.isHolding.toNat
  /-- The box is freed when both halves are gone, and once. -/
  freed : s.shared.freed.length = if s.left.isGone && s.right.isGone then 1 else 0
  /-- The value that was sent is in the live box, has been dropped with the box, or
      has been handed to the receiver: one of the three, once. -/
  value_once : (if s.shared.freed = [] then s.shared.contents.value.toList else []) ++
      s.shared.freed.flatMap (fun m => m.value.toList) ++ s.right.pc.got.toList =
    s.left.pc.value.toList
  /-- Neither half panics. -/
  reachable : s.left.pc ≠ .unreachable ∧ s.right.pc ≠ .unreachable

/-- In every interleaving of the two halves with the releases of their references,
    the box is freed once, after the last access to it, and no value is lost or
    dropped twice. -/
theorem freedOnce_of_reachable
    {s : Pair (SharedBox (OneshotInner T W)) (Holder (SendPc T W)) (Holder (RecvPc T W))}
    (h : (sharedOneshot T W).Reachable s) : FreedOnce s := by
  have h_shared := sharedInv_of_reachable h
  have h_values := values_of_reachable h_shared.reachable
  have h_once := deliversOnce_of_reachable h_shared.reachable
  have h_freed := h_shared.owned.freed_eq
  constructor
  case no_fault => exact h_shared.faults
  case counts => exact h_shared.owned.refcount_eq
  case freed =>
    rw [h_freed]
    split <;> rfl
  case value_once =>
    rw [h_freed]
    split
    · simpa [OneshotInner.values] using h_values
    · simpa [OneshotInner.values] using h_values
  case reachable => exact ⟨h_once.send_reachable, h_once.recv_reachable⟩

/-- The receiver parks and is dropped, and `send` is the last to let go of the box. -/
def sentToNobody : List (HolderAction (SendAction Nat) ⊕ HolderAction (RecvAction Nat)) :=
  [.inr (.run (.poll 1)), .inr (.run .next), .inr (.run .next), .inr (.run .next),
    .inr (.run .drop), .inl (.run (.send 7)), .inr .release, .inl (.run .next), .inl (.run .next),
    .inl (.run .next), .inl (.run .next), .inl .release, .inl .free]

theorem freedOnce_sentToNobody :
    ∃ s, (sharedOneshot Nat Nat).exec (sharedOneshot Nat Nat).init sentToNobody = some s ∧
      s.shared.freed.map (fun m => m.value) = [some 7] ∧ FreedOnce s := by
  have h_replay : ((sharedOneshot Nat Nat).exec (sharedOneshot Nat Nat).init sentToNobody).any
      (fun s => decide (s.shared.freed.map (fun m => m.value) = [some 7])) = true := by
    decide +kernel
  obtain ⟨s, h_run, h_freed⟩ := Machine.exec_of_decide h_replay
  exact ⟨s, h_run, h_freed, freedOnce_of_reachable ⟨_, h_run⟩⟩

end Oneshot
end Zydon
