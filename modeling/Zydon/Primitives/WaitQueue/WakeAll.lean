/-
  Zydon.Primitives.WaitQueue.WakeAll

  `wake_all` of `primitives/wait_queue.rs` up to the store of `len`: the nodes are
  dequeued one after the other, and their wakers collected in a vector of fixed
  capacity, from which the call invokes them once the spinlock is released.
-/

import Zydon.Primitives.WaitQueue.Rep

namespace Zydon
namespace WaitQueue

variable {ι Waker : Type*}

/-- The capacity of the vector in `wake_all`. -/
def wakersCapacity : Nat := 64

/-- `push` of the waker that was taken from a node, if there was one: a full
    vector gives it back, and it is dropped. -/
def pushWaker (wakers : List Waker) : Option Waker → List Waker
  | some waker => if wakers.length ≥ wakersCapacity then wakers else wakers ++ [waker]
  | none => wakers

/-- The vector keeps the wakers that fit. -/
theorem foldl_pushWaker (taken : List (Option Waker)) {wakers : List Waker}
    (h_room : wakers.length ≤ wakersCapacity) :
    taken.foldl pushWaker wakers = (wakers ++ taken.filterMap id).take wakersCapacity := by
  induction taken generalizing wakers with
  | nil => rw [List.filterMap_nil, List.append_nil, List.take_of_length_le h_room, List.foldl_nil]
  | cons waker taken ih =>
      rw [List.foldl_cons]
      cases waker with
      | none => exact ih h_room
      | some waker =>
          show _ = (wakers ++ waker :: taken.filterMap id).take wakersCapacity
          by_cases h_full : wakers.length ≥ wakersCapacity
          · have h_same : pushWaker wakers (some waker) = wakers := if_pos h_full
            have h_length : wakers.length = wakersCapacity := by omega
            rw [h_same, ih h_room, ← h_length, List.take_left, List.take_left]
          · have h_push : pushWaker wakers (some waker) = wakers ++ [waker] := if_neg h_full
            have h_left : (wakers ++ [waker]).length ≤ wakersCapacity := by
              rw [List.length_append, List.length_singleton]
              omega
            rw [h_push, ih h_left, List.append_assoc, List.singleton_append]

variable [DecidableEq ι]

/-- The loop of `wake_all`, or `none` if it has not ended after `fuel` rounds. -/
def wakeAllLoop : Nat → List Waker → WaitQueue ι Waker → Option (List Waker × WaitQueue ι Waker)
  | fuel, wakers, q =>
      match q.wakeOneSection with
      | (none, q) => some (wakers, q)
      | (some (_, waker), q) =>
          match fuel with
          | 0 => none
          | fuel + 1 => wakeAllLoop fuel (pushWaker wakers waker) q

/-- `wake_all` up to the release of the spinlock: the wakers it will invoke. -/
def wakeAllSection (fuel : Nat) (q : WaitQueue ι Waker) :
    Option (List Waker × WaitQueue ι Waker) :=
  wakeAllLoop fuel [] q

/-- The store to `len` after the section. -/
def lenZero (q : WaitQueue ι Waker) : WaitQueue ι Waker := { q with len := 0 }

/-- What a section of `wake_one` keeps, the loop keeps, up to a section that finds
    no node. -/
theorem wakeAllLoop_invariant {P : WaitQueue ι Waker → Prop}
    (h_step : ∀ q, P q → P q.wakeOneSection.2) {q q' : WaitQueue ι Waker} {fuel : Nat}
    {wakers wakers' : List Waker} (hq : P q)
    (h : wakeAllLoop fuel wakers q = some (wakers', q')) :
    P q' ∧ ∃ q₁, P q₁ ∧ q₁.wakeOneSection = (none, q') := by
  induction fuel generalizing wakers q with
  | zero =>
      have h_one := h_step q hq
      rw [wakeAllLoop] at h
      split at h
      · next q₁ h_section =>
          rw [h_section] at h_one
          obtain ⟨-, rfl⟩ : wakers = wakers' ∧ q₁ = q' := by simpa using h
          exact ⟨h_one, q, hq, h_section⟩
      · exact nomatch h
  | succ fuel ih =>
      have h_one := h_step q hq
      rw [wakeAllLoop] at h
      split at h
      · next q₁ h_section =>
          rw [h_section] at h_one
          obtain ⟨-, rfl⟩ : wakers = wakers' ∧ q₁ = q' := by simpa using h
          exact ⟨h_one, q, hq, h_section⟩
      · next q₁ h_section =>
          rw [h_section] at h_one
          exact ih h_one h

/-- No node is given a priority. -/
theorem NoPriorities.wakeAllSection {q q' : WaitQueue ι Waker} {fuel : Nat} {wakers : List Waker}
    (hq : NoPriorities q) (h : WaitQueue.wakeAllSection fuel q = some (wakers, q')) :
    NoPriorities q' :=
  (wakeAllLoop_invariant (fun _ h => h.wakeOneSection) hq h).1

end WaitQueue
end Zydon
