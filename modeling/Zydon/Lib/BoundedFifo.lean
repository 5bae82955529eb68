/-
  Zydon.Lib.BoundedFifo

  A bounded first-in first-out queue, as a list, with the calls on it that
  return at once: a value is accepted exactly when there is room and refused
  exactly when there is none, and a value is taken, from the front, exactly when
  there is one.

  `Run cap es l` says that a queue of capacity `cap` that starts empty can
  answer its calls by the events `es` and then holds `l`.
-/

import Mathlib.Data.List.Basic

namespace Lib
namespace BoundedFifo

variable {α : Type*}

/-- How a call has gone. -/
inductive Event (α : Type*) where
  | accept (x : α)
  | refuse
  | take (x : α)
  | empty
  /-- A call that does nothing to the queue. -/
  | skip

/-- What each event does to a queue of capacity `cap`, and when it can occur. -/
inductive Step (cap : Nat) : List α → Event α → List α → Prop
  | accept {l : List α} (x : α) (h_room : l.length < cap) : Step cap l (.accept x) (l ++ [x])
  | refuse {l : List α} (h_full : cap ≤ l.length) : Step cap l .refuse l
  | take (x : α) (l : List α) : Step cap (x :: l) (.take x) l
  | empty : Step cap [] .empty []
  | skip (l : List α) : Step cap l .skip l

/-- The events of a run from the empty queue. -/
inductive Run (cap : Nat) : List (Event α) → List α → Prop
  | nil : Run cap [] []
  | snoc {es : List (Event α)} {e : Event α} {l l' : List α} (h_run : Run cap es l)
      (h_step : Step cap l e l') : Run cap (es ++ [e]) l'

/-- The value an event takes in. -/
def Event.accepted : Event α → Option α
  | .accept x => some x
  | _ => none

/-- The value an event gives out. -/
def Event.taken : Event α → Option α
  | .take x => some x
  | _ => none

variable {cap : Nat} {es : List (Event α)} {l : List α}

theorem Run.length_le (h : Run cap es l) : l.length ≤ cap := by
  induction h with
  | nil => exact Nat.zero_le cap
  | snoc h_run h_step ih =>
      cases h_step with
      | accept x h_room =>
          rw [List.length_append, List.length_singleton]
          exact h_room
      | take x l => exact Nat.le_of_succ_le ih
      | refuse | empty | skip => exact ih

/-- The values come out in the order in which they have gone in, each once; the
    rest is in the queue. -/
theorem Run.accepted_eq (h : Run cap es l) :
    es.filterMap Event.accepted = es.filterMap Event.taken ++ l := by
  induction h with
  | nil => rfl
  | snoc h_run h_step ih =>
      rw [List.filterMap_append, List.filterMap_append, ih]
      cases h_step <;> simp [List.filterMap_cons, Event.accepted, Event.taken]

end BoundedFifo
end Lib
