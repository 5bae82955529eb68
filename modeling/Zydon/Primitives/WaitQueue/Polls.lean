/-
  Zydon.Primitives.WaitQueue.Polls

  Futures that park in a wait queue, and the wakers they are polled with.

  A future stores a waker in the poll that enqueues its node, and in no later one
  (`Known`): the waker in a linked node is the one of the first poll.  The right
  one to invoke is that of the last (`Latest`).
-/

import Mathlib.Data.List.Basic
import Zydon.Primitives.WaitQueue.Parked

namespace Zydon
namespace WaitQueue

-- ============================================================================
-- Polls
-- ============================================================================

variable {Waker : Type*}

/-- The waker that a wake-up is to invoke, for a future with this status that has
    been polled with these wakers: the one of the last poll.  While a poll is
    running, the one of the poll before will do as well. -/
def Latest (polls : List Waker) (waker : Option Waker) : FutureStatus → Prop
  | .pending => waker = polls.getLast?
  | .polling => waker = polls.getLast? ∨ waker = polls.dropLast.getLast?
  | .fresh | .ready | .dropped => True

instance [DecidableEq Waker] (polls : List Waker) (waker : Option Waker) :
    ∀ status, Decidable (Latest polls waker status)
  | .pending => inferInstanceAs (Decidable (waker = polls.getLast?))
  | .polling => inferInstanceAs
      (Decidable (waker = polls.getLast? ∨ waker = polls.dropLast.getLast?))
  | .fresh | .ready | .dropped => .isTrue trivial

/-- What has become of a future, and the fields of its node that a wake-up looks
    at. -/
structure View (Waker : Type*) where
  status : FutureStatus
  registered : Bool
  linked : Bool
  waker : Option Waker

/-- What the polls of a future have left. -/
structure Known (x : View Waker) (polls : List Waker) : Prop where
  /-- The waker is the one of the first poll. -/
  waker_eq : x.linked = true → x.waker = polls.head?
  of_fresh : x.status = .fresh → polls = [] ∧ x.registered = false ∧ x.linked = false
  of_pending : x.status = .pending → polls ≠ [] ∧ x.registered = true

variable {x : View Waker} {polls : List Waker}

theorem known_new : Known (⟨.fresh, false, false, none⟩ : View Waker) [] where
  waker_eq := fun h => absurd h (by simp)
  of_fresh := fun _ => ⟨rfl, rfl, rfl⟩
  of_pending := fun h => absurd h (by simp)

/-- Of a future that is neither new nor parked only the waker is known. -/
theorem known_of_status (h_fresh : x.status ≠ .fresh) (h_pending : x.status ≠ .pending)
    (h_waker : x.linked = true → x.waker = polls.head?) : Known x polls where
  waker_eq := h_waker
  of_fresh := fun h => absurd h h_fresh
  of_pending := fun h => absurd h h_pending

/-- A further poll leaves the first one what it was. -/
theorem Known.waker_eq_append (h : Known x polls)
    (h_status : x.status = .fresh ∨ x.status = .pending) (h_linked : x.linked = true) (w : Waker) :
    x.waker = (polls ++ [w]).head? := by
  rcases h_status with h_fresh | h_pending
  · exact absurd (h_linked.symm.trans (h.of_fresh h_fresh).2.2) (by simp)
  · rw [List.head?_append_of_ne_nil polls (h.of_pending h_pending).1]
    exact h.waker_eq h_linked

/-- A future that may be polled and is not registered has not been polled yet. -/
theorem Known.of_not_registered (h : Known x polls)
    (h_status : x.status = .fresh ∨ x.status = .pending) (h_not : x.registered = false) :
    polls = [] ∧ x.linked = false := by
  rcases h_status with h_fresh | h_pending
  · exact ⟨(h.of_fresh h_fresh).1, (h.of_fresh h_fresh).2.2⟩
  · exact absurd (h_not.symm.trans (h.of_pending h_pending).2) (by simp)

theorem Known.of_registered (h : Known x polls)
    (h_status : x.status = .fresh ∨ x.status = .pending) (h_registered : x.registered = true) :
    polls ≠ [] := by
  rcases h_status with h_fresh | h_pending
  · exact absurd (h_registered.symm.trans (h.of_fresh h_fresh).2.1) (by simp)
  · exact (h.of_pending h_pending).1

-- ============================================================================
-- Nodes
-- ============================================================================

variable {ι : Type*} [DecidableEq ι] {q : WaitQueue ι Waker} {l : List ι} {node : ι}

theorem link_linked (hq : Rep q l) (h_free : (q.nodes node).linked = false) (j : ι) :
    ((q.link node).nodes j).linked = if j = node then true else (q.nodes j).linked := by
  rw [Bool.eq_iff_iff, (hq.link h_free).linked_iff, List.mem_append, List.mem_singleton,
    ← hq.linked_iff]
  split
  · next h_j => simp [h_j]
  · next h_j => simp [h_j]

theorem removeSection_linked (q : WaitQueue ι Waker) (node j : ι) :
    ((removeSection q node).2.nodes j).linked = if j = node then false else (q.nodes j).linked := by
  rw [removeSection]
  split
  · exact unlink_linked q node j
  · next h_not =>
      split
      · next h_j =>
          subst h_j
          exact Bool.eq_false_iff.mpr h_not
      · rfl

theorem removeSection_waker (q : WaitQueue ι Waker) (node j : ι) :
    ((removeSection q node).2.nodes j).waker = (q.nodes j).waker := by
  rw [removeSection]
  split
  · exact unlink_waker q node j
  · rfl

/-- `wake_one`, on a queue with a first node. -/
theorem wakeOneSection_head (hq : Rep q l) (h_head : q.head = some node) :
    ∃ q', q.wakeOneSection = (some (node, (q.nodes node).waker), q') ∧
      (q.nodes node).linked = true ∧ Rep q' l.tail ∧
      ∀ j, (q'.nodes j).linked = (if j = node then false else (q.nodes j).linked) ∧
        (q'.nodes j).waker = if j = node then none else (q.nodes j).waker := by
  obtain ⟨rest, rfl⟩ : ∃ rest, l = node :: rest := by
    rw [hq.head_eq] at h_head
    exact List.head?_eq_some_iff.mp h_head
  have h_unlink : Rep (q.unlink node) rest := Rep.unlink (show Rep q ([] ++ node :: rest) from hq)
  refine ⟨_, hq.wakeOneSection_cons, (hq.linked_iff node).mpr List.mem_cons_self,
    h_unlink.modify node (fun _ => rfl) (fun _ => rfl) fun _ => rfl, fun j => ?_⟩
  rw [modify_nodes]
  split
  · refine ⟨?_, rfl⟩
    show ((q.unlink node).nodes node).linked = false
    rw [unlink_linked, if_pos rfl]
  · next h_j => exact ⟨by rw [unlink_linked, if_neg h_j], unlink_waker q node j⟩

end WaitQueue

end Zydon
