/-
  Zydon.Primitives.WaitQueue.Priority

  The insertion loop of `enqueue`: the new node is linked at the tail and
  changes places with the node before it as long as that one has a lower
  priority.

  One round swaps two neighbours of the list (`Rep.swapBefore`); the loop ends
  with the node where it belongs by priority (`Rep.bubble`), which makes
  `enqueue` the arrival in a list in order of priority (`Rep.enqueueSection`).
-/

import Zydon.Lib.PriorityList
import Zydon.Primitives.WaitQueue.Rep

namespace Zydon
namespace WaitQueue

open Lib

variable {ι Waker : Type*} [DecidableEq ι] {q : WaitQueue ι Waker} {l l₁ l₂ : List ι} {node : ι}

/-- The priority of a node. -/
def prio (q : WaitQueue ι Waker) (i : ι) : Int := (q.nodes i).priority

-- ============================================================================
-- One round
-- ============================================================================

theorem swapBefore_next (q : WaitQueue ι Waker) (node cursor j : ι) :
    ((q.swapBefore node cursor).nodes j).next =
      if (q.nodes cursor).prev = some j then some node
      else if j = cursor then (q.nodes node).next
      else if j = node then some cursor
      else (q.nodes j).next := by
  simp only [swapBefore]
  split <;> split <;> simp only [modify_nodes] <;> grind

theorem swapBefore_prev (q : WaitQueue ι Waker) (node cursor j : ι) :
    ((q.swapBefore node cursor).nodes j).prev =
      if (q.nodes node).next = some j then some cursor
      else if j = cursor then some node
      else if j = node then (q.nodes cursor).prev
      else (q.nodes j).prev := by
  simp only [swapBefore]
  split <;> split <;> simp only [modify_nodes] <;> grind

theorem swapBefore_head (q : WaitQueue ι Waker) (node cursor : ι) :
    (q.swapBefore node cursor).head =
      if (q.nodes cursor).prev.isNone then some node else q.head := by
  simp only [swapBefore]
  split <;> split <;> simp_all

theorem swapBefore_tail (q : WaitQueue ι Waker) (node cursor : ι) :
    (q.swapBefore node cursor).tail =
      if (q.nodes node).next.isNone then some cursor else q.tail := by
  simp only [swapBefore]
  split <;> split <;> simp_all

@[simp] theorem swapBefore_len (q : WaitQueue ι Waker) (node cursor : ι) :
    (q.swapBefore node cursor).len = q.len := by
  simp only [swapBefore]
  split <;> split <;> rfl

@[simp] theorem swapBefore_linked (q : WaitQueue ι Waker) (node cursor j : ι) :
    ((q.swapBefore node cursor).nodes j).linked = (q.nodes j).linked := by
  simp only [swapBefore]
  split <;> split <;> simp only [modify_nodes] <;> grind

@[simp] theorem swapBefore_waker (q : WaitQueue ι Waker) (node cursor j : ι) :
    ((q.swapBefore node cursor).nodes j).waker = (q.nodes j).waker := by
  simp only [swapBefore]
  split <;> split <;> simp only [modify_nodes] <;> grind

@[simp] theorem swapBefore_prio (q : WaitQueue ι Waker) (node cursor : ι) :
    (q.swapBefore node cursor).prio = q.prio := by
  funext j
  simp only [prio, swapBefore]
  split <;> split <;> simp only [modify_nodes] <;> grind

/-- A round of the loop swaps the node with the one before it. -/
theorem Rep.swapBefore {cursor : ι} (hq : Rep q (l₁ ++ cursor :: node :: l₂)) :
    Rep (q.swapBefore node cursor) (l₁ ++ node :: cursor :: l₂) := by
  have h_prev : (q.nodes cursor).prev = l₁.getLast? := hq.prev_eq
  have h_next : (q.nodes node).next = l₂.head? := by
    have h_split : l₁ ++ cursor :: node :: l₂ = (l₁ ++ [cursor]) ++ node :: l₂ := by simp
    rw [h_split] at hq
    exact hq.next_eq
  have h_nodup := hq.nodup
  have h_cursor_ne : cursor ≠ node := by
    rintro rfl
    exact (List.nodup_cons.mp (List.nodup_append.mp h_nodup).2.1).1 List.mem_cons_self
  constructor
  case forward =>
    have h_seg : Seg (fun i => ((q.swapBefore node cursor).nodes i).next)
        (if l₁.isEmpty then some node else q.head) (l₁ ++ node :: cursor :: l₂) none := by
      apply hq.forward.swap h_nodup
      · intro k hk
        show ((q.swapBefore node cursor).nodes k).next = _
        rw [swapBefore_next, h_prev, if_pos hk]
      · show ((q.swapBefore node cursor).nodes node).next = _
        have h_node : l₁.getLast? ≠ some node := by
          intro h_last
          have h_mem := List.mem_of_getLast? h_last
          exact (List.nodup_append.mp h_nodup).2.2 node h_mem node (by simp) rfl
        rw [swapBefore_next, h_prev, if_neg h_node, if_neg h_cursor_ne.symm, if_pos rfl]
      · show ((q.swapBefore node cursor).nodes cursor).next = _
        have h_cursor : l₁.getLast? ≠ some cursor := by
          intro h_last
          have h_mem := List.mem_of_getLast? h_last
          exact (List.nodup_append.mp h_nodup).2.2 cursor h_mem cursor (by simp) rfl
        rw [swapBefore_next, h_prev, if_neg h_cursor, if_pos rfl]
      · intro k h_kc h_kn h_last
        show ((q.swapBefore node cursor).nodes k).next = _
        rw [swapBefore_next, h_prev, if_neg h_last, if_neg h_kc, if_neg h_kn]
    rw [swapBefore_head, h_prev]
    cases l₁ <;> simpa using h_seg
  case backward =>
    have h_back := hq.backward
    have h_rev : (l₁ ++ cursor :: node :: l₂).reverse =
        l₂.reverse ++ node :: cursor :: l₁.reverse := by simp
    have h_nodup_rev : (l₂.reverse ++ node :: cursor :: l₁.reverse).Nodup := by
      rw [← h_rev]
      exact List.nodup_reverse.mpr h_nodup
    rw [h_rev] at h_back
    have h_last_iff : ∀ k, l₂.reverse.getLast? = some k ↔ (q.nodes node).next = some k := by
      intro k
      rw [h_next, List.getLast?_reverse]
    have h_seg : Seg (fun i => ((q.swapBefore node cursor).nodes i).prev)
        (if l₂.reverse.isEmpty then some cursor else q.tail)
        (l₂.reverse ++ cursor :: node :: l₁.reverse) none := by
      apply h_back.swap h_nodup_rev
      · intro k hk
        show ((q.swapBefore node cursor).nodes k).prev = _
        rw [swapBefore_prev, if_pos ((h_last_iff k).mp hk)]
      · show ((q.swapBefore node cursor).nodes cursor).prev = _
        have h_cursor : ¬ (q.nodes node).next = some cursor := by
          intro h_last
          have h_mem := List.mem_of_getLast? ((h_last_iff cursor).mpr h_last)
          exact (List.nodup_append.mp h_nodup_rev).2.2 cursor h_mem cursor (by simp) rfl
        rw [swapBefore_prev, if_neg h_cursor, if_pos rfl]
      · show ((q.swapBefore node cursor).nodes node).prev = _
        have h_node : ¬ (q.nodes node).next = some node := by
          intro h_last
          have h_mem := List.mem_of_getLast? ((h_last_iff node).mpr h_last)
          exact (List.nodup_append.mp h_nodup_rev).2.2 node h_mem node (by simp) rfl
        rw [swapBefore_prev, if_neg h_node, if_neg h_cursor_ne.symm, if_pos rfl]
      · intro k h_kn h_kc h_last
        show ((q.swapBefore node cursor).nodes k).prev = _
        rw [swapBefore_prev, if_neg (mt (h_last_iff k).mpr h_last), if_neg h_kc, if_neg h_kn]
    have h_rev' : (l₁ ++ node :: cursor :: l₂).reverse =
        l₂.reverse ++ cursor :: node :: l₁.reverse := by simp
    rw [swapBefore_tail, h_next, h_rev']
    cases l₂ <;> simpa using h_seg
  case nodup =>
    have h_perm : (l₁ ++ cursor :: node :: l₂).Perm (l₁ ++ node :: cursor :: l₂) :=
      (List.Perm.swap node cursor l₂).append_left l₁
    exact h_perm.nodup h_nodup
  case linked_iff =>
    intro j
    rw [swapBefore_linked, hq.linked_iff]
    simp only [List.mem_append, List.mem_cons]
    tauto

-- ============================================================================
-- The loop
-- ============================================================================

/-- What the loop leaves as it is. -/
structure SameNodes (q q' : WaitQueue ι Waker) : Prop where
  prio : q'.prio = q.prio
  waker : ∀ j, (q'.nodes j).waker = (q.nodes j).waker
  len : q'.len = q.len

/-- The loop ends, and the node has moved up past everything of lower priority.
    The induction is on the rounds left; `l₂` is what the node has passed. -/
theorem Rep.bubble {fuel : Nat} (hq : Rep q (l₁ ++ node :: l₂)) (h_fuel : l₁.length ≤ fuel)
    (h_sorted : l₁.Pairwise fun a b => q.prio b ≤ q.prio a)
    (h_passed : ∀ a ∈ l₂, q.prio a < q.prio node) :
    ∃ q', bubble fuel q node (q.nodes node).prev = some q' ∧
      Rep q' (arrive q.prio node (l₁ ++ l₂)) ∧ SameNodes q q' := by
  have h_prev : (q.nodes node).prev = l₁.getLast? := hq.prev_eq
  induction fuel generalizing q l₁ l₂ with
  | zero =>
      obtain rfl : l₁ = [] := List.eq_nil_of_length_eq_zero (by omega)
      refine ⟨q, ?_, ?_, ⟨rfl, fun _ => rfl, rfl⟩⟩
      · rw [h_prev]
        rfl
      · rw [arrive_append (fun a ha => absurd ha List.not_mem_nil) h_passed]
        exact hq
  | succ fuel ih =>
      rcases List.eq_nil_or_concat l₁ with rfl | ⟨k, cursor, rfl⟩
      · refine ⟨q, ?_, ?_, ⟨rfl, fun _ => rfl, rfl⟩⟩
        · rw [h_prev]
          rfl
        · rw [arrive_append (fun a ha => absurd ha List.not_mem_nil) h_passed]
          exact hq
      · rw [List.concat_eq_append] at *
        rw [h_prev, List.getLast?_append_of_ne_nil _ (by simp), List.getLast?_singleton,
          WaitQueue.bubble]
        split
        · next h_lower =>
            have h_swap : Rep (q.swapBefore node cursor) (k ++ node :: cursor :: l₂) := by
              apply Rep.swapBefore
              rwa [List.append_assoc] at hq
            have h_next := ih h_swap (by simp at h_fuel; omega)
              (by rw [swapBefore_prio]; exact (List.pairwise_append.mp h_sorted).1)
              (by
                rw [swapBefore_prio]
                exact List.forall_mem_cons.mpr ⟨h_lower, h_passed⟩)
              h_swap.prev_eq
            obtain ⟨q', h_run, h_rep, h_same⟩ := h_next
            refine ⟨q', h_run, ?_, ?_⟩
            · rw [swapBefore_prio] at h_rep
              rwa [List.append_assoc]
            · exact ⟨h_same.prio.trans (swapBefore_prio ..),
                fun j => (h_same.waker j).trans (swapBefore_waker ..),
                h_same.len.trans (swapBefore_len ..)⟩
        · next h_stay =>
            refine ⟨q, rfl, ?_, ⟨rfl, fun _ => rfl, rfl⟩⟩
            rw [arrive_append _ h_passed]
            · exact hq
            · intro a ha
              have h_cursor : q.prio node ≤ q.prio cursor := Int.not_lt.mp h_stay
              rcases List.mem_append.mp ha with ha | ha
              · have h_a := (List.pairwise_append.mp h_sorted).2.2 a ha cursor (by simp)
                exact h_cursor.trans h_a
              · obtain rfl : a = cursor := by simpa using ha
                exact h_cursor

/-- `enqueue` of an unlinked node is its arrival in the list. -/
theorem Rep.enqueueSection {fuel : Nat} {stamp : ι → Nat} (hq : Rep q l)
    (h_free : (q.nodes node).linked = false) (h_fuel : l.length ≤ fuel)
    (h_order : InOrder q.prio stamp l) :
    ∃ q', enqueueSection fuel q node = some q' ∧ Rep q' (arrive q.prio node l) ∧
      SameNodes q q' := by
  have h_prio : (q.link node).prio = q.prio := funext fun j => link_priority q node j
  have h_sorted : l.Pairwise fun a b => (q.link node).prio b ≤ (q.link node).prio a := by
    rw [h_prio]
    exact h_order.imp fun h => h.elim le_of_lt fun h => le_of_eq h.1.symm
  obtain ⟨q', h_run, h_rep, h_same⟩ := (hq.link h_free).bubble h_fuel h_sorted
    fun a ha => absurd ha List.not_mem_nil
  rw [List.append_nil, h_prio] at h_rep
  refine ⟨q', h_run, h_rep, ⟨h_same.prio.trans h_prio, fun j => ?_, ?_⟩⟩
  · rw [h_same.waker, link_waker]
  · rw [h_same.len, link_len]

end WaitQueue
end Zydon
