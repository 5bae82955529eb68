/-
  Zydon.Primitives.WaitQueue.Rep

  `Rep q l`: the memory of the wait queue `q` is the doubly linked list `l`.

  There is one lemma for what each critical section does to the list
  (`Rep.link`, `Rep.removeSection`, `Rep.wakeOneSection_cons`), beside the
  lemmas that say what it leaves of a node's other fields.  The mutex and the
  channel give their nodes no priorities, so that `enqueue` is `link` for them
  (`NoPriorities.enqueueSection`).
-/

import Zydon.Lib.PointerList
import Zydon.Primitives.WaitQueue.Basic

namespace Zydon
namespace WaitQueue

open Lib

variable {ι Waker : Type*} {q q' : WaitQueue ι Waker} {l l' : List ι}

-- ============================================================================
-- The queue as a list
-- ============================================================================

/-- The memory of `q` is the doubly linked list `l`. -/
structure Rep (q : WaitQueue ι Waker) (l : List ι) : Prop where
  forward : Seg (fun i => (q.nodes i).next) q.head l none
  backward : Seg (fun i => (q.nodes i).prev) q.tail l.reverse none
  nodup : l.Nodup
  linked_iff : ∀ i, (q.nodes i).linked = true ↔ i ∈ l

theorem rep_new : Rep (new : WaitQueue ι Waker) [] where
  forward := rfl
  backward := rfl
  nodup := List.nodup_nil
  linked_iff := by simp [new, WaitNode.new]

/-- The list only depends on the links. -/
theorem Rep.congr (hq : Rep q l) (h_head : q'.head = q.head) (h_tail : q'.tail = q.tail)
    (h_next : ∀ i, (q'.nodes i).next = (q.nodes i).next)
    (h_prev : ∀ i, (q'.nodes i).prev = (q.nodes i).prev)
    (h_linked : ∀ i, (q'.nodes i).linked = (q.nodes i).linked) : Rep q' l where
  forward := by
    rw [h_head]
    exact hq.forward.congr fun i _ => h_next i
  backward := by
    rw [h_tail]
    exact hq.backward.congr fun i _ => h_prev i
  nodup := hq.nodup
  linked_iff := fun i => by rw [h_linked, hq.linked_iff]

theorem Rep.lenAdd (hq : Rep q l) : Rep q.lenAdd l :=
  hq.congr rfl rfl (fun _ => rfl) (fun _ => rfl) fun _ => rfl

theorem Rep.lenSub (hq : Rep q l) : Rep q.lenSub l :=
  hq.congr rfl rfl (fun _ => rfl) (fun _ => rfl) fun _ => rfl

/-- A memory is one list. -/
theorem Rep.unique (hq : Rep q l) (hq' : Rep q l') : l = l' := hq.forward.unique hq'.forward

theorem Rep.head_eq (hq : Rep q l) : q.head = l.head? := by
  simpa using hq.forward.start_eq

theorem Rep.tail_eq (hq : Rep q l) : q.tail = l.getLast? := by
  simpa using hq.backward.start_eq

/-- The neighbours of a node are the ones in the list. -/
theorem Rep.next_eq {l₁ l₂ : List ι} {i : ι} (hq : Rep q (l₁ ++ i :: l₂)) :
    (q.nodes i).next = l₂.head? := by
  obtain ⟨m, -, -, h⟩ := Seg.append_iff.mp hq.forward
  simpa using h.start_eq

theorem Rep.prev_eq {l₁ l₂ : List ι} {i : ι} (hq : Rep q (l₁ ++ i :: l₂)) :
    (q.nodes i).prev = l₁.getLast? := by
  have h := hq.backward
  rw [List.reverse_append, List.reverse_cons, List.append_assoc] at h
  obtain ⟨m, -, -, h⟩ := Seg.append_iff.mp h
  simpa using h.start_eq

-- ============================================================================
-- Writes
-- ============================================================================

variable [DecidableEq ι]

theorem modify_nodes (q : WaitQueue ι Waker) (i j : ι) (f : WaitNode ι Waker → WaitNode ι Waker) :
    (q.modify i f).nodes j = if j = i then f (q.nodes i) else q.nodes j := by
  simp only [modify, Function.update_apply]

@[simp] theorem modify_head (q : WaitQueue ι Waker) (i : ι)
    (f : WaitNode ι Waker → WaitNode ι Waker) : (q.modify i f).head = q.head := rfl

@[simp] theorem modify_tail (q : WaitQueue ι Waker) (i : ι)
    (f : WaitNode ι Waker → WaitNode ι Waker) : (q.modify i f).tail = q.tail := rfl

@[simp] theorem modify_len (q : WaitQueue ι Waker) (i : ι)
    (f : WaitNode ι Waker → WaitNode ι Waker) : (q.modify i f).len = q.len := rfl

/-- A write that keeps a field of its node keeps that field everywhere. -/
theorem modify_field {α : Type*} (q : WaitQueue ι Waker) (i j : ι)
    {f : WaitNode ι Waker → WaitNode ι Waker} {field : WaitNode ι Waker → α}
    (h_field : ∀ n, field (f n) = field n) :
    field ((q.modify i f).nodes j) = field (q.nodes j) := by
  rw [modify_nodes]
  split
  · next h => rw [h_field, h]
  · rfl

/-- A write that keeps the links of its node keeps the list. -/
theorem Rep.modify {f : WaitNode ι Waker → WaitNode ι Waker} (hq : Rep q l) (i : ι)
    (h_next : ∀ n, (f n).next = n.next) (h_prev : ∀ n, (f n).prev = n.prev)
    (h_linked : ∀ n, (f n).linked = n.linked) : Rep (q.modify i f) l :=
  hq.congr rfl rfl (fun j => modify_field q i j h_next) (fun j => modify_field q i j h_prev)
    fun j => modify_field q i j h_linked

theorem Rep.setWaker (hq : Rep q l) (i : ι) (waker : Waker) : Rep (q.setWaker i waker) l :=
  hq.modify i (fun _ => rfl) (fun _ => rfl) fun _ => rfl

theorem Rep.setPriority (hq : Rep q l) (i : ι) (priority : Int) : Rep (q.setPriority i priority) l :=
  hq.modify i (fun _ => rfl) (fun _ => rfl) fun _ => rfl

-- ============================================================================
-- Linking
-- ============================================================================

theorem link_nodes (q : WaitQueue ι Waker) {node : ι} (h_ne : q.tail ≠ some node) (j : ι) :
    (q.link node).nodes j =
      if j = node then { q.nodes node with next := none, prev := q.tail, linked := true }
      else if q.tail = some j then { q.nodes j with next := some node }
      else q.nodes j := by
  cases h : q.tail with
  | none => simp [link, h, modify_nodes]
  | some last =>
      have h_last : last ≠ node := by
        rintro rfl
        exact h_ne h
      by_cases h_node : j = node
      · subst h_node
        simp [link, h, modify_nodes, h_last.symm]
      · by_cases h_j : j = last
        · subst h_j
          simp [link, h, modify_nodes, h_node]
        · simp [link, h, modify_nodes, h_node, h_j, Ne.symm h_j]

@[simp] theorem link_tail (q : WaitQueue ι Waker) (node : ι) : (q.link node).tail = some node := rfl

@[simp] theorem link_len (q : WaitQueue ι Waker) (node : ι) : (q.link node).len = q.len := by
  simp only [link]
  split <;> rfl

theorem link_head (q : WaitQueue ι Waker) (node : ι) :
    (q.link node).head = if q.tail = none then some node else q.head := by
  simp only [link]
  split
  · next h => simp [h]
  · next h => simp [h]

@[simp] theorem link_waker (q : WaitQueue ι Waker) (node j : ι) :
    ((q.link node).nodes j).waker = (q.nodes j).waker := by
  simp only [link]
  split <;> simp only [modify_nodes] <;> grind

@[simp] theorem link_priority (q : WaitQueue ι Waker) (node j : ι) :
    ((q.link node).nodes j).priority = (q.nodes j).priority := by
  simp only [link]
  split <;> simp only [modify_nodes] <;> grind

/-- Linking a node that is not in the list puts it at the end. -/
theorem Rep.link {node : ι} (hq : Rep q l) (h_free : (q.nodes node).linked = false) :
    Rep (q.link node) (l ++ [node]) := by
  have h_not_mem : node ∉ l := by
    rw [← hq.linked_iff, h_free]
    simp
  have h_tail_ne : q.tail ≠ some node := by
    rw [hq.tail_eq]
    exact fun h => h_not_mem (List.mem_of_getLast? h)
  have h_nodes := link_nodes q h_tail_ne
  constructor
  case forward =>
    rw [link_head, hq.tail_eq]
    rcases List.eq_nil_or_concat l with rfl | ⟨a, k, rfl⟩
    · simp [h_nodes]
    · have h_nodup := hq.nodup
      have h_seg := hq.forward
      rw [List.concat_eq_append] at *
      rw [if_neg (by simp), Seg.append_iff]
      refine ⟨some node, ?_, rfl, by simp [h_nodes]⟩
      have h_k : k ≠ node := by
        rintro rfl
        exact h_not_mem (by simp)
      have h_last : ((q.link node).nodes k).next = some node := by
        rw [h_nodes, if_neg h_k, if_pos (by simp [hq.tail_eq])]
      have h_moved : Seg (fun i => ((q.link node).nodes i).next) q.head (a ++ [k])
          ((q.link node).nodes k).next := by
        apply h_seg.redirect_last
        intro j hj
        have h_j : j ≠ node := by
          rintro rfl
          exact h_not_mem (by simp [hj])
        have h_jk : k ≠ j := by
          rintro rfl
          exact (List.nodup_append.mp h_nodup).2.2 k hj k (by simp) rfl
        show ((q.link node).nodes j).next = (q.nodes j).next
        rw [h_nodes, if_neg h_j, if_neg (by simp [hq.tail_eq, h_jk])]
      exact h_last ▸ h_moved
  case backward =>
    rw [List.reverse_append, link_tail]
    refine ⟨rfl, ?_⟩
    have h_prev : ((q.link node).nodes node).prev = q.tail := by simp [h_nodes]
    show Seg _ ((q.link node).nodes node).prev l.reverse none
    rw [h_prev]
    apply hq.backward.congr
    intro j hj
    have h_j : j ≠ node := by
      rintro rfl
      exact h_not_mem (by simpa using hj)
    rw [h_nodes, if_neg h_j]
    split <;> rfl
  case nodup =>
    rw [List.nodup_append]
    refine ⟨hq.nodup, List.nodup_singleton node, ?_⟩
    rintro a ha b hb rfl
    obtain rfl : a = node := by simpa using hb
    exact h_not_mem ha
  case linked_iff =>
    intro j
    rw [h_nodes]
    by_cases h_j : j = node
    · simp [h_j]
    · rw [if_neg h_j]
      split <;> simp [hq.linked_iff, h_j]

-- ============================================================================
-- Unlinking
-- ============================================================================

theorem unlink_head (q : WaitQueue ι Waker) (node : ι) :
    (q.unlink node).head =
      if (q.nodes node).prev.isNone then (q.nodes node).next else q.head := by
  simp only [unlink]
  split <;> split <;> simp_all

theorem unlink_tail (q : WaitQueue ι Waker) (node : ι) :
    (q.unlink node).tail =
      if (q.nodes node).next.isNone then (q.nodes node).prev else q.tail := by
  simp only [unlink]
  split <;> split <;> simp_all

@[simp] theorem unlink_len (q : WaitQueue ι Waker) (node : ι) : (q.unlink node).len = q.len := by
  simp only [unlink]
  split <;> split <;> rfl

theorem unlink_next (q : WaitQueue ι Waker) (node j : ι) :
    ((q.unlink node).nodes j).next =
      if j = node then none
      else if (q.nodes node).prev = some j then (q.nodes node).next else (q.nodes j).next := by
  simp only [unlink]
  split <;> split <;> simp only [modify_nodes] <;> grind

theorem unlink_prev (q : WaitQueue ι Waker) (node j : ι) :
    ((q.unlink node).nodes j).prev =
      if j = node then none
      else if (q.nodes node).next = some j then (q.nodes node).prev else (q.nodes j).prev := by
  simp only [unlink]
  split <;> split <;> simp only [modify_nodes] <;> grind

theorem unlink_linked (q : WaitQueue ι Waker) (node j : ι) :
    ((q.unlink node).nodes j).linked = if j = node then false else (q.nodes j).linked := by
  simp only [unlink]
  split <;> split <;> simp only [modify_nodes] <;> grind

@[simp] theorem unlink_waker (q : WaitQueue ι Waker) (node j : ι) :
    ((q.unlink node).nodes j).waker = (q.nodes j).waker := by
  simp only [unlink]
  split <;> split <;> simp only [modify_nodes] <;> grind

@[simp] theorem unlink_priority (q : WaitQueue ι Waker) (node j : ι) :
    ((q.unlink node).nodes j).priority = (q.nodes j).priority := by
  simp only [unlink]
  split <;> split <;> simp only [modify_nodes] <;> grind

/-- Unlinking a node takes it out of the list. -/
theorem Rep.unlink {l₁ l₂ : List ι} {node : ι} (hq : Rep q (l₁ ++ node :: l₂)) :
    Rep (q.unlink node) (l₁ ++ l₂) := by
  have h_next := hq.next_eq
  have h_prev := hq.prev_eq
  constructor
  case forward =>
    have h_seg : Seg (fun i => ((q.unlink node).nodes i).next)
        (if l₁.isEmpty then (q.nodes node).next else q.head) (l₁ ++ l₂) none := by
      apply hq.forward.bypass hq.nodup
      · intro j hj
        have h_ne : j ≠ node := by
          rintro rfl
          exact (List.nodup_append.mp hq.nodup).2.2 j (List.mem_of_getLast? hj) j (by simp) rfl
        show ((q.unlink node).nodes j).next = _
        rw [unlink_next, if_neg h_ne, h_prev, if_pos hj]
      · intro j h_ne hj
        show ((q.unlink node).nodes j).next = _
        rw [unlink_next, if_neg h_ne, h_prev, if_neg hj]
    rw [unlink_head, h_prev]
    cases l₁ <;> simpa using h_seg
  case backward =>
    have h_back := hq.backward
    have h_nodup : (l₂.reverse ++ node :: l₁.reverse).Nodup := by
      simpa using List.nodup_reverse.mpr hq.nodup
    rw [List.reverse_append, List.reverse_cons, List.append_assoc] at h_back
    have h_seg : Seg (fun i => ((q.unlink node).nodes i).prev)
        (if l₂.reverse.isEmpty then (q.nodes node).prev else q.tail)
        (l₂.reverse ++ l₁.reverse) none := by
      apply Seg.bypass h_back h_nodup
      · intro j hj
        have h_ne : j ≠ node := by
          rintro rfl
          exact (List.nodup_append.mp h_nodup).2.2 j (List.mem_of_getLast? hj) j (by simp) rfl
        show ((q.unlink node).nodes j).prev = _
        rw [unlink_prev, if_neg h_ne, h_next, if_pos (by simpa using hj)]
      · intro j h_ne hj
        show ((q.unlink node).nodes j).prev = _
        rw [unlink_prev, if_neg h_ne, h_next, if_neg (by simpa using hj)]
    rw [unlink_tail, h_next, List.reverse_append]
    cases l₂ <;> simpa using h_seg
  case nodup => exact hq.nodup.sublist (by simp)
  case linked_iff =>
    intro j
    have h_nodup := hq.nodup
    rw [unlink_linked]
    by_cases h_j : j = node
    · subst h_j
      simp only [if_true, Bool.false_eq_true, false_iff]
      grind
    · rw [if_neg h_j, hq.linked_iff]
      simp [h_j]

/-- `remove` takes a linked node out of the list and does nothing to others. -/
theorem Rep.removeSection (hq : Rep q l) (node : ι) :
    Rep (removeSection q node).2 (l.erase node) := by
  rw [WaitQueue.removeSection]
  split
  · next h =>
      have h_mem := (hq.linked_iff node).mp h
      obtain ⟨l₁, l₂, h_not_mem, rfl, h_erase⟩ := List.exists_erase_eq h_mem
      rw [h_erase]
      exact hq.unlink
  · next h =>
      rw [List.erase_of_not_mem (fun h_mem => h ((hq.linked_iff node).mpr h_mem))]
      exact hq

/-- `wake_one` unlinks the first node and takes its waker. -/
theorem Rep.wakeOneSection_cons {node : ι} (hq : Rep q (node :: l)) :
    wakeOneSection q = (some (node, (q.nodes node).waker),
      (q.unlink node).modify node fun n => { n with waker := none }) := by
  have h_head : q.head = some node := hq.head_eq
  have h_prev : (q.nodes node).prev = none :=
    Rep.prev_eq (show Rep q ([] ++ node :: l) from hq)
  simp only [wakeOneSection, h_head, WaitQueue.unlink, h_prev]
  cases h_next : (q.nodes node).next <;> simp [WaitQueue.modify]

-- ============================================================================
-- Nodes without priorities
-- ============================================================================

/-- Every node has the priority `WaitNode::new` gives it. -/
def NoPriorities (q : WaitQueue ι Waker) : Prop := ∀ i, (q.nodes i).priority = 0

namespace NoPriorities

omit [DecidableEq ι] in
theorem new : NoPriorities (new : WaitQueue ι Waker) := fun _ => rfl

theorem modify (hq : NoPriorities q) (i : ι) {f : WaitNode ι Waker → WaitNode ι Waker}
    (h_f : ∀ n, n.priority = 0 → (f n).priority = 0) : NoPriorities (q.modify i f) := by
  intro j
  rw [modify_nodes]
  split
  · exact h_f _ (hq i)
  · exact hq j

theorem setWaker (hq : NoPriorities q) (i : ι) (waker : Waker) :
    NoPriorities (q.setWaker i waker) :=
  hq.modify i fun _ h => h

theorem setPriority (hq : NoPriorities q) (i : ι) : NoPriorities (q.setPriority i 0) := by
  apply hq.modify i
  exact fun _ _ => rfl

theorem unlink (hq : NoPriorities q) (node : ι) : NoPriorities (q.unlink node) := by
  intro j
  rw [unlink_priority]
  exact hq j

theorem removeSection (hq : NoPriorities q) (node : ι) :
    NoPriorities (WaitQueue.removeSection q node).2 := by
  rw [WaitQueue.removeSection]
  split
  · exact hq.unlink node
  · exact hq

theorem wakeOneSection (hq : NoPriorities q) : NoPriorities (WaitQueue.wakeOneSection q).2 := by
  rw [WaitQueue.wakeOneSection]
  split
  · exact hq
  · next node h_head =>
      dsimp only
      apply modify
      · split
        · exact hq
        · apply modify (f := fun a => { a with prev := none })
          · exact hq
          · exact fun _ h => h
      · exact fun _ h => h

/-- `enqueue` links the node at the end, and needs no round of its loop. -/
theorem enqueueSection (hq : NoPriorities q) (fuel : Nat) (node : ι) :
    WaitQueue.enqueueSection fuel q node = some (q.link node) ∧ NoPriorities (q.link node) := by
  have h_link : NoPriorities (q.link node) := by
    intro j
    rw [link_priority]
    exact hq j
  refine ⟨?_, h_link⟩
  rw [WaitQueue.enqueueSection]
  cases ((q.link node).nodes node).prev with
  | none => rw [bubble]
  | some cursor =>
      have h_stay :
          ¬ ((q.link node).nodes cursor).priority < ((q.link node).nodes node).priority := by
        rw [h_link cursor, h_link node]
        exact Int.lt_irrefl 0
      cases fuel <;> rw [bubble, if_neg h_stay]

end NoPriorities

end WaitQueue
end Zydon
