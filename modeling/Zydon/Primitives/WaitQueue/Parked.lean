/-
  Zydon.Primitives.WaitQueue.Parked

  A wait queue whose nodes have no priorities, as the mutex and the channel use
  it: `Parked q l` says that the nodes of `l` are queued in `q`, in this order,
  each with its waker.  There is one lemma for what each critical section and
  each write of a waker does to the list.
-/

import Zydon.Primitives.WaitQueue.Rep

namespace Zydon
namespace WaitQueue

variable {ι Waker : Type*} {q : WaitQueue ι Waker} {l : List ι} {i : ι}

/-- The nodes of `l` are queued, each with its waker. -/
structure Parked (q : WaitQueue ι Waker) (l : List ι) : Prop where
  rep : Rep q l
  priorities : NoPriorities q
  waker_some : ∀ i ∈ l, (q.nodes i).waker.isSome

namespace Parked

theorem new : Parked (new : WaitQueue ι Waker) [] where
  rep := rep_new
  priorities := fun _ => rfl
  waker_some := fun _ h => absurd h List.not_mem_nil

theorem nodup (h : Parked q l) : l.Nodup := h.rep.nodup

theorem linked_iff (h : Parked q l) (i : ι) : (q.nodes i).linked = true ↔ i ∈ l :=
  h.rep.linked_iff i

theorem head_eq (h : Parked q l) : q.head = l.head? := h.rep.head_eq

theorem lenAdd (h : Parked q l) : Parked q.lenAdd l := { h with rep := h.rep.lenAdd }

theorem lenSub (h : Parked q l) : Parked q.lenSub l := { h with rep := h.rep.lenSub }

variable [DecidableEq ι]

/-- `set_waker`, on a node that is queued or not. -/
theorem setWaker (h : Parked q l) (i : ι) (waker : Waker) : Parked (q.setWaker i waker) l where
  rep := h.rep.setWaker i waker
  priorities := h.priorities.setWaker i waker
  waker_some := by
    intro j h_j
    rw [WaitQueue.setWaker, modify_nodes]
    split
    · rfl
    · exact h.waker_some j h_j

/-- `set_priority` to the priority that all nodes have. -/
theorem setPriority (h : Parked q l) (i : ι) : Parked (q.setPriority i 0) l where
  rep := h.rep.setPriority i 0
  priorities := h.priorities.setPriority i
  waker_some := by
    intro j h_j
    rw [WaitQueue.setPriority, modify_nodes]
    split
    · next h_ji => exact h_ji ▸ h.waker_some j h_j
    · exact h.waker_some j h_j

/-- `wake_one`, when nobody is queued. -/
theorem wakeOne_nil (h : Parked q []) : q.wakeOneSection = (none, q) := by
  rw [wakeOneSection, h.head_eq, List.head?_nil]

/-- The node `i` without its waker. -/
theorem takeWaker_waker (q : WaitQueue ι Waker) {i j : ι} (h_ne : j ≠ i) :
    (((q.unlink i).modify i fun n => { n with waker := none }).nodes j).waker =
      (q.nodes j).waker := by
  rw [modify_nodes, if_neg h_ne, unlink_waker]

/-- The first node leaves the queue, and its waker is taken. -/
theorem takeFirst (h : Parked q (i :: l)) :
    Parked ((q.unlink i).modify i fun n => { n with waker := none }) l := by
  have h_unlink : Rep (q.unlink i) l := Rep.unlink (show Rep q ([] ++ i :: l) from h.rep)
  constructor
  · exact h_unlink.modify i (fun _ => rfl) (fun _ => rfl) fun _ => rfl
  · apply (h.priorities.unlink i).modify
    exact fun _ h_n => h_n
  · intro j h_j
    have h_ne : j ≠ i := by
      rintro rfl
      exact (List.nodup_cons.mp h.nodup).1 h_j
    rw [takeWaker_waker q h_ne]
    exact h.waker_some j (List.mem_cons_of_mem i h_j)

/-- `wake_one` takes the first node, with its waker, and leaves the other wakers
    where they are. -/
theorem wakeOne_cons (h : Parked q (i :: l)) :
    ∃ waker q', q.wakeOneSection = (some (i, some waker), q') ∧ Parked q' l ∧
      ∀ j, j ≠ i → (q'.nodes j).waker = (q.nodes j).waker := by
  obtain ⟨waker, h_waker⟩ := Option.isSome_iff_exists.mp (h.waker_some i List.mem_cons_self)
  exact ⟨waker, _, by rw [h.rep.wakeOneSection_cons, h_waker], h.takeFirst,
    fun j h_ne => takeWaker_waker q h_ne⟩

theorem removeSection_of_mem (h : Parked q l) (h_mem : i ∈ l) :
    q.removeSection i = (true, q.unlink i) := by
  rw [removeSection, if_pos ((h.linked_iff i).mpr h_mem)]

/-- A queued node leaves the queue. -/
theorem unlink (h : Parked q l) (h_mem : i ∈ l) : Parked (q.unlink i) (l.erase i) := by
  have h_rep := h.rep.removeSection i
  rw [h.removeSection_of_mem h_mem] at h_rep
  refine ⟨h_rep, h.priorities.unlink i, fun j h_j => ?_⟩
  rw [unlink_waker]
  exact h.waker_some j (List.mem_of_mem_erase h_j)

/-- `remove` of a queued node. -/
theorem remove_of_mem (h : Parked q l) (h_mem : i ∈ l) :
    ∃ q', q.removeSection i = (true, q') ∧ Parked q' (l.erase i) :=
  ⟨q.unlink i, h.removeSection_of_mem h_mem, h.unlink h_mem⟩

/-- `remove` of a node that is not queued. -/
theorem remove_of_not_mem (h : Parked q l) (h_mem : i ∉ l) : q.removeSection i = (false, q) := by
  rw [removeSection, if_neg fun h_linked => h_mem ((h.linked_iff i).mp h_linked)]

/-- A node that is not queued, and has its waker, is put at the end. -/
theorem link (h : Parked q l) (h_free : i ∉ l) (h_waker : (q.nodes i).waker.isSome) :
    Parked (q.link i) (l ++ [i]) := by
  have h_linked : (q.nodes i).linked = false := by
    rw [Bool.eq_false_iff]
    exact fun h_linked => h_free ((h.linked_iff i).mp h_linked)
  refine ⟨h.rep.link h_linked, (h.priorities.enqueueSection 0 i).2, fun j h_j => ?_⟩
  rw [link_waker]
  rcases List.mem_append.mp h_j with h_j | h_j
  · exact h.waker_some j h_j
  · obtain rfl : j = i := by simpa using h_j
    exact h_waker

/-- `enqueue` of such a node. -/
theorem enqueue (h : Parked q l) (h_free : i ∉ l) (h_waker : (q.nodes i).waker.isSome)
    (fuel : Nat) : ∃ q', q.enqueueSection fuel i = some q' ∧ Parked q' (l ++ [i]) :=
  ⟨q.link i, (h.priorities.enqueueSection fuel i).1, h.link h_free h_waker⟩

end Parked
end WaitQueue
end Zydon
