/-
  Zydon.Primitives.WaitQueue.Runs

  Runs of the wait queue: nodes get wakers and priorities and are enqueued,
  removed and woken, in any order.

  What the calls mean is a list of nodes with priorities, without links
  (`PriorityList`).  In every state of a run the memory of the queue is that
  list, doubly linked; it is in order of priority and, among equal priorities,
  of `enqueue`, and `wake_one` wakes its first node (`refines_priorityList`).
-/

import Zydon.Lib.Machine
import Zydon.Primitives.WaitQueue.Priority

namespace Zydon
namespace WaitQueue

open Lib

variable {ι Waker : Type*} [DecidableEq ι]

-- ============================================================================
-- The calls
-- ============================================================================

/-- `enqueue`, or `none` if its loop has not ended after `fuel` rounds. -/
def enqueue (fuel : Nat) (q : WaitQueue ι Waker) (node : ι) : Option (WaitQueue ι Waker) :=
  (q.enqueueSection fuel node).map lenAdd

/-- `remove`. -/
def remove (q : WaitQueue ι Waker) (node : ι) : WaitQueue ι Waker :=
  match q.removeSection node with
  | (true, q') => q'.lenSub
  | (false, q') => q'

/-- `wake_one`: its result, the wakers it invokes, and the queue. -/
def wakeOne (q : WaitQueue ι Waker) : Bool × List Waker × WaitQueue ι Waker :=
  match q.wakeOneSection with
  | (none, q') => (false, [], q')
  | (some (_, some waker), q') => (true, [waker], q'.lenSub)
  | (some (_, none), q') => (false, [], q'.lenSub)

/-- The queue, with the number of `enqueue`s so far and the number of the last
    one of each node. -/
structure History (ι Waker : Type*) where
  queue : WaitQueue ι Waker
  clock : Nat
  stamp : ι → Nat

/-- The calls on a queue and its nodes. -/
inductive Call (ι Waker : Type*) where
  | setWaker (node : ι) (waker : Waker)
  | setPriority (node : ι) (priority : Int)
  | enqueue (node : ι)
  | remove (node : ι)
  | wakeOne

/-- One call.  The priority of a node is only set while it is not linked, and a
    node is enqueued with a waker while it is not linked, as `enqueue` asserts. -/
def call (fuel : Nat) (s : History ι Waker) : Call ι Waker → Option (History ι Waker)
  | .setWaker node waker => some { s with queue := s.queue.setWaker node waker }
  | .setPriority node priority =>
      if (s.queue.nodes node).linked then none
      else some { s with queue := s.queue.setPriority node priority }
  | .enqueue node =>
      if (s.queue.nodes node).linked = false ∧ (s.queue.nodes node).waker.isSome then
        (enqueue fuel s.queue node).map fun queue =>
          { queue := queue, clock := s.clock + 1, stamp := Function.update s.stamp node s.clock }
      else none
  | .remove node => some { s with queue := s.queue.remove node }
  | .wakeOne => some { s with queue := s.queue.wakeOne.2.2 }

/-- The runs of a queue. -/
def machine (ι Waker : Type*) [DecidableEq ι] (fuel : Nat) :
    Machine (History ι Waker) (Call ι Waker) where
  init := { queue := new, clock := 0, stamp := fun _ => 0 }
  step := call fuel

-- ============================================================================
-- The list of waiting nodes
-- ============================================================================

/-- What a wait queue is for: the nodes that wait, in the order in which they
    will be woken, and the priority of every node. -/
structure PriorityList (ι : Type*) where
  prio : ι → Int
  waiting : List ι

namespace PriorityList

/-- Nobody waits. -/
def new : PriorityList ι where
  prio := fun _ => 0
  waiting := []

/-- What a call does to the list. -/
def call (p : PriorityList ι) : Call ι Waker → PriorityList ι
  | .setWaker _ _ => p
  | .setPriority node priority => { p with prio := Function.update p.prio node priority }
  | .enqueue node => { p with waiting := arrive p.prio node p.waiting }
  | .remove node => { p with waiting := p.waiting.erase node }
  | .wakeOne => { p with waiting := p.waiting.tail }

end PriorityList

/-- The linked nodes are `l`, in the order in which they will be woken. -/
structure WaitList (s : History ι Waker) (l : List ι) : Prop where
  rep : Rep s.queue l
  order : InOrder s.queue.prio s.stamp l
  waker_some : ∀ i ∈ l, (s.queue.nodes i).waker.isSome
  stamp_lt : ∀ i ∈ l, s.stamp i < s.clock
  length_le : l.length ≤ s.clock

variable {s s' : History ι Waker} {l : List ι} {fuel : Nat}

omit [DecidableEq ι] in
theorem waitList_init : WaitList ({ queue := new, clock := 0, stamp := fun _ => 0 } :
    History ι Waker) [] where
  rep := rep_new
  order := InOrder.nil
  waker_some := fun _ h => absurd h List.not_mem_nil
  stamp_lt := fun _ h => absurd h List.not_mem_nil
  length_le := le_refl 0

omit [DecidableEq ι] in
/-- A node that is not linked is not in the list. -/
theorem WaitList.not_mem {i : ι} (hs : WaitList s l) (h : (s.queue.nodes i).linked = false) :
    i ∉ l := by
  intro h_mem
  rw [(hs.rep.linked_iff i).mpr h_mem] at h
  exact absurd h (by simp)

omit [DecidableEq ι] in
/-- A call that keeps the links, the priorities of linked nodes and the presence
    of their wakers. -/
theorem WaitList.congr {q : WaitQueue ι Waker} (hs : WaitList s l) (h_rep : Rep q l)
    (h_prio : ∀ i ∈ l, q.prio i = s.queue.prio i)
    (h_waker : ∀ i ∈ l, (q.nodes i).waker.isSome) : WaitList { s with queue := q } l where
  rep := h_rep
  order := hs.order.congr h_prio fun _ _ => rfl
  waker_some := h_waker
  stamp_lt := hs.stamp_lt
  length_le := hs.length_le

theorem WaitList.setWaker (hs : WaitList s l) (node : ι) (waker : Waker) :
    WaitList { s with queue := s.queue.setWaker node waker } l := by
  apply hs.congr (hs.rep.setWaker node waker)
  · exact fun i _ => modify_field s.queue node i fun _ => rfl
  · intro i hi
    rw [WaitQueue.setWaker, modify_nodes]
    split
    · rfl
    · exact hs.waker_some i hi

theorem WaitList.setPriority (hs : WaitList s l) {node : ι}
    (h_free : (s.queue.nodes node).linked = false) (priority : Int) :
    WaitList { s with queue := s.queue.setPriority node priority } l := by
  apply hs.congr (hs.rep.setPriority node priority)
  · intro i hi
    have h_ne : i ≠ node := by
      rintro rfl
      exact hs.not_mem h_free hi
    rw [prio, prio, WaitQueue.setPriority, modify_nodes, if_neg h_ne]
  · intro i hi
    have h_field : ((s.queue.setPriority node priority).nodes i).waker =
        (s.queue.nodes i).waker := modify_field s.queue node i fun _ => rfl
    rw [h_field]
    exact hs.waker_some i hi

omit [DecidableEq ι] in
/-- A part of the list stays when the rest of it is unlinked. -/
theorem WaitList.sublist {q : WaitQueue ι Waker} {l' : List ι} (hs : WaitList s l)
    (h_sub : l'.Sublist l) (h_rep : Rep q l') (h_prio : q.prio = s.queue.prio)
    (h_waker : ∀ i ∈ l', (q.nodes i).waker = (s.queue.nodes i).waker) :
    WaitList { s with queue := q } l' where
  rep := h_rep
  order := by
    apply (hs.order.sublist h_sub).congr _ fun _ _ => rfl
    rw [h_prio]
    exact fun _ _ => rfl
  waker_some := by
    intro i hi
    rw [h_waker i hi]
    exact hs.waker_some i (h_sub.subset hi)
  stamp_lt := fun i hi => hs.stamp_lt i (h_sub.subset hi)
  length_le := h_sub.length_le.trans hs.length_le

/-- `remove` only writes the links of nodes. -/
theorem remove_prio_waker (q : WaitQueue ι Waker) (node : ι) :
    (q.remove node).prio = q.prio ∧ ∀ i, ((q.remove node).nodes i).waker = (q.nodes i).waker := by
  rw [WaitQueue.remove, removeSection]
  cases (q.nodes node).linked with
  | true => exact ⟨funext fun i => unlink_priority q node i, unlink_waker q node⟩
  | false => exact ⟨rfl, fun _ => rfl⟩

/-- `remove` takes its node out of the list. -/
theorem WaitList.remove (hs : WaitList s l) (node : ι) :
    WaitList { s with queue := s.queue.remove node } (l.erase node) := by
  obtain ⟨h_prio, h_waker⟩ := remove_prio_waker s.queue node
  refine hs.sublist List.erase_sublist ?_ h_prio fun i _ => h_waker i
  have h_rep := hs.rep.removeSection node
  rw [WaitQueue.remove]
  split
  · next h => exact (h ▸ h_rep : Rep (true, _).2 _).lenSub
  · next h => exact (h ▸ h_rep : Rep (false, _).2 _)

/-- `wake_one` of an empty queue. -/
theorem WaitList.wakeOne_nil (hs : WaitList s []) : s.queue.wakeOne = (false, [], s.queue) := by
  have h_head : s.queue.head = none := hs.rep.head_eq
  simp only [WaitQueue.wakeOne, wakeOneSection, h_head]

/-- `wake_one` unlinks the first node of the list and invokes its waker. -/
theorem WaitList.wakeOne_cons {node : ι} (hs : WaitList s (node :: l)) :
    ∃ waker q, (s.queue.nodes node).waker = some waker ∧ s.queue.wakeOne = (true, [waker], q) ∧
      q.prio = s.queue.prio ∧ WaitList { s with queue := q } l := by
  obtain ⟨waker, h_waker⟩ := Option.isSome_iff_exists.mp (hs.waker_some node List.mem_cons_self)
  have h_section := hs.rep.wakeOneSection_cons
  rw [h_waker] at h_section
  set q := (s.queue.unlink node).modify node fun n => { n with waker := none } with h_q
  have h_prio : q.prio = s.queue.prio := by
    funext i
    have h_field : (q.nodes i).priority = ((s.queue.unlink node).nodes i).priority := by
      rw [h_q]
      exact modify_field _ node i fun _ => rfl
    exact h_field.trans (unlink_priority s.queue node i)
  have h_waker_eq : ∀ i ∈ l, (q.nodes i).waker = (s.queue.nodes i).waker := by
    intro i hi
    have h_ne : i ≠ node := by
      rintro rfl
      exact (List.nodup_cons.mp hs.rep.nodup).1 hi
    rw [h_q, modify_nodes, if_neg h_ne, unlink_waker]
  have h_unlink : Rep (s.queue.unlink node) l :=
    Rep.unlink (show Rep s.queue ([] ++ node :: l) from hs.rep)
  have h_rep : Rep q l := h_unlink.modify node (fun _ => rfl) (fun _ => rfl) fun _ => rfl
  refine ⟨waker, q.lenSub, h_waker, ?_, h_prio, ?_⟩
  · simp only [WaitQueue.wakeOne, h_section]
  · exact hs.sublist (List.sublist_cons_self node l) h_rep.lenSub h_prio h_waker_eq

/-- `enqueue` is the arrival of its node in the list. -/
theorem WaitList.enqueue {node : ι} (hs : WaitList s l) (h_fuel : s.clock ≤ fuel)
    (h_free : (s.queue.nodes node).linked = false) (h_waker : (s.queue.nodes node).waker.isSome) :
    ∃ q, WaitQueue.enqueue fuel s.queue node = some q ∧ q.prio = s.queue.prio ∧
      WaitList { queue := q, clock := s.clock + 1, stamp := Function.update s.stamp node s.clock }
        (arrive s.queue.prio node l) := by
  obtain ⟨q, h_run, h_rep, h_same⟩ :=
    hs.rep.enqueueSection h_free (hs.length_le.trans h_fuel) hs.order
  have h_stamp : ∀ i ∈ l, Function.update s.stamp node s.clock i = s.stamp i := by
    intro i hi
    rw [Function.update_of_ne]
    rintro rfl
    exact hs.not_mem h_free hi
  refine ⟨q.lenAdd, by rw [WaitQueue.enqueue, h_run, Option.map_some], h_same.prio, ?_⟩
  constructor
  case rep => exact h_rep.lenAdd
  case order =>
    have h_order : InOrder s.queue.prio (Function.update s.stamp node s.clock) l :=
      hs.order.congr (fun _ _ => rfl) h_stamp
    show InOrder q.prio _ _
    rw [h_same.prio]
    apply h_order.arrive
    intro a ha
    rw [h_stamp a ha, Function.update_self]
    exact hs.stamp_lt a ha
  case waker_some =>
    intro i hi
    show (q.nodes i).waker.isSome
    rw [h_same.waker]
    rcases mem_arrive.mp hi with rfl | hi
    · exact h_waker
    · exact hs.waker_some i hi
  case stamp_lt =>
    intro i hi
    rcases mem_arrive.mp hi with rfl | hi
    · show Function.update s.stamp i s.clock i < s.clock + 1
      rw [Function.update_self]
      exact Nat.lt_succ_self _
    · show Function.update s.stamp node s.clock i < s.clock + 1
      rw [h_stamp i hi]
      exact Nat.lt_succ_of_lt (hs.stamp_lt i hi)
  case length_le =>
    rw [length_arrive]
    exact Nat.succ_le_succ hs.length_le

-- ============================================================================
-- Runs
-- ============================================================================

/-- The memory of the queue is the list `p`. -/
structure Refines (s : History ι Waker) (p : PriorityList ι) : Prop where
  prio_eq : s.queue.prio = p.prio
  list : WaitList s p.waiting

omit [DecidableEq ι] in
theorem refines_init : Refines ({ queue := new, clock := 0, stamp := fun _ => 0 } :
    History ι Waker) PriorityList.new where
  prio_eq := rfl
  list := waitList_init

/-- A call does to the memory what it does to the list. -/
theorem Refines.step {p : PriorityList ι} {a : Call ι Waker} (hs : Refines s p)
    (h_fuel : s.clock ≤ fuel) (h : call fuel s a = some s') :
    Refines s' (p.call a) ∧ s'.clock ≤ s.clock + 1 := by
  obtain ⟨h_prio, hs⟩ := hs
  cases a with
  | setWaker node waker =>
      cases h
      have h_same : (s.queue.setWaker node waker).prio = s.queue.prio :=
        funext fun i => modify_field s.queue node i fun _ => rfl
      exact ⟨⟨h_same.trans h_prio, hs.setWaker node waker⟩, Nat.le_succ _⟩
  | setPriority node priority =>
      simp only [call] at h
      split at h <;> cases h
      next h_free =>
        refine ⟨⟨?_, hs.setPriority (Bool.eq_false_iff.mpr h_free) priority⟩, Nat.le_succ _⟩
        funext i
        show ((s.queue.setPriority node priority).nodes i).priority =
          Function.update p.prio node priority i
        rw [WaitQueue.setPriority, modify_nodes, ← h_prio, Function.update_apply]
        split <;> rfl
  | enqueue node =>
      simp only [call] at h
      split at h
      · next h_ok =>
          obtain ⟨q, h_run, h_q, h_list⟩ := hs.enqueue h_fuel h_ok.1 h_ok.2
          rw [h_run] at h
          cases h
          rw [h_prio] at h_list
          exact ⟨⟨h_q.trans h_prio, h_list⟩, le_refl _⟩
      · exact absurd h (by simp)
  | remove node =>
      cases h
      exact ⟨⟨(remove_prio_waker s.queue node).1.trans h_prio, hs.remove node⟩, Nat.le_succ _⟩
  | wakeOne =>
      cases h
      refine ⟨?_, Nat.le_succ _⟩
      cases h_waiting : p.waiting with
      | nil =>
          rw [h_waiting] at hs
          rw [hs.wakeOne_nil]
          refine ⟨h_prio, ?_⟩
          rw [PriorityList.call, h_waiting]
          exact hs
      | cons node l =>
          rw [h_waiting] at hs
          obtain ⟨waker, q, -, h_wake, h_same, h_list⟩ := hs.wakeOne_cons
          rw [h_wake]
          refine ⟨h_same.trans h_prio, ?_⟩
          rw [PriorityList.call, h_waiting]
          exact h_list

/-- A run of no more calls than the fuel. -/
theorem Refines.exec {p : PriorityList ι} {tr : List (Call ι Waker)} (hs : Refines s p)
    (h_fuel : s.clock + tr.length ≤ fuel) (h_run : (machine ι Waker fuel).exec s tr = some s') :
    Refines s' (tr.foldl PriorityList.call p) ∧ s'.clock ≤ s.clock + tr.length := by
  induction tr generalizing s p with
  | nil =>
      obtain rfl : s = s' := by simpa using h_run
      exact ⟨hs, Nat.le_add_right ..⟩
  | cons a tr ih =>
      obtain ⟨m, h_step, h_rest⟩ := Machine.exec_cons_eq_some.mp h_run
      rw [List.length_cons] at h_fuel ⊢
      obtain ⟨hm, h_clock⟩ := hs.step (by omega) h_step
      obtain ⟨hs', h_clock'⟩ := ih hm (by omega) h_rest
      exact ⟨hs', by omega⟩

/-- The queue is the doubly linked list `l` of its linked nodes; a node is before
    the others of lower priority and the ones of its priority enqueued later;
    `wake_one` unlinks the first node and invokes its waker; and `enqueue` of a
    node that can be enqueued returns. -/
structure Serves (fuel : Nat) (s : History ι Waker) (l : List ι) : Prop where
  rep : Rep s.queue l
  order : InOrder s.queue.prio s.stamp l
  wakeOne_nil : l = [] → s.queue.wakeOne = (false, [], s.queue)
  wakeOne_cons : ∀ node l', l = node :: l' → ∃ waker q,
    (s.queue.nodes node).waker = some waker ∧ s.queue.wakeOne = (true, [waker], q) ∧ Rep q l'
  enqueue_returns : ∀ node, (s.queue.nodes node).linked = false →
    (s.queue.nodes node).waker.isSome → ∃ q, s.queue.enqueue fuel node = some q

/-- In every state of a run of no more calls than the fuel, the queue serves the
    list that the calls mean. -/
theorem refines_priorityList {tr : List (Call ι Waker)} (h_fuel : tr.length ≤ fuel)
    (h_run : (machine ι Waker fuel).exec (machine ι Waker fuel).init tr = some s) :
    Serves fuel s (tr.foldl PriorityList.call PriorityList.new).waiting := by
  obtain ⟨⟨h_prio, hs⟩, h_clock⟩ := Refines.exec refines_init
    (show 0 + tr.length ≤ fuel by omega) h_run
  have h_room : s.clock ≤ fuel := by
    rw [Nat.zero_add] at h_clock
    exact h_clock.trans h_fuel
  constructor
  case rep => exact hs.rep
  case order => exact hs.order
  case wakeOne_nil =>
    intro h_nil
    rw [h_nil] at hs
    exact hs.wakeOne_nil
  case wakeOne_cons =>
    intro node l' h_cons
    rw [h_cons] at hs
    obtain ⟨waker, q, h_waker, h_wake, -, h_list⟩ := hs.wakeOne_cons
    exact ⟨waker, q, h_waker, h_wake, h_list.rep⟩
  case enqueue_returns =>
    intro node h_free h_waker
    obtain ⟨q, h_run, -⟩ := hs.enqueue h_room h_free h_waker
    exact ⟨q, h_run⟩

/-- Three nodes wait; the last one enqueued moves in front of the second, and the
    first one is woken. -/
def threeCalls : List (Call Nat Unit) :=
  [.setWaker 1 (), .setWaker 2 (), .setWaker 3 (), .setPriority 1 7, .setPriority 3 5,
    .enqueue 1, .enqueue 2, .enqueue 3, .wakeOne]

example : (threeCalls.foldl PriorityList.call PriorityList.new).waiting = [3, 2] := by decide

theorem refines_threeCalls :
    ∃ s, (machine Nat Unit 9).exec (machine Nat Unit 9).init threeCalls = some s ∧
      Serves 9 s (threeCalls.foldl PriorityList.call PriorityList.new).waiting := by
  obtain ⟨s, h_run⟩ := Option.isSome_iff_exists.mp (show
    ((machine Nat Unit 9).exec (machine Nat Unit 9).init threeCalls).isSome by decide +kernel)
  exact ⟨s, h_run, refines_priorityList (by decide) h_run⟩

end WaitQueue
end Zydon
