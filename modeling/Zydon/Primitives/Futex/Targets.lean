/-
  Zydon.Primitives.Futex.Targets

  Which tasks `wake` wakes, in every reachable state of the table.

  The waiters of all the addresses that hash to one bucket share its queue.
  `wake` takes the first `count` of them, whatever address they wait on
  (`wakeLoop_eq`), so that it wakes the waiters of its own address exactly when
  those come first in the queue (`wakeTargets_iff`).
-/

import Zydon.Primitives.Futex.Basic
import Zydon.Primitives.WaitQueue.Parked

namespace Zydon
namespace Futex

open Lib WaitQueue

variable {ι Waker : Type*} {virtToPhys : Usize → Usize} {fuel : Nat}

-- ============================================================================
-- The waiters of each bucket
-- ============================================================================

/-- The tasks parked in each bucket are `line b`, in queue order. -/
structure Lines (virtToPhys : Usize → Usize) (s : System ι Waker) (line : Bucket → List ι) :
    Prop where
  parked : ∀ b, Parked (s.table.buckets b) (line b)
  waiting : ∀ b, ∀ i ∈ line b, ∃ f, s.futures i = some f ∧ f.registered = true ∧
    f.status = .pending ∧ bucketFor virtToPhys f.addr = b

/-- The future at `i` is one of a `wait` on the physical address of `addr`. -/
def System.waitsOn (s : System ι Waker) (virtToPhys : Usize → Usize) (addr : Usize) (i : ι) :
    Bool :=
  (s.futures i).any fun f => virtToPhys f.addr = virtToPhys addr

variable {s s' : System ι Waker} {line : Bucket → List ι} {b : Bucket} {i : ι}
  {f f' : FutexWaitFuture}

theorem lines_new : Lines virtToPhys ({ table := .new, futures := fun _ => none } :
    System ι Waker) fun _ => [] where
  parked := fun _ => Parked.new
  waiting := fun _ _ h => absurd h List.not_mem_nil

/-- A future that is not registered is in no queue. -/
theorem Lines.not_mem (h : Lines virtToPhys s line) (h_f : s.futures i = some f)
    (h_not : f.registered = false) (b : Bucket) : i ∉ line b := by
  intro h_mem
  obtain ⟨f', h_f', h_registered, -⟩ := h.waiting b i h_mem
  obtain rfl : f = f' := Option.some.inj (h_f.symm.trans h_f')
  exact nomatch h_not.symm.trans h_registered

/-- The queue of one bucket changes. -/
theorem parked_update {queue : Bucket → WaitQueue ι Waker} (h : ∀ b, Parked (queue b) (line b))
    {q : WaitQueue ι Waker} {l : List ι} (h_q : Parked q l) (c : Bucket) :
    Parked (Function.update queue b q c) (Function.update line b l c) := by
  by_cases h_c : c = b
  · subst h_c
    rw [Function.update_self, Function.update_self]
    exact h_q
  · rw [Function.update_of_ne h_c, Function.update_of_ne h_c]
    exact h c

/-- One bucket changes, and keeps only tasks that it had. -/
theorem Lines.setBucket (h : Lines virtToPhys s line) {q : WaitQueue ι Waker} {l : List ι}
    (h_q : Parked q l) (h_sub : ∀ i ∈ l, i ∈ line b) :
    Lines virtToPhys { s with table := s.table.setBucket b q } (Function.update line b l) where
  parked := parked_update h.parked h_q
  waiting := by
    intro c j h_j
    by_cases h_c : c = b
    · subst h_c
      rw [Function.update_self] at h_j
      exact h.waiting c j (h_sub j h_j)
    · rw [Function.update_of_ne h_c] at h_j
      exact h.waiting c j h_j

variable [DecidableEq ι]

/-- A future that is in no queue is replaced. -/
theorem Lines.setFuture (h : Lines virtToPhys s line) (h_free : ∀ b, i ∉ line b)
    (f : FutexWaitFuture) : Lines virtToPhys (s.setFuture i f) line where
  parked := h.parked
  waiting := by
    intro b j h_j
    have h_ne : j ≠ i := by
      rintro rfl
      exact h_free b h_j
    obtain ⟨f', h_f', h_rest⟩ := h.waiting b j h_j
    exact ⟨f', (Function.update_of_ne h_ne ..).trans h_f', h_rest⟩

-- ============================================================================
-- The calls
-- ============================================================================

/-- A first poll puts the task at the end of the queue of its bucket. -/
theorem Lines.register (h : Lines virtToPhys s line) (h_f : s.futures i = some f)
    (h_not : f.registered = false) (fuel : Nat) (waker : Waker) :
    ∃ s', s.poll virtToPhys fuel i f waker = some (none, s') ∧
      ∃ line', Lines virtToPhys s' line' := by
  obtain ⟨b, h_b⟩ : ∃ b, b = bucketFor virtToPhys f.addr := ⟨_, rfl⟩
  have h_free := h.not_mem h_f h_not b
  have h_set := ((h.parked b).setWaker i waker).setPriority i
  have h_waker : ((((s.table.buckets b).setWaker i waker).setPriority i 0).nodes
      i).waker.isSome := by
    simp [WaitQueue.setWaker, WaitQueue.setPriority, modify_nodes]
  obtain ⟨q, h_enqueue, h_q⟩ := h_set.enqueue h_free h_waker fuel
  have h_poll : s.poll virtToPhys fuel i f waker =
      some (none, { s with table := s.table.setBucket b q.lenAdd }.setFuture i
        { f with registered := true, status := .pending }) := by
    simp only [System.poll, h_not, if_true, ← h_b, WaitQueue.enqueue, h_enqueue, Option.map_some]
  refine ⟨_, h_poll, Function.update line b (line b ++ [i]),
    parked_update h.parked h_q.lenAdd, ?_⟩
  · intro c j h_j
    by_cases h_ij : j = i
    · subst h_ij
      -- the task is only in the queue of its own bucket
      have h_c : c = b := by
        by_contra h_c
        rw [Function.update_of_ne h_c] at h_j
        exact h.not_mem h_f h_not c h_j
      exact ⟨_, Function.update_self .., rfl, rfl, h_b.symm.trans h_c.symm⟩
    · have h_old : j ∈ line c := by
        by_cases h_c : c = b
        · subst h_c
          rw [Function.update_self] at h_j
          exact (List.mem_append.mp h_j).resolve_right (by simpa using h_ij)
        · rwa [Function.update_of_ne h_c] at h_j
      obtain ⟨f', h_f', h_rest⟩ := h.waiting c j h_old
      exact ⟨f', (Function.update_of_ne h_ij ..).trans h_f', h_rest⟩

/-- Every poll returns and keeps the lines. -/
theorem Lines.poll (h : Lines virtToPhys s line) (h_f : s.futures i = some f) (fuel : Nat)
    (waker : Waker) :
    ∃ result s', s.poll virtToPhys fuel i f waker = some (result, s') ∧
      ∃ line', Lines virtToPhys s' line' := by
  cases h_registered : f.registered with
  | false =>
      obtain ⟨s', h_poll, h_lines⟩ := h.register h_f h_registered fuel waker
      exact ⟨none, s', h_poll, h_lines⟩
  | true =>
      cases h_linked : ((s.table.buckets (bucketFor virtToPhys f.addr)).nodes i).linked with
      | false =>
          refine ⟨some .woken, s.setFuture i { f with registered := false, status := .ready },
            by simp [System.poll, h_registered, h_linked], line, h.setFuture ?_ _⟩
          -- a task in a queue is in the one of its bucket, where it is linked
          intro b h_mem
          obtain ⟨f', h_f', -, -, rfl⟩ := h.waiting b i h_mem
          obtain rfl : f = f' := Option.some.inj (h_f.symm.trans h_f')
          exact nomatch h_linked.symm.trans (((h.parked _).linked_iff i).mpr h_mem)
      | true =>
          exact ⟨none, s, by simp [System.poll, h_registered, h_linked], line, h⟩

/-- A drop takes the task out of the queue of its bucket. -/
theorem Lines.drop (h : Lines virtToPhys s line) (h_f : s.futures i = some f) :
    ∃ line', Lines virtToPhys (s.drop virtToPhys i f) line' := by
  cases h_registered : f.registered with
  | false =>
      refine ⟨line, ?_⟩
      simp only [System.drop, h_registered, Bool.false_eq_true, if_false]
      exact h.setFuture (h.not_mem h_f h_registered) _
  | true =>
      obtain ⟨b, h_b⟩ : ∃ b, b = bucketFor virtToPhys f.addr := ⟨_, rfl⟩
      simp only [System.drop, h_registered, if_true, ← h_b]
      -- a task is in no other queue than the one of its bucket
      have h_other : ∀ c, i ∈ line c → c = b := by
        intro c h_mem
        obtain ⟨f', h_f', -, -, rfl⟩ := h.waiting c i h_mem
        obtain rfl : f = f' := Option.some.inj (h_f.symm.trans h_f')
        exact h_b.symm
      have h_remove : Parked ((s.table.buckets b).remove i) ((line b).erase i) := by
        by_cases h_mem : i ∈ line b
        · obtain ⟨q, h_section, h_q⟩ := (h.parked b).remove_of_mem h_mem
          rw [WaitQueue.remove, h_section]
          exact h_q.lenSub
        · rw [WaitQueue.remove, (h.parked b).remove_of_not_mem h_mem, List.erase_of_not_mem h_mem]
          exact h.parked b
      have h_lines := h.setBucket (b := b) h_remove fun j h_j => List.mem_of_mem_erase h_j
      refine ⟨_, h_lines.setFuture (fun c h_mem => ?_) _⟩
      by_cases h_c : c = b
      · subst h_c
        rw [Function.update_self] at h_mem
        exact (List.Nodup.not_mem_erase (h.parked c).nodup) h_mem
      · rw [Function.update_of_ne h_c] at h_mem
        exact h_c (h_other c h_mem)

/-- `wake_one` wakes the first task of the queue. -/
theorem wakeOne_eq {q : WaitQueue ι Waker} {l : List ι} (h : Parked q (i :: l)) :
    ∃ waker q', q.wakeOne = (true, [waker], q') ∧ (q.nodes i).waker = some waker ∧ Parked q' l ∧
      ∀ j, j ≠ i → (q'.nodes j).waker = (q.nodes j).waker := by
  obtain ⟨waker, q', h_section, h_q', h_others⟩ := h.wakeOne_cons
  refine ⟨waker, q'.lenSub, ?_, ?_, h_q'.lenSub, h_others⟩
  · rw [WaitQueue.wakeOne, h_section]
  · rw [h.rep.wakeOneSection_cons] at h_section
    exact (Prod.mk.inj (Option.some.inj (Prod.mk.inj h_section).1)).2

/-- The loop of `wake` wakes the first `count` tasks of the queue. -/
theorem wakeLoop_eq (count : Nat) {q : WaitQueue ι Waker} {l : List ι} (h : Parked q l) :
    ∃ wakers q', FutexTable.wakeLoop count q = ((l.take count).length, wakers, q') ∧
      wakers.map some = (l.take count).map (fun i => (q.nodes i).waker) ∧
      Parked q' (l.drop count) := by
  induction count generalizing q l with
  | zero => exact ⟨[], q, rfl, rfl, h⟩
  | succ count ih =>
      cases l with
      | nil =>
          have h_none : q.wakeOne = (false, [], q) := by
            rw [WaitQueue.wakeOne, h.wakeOne_nil]
          exact ⟨[], q, by rw [FutexTable.wakeLoop, h_none]; rfl, rfl, h⟩
      | cons i l =>
          obtain ⟨waker, q₁, h_one, h_waker, h_q₁, h_others⟩ := wakeOne_eq h
          obtain ⟨wakers, q', h_loop, h_wakers, h_q'⟩ := ih h_q₁
          refine ⟨waker :: wakers, q', ?_, ?_, h_q'⟩
          · simp only [FutexTable.wakeLoop, h_one, h_loop, List.take_succ_cons, List.length_cons,
              List.singleton_append]
          · have h_same : ∀ j ∈ l.take count, (q₁.nodes j).waker = (q.nodes j).waker := by
              intro j h_j
              apply h_others
              rintro rfl
              exact (List.nodup_cons.mp h.nodup).1 (List.mem_of_mem_take h_j)
            rw [List.map_cons, h_wakers, List.take_succ_cons, List.map_cons, h_waker,
              List.map_congr_left h_same]

/-- A wake-up keeps the tasks behind the first `count`. -/
theorem Lines.wake (h : Lines virtToPhys s line) (addr : Usize) (count : Nat) :
    Lines virtToPhys { s with table := (s.table.wake virtToPhys addr count).2.2 }
      (Function.update line (bucketFor virtToPhys addr)
        ((line (bucketFor virtToPhys addr)).drop count)) := by
  obtain ⟨wakers, q, h_loop, -, h_q⟩ :=
    wakeLoop_eq count (h.parked (bucketFor virtToPhys addr))
  have h_table : (s.table.wake virtToPhys addr count).2.2 =
      s.table.setBucket (bucketFor virtToPhys addr) q := by
    simp only [FutexTable.wake, h_loop]
  rw [h_table]
  exact h.setBucket h_q fun i h_i => List.mem_of_mem_drop h_i

theorem lines_step {a : Action ι Waker} (h : Lines virtToPhys s line)
    (h_step : step virtToPhys fuel s a = some s') : ∃ line', Lines virtToPhys s' line' := by
  cases a with
  | wait i addr expected =>
      simp only [step, System.wait] at h_step
      split at h_step
      · next h_none =>
          obtain rfl := Option.some.inj h_step
          refine ⟨line, h.setFuture (fun b h_mem => ?_) _⟩
          obtain ⟨f, h_f, -⟩ := h.waiting b i h_mem
          exact nomatch h_none.symm.trans h_f
      · exact nomatch h_step
  | poll i waker =>
      simp only [step] at h_step
      split at h_step
      · next f h_f =>
          split at h_step
          · obtain ⟨result, s'', h_poll, h_lines⟩ := h.poll h_f fuel waker
            rw [h_poll] at h_step
            obtain rfl : s'' = s' := Option.some.inj h_step
            exact h_lines
          · exact nomatch h_step
      · exact nomatch h_step
  | drop i =>
      simp only [step] at h_step
      split at h_step
      · next f h_f =>
          split at h_step
          · obtain rfl := Option.some.inj h_step
            exact h.drop h_f
          · exact nomatch h_step
      · exact nomatch h_step
  | wake addr count =>
      obtain rfl := Option.some.inj h_step
      exact ⟨_, h.wake addr count⟩

theorem lines_of_reachable (h : (futex virtToPhys fuel ι Waker).Reachable s) :
    ∃ line, Lines virtToPhys s line := by
  refine h.invariant (P := fun s => ∃ line, Lines virtToPhys s line) ⟨_, lines_new⟩ ?_
  rintro s a s' ⟨line, h_lines⟩ h_step
  exact lines_step h_lines h_step

-- ============================================================================
-- The targets of a wake-up
-- ============================================================================

/-- The tasks that `wake` of `addr` is to wake: of those that wait on the physical
    address of `addr`, the first `count` in queue order. -/
def targets (virtToPhys : Usize → Usize) (s : System ι Waker) (line : Bucket → List ι)
    (addr : Usize) (count : Nat) : List ι :=
  ((line (bucketFor virtToPhys addr)).filter (s.waitsOn virtToPhys addr)).take count

/-- `wake` invokes the wakers of its targets, returns how many there are, and
    leaves the other tasks parked. -/
def WakeTargets (virtToPhys : Usize → Usize) (s : System ι Waker) (line : Bucket → List ι)
    (addr : Usize) (count : Nat) : Prop :=
  let b := bucketFor virtToPhys addr
  let targets := targets virtToPhys s line addr count
  ∃ wakers table, s.table.wake virtToPhys addr count = (targets.length, wakers, table) ∧
    wakers.map some = targets.map (fun i => ((s.table.buckets b).nodes i).waker) ∧
    Lines virtToPhys { s with table := table }
      (Function.update line b ((line b).filter (· ∉ targets)))

omit [DecidableEq ι] in
/-- The first `n` elements that have a property are the first `n`, if those do. -/
theorem take_filter {p : ι → Bool} {n : Nat} {l : List ι} (h : ∀ i ∈ l.take n, p i = true) :
    (l.filter p).take n = l.take n := by
  induction l generalizing n with
  | nil => rfl
  | cons i l ih =>
      cases n with
      | zero => rfl
      | succ n =>
          rw [List.take_succ_cons] at h
          have h_i := h i List.mem_cons_self
          rw [List.filter_cons_of_pos h_i, List.take_succ_cons, List.take_succ_cons,
            ih fun j h_j => h j (List.mem_cons_of_mem i h_j)]

/-- What is left without the first `n` elements. -/
theorem filter_not_mem_take {l : List ι} (h : l.Nodup) (n : Nat) :
    l.filter (· ∉ l.take n) = l.drop n := by
  have h_disjoint : (l.take n).Disjoint (l.drop n) := List.disjoint_take_drop h (le_refl n)
  conv => lhs; arg 2; rw [← List.take_append_drop n l]
  rw [List.filter_append, List.filter_eq_nil_iff.mpr fun i h_i => by simpa using h_i,
    List.nil_append, List.filter_eq_self.mpr]
  intro i h_i
  simpa using fun h_take => h_disjoint h_take h_i

/-- `wake` wakes its targets exactly when the first `count` tasks in the queue of
    the bucket all wait on the physical address of `addr`. -/
theorem wakeTargets_iff (h : Lines virtToPhys s line) (addr : Usize) (count : Nat) :
    WakeTargets virtToPhys s line addr count ↔
      ∀ i ∈ (line (bucketFor virtToPhys addr)).take count,
        s.waitsOn virtToPhys addr i = true := by
  obtain ⟨b, h_b⟩ : ∃ b, b = bucketFor virtToPhys addr := ⟨_, rfl⟩
  obtain ⟨wakers, q, h_loop, h_wakers, h_q⟩ := wakeLoop_eq count (h.parked b)
  have h_wake : s.table.wake virtToPhys addr count =
      (((line b).take count).length, wakers, s.table.setBucket b q) := by
    simp only [FutexTable.wake, ← h_b, h_loop]
  simp only [WakeTargets, targets, ← h_b]
  constructor
  · rintro ⟨wakers', table, h_call, -, h_lines⟩ i h_i
    -- a task that has been woken is in no queue any more, so that it was a target
    obtain rfl : s.table.setBucket b q = table := by
      rw [h_wake] at h_call
      exact (Prod.mk.inj (Prod.mk.inj h_call).2).2
    have h_parked := h_lines.parked b
    rw [Function.update_self] at h_parked
    have h_gone : i ∉ (line b).drop count :=
      fun h_drop => List.disjoint_take_drop (h.parked b).nodup (le_refl count) h_i h_drop
    have h_queue : (s.table.setBucket b q).buckets b = q := Function.update_self ..
    rw [h_queue] at h_parked
    have h_not : i ∉ (line b).filter
        (· ∉ ((line b).filter (s.waitsOn virtToPhys addr)).take count) := fun h_mem =>
      h_gone ((h_q.linked_iff i).mp ((h_parked.linked_iff i).mpr h_mem))
    have h_target : i ∈ ((line b).filter (s.waitsOn virtToPhys addr)).take count := by
      by_contra h_not_target
      exact h_not (List.mem_filter.mpr ⟨List.mem_of_mem_take h_i, by simpa using h_not_target⟩)
    exact (List.mem_filter.mp (List.mem_of_mem_take h_target)).2
  · intro h_all
    refine ⟨wakers, s.table.setBucket b q, ?_, ?_, ?_⟩
    · rw [take_filter h_all]
      exact h_wake
    · rw [take_filter h_all]
      exact h_wakers
    · rw [take_filter h_all, filter_not_mem_take (h.parked b).nodup]
      exact h.setBucket h_q fun i h_i => List.mem_of_mem_drop h_i

/-- In every reachable state of the table, for every address and count. -/
theorem wakeTargets_of_reachable (h : (futex virtToPhys fuel ι Waker).Reachable s) :
    (∃ line, Lines virtToPhys s line) ∧
    ∀ line, Lines virtToPhys s line → ∀ addr count,
      (WakeTargets virtToPhys s line addr count ↔
        ∀ i ∈ (line (bucketFor virtToPhys addr)).take count,
          s.waitsOn virtToPhys addr i = true) :=
  ⟨lines_of_reachable h, fun _ h_lines => wakeTargets_iff h_lines⟩

/-- Two tasks wait, the first of them on another address with the same bucket. -/
def sharedBucket : List (Action Bool Nat) :=
  [.wait false 0x1000 7, .poll false 10, .wait true 0x1100 7, .poll true 11]

/-- A wake-up of the first address wakes the task that waits on it, and leaves the
    other one parked. -/
theorem wakeTargets_sharedBucket :
    ∃ s, (futex id 0 Bool Nat).exec (futex id 0 Bool Nat).init sharedBucket = some s ∧
      (s.table.wake id 0x1000 1).2.1 = [10] ∧
      ∃ line, Lines id s line ∧ WakeTargets id s line 0x1000 1 := by
  have h_replay : ((futex id 0 Bool Nat).exec (futex id 0 Bool Nat).init sharedBucket).any
      (fun s => decide ((s.table.wake id 0x1000 1).2.1 = [10] ∧
        (s.table.buckets (bucketFor id 0x1000)).head = some false ∧
        s.waitsOn id 0x1000 false = true)) = true := by decide +kernel
  obtain ⟨s, h_run, h_woken, h_head, h_waits⟩ := Machine.exec_of_decide h_replay
  obtain ⟨⟨line, h_lines⟩, h_iff⟩ := wakeTargets_of_reachable ⟨_, h_run⟩
  refine ⟨s, h_run, h_woken, line, h_lines, (h_iff line h_lines 0x1000 1).mpr fun i h_i => ?_⟩
  -- the only task to be woken is the head of the queue
  have h_first : (line (bucketFor id 0x1000)).head? = some false :=
    (h_lines.parked _).rep.head_eq.symm.trans h_head
  obtain ⟨l, h_line⟩ := List.head?_eq_some_iff.mp h_first
  rw [h_line] at h_i
  obtain rfl : i = false := by simpa using h_i
  exact h_waits

/-- A wake-up of the second address wakes the task that waits on the first, and
    leaves the one that waits on the second parked. -/
theorem not_wakeTargets_sharedBucket :
    ∃ s, (futex id 0 Bool Nat).exec (futex id 0 Bool Nat).init sharedBucket = some s ∧
      (s.table.wake id 0x1100 1).2.1 = [10] ∧
      ∀ line, Lines id s line → ¬ WakeTargets id s line 0x1100 1 := by
  have h_replay : ((futex id 0 Bool Nat).exec (futex id 0 Bool Nat).init sharedBucket).any
      (fun s => decide ((s.table.wake id 0x1100 1).2.1 = [10] ∧ s.waitsOn id 0x1100 false = false ∧
        ((s.table.buckets (bucketFor id 0x1100)).nodes true).waker = some 11)) = true := by
    decide +kernel
  obtain ⟨s, h_run, h_woken, h_other, h_waker⟩ := Machine.exec_of_decide h_replay
  refine ⟨s, h_run, h_woken, fun line h_lines h_targets => ?_⟩
  obtain ⟨wakers, table, h_wake, h_wakers, -⟩ := h_targets
  rw [h_wake] at h_woken
  obtain rfl : wakers = [10] := h_woken
  -- the only target is the second task, whose waker is another one
  have h_mem : some 10 ∈ (targets id s line 0x1100 1).map
      (fun i => ((s.table.buckets (bucketFor id 0x1100)).nodes i).waker) := by
    rw [← h_wakers]
    exact List.mem_singleton_self _
  obtain ⟨i, h_i, h_ten⟩ := List.mem_map.mp h_mem
  have h_waits : s.waitsOn id 0x1100 i = true := (List.mem_filter.mp (List.mem_of_mem_take h_i)).2
  cases i with
  | false => exact absurd (h_other.symm.trans h_waits) Bool.false_ne_true
  | true => exact absurd (h_waker.symm.trans h_ten) (by decide)

end Futex
end Zydon
