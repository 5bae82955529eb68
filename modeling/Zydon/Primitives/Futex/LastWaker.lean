/-
  Zydon.Primitives.Futex.LastWaker

  The wakers that `wake` takes from the nodes of the futures of a futex, against
  the wakers that the futures have been polled with, in every run of the table.

  `wake` invokes the wakers that it takes (`wakeLoop_wakers`).  They are those of
  the first polls, as with the lock futures of the async mutex: for both, a wake-up
  invokes the waker of the last poll exactly when that is the one of the first
  (`wakesLast_iff`).
-/

import Zydon.Primitives.AsyncMutex.LastWaker
import Zydon.Primitives.Futex.Targets

namespace Zydon
namespace Futex

open Lib WaitQueue

variable {ι Waker : Type*}

-- ============================================================================
-- Polls of waits
-- ============================================================================

section Model

variable [DecidableEq ι]

/-- The nodes that the loop of `wake` dequeues, with the wakers it takes from
    them. -/
def FutexTable.dequeued : Nat → WaitQueue ι Waker → List (ι × Option Waker)
  | 0, _ => []
  | count + 1, q =>
      match q.wakeOneSection with
      | (none, _) => []
      | (some (i, none), _) => [(i, none)]
      | (some (i, some waker), q) => (i, some waker) :: dequeued count q.lenSub

/-- The wakers that each future has been polled with. -/
def notePoll (_ : System ι Waker) (a : Action ι Waker) (_ : System ι Waker)
    (polls : ι → List Waker) : ι → List Waker :=
  match a with
  | .poll i waker => Function.update polls i (polls i ++ [waker])
  | _ => polls

/-- The table, with the polls of its futures. -/
def polledMachine (virtToPhys : Usize → Usize) (fuel : Nat) (ι Waker : Type*) [DecidableEq ι] :
    Machine (Recorded (System ι Waker) (ι → List Waker)) (Action ι Waker) :=
  (futex virtToPhys fuel ι Waker).recorded notePoll fun _ => []

/-- A wake-up takes the right waker from each node that it dequeues. -/
def WakesLast (virtToPhys : Usize → Usize) (s : Recorded (System ι Waker) (ι → List Waker)) :
    Action ι Waker → Prop
  | .wake addr count =>
      ∀ i waker, (i, waker) ∈
          FutexTable.dequeued count (s.state.table.buckets (bucketFor virtToPhys addr)) →
        ∀ f, s.state.futures i = some f → Latest (s.record i) waker f.status
  | _ => True

/-- The first polls of the futures whose nodes are the first `count` in the bucket
    had the wakers of the last. -/
def SameWaker (virtToPhys : Usize → Usize) (s : Recorded (System ι Waker) (ι → List Waker)) :
    Action ι Waker → Prop
  | .wake addr count =>
      ∀ line, Lines virtToPhys s.state line →
        ∀ i ∈ (line (bucketFor virtToPhys addr)).take count, ∀ f, s.state.futures i = some f →
          Latest (s.record i) (s.record i).head? f.status
  | _ => True

end Model

/-- The future `f` at `i`, with its node. -/
def FutexTable.view (virtToPhys : Usize → Usize) (t : FutexTable ι Waker) (i : ι)
    (f : FutexWaitFuture) : View Waker where
  status := f.status
  registered := f.registered
  linked := ((t.buckets (bucketFor virtToPhys f.addr)).nodes i).linked
  waker := ((t.buckets (bucketFor virtToPhys f.addr)).nodes i).waker

-- ============================================================================
-- The invariant
-- ============================================================================

/-- The invariant of the polls. -/
structure PollInv (virtToPhys : Usize → Usize) (s : System ι Waker) (polls : ι → List Waker) :
    Prop where
  lines : ∃ line, Lines virtToPhys s line
  known : ∀ i f, s.futures i = some f → Known (s.table.view virtToPhys i f) (polls i)
  unmade : ∀ i, s.futures i = none → polls i = []

variable {virtToPhys : Usize → Usize} {fuel count : Nat} {s s' : System ι Waker}
  {polls : ι → List Waker} {line : Bucket → List ι} {b : Bucket} {q q' : WaitQueue ι Waker}
  {l : List ι} {i j : ι} {f g : FutexWaitFuture} {waker : Waker}

theorem pollInv_init : PollInv virtToPhys
    ({ table := .new, futures := fun _ => none } : System ι Waker) fun _ => [] where
  lines := ⟨_, lines_new⟩
  known := fun _ _ h => absurd h (by simp)
  unmade := fun _ _ => rfl

/-- A node that is in no line is not linked. -/
theorem Lines.linked_eq_false (h : Lines virtToPhys s line) (h_not : i ∉ line b) :
    ((s.table.buckets b).nodes i).linked = false := by
  rw [← Bool.not_eq_true, (h.parked b).linked_iff]
  exact h_not

/-- A future whose node stays as it is in the bucket that changes. -/
theorem view_setBucket {t : FutexTable ι Waker}
    (h : bucketFor virtToPhys f.addr = b →
      (q.nodes i).linked = ((t.buckets b).nodes i).linked ∧
        (q.nodes i).waker = ((t.buckets b).nodes i).waker) :
    (t.setBucket b q).view virtToPhys i f = t.view virtToPhys i f := by
  by_cases h_b : bucketFor virtToPhys f.addr = b
  · obtain ⟨h_linked, h_waker⟩ := h h_b
    simp only [FutexTable.view, FutexTable.setBucket, h_b, Function.update_self, h_linked, h_waker]
  · simp only [FutexTable.view, FutexTable.setBucket, Function.update_of_ne h_b]

/-- The view of a future whose bucket changes. -/
theorem view_setBucket_self {t : FutexTable ι Waker} (h : bucketFor virtToPhys f.addr = b) :
    (t.setBucket b q).view virtToPhys i f =
      ⟨f.status, f.registered, (q.nodes i).linked, (q.nodes i).waker⟩ := by
  simp only [FutexTable.view, FutexTable.setBucket, h, Function.update_self]

variable [DecidableEq ι]

/-- What a wake-up leaves linked it leaves as it was. -/
theorem wakeLoop_linked (count : Nat) (hq : Rep q l)
    (h : (((FutexTable.wakeLoop count q).2.2).nodes j).linked = true) :
    (q.nodes j).linked = true ∧
      (((FutexTable.wakeLoop count q).2.2).nodes j).waker = (q.nodes j).waker := by
  induction count generalizing q l with
  | zero => exact ⟨h, rfl⟩
  | succ count ih =>
      cases h_head : q.head with
      | none =>
          have h_one : q.wakeOne = (false, [], q) := by
            simp only [wakeOne, wakeOneSection, h_head]
          simp only [FutexTable.wakeLoop, h_one] at h ⊢
          exact ⟨h, trivial⟩
      | some node =>
          obtain ⟨q', h_section, -, h_rep, h_nodes⟩ := wakeOneSection_head hq h_head
          have h_kept : (q'.nodes j).linked = true → (q.nodes j).linked = true ∧
              (q'.nodes j).waker = (q.nodes j).waker := by
            intro h_linked
            rw [(h_nodes j).1] at h_linked
            split at h_linked
            · exact absurd h_linked (by simp)
            · next h_ne => exact ⟨h_linked, by rw [(h_nodes j).2, if_neg h_ne]⟩
          cases h_waker : (q.nodes node).waker with
          | none =>
              have h_one : q.wakeOne = (false, [], q'.lenSub) := by
                simp only [wakeOne, h_section, h_waker]
              simp only [FutexTable.wakeLoop, h_one] at h ⊢
              exact h_kept h
          | some w =>
              have h_one : q.wakeOne = (true, [w], q'.lenSub) := by
                simp only [wakeOne, h_section, h_waker]
              simp only [FutexTable.wakeLoop, h_one] at h ⊢
              obtain ⟨h_linked, h_same⟩ := ih h_rep.lenSub h
              obtain ⟨h_linked', h_same'⟩ := h_kept h_linked
              exact ⟨h_linked', h_same.trans h_same'⟩

theorem remove_nodes (q : WaitQueue ι Waker) (i j : ι) :
    ((q.remove i).nodes j).linked = (if j = i then false else (q.nodes j).linked) ∧
      ((q.remove i).nodes j).waker = (q.nodes j).waker := by
  rw [← removeSection_linked q i j, ← removeSection_waker q i j, WaitQueue.remove]
  split
  · next h => simp only [h, WaitQueue.lenSub, and_self]
  · next h => simp only [h, and_self]

/-- A call that only changes the future at `i`. -/
theorem PollInv.change {t : FutexTable ι Waker} {w : List Waker} (hs : PollInv virtToPhys s polls)
    (h_lines : ∃ line, Lines virtToPhys ({ s with table := t }.setFuture i f) line)
    (h_known : Known (t.view virtToPhys i f) w)
    (h_others : ∀ j g, j ≠ i → s.futures j = some g →
      t.view virtToPhys j g = s.table.view virtToPhys j g) :
    PollInv virtToPhys ({ s with table := t }.setFuture i f) (Function.update polls i w) where
  lines := h_lines
  known := by
    intro j g h_g
    by_cases h_j : j = i
    · subst h_j
      obtain rfl : f = g := by simpa [System.setFuture] using h_g
      rw [Function.update_self]
      exact h_known
    · rw [Function.update_of_ne h_j]
      have h_old : s.futures j = some g := (Function.update_of_ne h_j ..).symm.trans h_g
      show Known (t.view virtToPhys j g) (polls j)
      rw [h_others j g h_j h_old]
      exact hs.known j g h_old
  unmade := by
    intro j h_none
    have h_j : j ≠ i := by
      rintro rfl
      exact absurd ((Function.update_self ..).symm.trans h_none) (by simp)
    rw [Function.update_of_ne h_j]
    exact hs.unmade j ((Function.update_of_ne h_j ..).symm.trans h_none)

theorem PollInv.wait (hs : PollInv virtToPhys s polls) {addr : Usize} {expected : BitVec 32}
    (h : s.wait i addr expected = some s') (h_lines : ∃ line, Lines virtToPhys s' line) :
    PollInv virtToPhys s' polls := by
  obtain ⟨line, h_line⟩ := hs.lines
  simp only [System.wait] at h
  split at h
  · next h_none =>
      cases h
      have h_polls : Function.update polls i [] = polls := by
        rw [← hs.unmade i h_none, Function.update_eq_self]
      have h_free : ∀ b, i ∉ line b := by
        intro b h_mem
        obtain ⟨g, h_g, -⟩ := h_line.waiting b i h_mem
        exact absurd (h_none.symm.trans h_g) (by simp)
      have h_linked := h_line.linked_eq_false (h_free (bucketFor virtToPhys addr))
      have h_new := hs.change (i := i) (t := s.table) (w := []) h_lines
        ⟨fun h => absurd (h_linked.symm.trans h) (by simp), fun _ => ⟨rfl, rfl, h_linked⟩,
          fun h => absurd h (by simp [FutexTable.view])⟩
        fun _ _ _ _ => rfl
      rwa [h_polls] at h_new
  · exact absurd h (by simp)

/-- The queue of a bucket after the enqueue of a first poll. -/
theorem enqueue_nodes (hq : Parked q l) (h_free : (q.nodes i).linked = false) (fuel : Nat)
    (waker : Waker) :
    ∃ q', ((q.setWaker i waker).setPriority i 0).enqueue fuel i = some q' ∧
      ∀ j, (q'.nodes j).linked = (if j = i then true else (q.nodes j).linked) ∧
        (q'.nodes j).waker = if j = i then some waker else (q.nodes j).waker := by
  have h_set := (hq.setWaker i waker).setPriority i
  have h_linked : ∀ j, (((q.setWaker i waker).setPriority i 0).nodes j).linked =
      (q.nodes j).linked := by
    intro j
    by_cases h_j : j = i <;> simp [WaitQueue.setWaker, WaitQueue.setPriority, modify_nodes, h_j]
  have h_waker : ∀ j, (((q.setWaker i waker).setPriority i 0).nodes j).waker =
      if j = i then some waker else (q.nodes j).waker := by
    intro j
    by_cases h_j : j = i <;> simp [WaitQueue.setWaker, WaitQueue.setPriority, modify_nodes, h_j]
  have h_enqueue : ((q.setWaker i waker).setPriority i 0).enqueue fuel i =
      some (((q.setWaker i waker).setPriority i 0).link i).lenAdd := by
    rw [WaitQueue.enqueue, (h_set.priorities.enqueueSection fuel i).1, Option.map_some]
  refine ⟨_, h_enqueue, fun j => ⟨?_, ?_⟩⟩
  · rw [← h_linked j]
    exact link_linked h_set.rep ((h_linked i).trans h_free) j
  · rw [← h_waker j]
    exact link_waker _ i j

theorem PollInv.poll (hs : PollInv virtToPhys s polls) (h_f : s.futures i = some f)
    (h_alive : f.alive = true) {result : Option FutexResult}
    (h : s.poll virtToPhys fuel i f waker = some (result, s'))
    (h_lines : ∃ line, Lines virtToPhys s' line) :
    PollInv virtToPhys s' (Function.update polls i (polls i ++ [waker])) := by
  obtain ⟨line, h_line⟩ := hs.lines
  have h_known := hs.known i f h_f
  have h_status : f.status = .fresh ∨ f.status = .pending := by
    simpa [FutexWaitFuture.alive] using h_alive
  simp only [System.poll] at h
  split at h
  · next h_not =>
      obtain ⟨h_none, h_free⟩ := h_known.of_not_registered h_status h_not
      obtain ⟨q', h_enqueue, h_nodes⟩ :=
        enqueue_nodes (h_line.parked (bucketFor virtToPhys f.addr)) h_free fuel waker
      rw [h_enqueue] at h
      cases h
      refine hs.change h_lines ?_ fun j g h_j _ => view_setBucket fun _ => ?_
      · rw [view_setBucket_self (f := { f with registered := true, status := .pending })
          (b := bucketFor virtToPhys f.addr) rfl, h_none]
        exact ⟨fun _ => by rw [(h_nodes i).2, if_pos rfl]; rfl, fun h => absurd h (by simp),
          fun _ => ⟨by simp, rfl⟩⟩
      · rw [(h_nodes j).1, (h_nodes j).2, if_neg h_j, if_neg h_j]
        exact ⟨rfl, rfl⟩
  · next h_not =>
      have h_registered : f.registered = true := by simpa using h_not
      split at h
      · next h_linked =>
          cases h
          refine hs.change (t := s.table) h_lines ?_ fun _ _ _ _ => rfl
          exact known_of_status (by simp [FutexTable.view]) (by simp [FutexTable.view])
            fun h => absurd (h_linked.symm.trans h) (by simp)
      · cases h
        have h_same : s.setFuture i f = s := by
          rw [System.setFuture, ← h_f, Function.update_eq_self]
        have h_ne := h_known.of_registered h_status h_registered
        have h_new := hs.change (i := i) (f := f) (t := s.table) (w := polls i ++ [waker])
          (h_same.symm ▸ h_lines)
          ⟨fun h => h_known.waker_eq_append h_status h waker,
            fun h => absurd (h_known.of_fresh h).1 h_ne,
            fun _ => ⟨by simp, h_registered⟩⟩ fun _ _ _ _ => rfl
        exact h_same ▸ h_new

theorem PollInv.drop (hs : PollInv virtToPhys s polls)
    (h_lines : ∃ line, Lines virtToPhys (s.drop virtToPhys i f) line) (h_f : s.futures i = some f) :
    PollInv virtToPhys (s.drop virtToPhys i f) polls := by
  have h_polls := Function.update_eq_self i polls
  simp only [System.drop] at h_lines ⊢
  split
  · next h_registered =>
      rw [if_pos h_registered] at h_lines
      have h_new := hs.change (w := polls i) h_lines ?_ fun j g h_j _ => view_setBucket fun _ => ?_
      · rwa [h_polls] at h_new
      · rw [view_setBucket_self (f := { f with status := .dropped })
          (b := bucketFor virtToPhys f.addr) rfl]
        refine known_of_status (by simp) (by simp) fun h => ?_
        rw [(remove_nodes _ i i).1, if_pos rfl] at h
        exact absurd h (by simp)
      · rw [(remove_nodes _ i j).1, if_neg h_j]
        exact ⟨rfl, (remove_nodes _ i j).2⟩
  · next h_not =>
      rw [if_neg h_not] at h_lines
      have h_new := hs.change (t := s.table) (w := polls i) h_lines
        (known_of_status (by simp [FutexTable.view]) (by simp [FutexTable.view])
          (hs.known i f h_f).waker_eq) fun _ _ _ _ => rfl
      rwa [h_polls] at h_new

theorem PollInv.wake (hs : PollInv virtToPhys s polls) (addr : Usize) (count : Nat)
    (h_lines : ∃ line, Lines virtToPhys
      { s with table := (s.table.wake virtToPhys addr count).2.2 } line) :
    PollInv virtToPhys { s with table := (s.table.wake virtToPhys addr count).2.2 } polls where
  lines := h_lines
  known := by
    intro i f h_f
    obtain ⟨line, h_line⟩ := hs.lines
    have h_known := hs.known i f h_f
    have h_kept := fun h => wakeLoop_linked (j := i) count
      (h_line.parked (bucketFor virtToPhys addr)).rep h
    by_cases h_b : bucketFor virtToPhys f.addr = bucketFor virtToPhys addr
    · show Known ((s.table.setBucket (bucketFor virtToPhys addr) _).view virtToPhys i f) _
      rw [view_setBucket_self h_b]
      have h_view : s.table.view virtToPhys i f = ⟨f.status, f.registered,
          ((s.table.buckets (bucketFor virtToPhys addr)).nodes i).linked,
          ((s.table.buckets (bucketFor virtToPhys addr)).nodes i).waker⟩ := by
        simp only [FutexTable.view, h_b]
      rw [h_view] at h_known
      refine ⟨fun h => ?_, fun h => ?_, h_known.of_pending⟩
      · exact (h_kept h).2.trans (h_known.waker_eq (h_kept h).1)
      · obtain ⟨h_none, h_registered, h_linked⟩ := h_known.of_fresh h
        refine ⟨h_none, h_registered, Bool.eq_false_iff.mpr fun h => ?_⟩
        exact absurd (h_linked.symm.trans (h_kept h).1) (by simp)
    · show Known ((s.table.setBucket (bucketFor virtToPhys addr) _).view virtToPhys i f) _
      rw [view_setBucket fun h => absurd h h_b]
      exact h_known
  unmade := hs.unmade

/-- Every call keeps the invariant. -/
theorem PollInv.step (hs : PollInv virtToPhys s polls) {a : Action ι Waker}
    (h : step virtToPhys fuel s a = some s') :
    PollInv virtToPhys s' (notePoll s a s' polls) := by
  obtain ⟨line, h_line⟩ := hs.lines
  have h_lines := lines_step h_line h
  cases a with
  | wait i addr expected => exact hs.wait h h_lines
  | poll i waker =>
      simp only [Futex.step] at h
      split at h
      · next f h_f =>
          split at h
          · next h_alive =>
              obtain ⟨⟨result, s''⟩, h_poll, rfl⟩ := Option.map_eq_some_iff.mp h
              exact hs.poll h_f h_alive h_poll h_lines
          · exact absurd h (by simp)
      · exact absurd h (by simp)
  | drop i =>
      simp only [Futex.step] at h
      split at h
      · next f h_f =>
          split at h
          · cases h
            exact hs.drop h_lines h_f
          · exact absurd h (by simp)
      · exact absurd h (by simp)
  | wake addr count =>
      cases h
      exact hs.wake addr count h_lines

-- ============================================================================
-- Wake-ups
-- ============================================================================

theorem pollInv_of_reachable {s : Recorded (System ι Waker) (ι → List Waker)}
    (h : (polledMachine virtToPhys fuel ι Waker).Reachable s) :
    PollInv virtToPhys s.state s.record := by
  refine h.invariant (P := fun s => PollInv virtToPhys s.state s.record) pollInv_init ?_
  rintro s a s' hs h_step
  obtain ⟨h_machine, h_record⟩ := Machine.recorded_step_eq_some.mp h_step
  rw [h_record]
  exact hs.step h_machine

/-- `wake` invokes the wakers that it takes. -/
theorem wakeLoop_wakers (count : Nat) (q : WaitQueue ι Waker) :
    (FutexTable.wakeLoop count q).2.1 = (FutexTable.dequeued count q).filterMap Prod.snd := by
  induction count generalizing q with
  | zero => rfl
  | succ count ih =>
      rcases h_section : q.wakeOneSection with ⟨- | ⟨i, - | waker⟩, q'⟩
      · simp only [FutexTable.wakeLoop, FutexTable.dequeued, wakeOne, h_section, List.filterMap_nil]
      · simp only [FutexTable.wakeLoop, FutexTable.dequeued, wakeOne, h_section,
          List.filterMap_cons, List.filterMap_nil]
      · simp only [FutexTable.wakeLoop, FutexTable.dequeued, wakeOne, h_section, ih,
          List.filterMap_cons, List.singleton_append]

/-- It takes them from the first `count` nodes of the bucket. -/
theorem dequeued_eq (count : Nat) (hq : Parked q l) :
    FutexTable.dequeued count q = (l.take count).map fun i => (i, (q.nodes i).waker) := by
  induction count generalizing q l with
  | zero => rfl
  | succ count ih =>
      cases l with
      | nil => simp only [FutexTable.dequeued, hq.wakeOne_nil, List.take_nil, List.map_nil]
      | cons i l =>
          obtain ⟨waker, q', h_section, hq', h_others⟩ := hq.wakeOne_cons
          have h_waker : (q.nodes i).waker = some waker := by
            rw [hq.rep.wakeOneSection_cons] at h_section
            exact (Prod.mk.inj (Option.some.inj (Prod.mk.inj h_section).1)).2
          simp only [FutexTable.dequeued, h_section, ih hq'.lenSub, List.take_succ_cons,
            List.map_cons, h_waker]
          congr 1
          refine List.map_congr_left fun j h_j => ?_
          have h_ne : j ≠ i := by
            rintro rfl
            exact (List.nodup_cons.mp hq.nodup).1 (List.mem_of_mem_take h_j)
          exact congrArg (Prod.mk j) (h_others j h_ne)

/-- A wake-up takes the wakers of the first polls. -/
theorem wakesLast_iff_sameWaker {s : Recorded (System ι Waker) (ι → List Waker)}
    (h : (polledMachine virtToPhys fuel ι Waker).Reachable s) (a : Action ι Waker) :
    WakesLast virtToPhys s a ↔ SameWaker virtToPhys s a := by
  have hs := pollInv_of_reachable h
  cases a with
  | wake addr count =>
      have h_dequeued : ∀ line, Lines virtToPhys s.state line →
          FutexTable.dequeued count (s.state.table.buckets (bucketFor virtToPhys addr)) =
            ((line (bucketFor virtToPhys addr)).take count).map
              fun i => (i, (s.record i).head?) := by
        intro line h_line
        have h_parked := h_line.parked (bucketFor virtToPhys addr)
        rw [dequeued_eq count h_parked]
        refine List.map_congr_left fun i h_i => ?_
        obtain ⟨f, h_f, -, -, h_b⟩ := h_line.waiting _ i (List.mem_of_mem_take h_i)
        have h_waker := (hs.known i f h_f).waker_eq
        simp only [FutexTable.view, h_b] at h_waker
        exact congrArg (Prod.mk i)
          (h_waker ((h_parked.linked_iff i).mpr (List.mem_of_mem_take h_i)))
      constructor
      · intro h_last line h_line i h_i f h_f
        refine h_last i _ ?_ f h_f
        rw [h_dequeued line h_line]
        exact List.mem_map.mpr ⟨i, h_i, rfl⟩
      · intro h_same i waker h_mem f h_f
        obtain ⟨line, h_line⟩ := hs.lines
        rw [h_dequeued line h_line] at h_mem
        obtain ⟨j, h_j, h_pair⟩ := List.mem_map.mp h_mem
        obtain ⟨rfl, rfl⟩ := Prod.mk.inj h_pair
        exact h_same line h_line j h_j f h_f
  | wait | poll | drop => exact Iff.rfl

-- ============================================================================
-- Both futures
-- ============================================================================

/-- In every run the wake-ups, of an async mutex and of a futex table, invoke the
    wakers of the last polls exactly when each time those are the wakers of the
    first. -/
theorem wakesLast_iff (Task Fut ι Waker : Type*) [DecidableEq Task] [DecidableEq Fut]
    [DecidableEq ι] (virtToPhys : Usize → Usize) (fuel : Nat) :
    (∀ tr, (AsyncMutex.polledMachine Task Fut Waker).StepsMeet AsyncMutex.WakesLast
        (AsyncMutex.polledMachine Task Fut Waker).init tr ↔
      (AsyncMutex.polledMachine Task Fut Waker).StepsMeet AsyncMutex.SameWaker
        (AsyncMutex.polledMachine Task Fut Waker).init tr) ∧
    ∀ tr, (polledMachine virtToPhys fuel ι Waker).StepsMeet (WakesLast virtToPhys)
        (polledMachine virtToPhys fuel ι Waker).init tr ↔
      (polledMachine virtToPhys fuel ι Waker).StepsMeet (SameWaker virtToPhys)
        (polledMachine virtToPhys fuel ι Waker).init tr :=
  ⟨Machine.stepsMeet_congr fun _ h => AsyncMutex.wakesLast_iff_sameWaker h,
    Machine.stepsMeet_congr fun _ h => wakesLast_iff_sameWaker h⟩

/-- A lock future is polled with the waker 1 and then with 2, and the mutex is
    unlocked. -/
def movedLock : List (Unit × AsyncMutex.Action Unit Nat) :=
  [((), .tryLock), ((), .poll () 1)] ++ List.replicate 5 ((), .run) ++
    [((), .poll () 2), ((), .run), ((), .dropGuard), ((), .run), ((), .run)]

/-- A future of a futex is polled with the waker 1 and then with 2. -/
def movedWait : List (Action Unit Nat) := [.wait () 0x1000 7, .poll () 1, .poll () 2]

/-- Both wake-ups invoke the waker 1. -/
theorem moved_not_woken :
    (∃ s, (AsyncMutex.polledMachine Unit Unit Nat).exec
        (AsyncMutex.polledMachine Unit Unit Nat).init movedLock = some s ∧
      s.state.shared.waiters.wakeOneSection.1 = some ((), some 1) ∧ s.record () = [1, 2] ∧
      ¬ AsyncMutex.WakesLast s ((), .run)) ∧
    ∃ s, (polledMachine id 0 Unit Nat).exec (polledMachine id 0 Unit Nat).init movedWait = some s ∧
      (s.state.table.wake id 0x1000 1).2.1 = [1] ∧ s.record () = [1, 2] ∧
      ¬ WakesLast id s (.wake 0x1000 1) := by
  constructor
  · have h_replay : ((AsyncMutex.polledMachine Unit Unit Nat).exec
        (AsyncMutex.polledMachine Unit Unit Nat).init movedLock).any (fun s => decide
          (s.state.pc () = .wakeOne ∧ (s.state.shared.futures ()).status = .pending ∧
            s.state.shared.waiters.wakeOneSection.1 = some ((), some 1) ∧
            s.record () = [1, 2])) = true := by
      decide +kernel
    obtain ⟨s, h_run, h_pc, h_status, h_taken, h_polls⟩ := Machine.exec_of_decide h_replay
    refine ⟨s, h_run, h_taken, h_polls, fun h_last => ?_⟩
    have h_latest := h_last h_pc rfl () (some 1) h_taken
    rw [h_status, h_polls] at h_latest
    exact absurd h_latest (by decide)
  · have h_replay : ((polledMachine id 0 Unit Nat).exec (polledMachine id 0 Unit Nat).init
        movedWait).any (fun s => decide
          ((s.state.futures ()).map FutexWaitFuture.status = some .pending ∧
            FutexTable.dequeued 1 (s.state.table.buckets (bucketFor id 0x1000)) =
              [((), some 1)] ∧ s.record () = [1, 2])) = true := by
      decide +kernel
    obtain ⟨s, h_run, h_status, h_taken, h_polls⟩ := Machine.exec_of_decide h_replay
    have h_woken : (s.state.table.wake id 0x1000 1).2.1 = [1] := by
      show (FutexTable.wakeLoop 1 _).2.1 = [1]
      rw [wakeLoop_wakers, h_taken]
      rfl
    refine ⟨s, h_run, h_woken, h_polls, fun h_last => ?_⟩
    obtain ⟨f, h_f, h_pending⟩ := Option.map_eq_some_iff.mp h_status
    have h_latest := h_last () (some 1) (by rw [h_taken]; exact List.mem_singleton_self _) f h_f
    rw [h_pending, h_polls] at h_latest
    exact absurd h_latest (by decide)

end Futex
end Zydon
