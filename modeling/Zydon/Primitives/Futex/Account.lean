/-
  Zydon.Primitives.Futex.Account

  What becomes of the wake-ups of a futex table, in every run of its calls.

  A ledger is kept of the first polls, of the futures that `wake` dequeues, of the
  counts it returns and of the results of the polls.  Every wake-up that is counted
  goes to one future, no future gets two, and a poll reports `Woken` when there is one
  for its future and at no other time.  The futures of one bucket are woken in the
  order in which they came.
-/

import Zydon.Lib.PriorityFifo
import Zydon.Primitives.Futex.LastWaker

namespace Zydon
namespace Futex

open Lib PriorityFifo WaitQueue

variable {ι Waker : Type*}

-- ============================================================================
-- The ledger
-- ============================================================================

/-- What has happened to the futures of a table. -/
structure Ledger (ι Waker : Type*) where
  /-- First polls, with the bucket. -/
  parked : List (ι × Bucket)
  /-- Futures that a `wake` has dequeued, with the bucket. -/
  dequeued : List (ι × Bucket)
  invoked : List Waker
  /-- The sum of what `wake` has returned. -/
  counted : Nat
  answered : List (ι × FutexResult)
  /-- Futures that have been dropped in the queue. -/
  cancelled : List ι

section Model

variable [DecidableEq ι]

/-- The calls write down what they have done. -/
def noteCall (virtToPhys : Usize → Usize) (fuel : Nat) (s : System ι Waker) (a : Action ι Waker)
    (_ : System ι Waker) (r : Ledger ι Waker) : Ledger ι Waker :=
  match a with
  | .wait _ _ _ => r
  | .poll i waker =>
      match s.futures i with
      | some f =>
          match s.poll virtToPhys fuel i f waker with
          | some (some result, _) => { r with answered := r.answered ++ [(i, result)] }
          | some (none, _) =>
              if f.registered then r
              else { r with parked := r.parked ++ [(i, bucketFor virtToPhys f.addr)] }
          | none => r
      | none => r
  | .drop i =>
      match s.futures i with
      | some f =>
          if ((s.table.buckets (bucketFor virtToPhys f.addr)).nodes i).linked then
            { r with cancelled := r.cancelled ++ [i] }
          else r
      | none => r
  | .wake addr count =>
      let b := bucketFor virtToPhys addr
      let (woken, wakers, _) := s.table.wake virtToPhys addr count
      { r with
        dequeued := r.dequeued ++
          (FutexTable.dequeued count (s.table.buckets b)).map fun x => (x.1, b)
        invoked := r.invoked ++ wakers
        counted := r.counted + woken }

/-- The table with its ledger. -/
def ledgerMachine (virtToPhys : Usize → Usize) (fuel : Nat) (ι Waker : Type*) [DecidableEq ι] :
    Machine (Recorded (System ι Waker) (Ledger ι Waker)) (Action ι Waker) :=
  (futex virtToPhys fuel ι Waker).recorded (noteCall virtToPhys fuel) ⟨[], [], [], 0, [], []⟩

/-- The wake-ups of a run. -/
structure WakesAccounted (virtToPhys : Usize → Usize) (fuel : Nat)
    (s : Recorded (System ι Waker) (Ledger ι Waker)) : Prop where
  /-- The futures that have parked in a bucket and were not dropped in the queue have
      been dequeued or are queued, and in this order. -/
  queues : ∃ line : Bucket → List ι, (∀ b, Rep (s.state.table.buckets b) (line b)) ∧
    ∀ b, (lane s.record.parked b).filter (fun i => i ∉ s.record.cancelled) =
      lane s.record.dequeued b ++ line b
  /-- No future is dequeued twice. -/
  once : (s.record.dequeued.map Prod.fst).Nodup
  /-- What `wake` has counted, it has dequeued, and it has invoked a waker for each. -/
  counted : s.record.counted = s.record.dequeued.length ∧
    s.record.invoked.length = s.record.dequeued.length
  /-- No future returns twice, and each returns `Woken` after it has been dequeued. -/
  answeredOnce : (s.record.answered.map Prod.fst).Nodup
  answered : ∀ i result, (i, result) ∈ s.record.answered →
    result = .woken ∧ i ∈ s.record.dequeued.map Prod.fst
  /-- A future that has been dequeued has returned, or was dropped, or will return at
      its next poll. -/
  outcome : ∀ i ∈ s.record.dequeued.map Prod.fst, ∃ f, s.state.futures i = some f ∧
    ((i, .woken) ∈ s.record.answered ∨ f.status = .dropped ∨ f.status = .pending ∧
      ∀ waker, ∃ s', s.state.poll virtToPhys fuel i f waker = some (some .woken, s'))
  /-- One that waits and has not been dequeued does not return. -/
  waits : ∀ i f, s.state.futures i = some f → f.status = .pending →
    i ∉ s.record.dequeued.map Prod.fst →
      ∀ waker, s.state.poll virtToPhys fuel i f waker = some (none, s.state)

end Model

-- ============================================================================
-- One future
-- ============================================================================

/-- What the ledger says of the future at `i`. -/
inductive Entry (virtToPhys : Usize → Usize) (r : Ledger ι Waker) (i : ι) :
    Option FutexWaitFuture → Prop
  | unmade : (∀ b, (i, b) ∉ r.parked) → i ∉ r.cancelled → (∀ x, (i, x) ∉ r.answered) →
      Entry virtToPhys r i none
  | fresh (f : FutexWaitFuture) : f.status = .fresh → f.registered = false →
      (∀ b, (i, b) ∉ r.parked) → i ∉ r.cancelled → (∀ x, (i, x) ∉ r.answered) →
      Entry virtToPhys r i (some f)
  | pending (f : FutexWaitFuture) : f.status = .pending → f.registered = true →
      (∀ b, (i, b) ∈ r.parked ↔ b = bucketFor virtToPhys f.addr) → i ∉ r.cancelled →
      (∀ x, (i, x) ∉ r.answered) → Entry virtToPhys r i (some f)
  | ready (f : FutexWaitFuture) : f.status = .ready → f.registered = false →
      (∀ b, (i, b) ∈ r.parked ↔ b = bucketFor virtToPhys f.addr) → i ∉ r.cancelled →
      (∀ x, (i, x) ∈ r.answered ↔ x = .woken) →
      (i, bucketFor virtToPhys f.addr) ∈ r.dequeued → Entry virtToPhys r i (some f)
  | dropped (f : FutexWaitFuture) : f.status = .dropped →
      (∀ b, (i, b) ∈ r.parked → b = bucketFor virtToPhys f.addr) →
      (∀ x, (i, x) ∈ r.answered → x = .woken ∧ (i, bucketFor virtToPhys f.addr) ∈ r.dequeued) →
      Entry virtToPhys r i (some f)

variable {virtToPhys : Usize → Usize} {fuel count : Nat} {s s' : System ι Waker}
  {r r' : Ledger ι Waker} {line : Bucket → List ι} {b : Bucket} {q : WaitQueue ι Waker}
  {l : List ι} {i j : ι} {f : FutexWaitFuture} {o : Option FutexWaitFuture} {waker : Waker}

/-- Only what concerns `i` counts, and futures are never taken off the list of those
    that are dequeued. -/
theorem Entry.congr (h : Entry virtToPhys r i o)
    (h_parked : ∀ b, (i, b) ∈ r'.parked ↔ (i, b) ∈ r.parked)
    (h_cancelled : i ∈ r'.cancelled ↔ i ∈ r.cancelled)
    (h_answered : ∀ x, (i, x) ∈ r'.answered ↔ (i, x) ∈ r.answered)
    (h_dequeued : ∀ b, (i, b) ∈ r.dequeued → (i, b) ∈ r'.dequeued) :
    Entry virtToPhys r' i o := by
  cases h with
  | unmade h_p h_c h_a =>
      exact .unmade (fun b => mt (h_parked b).mp (h_p b)) (mt h_cancelled.mp h_c)
        fun x => mt (h_answered x).mp (h_a x)
  | fresh f h_status h_registered h_p h_c h_a =>
      exact .fresh f h_status h_registered (fun b => mt (h_parked b).mp (h_p b))
        (mt h_cancelled.mp h_c) fun x => mt (h_answered x).mp (h_a x)
  | pending f h_status h_registered h_p h_c h_a =>
      exact .pending f h_status h_registered (fun b => (h_parked b).trans (h_p b))
        (mt h_cancelled.mp h_c) fun x => mt (h_answered x).mp (h_a x)
  | ready f h_status h_registered h_p h_c h_a h_d =>
      exact .ready f h_status h_registered (fun b => (h_parked b).trans (h_p b))
        (mt h_cancelled.mp h_c) (fun x => (h_answered x).trans (h_a x)) (h_dequeued _ h_d)
  | dropped f h_status h_p h_a =>
      refine .dropped f h_status (fun b h_b => h_p b ((h_parked b).mp h_b)) fun x h_x => ?_
      obtain ⟨h_woken, h_d⟩ := h_a x ((h_answered x).mp h_x)
      exact ⟨h_woken, h_dequeued _ h_d⟩

/-- A future has parked in its own bucket only. -/
theorem Entry.bucket_eq (h : Entry virtToPhys r i o) (h_b : (i, b) ∈ r.parked) :
    ∃ f, o = some f ∧ b = bucketFor virtToPhys f.addr := by
  cases h with
  | unmade h_p _ _ => exact absurd h_b (h_p b)
  | fresh f _ _ h_p _ _ => exact absurd h_b (h_p b)
  | pending f _ _ h_p _ _ => exact ⟨f, rfl, (h_p b).mp h_b⟩
  | ready f _ _ h_p _ _ _ => exact ⟨f, rfl, (h_p b).mp h_b⟩
  | dropped f _ h_p _ => exact ⟨f, rfl, h_p b h_b⟩

-- ============================================================================
-- The invariant
-- ============================================================================

variable [DecidableEq ι]

/-- The invariant of the ledger. -/
structure Balanced (virtToPhys : Usize → Usize) (s : System ι Waker) (r : Ledger ι Waker)
    (line : Bucket → List ι) : Prop where
  lines : Lines virtToPhys s line
  left : ∀ b, (lane r.parked b).filter (fun i => i ∉ r.cancelled) = lane r.dequeued b ++ line b
  entry : ∀ i, Entry virtToPhys r i (s.futures i)
  parkedOnce : (r.parked.map Prod.fst).Nodup
  answeredOnce : (r.answered.map Prod.fst).Nodup
  counted : r.counted = r.dequeued.length ∧ r.invoked.length = r.dequeued.length

theorem balanced_init : Balanced virtToPhys
    ({ table := .new, futures := fun _ => none } : System ι Waker) ⟨[], [], [], 0, [], []⟩
    fun _ => [] where
  lines := lines_new
  left := fun _ => rfl
  entry := fun i => .unmade (by simp) (by simp) (by simp)
  parkedOnce := List.nodup_nil
  answeredOnce := List.nodup_nil
  counted := ⟨rfl, rfl⟩

omit [DecidableEq ι] in
/-- The lines of a table are the lists in its buckets. -/
theorem Lines.eq_line (h : ∃ line', Lines virtToPhys s line')
    (h_parked : ∀ b, Parked (s.table.buckets b) (line b)) : Lines virtToPhys s line := by
  obtain ⟨line', h_lines⟩ := h
  obtain rfl : line' = line := funext fun b => (h_lines.parked b).rep.unique (h_parked b).rep
  exact h_lines

namespace Balanced

/-- What is dequeued or queued has parked there, and was not dropped in the queue. -/
theorem mem_parked (h : Balanced virtToPhys s r line) (h_mem : i ∈ lane r.dequeued b ++ line b) :
    (i, b) ∈ r.parked ∧ i ∉ r.cancelled := by
  rw [← h.left b, List.mem_filter] at h_mem
  exact ⟨mem_lane.mp h_mem.1, of_decide_eq_true h_mem.2⟩

theorem nodup_lane (h : Balanced virtToPhys s r line) (b : Bucket) :
    (lane r.dequeued b ++ line b).Nodup := by
  rw [← h.left b]
  exact ((h.parkedOnce.sublist ((List.filter_sublist).map Prod.fst))).filter _

/-- A queued future has not been dequeued, in whatever bucket. -/
theorem not_dequeued (h : Balanced virtToPhys s r line) (h_i : i ∈ line b) (c : Bucket) :
    i ∉ lane r.dequeued c := by
  intro h_mem
  have h_parked := (h.mem_parked (List.mem_append_right _ h_i)).1
  have h_parked' := (h.mem_parked (List.mem_append_left (line c) h_mem)).1
  obtain ⟨f, h_f, h_b⟩ := (h.entry i).bucket_eq h_parked
  obtain ⟨g, h_g, h_c⟩ := (h.entry i).bucket_eq h_parked'
  obtain rfl : f = g := Option.some.inj (h_f.symm.trans h_g)
  obtain rfl : b = c := h_b.trans h_c.symm
  exact (List.nodup_append.mp (h.nodup_lane b)).2.2 i h_mem i h_i rfl

end Balanced

/-- The future at `i` is replaced, and the ledger says of the others what it said. -/
theorem entry_setFuture (h_i : Entry virtToPhys r' i (some f))
    (h_others : ∀ j, j ≠ i → Entry virtToPhys r' j (s.futures j)) (j : ι) :
    Entry virtToPhys r' j ((s.setFuture i f).futures j) := by
  simp only [System.setFuture, Function.update_apply]
  split
  · next h_j => exact h_j ▸ h_i
  · next h_j => exact h_others j h_j

-- ============================================================================
-- The calls
-- ============================================================================

namespace Balanced

/-- A future is made. -/
theorem wait (h : Balanced virtToPhys s r line) (h_none : s.futures i = none)
    (h_status : f.status = .fresh) (h_registered : f.registered = false) :
    Balanced virtToPhys (s.setFuture i f) r line := by
  have h_entry := h.entry i
  rw [h_none] at h_entry
  cases h_entry with
  | unmade h_parked h_cancelled h_answered =>
      refine ⟨h.lines.setFuture (fun b h_mem => ?_) f, h.left, ?_, h.parkedOnce,
        h.answeredOnce, h.counted⟩
      · exact h_parked b (h.mem_parked (List.mem_append_right _ h_mem)).1
      · exact entry_setFuture (.fresh f h_status h_registered h_parked h_cancelled h_answered)
          fun j _ => h.entry j

/-- A first poll puts the future at the end of the queue of its bucket. -/
theorem park (h : Balanced virtToPhys s r line) (h_f : s.futures i = some f)
    (h_status : f.status = .fresh) (fuel : Nat) (waker : Waker) :
    ∃ s', s.poll virtToPhys fuel i f waker = some (none, s') ∧ f.registered = false ∧
      Balanced virtToPhys s'
        { r with parked := r.parked ++ [(i, bucketFor virtToPhys f.addr)] }
        (Function.update line (bucketFor virtToPhys f.addr)
          (line (bucketFor virtToPhys f.addr) ++ [i])) := by
  have h_entry := h.entry i
  rw [h_f] at h_entry
  cases h_entry with
  | pending _ h_pending | ready _ h_pending | dropped _ h_pending =>
      exact absurd (h_status.symm.trans h_pending) (by simp)
  | fresh _ _ h_registered h_parked h_cancelled h_answered =>
      obtain ⟨b, h_b⟩ : ∃ b, b = bucketFor virtToPhys f.addr := ⟨_, rfl⟩
      have h_free : i ∉ line b := h.lines.not_mem h_f h_registered b
      have h_waker : ((((s.table.buckets b).setWaker i waker).setPriority i 0).nodes
          i).waker.isSome := by
        simp [WaitQueue.setWaker, WaitQueue.setPriority, modify_nodes]
      obtain ⟨q, h_enqueue, h_q⟩ :=
        (((h.lines.parked b).setWaker i waker).setPriority i).enqueue h_free h_waker fuel
      obtain ⟨s', h_poll, h_lines⟩ := h.lines.register h_f h_registered fuel waker
      have h_s' : s' = { s with table := s.table.setBucket b q.lenAdd }.setFuture i
          { f with registered := true, status := .pending } := by
        simp only [System.poll, h_registered, if_true, ← h_b, WaitQueue.enqueue, h_enqueue,
          Option.map_some, Option.some.injEq, Prod.mk.injEq, true_and] at h_poll
        exact h_poll.symm
      rw [← h_b]
      refine ⟨s', h_poll, h_registered, ?_⟩
      subst h_s'
      refine ⟨Lines.eq_line h_lines (parked_update h.lines.parked h_q.lenAdd), fun c => ?_, ?_, ?_,
        h.answeredOnce, h.counted⟩
      · by_cases h_c : c = b
        · subst h_c
          rw [lane_append_self, Function.update_self, List.filter_append, h.left c,
            List.append_assoc]
          simp [h_cancelled]
        · rw [lane_append_of_ne h_c, Function.update_of_ne h_c]
          exact h.left c
      · refine entry_setFuture ?_ fun j h_j => ?_
        · refine .pending _ rfl rfl (fun c => ?_) h_cancelled h_answered
          simp [h_parked, h_b]
        · refine (h.entry j).congr ?_ Iff.rfl (fun _ => Iff.rfl) fun _ h => h
          simp [h_j]
      · rw [List.map_append, List.map_cons, List.map_nil]
        refine List.nodup_append.mpr ⟨h.parkedOnce, List.nodup_singleton i, ?_⟩
        rintro j h_j k h_k rfl
        obtain rfl : j = i := by simpa using h_k
        obtain ⟨⟨k, c⟩, h_mem, rfl⟩ := List.mem_map.mp h_j
        exact h_parked c h_mem

/-- Whether a parked future returns at its next poll. -/
theorem poll_pending (h : Balanced virtToPhys s r line) (h_f : s.futures i = some f)
    (h_status : f.status = .pending) (fuel : Nat) (waker : Waker) :
    (i, bucketFor virtToPhys f.addr) ∈ r.dequeued ∧
        s.poll virtToPhys fuel i f waker =
          some (some .woken, s.setFuture i { f with registered := false, status := .ready }) ∨
      (∀ c, i ∉ lane r.dequeued c) ∧ f.registered = true ∧
        s.poll virtToPhys fuel i f waker = some (none, s) := by
  have h_entry := h.entry i
  rw [h_f] at h_entry
  cases h_entry with
  | fresh _ h_fresh | ready _ h_fresh | dropped _ h_fresh =>
      exact absurd (h_status.symm.trans h_fresh) (by simp)
  | pending _ _ h_registered h_parked h_cancelled h_answered =>
      obtain ⟨b, h_b⟩ : ∃ b, b = bucketFor virtToPhys f.addr := ⟨_, rfl⟩
      rw [← h_b]
      have h_mem : i ∈ lane r.dequeued b ++ line b := by
        rw [← h.left b, List.mem_filter, mem_lane]
        exact ⟨(h_parked b).mpr h_b, decide_eq_true h_cancelled⟩
      cases h_linked : ((s.table.buckets b).nodes i).linked with
      | false =>
          have h_not : i ∉ line b := by
            rw [← (h.lines.parked b).linked_iff, h_linked]
            simp
          refine .inl ⟨mem_lane.mp ((List.mem_append.mp h_mem).resolve_right h_not), ?_⟩
          simp [System.poll, h_registered, ← h_b, h_linked]
      | true =>
          have h_line := ((h.lines.parked b).linked_iff i).mp h_linked
          refine .inr ⟨h.not_dequeued h_line, h_registered, ?_⟩
          simp [System.poll, h_registered, ← h_b, h_linked]

/-- A future that has been dequeued returns. -/
theorem answer (h : Balanced virtToPhys s r line) (h_f : s.futures i = some f)
    (h_status : f.status = .pending) (h_mem : (i, bucketFor virtToPhys f.addr) ∈ r.dequeued) :
    Balanced virtToPhys (s.setFuture i { f with registered := false, status := .ready })
      { r with answered := r.answered ++ [(i, .woken)] } line := by
  have h_entry := h.entry i
  rw [h_f] at h_entry
  cases h_entry with
  | fresh _ h_fresh | ready _ h_fresh | dropped _ h_fresh =>
      exact absurd (h_status.symm.trans h_fresh) (by simp)
  | pending _ _ h_registered h_parked h_cancelled h_answered =>
      refine ⟨h.lines.setFuture (fun b h_i => ?_) _, h.left, ?_, h.parkedOnce, ?_, h.counted⟩
      · exact h.not_dequeued h_i _ (mem_lane.mpr h_mem)
      · refine entry_setFuture ?_ fun j h_j => ?_
        · refine .ready _ rfl rfl h_parked h_cancelled (fun x => ?_) h_mem
          simp [h_answered]
        · refine (h.entry j).congr (fun _ => Iff.rfl) Iff.rfl ?_ fun _ h => h
          simp [h_j]
      · rw [List.map_append, List.map_cons, List.map_nil]
        refine List.nodup_append.mpr ⟨h.answeredOnce, List.nodup_singleton i, ?_⟩
        rintro j h_j k h_k rfl
        obtain rfl : j = i := by simpa using h_k
        obtain ⟨⟨k, x⟩, h_x, rfl⟩ := List.mem_map.mp h_j
        exact h_answered x h_x

/-- What a dropped future was. -/
theorem drop_entry (h : Balanced virtToPhys s r line) (h_f : s.futures i = some f)
    (h_status : f.status ≠ .dropped)
    (h_parked' : ∀ c, (i, c) ∈ r'.parked → (i, c) ∈ r.parked)
    (h_answered' : r'.answered = r.answered) (h_dequeued' : r'.dequeued = r.dequeued) :
    Entry virtToPhys r' i (some { f with status := .dropped }) := by
  have h_entry := h.entry i
  rw [h_f] at h_entry
  cases h_entry with
  | fresh _ _ _ h_parked _ h_answered =>
      refine .dropped _ rfl (fun c h_c => absurd (h_parked' c h_c) (h_parked c)) fun x h_x => ?_
      exact absurd (h_answered' ▸ h_x) (h_answered x)
  | pending _ _ _ h_parked _ h_answered =>
      refine .dropped _ rfl (fun c h_c => (h_parked c).mp (h_parked' c h_c)) fun x h_x => ?_
      exact absurd (h_answered' ▸ h_x) (h_answered x)
  | ready _ _ _ h_parked _ h_answered h_dequeued =>
      refine .dropped _ rfl (fun c h_c => (h_parked c).mp (h_parked' c h_c)) fun x h_x => ?_
      exact ⟨(h_answered x).mp (h_answered' ▸ h_x), h_dequeued' ▸ h_dequeued⟩
  | dropped _ h_dropped => exact absurd h_dropped h_status

/-- A future that is queued is taken out of its queue. -/
theorem dropQueued (h : Balanced virtToPhys s r line) (h_f : s.futures i = some f)
    (h_status : f.status ≠ .dropped)
    (h_linked : ((s.table.buckets (bucketFor virtToPhys f.addr)).nodes i).linked = true) :
    Balanced virtToPhys (s.drop virtToPhys i f) { r with cancelled := r.cancelled ++ [i] }
      (Function.update line (bucketFor virtToPhys f.addr)
        ((line (bucketFor virtToPhys f.addr)).erase i)) := by
  obtain ⟨b, h_b⟩ : ∃ b, b = bucketFor virtToPhys f.addr := ⟨_, rfl⟩
  rw [← h_b] at h_linked ⊢
  have h_mem := ((h.lines.parked b).linked_iff i).mp h_linked
  have h_registered : f.registered = true := by
    obtain ⟨g, h_g, h_registered, -⟩ := h.lines.waiting b i h_mem
    obtain rfl : f = g := Option.some.inj (h_f.symm.trans h_g)
    exact h_registered
  obtain ⟨q, h_section, h_q⟩ := (h.lines.parked b).remove_of_mem h_mem
  have h_drop : s.drop virtToPhys i f =
      { s with table := s.table.setBucket b q.lenSub }.setFuture i
        { f with status := .dropped } := by
    simp only [System.drop, h_registered, if_true, ← h_b, WaitQueue.remove, h_section]
  have h_lines := h.lines.drop h_f
  rw [h_drop] at h_lines ⊢
  refine ⟨Lines.eq_line h_lines (parked_update h.lines.parked h_q.lenSub), fun c => ?_, ?_,
    h.parkedOnce, h.answeredOnce, h.counted⟩
  · -- the future is in no bucket but its own, and has not been dequeued
    have h_split : ∀ l : List ι, l.filter (fun j => j ∉ r.cancelled ++ [i]) =
        (l.filter fun j => j ∉ r.cancelled).filter fun j => j ≠ i := by
      intro l
      rw [List.filter_filter]
      refine List.filter_congr fun j _ => ?_
      simp [and_comm]
    have h_others : (lane r.dequeued c).filter (fun j => j ≠ i) = lane r.dequeued c := by
      refine List.filter_eq_self.mpr fun j h_j => ?_
      rw [decide_eq_true_eq]
      rintro rfl
      exact h.not_dequeued h_mem c h_j
    rw [h_split, h.left c, List.filter_append, h_others]
    congr 1
    by_cases h_c : c = b
    · subst h_c
      rw [Function.update_self, (h.lines.parked c).nodup.erase_eq_filter]
      exact List.filter_congr fun j _ => by by_cases h_ji : j = i <;> simp [h_ji]
    · rw [Function.update_of_ne h_c]
      refine List.filter_eq_self.mpr fun j h_j => ?_
      rw [decide_eq_true_eq]
      rintro rfl
      obtain ⟨g, h_g, -, -, h_c'⟩ := h.lines.waiting c j h_j
      obtain rfl : f = g := Option.some.inj (h_f.symm.trans h_g)
      exact h_c (h_c'.symm.trans h_b.symm)
  · refine entry_setFuture (h.drop_entry h_f h_status (fun _ h => h) rfl rfl) fun j h_j => ?_
    refine (h.entry j).congr (fun _ => Iff.rfl) ?_ (fun _ => Iff.rfl) fun _ h => h
    simp [h_j]

/-- A future that is not queued leaves the queues as they are. -/
theorem dropUnqueued (h : Balanced virtToPhys s r line) (h_f : s.futures i = some f)
    (h_status : f.status ≠ .dropped)
    (h_linked : ((s.table.buckets (bucketFor virtToPhys f.addr)).nodes i).linked = false) :
    Balanced virtToPhys (s.drop virtToPhys i f) r line := by
  obtain ⟨b, h_b⟩ : ∃ b, b = bucketFor virtToPhys f.addr := ⟨_, rfl⟩
  rw [← h_b] at h_linked
  have h_free : i ∉ line b := by
    rw [← (h.lines.parked b).linked_iff, h_linked]
    simp
  have h_buckets : (s.drop virtToPhys i f).table.buckets = s.table.buckets := by
    cases h_registered : f.registered with
    | false => simp only [System.drop, h_registered, Bool.false_eq_true, if_false]; rfl
    | true =>
        simp only [System.drop, h_registered, if_true, ← h_b, WaitQueue.remove,
          (h.lines.parked b).remove_of_not_mem h_free]
        exact Function.update_eq_self b s.table.buckets
  refine ⟨Lines.eq_line (h.lines.drop h_f) (h_buckets ▸ h.lines.parked), h.left, ?_,
    h.parkedOnce, h.answeredOnce, h.counted⟩
  have h_futures : (s.drop virtToPhys i f).futures =
      (s.setFuture i { f with status := .dropped }).futures := by
    simp only [System.drop]
    split <;> rfl
  rw [h_futures]
  exact entry_setFuture (h.drop_entry h_f h_status (fun _ h => h) rfl rfl) fun j _ => h.entry j

/-- `wake` takes futures from the front of one queue. -/
theorem wake (h : Balanced virtToPhys s r line) (addr : Usize) (count : Nat) :
    ∃ line', Balanced virtToPhys { s with table := (s.table.wake virtToPhys addr count).2.2 }
      (noteCall virtToPhys fuel s (.wake addr count) s' r) line' := by
  obtain ⟨b, h_b⟩ : ∃ b, b = bucketFor virtToPhys addr := ⟨_, rfl⟩
  have h_lines := h.lines.wake addr count
  rw [← h_b] at h_lines
  obtain ⟨wakers, q, h_loop, h_wakers, -⟩ := wakeLoop_eq count (h.lines.parked b)
  have h_dequeued : (FutexTable.dequeued count (s.table.buckets b)).map (fun x => (x.1, b)) =
      ((line b).take count).map fun j => (j, b) := by
    rw [dequeued_eq count (h.lines.parked b), List.map_map]
    rfl
  have h_length : wakers.length = ((line b).take count).length := by
    have h_eq := congrArg List.length h_wakers
    simpa only [List.length_map] using h_eq
  have h_note : noteCall virtToPhys fuel s (.wake addr count) s' r =
      { r with dequeued := r.dequeued ++ ((line b).take count).map fun j => (j, b)
               invoked := r.invoked ++ wakers
               counted := r.counted + ((line b).take count).length } := by
    simp only [noteCall, FutexTable.wake, ← h_b, h_loop, h_dequeued]
  rw [h_note]
  refine ⟨_, h_lines, fun c => ?_, fun i => ?_, h.parkedOnce, h.answeredOnce, ?_⟩
  · rw [lane_append]
    by_cases h_c : c = b
    · subst h_c
      rw [lane_map_self, Function.update_self, List.append_assoc, List.take_append_drop]
      exact h.left c
    · rw [lane_map_of_ne _ h_c, Function.update_of_ne h_c, List.append_nil]
      exact h.left c
  · refine (h.entry i).congr (fun _ => Iff.rfl) Iff.rfl (fun _ => Iff.rfl) fun c h_mem => ?_
    exact List.mem_append_left _ h_mem
  · obtain ⟨h_counted, h_invoked⟩ := h.counted
    simp only [List.length_append, List.length_map]
    omega

/-- Every call keeps the ledger balanced. -/
theorem step {a : Action ι Waker} (h : Balanced virtToPhys s r line)
    (h_step : Futex.step virtToPhys fuel s a = some s') :
    ∃ line', Balanced virtToPhys s' (noteCall virtToPhys fuel s a s' r) line' := by
  cases a with
  | wait i addr expected =>
      simp only [Futex.step, System.wait] at h_step
      split at h_step
      · next h_none =>
          cases h_step
          exact ⟨line, h.wait h_none rfl rfl⟩
      · exact absurd h_step (by simp)
  | poll i waker =>
      simp only [Futex.step] at h_step
      split at h_step
      · next f h_f =>
          split at h_step
          · next h_alive =>
              obtain ⟨⟨result, s''⟩, h_poll, rfl⟩ := Option.map_eq_some_iff.mp h_step
              simp only [noteCall, h_f, h_poll]
              rcases of_decide_eq_true h_alive with h_status | h_status
              · obtain ⟨m, h_park, h_registered, h_m⟩ := h.park h_f h_status fuel waker
                obtain ⟨rfl, rfl⟩ := Prod.mk.inj (Option.some.inj (h_poll.symm.trans h_park))
                simp only [h_registered, Bool.false_eq_true, if_false]
                exact ⟨_, h_m⟩
              · rcases h.poll_pending h_f h_status fuel waker with
                  ⟨h_mem, h_woken⟩ | ⟨-, h_registered, h_none⟩
                · obtain ⟨rfl, rfl⟩ := Prod.mk.inj (Option.some.inj (h_poll.symm.trans h_woken))
                  exact ⟨line, h.answer h_f h_status h_mem⟩
                · obtain ⟨rfl, rfl⟩ := Prod.mk.inj (Option.some.inj (h_poll.symm.trans h_none))
                  simp only [h_registered, if_true]
                  exact ⟨line, h⟩
          · exact absurd h_step (by simp)
      · exact absurd h_step (by simp)
  | drop i =>
      simp only [Futex.step] at h_step
      split at h_step
      · next f h_f =>
          split at h_step
          · next h_status =>
              cases h_step
              simp only [noteCall, h_f]
              split
              · next h_linked => exact ⟨_, h.dropQueued h_f h_status h_linked⟩
              · next h_linked =>
                  exact ⟨line, h.dropUnqueued h_f h_status (Bool.eq_false_iff.mpr h_linked)⟩
          · exact absurd h_step (by simp)
      · exact absurd h_step (by simp)
  | wake addr count =>
      cases h_step
      exact h.wake addr count

end Balanced

-- ============================================================================
-- Runs
-- ============================================================================

theorem balanced_of_reachable {s : Recorded (System ι Waker) (Ledger ι Waker)}
    (h : (ledgerMachine virtToPhys fuel ι Waker).Reachable s) :
    ∃ line, Balanced virtToPhys s.state s.record line := by
  refine h.invariant (P := fun s => ∃ line, Balanced virtToPhys s.state s.record line)
    ⟨_, balanced_init⟩ ?_
  rintro s a s' ⟨line, h_s⟩ h_step
  obtain ⟨h_machine, h_record⟩ := Machine.recorded_step_eq_some.mp h_step
  rw [h_record]
  exact h_s.step h_machine

/-- For every translation of addresses and every run of calls, whichever addresses
    share a bucket. -/
theorem wakesAccounted_of_reachable {s : Recorded (System ι Waker) (Ledger ι Waker)}
    (h : (ledgerMachine virtToPhys fuel ι Waker).Reachable s) :
    WakesAccounted virtToPhys fuel s := by
  obtain ⟨line, h_s⟩ := balanced_of_reachable h
  have h_mem : ∀ {i : ι} {b : Bucket}, (i, b) ∈ s.record.dequeued →
      i ∈ s.record.dequeued.map Prod.fst := fun h => List.mem_map_of_mem h
  constructor
  case queues => exact ⟨line, fun b => (h_s.lines.parked b).rep, h_s.left⟩
  case once =>
    refine nodup_of_lanes (fun b => (List.nodup_append.mp (h_s.nodup_lane b)).1) ?_
    intro b c i h_b h_c
    obtain ⟨f, h_f, rfl⟩ := (h_s.entry i).bucket_eq
      (h_s.mem_parked (List.mem_append_left (line b) h_b)).1
    obtain ⟨g, h_g, rfl⟩ := (h_s.entry i).bucket_eq
      (h_s.mem_parked (List.mem_append_left (line c) h_c)).1
    rw [Option.some.inj (h_f.symm.trans h_g)]
  case counted => exact h_s.counted
  case answeredOnce => exact h_s.answeredOnce
  case answered =>
    intro i result h_i
    have h_entry := h_s.entry i
    generalize s.state.futures i = o at h_entry
    cases h_entry with
    | unmade _ _ h_answered | fresh _ _ _ _ _ h_answered | pending _ _ _ _ _ h_answered =>
        exact absurd h_i (h_answered result)
    | ready f _ _ _ _ h_answered h_dequeued =>
        exact ⟨(h_answered result).mp h_i, h_mem h_dequeued⟩
    | dropped f _ _ h_answered =>
        exact ⟨(h_answered result h_i).1, h_mem (h_answered result h_i).2⟩
  case outcome =>
    intro i h_i
    obtain ⟨b, h_b⟩ := mem_map_fst_iff.mp h_i
    obtain ⟨h_parked, h_cancelled⟩ := h_s.mem_parked (List.mem_append_left (line b) h_b)
    obtain ⟨f, h_f, rfl⟩ := (h_s.entry i).bucket_eq h_parked
    refine ⟨f, h_f, ?_⟩
    have h_entry := h_s.entry i
    rw [h_f] at h_entry
    cases h_entry with
    | fresh _ _ _ h_not => exact absurd h_parked (h_not _)
    | ready _ _ _ _ _ h_answered => exact .inl ((h_answered _).mpr rfl)
    | dropped _ h_status => exact .inr (.inl h_status)
    | pending _ h_status =>
        refine .inr (.inr ⟨h_status, fun waker => ?_⟩)
        rcases h_s.poll_pending h_f h_status fuel waker with ⟨-, h_poll⟩ | ⟨h_not, -⟩
        · exact ⟨_, h_poll⟩
        · exact absurd h_b (h_not _)
  case waits =>
    intro i f h_f h_status h_i waker
    rcases h_s.poll_pending h_f h_status fuel waker with ⟨h_dequeued, -⟩ | ⟨-, -, h_poll⟩
    · exact absurd (h_mem h_dequeued) h_i
    · exact h_poll

/-- Two addresses share a bucket.  The first `wake` goes to a future that is dropped
    before it is polled again, the second to one that waits on the other address. -/
def spentWakes : List (Action Nat Nat) :=
  [.wait 0 0x1000 7, .wait 1 0x1100 8, .wait 2 0x1000 7, .poll 0 10, .poll 1 11, .poll 2 12,
    .wake 0x1100 1, .drop 0, .wake 0x1000 1, .poll 1 11, .poll 2 12]

theorem wakesAccounted_spentWakes :
    ∃ s, (ledgerMachine id 0 Nat Nat).exec (ledgerMachine id 0 Nat Nat).init spentWakes
        = some s ∧
      (s.record.dequeued.map Prod.fst = [0, 1] ∧ s.record.answered = [(1, .woken)]) ∧
      WakesAccounted id 0 s := by
  have h_replay : ((ledgerMachine id 0 Nat Nat).exec (ledgerMachine id 0 Nat Nat).init
      spentWakes).any (fun s => decide (s.record.dequeued.map Prod.fst = [0, 1] ∧
        s.record.answered = [(1, .woken)])) = true := by
    decide +kernel
  obtain ⟨s, h_run, h_record⟩ := Machine.exec_of_decide h_replay
  exact ⟨s, h_run, h_record, wakesAccounted_of_reachable ⟨_, h_run⟩⟩

end Futex
end Zydon
