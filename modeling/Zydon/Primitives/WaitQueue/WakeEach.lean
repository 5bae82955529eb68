/-
  Zydon.Primitives.WaitQueue.WakeEach

  `wake_all` without interference, on a queue of any length.

  The section empties the queue, whatever its length (`Rep.wakeAllLoop_eq`).  The
  wakers it takes from the nodes go to a vector of fixed capacity, which gives
  back what does not fit, to be dropped: the tasks of the nodes behind the first
  64 are no longer in the queue, and are not woken.
-/

import Zydon.Primitives.WaitQueue.Runs
import Zydon.Primitives.WaitQueue.WakeAll

namespace Zydon
namespace WaitQueue

variable {ι Waker : Type*}

-- ============================================================================
-- The call
-- ============================================================================

/-- `wake_all`: the wakers it invokes, in order, and the queue, or `none` if its
    loop has not ended after `fuel` rounds. -/
def wakeAll [DecidableEq ι] (fuel : Nat) (q : WaitQueue ι Waker) :
    Option (List Waker × WaitQueue ι Waker) :=
  (q.wakeAllSection fuel).map fun (wakers, q) => (wakers, q.lenZero)

/-- `wake_all` returns, and leaves the queue with the nodes `l` empty, its nodes
    unlinked; it invokes the waker of each of them once, in order. -/
def WakesEach [DecidableEq ι] (q : WaitQueue ι Waker) (l : List ι) : Prop :=
  ∃ invoked q', (∀ fuel, l.length ≤ fuel → wakeAll fuel q = some (invoked, q')) ∧
    Rep q' [] ∧ q'.isEmpty = true ∧ (∀ i ∈ l, (q'.nodes i).linked = false) ∧
    invoked.map some = l.map fun i => (q.nodes i).waker

-- ============================================================================
-- The section
-- ============================================================================

variable {q : WaitQueue ι Waker} {l : List ι}

/-- The wakers of nodes that all have one. -/
theorem map_filterMap_waker (h_wakers : ∀ i ∈ l, (q.nodes i).waker.isSome) :
    (l.filterMap fun i => (q.nodes i).waker).map some = l.map fun i => (q.nodes i).waker := by
  induction l with
  | nil => rfl
  | cons i l ih =>
      rw [List.forall_mem_cons] at h_wakers
      obtain ⟨w, h_w⟩ := Option.isSome_iff_exists.mp h_wakers.1
      rw [List.filterMap_cons, List.map_cons, h_w, List.map_cons, ih h_wakers.2]

variable [DecidableEq ι]

/-- The loop ends after as many rounds as there are nodes, with their wakers
    pushed one after the other. -/
theorem Rep.wakeAllLoop_eq (hq : Rep q l) :
    ∃ q', Rep q' [] ∧ ∀ fuel wakers, l.length ≤ fuel →
      WaitQueue.wakeAllLoop fuel wakers q =
        some ((l.map fun i => (q.nodes i).waker).foldl pushWaker wakers, q') := by
  induction l generalizing q with
  | nil =>
      refine ⟨q, hq, fun fuel wakers _ => ?_⟩
      have h_none : q.wakeOneSection = (none, q) := by simp [wakeOneSection, hq.head_eq]
      rw [WaitQueue.wakeAllLoop, h_none]
      rfl
  | cons node l ih =>
      have h_section := hq.wakeOneSection_cons
      set q₁ := (q.unlink node).modify node fun n => { n with waker := none }
      have h_unlink : Rep (q.unlink node) ([] ++ l) := Rep.unlink hq
      have hq₁ : Rep q₁ l := h_unlink.modify node (fun _ => rfl) (fun _ => rfl) fun _ => rfl
      have h_wakers : (l.map fun i => (q₁.nodes i).waker) = l.map fun i => (q.nodes i).waker := by
        apply List.map_congr_left
        intro i h_i
        have h_ne : i ≠ node := by
          rintro rfl
          exact (List.nodup_cons.mp hq.nodup).1 h_i
        rw [modify_nodes, if_neg h_ne, unlink_waker]
      obtain ⟨q', hq', h_loop⟩ := ih hq₁
      refine ⟨q', hq', fun fuel wakers h_fuel => ?_⟩
      obtain ⟨fuel, rfl⟩ : ∃ k, fuel = k + 1 :=
        ⟨fuel - 1, by rw [List.length_cons] at h_fuel; omega⟩
      rw [WaitQueue.wakeAllLoop, h_section]
      simp only [h_loop fuel _ (Nat.le_of_succ_le_succ h_fuel), h_wakers, List.map_cons,
        List.foldl_cons]

/-- `wake_all` invokes the wakers of the first nodes, as many as the vector
    holds. -/
theorem Rep.wakeAll_eq (hq : Rep q l) :
    ∃ q', Rep q' [] ∧ q'.isEmpty = true ∧ ∀ fuel, l.length ≤ fuel →
      wakeAll fuel q =
        some ((l.filterMap fun i => (q.nodes i).waker).take wakersCapacity, q') := by
  obtain ⟨q', hq', h_loop⟩ := hq.wakeAllLoop_eq
  refine ⟨q'.lenZero, hq'.congr rfl rfl (fun _ => rfl) (fun _ => rfl) fun _ => rfl, rfl, ?_⟩
  intro fuel h_fuel
  rw [wakeAll, wakeAllSection, h_loop fuel [] h_fuel, foldl_pushWaker _ (Nat.zero_le _),
    List.nil_append, List.filterMap_map, Option.map_some]
  rfl

/-- More nodes than the vector holds are not all woken. -/
theorem WakesEach.length_le (hq : Rep q l) (h : WakesEach q l) : l.length ≤ wakersCapacity := by
  obtain ⟨invoked, q', h_call, -, -, -, h_invoked⟩ := h
  obtain ⟨q₁, -, -, h_eq⟩ := hq.wakeAll_eq
  have h_same := (h_call l.length (le_refl _)).symm.trans (h_eq l.length (le_refl _))
  have h_length : invoked.length ≤ wakersCapacity := by
    obtain ⟨rfl, -⟩ := Prod.mk.inj (Option.some.inj h_same)
    exact List.length_take_le _ _
  have h_all := congrArg List.length h_invoked
  rw [List.length_map, List.length_map] at h_all
  omega

/-- `wake_all` wakes every waiter exactly when there are no more of them than the
    vector holds. -/
theorem wakesEach_iff (hq : Rep q l) (h_wakers : ∀ i ∈ l, (q.nodes i).waker.isSome) :
    WakesEach q l ↔ l.length ≤ wakersCapacity := by
  refine ⟨WakesEach.length_le hq, fun h_le => ?_⟩
  obtain ⟨q', hq', h_empty, h_call⟩ := hq.wakeAll_eq
  refine ⟨_, q', h_call, hq', h_empty, fun i _ => ?_, ?_⟩
  · rw [← Bool.not_eq_true, hq'.linked_iff]
    exact List.not_mem_nil
  · have h_length : (l.filterMap fun i => (q.nodes i).waker).length ≤ wakersCapacity :=
      (List.length_filterMap_le _ _).trans h_le
    rw [List.take_of_length_le h_length, map_filterMap_waker h_wakers]

/-! ## Queues of `n` nodes -/

/-- The nodes `0` to `n - 1`, each with a waker of its own, enqueued in order. -/
def parked : Nat → WaitQueue Nat Nat
  | 0 => new
  | n + 1 => (((parked n).setWaker n n).link n).lenAdd

theorem noPriorities_parked (n : Nat) : NoPriorities (parked n) := by
  induction n with
  | zero => exact NoPriorities.new
  | succ n ih => exact ((ih.setWaker n n).enqueueSection 0 n).2

theorem enqueue_parked (n : Nat) :
    enqueue 0 ((parked n).setWaker n n) n = some (parked (n + 1)) := by
  rw [enqueue, (((noPriorities_parked n).setWaker n n).enqueueSection 0 n).1]
  rfl

theorem rep_parked (n : Nat) : Rep (parked n) (List.range n) := by
  induction n with
  | zero => exact rep_new
  | succ n ih =>
      have h_waker : Rep ((parked n).setWaker n n) (List.range n) := ih.setWaker n n
      have h_free : (((parked n).setWaker n n).nodes n).linked = false := by
        rw [← Bool.not_eq_true, h_waker.linked_iff]
        simp
      rw [List.range_succ]
      exact (h_waker.link h_free).lenAdd

theorem waker_parked (n : Nat) : ∀ i ∈ List.range n, ((parked n).nodes i).waker.isSome := by
  induction n with
  | zero => simp
  | succ n ih =>
      intro i h_i
      have h_waker : ((parked (n + 1)).nodes i).waker =
          if i = n then some n else ((parked n).nodes i).waker := by
        show ((((parked n).setWaker n n).link n).nodes i).waker = _
        rw [link_waker, setWaker, modify_nodes]
        split <;> rfl
      rw [h_waker]
      split
      · rfl
      · next h_ne =>
          rw [List.mem_range] at h_i
          exact ih i (List.mem_range.mpr (by omega))

/-- As many tasks as the vector holds are all woken. -/
theorem wakesEach_parked_full : WakesEach (parked 64) (List.range 64) :=
  (wakesEach_iff (rep_parked 64) (waker_parked 64)).mpr (by decide)

/-- Of 65 parked tasks `wake_all` wakes 64. -/
theorem parked_not_wakesEach :
    Rep (parked 65) (List.range 65) ∧ (∀ i ∈ List.range 65, ((parked 65).nodes i).waker.isSome) ∧
      ¬ WakesEach (parked 65) (List.range 65) := by
  refine ⟨rep_parked 65, waker_parked 65, fun h => ?_⟩
  exact absurd (h.length_le (rep_parked 65)) (by decide)

end WaitQueue
end Zydon
