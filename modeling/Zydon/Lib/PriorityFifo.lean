/-
  Zydon.Lib.PriorityFifo

  One FIFO for each priority: elements with the priority they arrived with, in
  the order of their arrival.

  The next element is the first one whose priority no other exceeds (`next`).
  `lane w k` is the FIFO of the priority `k`; the next element is the first of
  the highest lane that has one (`next_of_lane`), an arrival goes to the end of
  one lane and a departure leaves from the front of one.
-/

import Mathlib.Data.List.Find
import Mathlib.Data.List.Nodup
import Mathlib.Order.Defs.LinearOrder

namespace Lib
namespace PriorityFifo

variable {α κ : Type*} [LinearOrder κ]

/-- The first element whose priority no other exceeds. -/
def next (w : List (α × κ)) : Option (α × κ) :=
  w.find? fun e => decide (∀ e' ∈ w, e'.2 ≤ e.2)

/-- The elements of one priority, in the order of their arrival. -/
def lane (w : List (α × κ)) (k : κ) : List α :=
  (w.filter fun e => decide (e.2 = k)).map Prod.fst

/-- The elements by priority, in the order of `ks`. -/
def byPriority (ks : List κ) (w : List (α × κ)) : List α := ks.flatMap (lane w)

variable {w : List (α × κ)} {k k' : κ} {a : α} {rest : List α}

theorem mem_lane : a ∈ lane w k ↔ (a, k) ∈ w := by
  rw [lane, List.mem_map]
  constructor
  · rintro ⟨⟨b, j⟩, h_mem, rfl⟩
    obtain ⟨h_mem, h_key⟩ := List.mem_filter.mp h_mem
    rwa [← of_decide_eq_true h_key]
  · intro h_mem
    exact ⟨(a, k), List.mem_filter.mpr ⟨h_mem, decide_eq_true rfl⟩, rfl⟩

theorem mem_map_fst_iff : a ∈ w.map Prod.fst ↔ ∃ k, a ∈ lane w k := by
  simp only [mem_lane, List.mem_map, Prod.exists, exists_and_right, exists_eq_right]

theorem lane_eq_nil_iff : lane w k = [] ↔ ∀ e ∈ w, e.2 ≠ k := by
  rw [lane, List.map_eq_nil_iff, List.filter_eq_nil_iff]
  simp only [decide_eq_true_eq, ne_eq]

/-- The first element of a lane, with its priority, comes first among those of
    its priority. -/
theorem filter_of_lane (h_lane : lane w k = a :: rest) :
    ∃ tail, (w.filter fun e => decide (e.2 = k)) = (a, k) :: tail ∧ tail.map Prod.fst = rest := by
  rw [lane, List.map_eq_cons_iff] at h_lane
  obtain ⟨⟨b, j⟩, tail, h_filter, rfl, h_rest⟩ := h_lane
  have h_mem : (b, j) ∈ w.filter fun e => decide (e.2 = k) := by
    rw [h_filter]
    exact List.mem_cons_self
  obtain rfl : j = k := of_decide_eq_true (List.mem_filter.mp h_mem).2
  exact ⟨tail, h_filter, h_rest⟩

/-! ## The next element -/

/-- The next element is the first one of the highest lane. -/
theorem next_of_lane (h_lane : lane w k = a :: rest) (h_high : ∀ e ∈ w, e.2 ≤ k) :
    next w = some (a, k) := by
  obtain ⟨tail, h_filter, -⟩ := filter_of_lane h_lane
  have h_mem : (a, k) ∈ w := mem_lane.mp (by rw [h_lane]; exact List.mem_cons_self)
  have h_same : w.find? (fun e => decide (∀ e' ∈ w, e'.2 ≤ e.2)) =
      w.find? fun e => decide (e.2 = k) := by
    apply List.find?_congr
    intro e h_e
    rw [decide_eq_decide]
    constructor
    · exact fun h => le_antisymm (h_high e h_e) (h (a, k) h_mem)
    · intro h_key
      rwa [h_key]
  rw [next, h_same, ← List.head?_filter, h_filter, List.head?_cons]

/-- Some element has the highest priority. -/
theorem exists_highest (h_ne : w ≠ []) : ∃ e ∈ w, ∀ e' ∈ w, e'.2 ≤ e.2 := by
  induction w with
  | nil => exact absurd rfl h_ne
  | cons x w ih =>
      by_cases h_nil : w = []
      · subst h_nil
        exact ⟨x, List.mem_cons_self, fun e' h => by rw [List.mem_singleton.mp h]⟩
      · obtain ⟨e, h_e, h_max⟩ := ih h_nil
        rcases le_total x.2 e.2 with h_le | h_le
        · refine ⟨e, List.mem_cons_of_mem x h_e, ?_⟩
          rw [List.forall_mem_cons]
          exact ⟨h_le, h_max⟩
        · refine ⟨x, List.mem_cons_self, ?_⟩
          rw [List.forall_mem_cons]
          exact ⟨le_rfl, fun e' h => (h_max e' h).trans h_le⟩

/-- There is a next element unless there is none at all. -/
theorem next_eq_none_iff : next w = none ↔ w = [] := by
  constructor
  · intro h_none
    by_contra h_ne
    obtain ⟨e, h_e, h_max⟩ := exists_highest h_ne
    exact List.find?_eq_none.mp h_none e h_e (decide_eq_true h_max)
  · rintro rfl
    rfl

theorem lane_of_next (h_next : next w = some (a, k)) :
    (∃ rest, lane w k = a :: rest) ∧ ∀ e ∈ w, e.2 ≤ k := by
  have h_ne : w ≠ [] := by
    rw [Ne, ← next_eq_none_iff, h_next]
    exact Option.some_ne_none _
  obtain ⟨⟨b, j⟩, h_mem, h_max⟩ := exists_highest h_ne
  obtain ⟨c, rest, h_lane⟩ := List.exists_cons_of_ne_nil (List.ne_nil_of_mem (mem_lane.mpr h_mem))
  have h_first := next_of_lane h_lane h_max
  rw [h_next, Option.some.injEq, Prod.mk.injEq] at h_first
  obtain ⟨rfl, rfl⟩ := h_first
  exact ⟨⟨rest, h_lane⟩, h_max⟩

/-! ## All elements by priority -/

theorem mem_byPriority {ks : List κ} : a ∈ byPriority ks w ↔ ∃ k ∈ ks, (a, k) ∈ w := by
  simp only [byPriority, List.mem_flatMap, mem_lane]

/-- From the highest priority down, the next element comes first. -/
theorem head?_byPriority {ks : List κ} (h_desc : ks.Pairwise fun i j => j < i) (h_mem : k ∈ ks)
    (h_lane : lane w k = a :: rest) (h_high : ∀ e ∈ w, e.2 ≤ k) :
    (byPriority ks w).head? = some a := by
  induction ks with
  | nil => exact absurd h_mem List.not_mem_nil
  | cons j ks ih =>
      obtain ⟨h_above, h_desc⟩ := List.pairwise_cons.mp h_desc
      rw [byPriority, List.flatMap_cons]
      rcases List.mem_cons.mp h_mem with rfl | h_mem
      · rw [h_lane, List.cons_append, List.head?_cons]
      · have h_nil : lane w j = [] := by
          rw [lane_eq_nil_iff]
          intro e h_e
          exact ((h_high e h_e).trans_lt (h_above k h_mem)).ne
        rw [h_nil, List.nil_append]
        exact ih h_desc h_mem

/-- An element is there once if no lane holds it twice and no two lanes share
    it. -/
theorem nodup_of_lanes (h_nodup : ∀ k, (lane w k).Nodup)
    (h_disjoint : ∀ k k' a, a ∈ lane w k → a ∈ lane w k' → k = k') :
    (w.map Prod.fst).Nodup := by
  induction w with
  | nil => exact List.nodup_nil
  | cons e w ih =>
      have h_sub : ∀ k, (lane w k).Sublist (lane (e :: w) k) := fun k =>
        ((List.sublist_cons_self e w).filter _).map Prod.fst
      have h_self : lane (e :: w) e.2 = e.1 :: lane w e.2 := by simp [lane]
      rw [List.map_cons, List.nodup_cons]
      constructor
      · intro h_mem
        obtain ⟨k, h_k⟩ := mem_map_fst_iff.mp h_mem
        have h_first : e.1 ∈ lane (e :: w) e.2 := by rw [h_self]; exact List.mem_cons_self
        obtain rfl := h_disjoint k e.2 e.1 ((h_sub k).subset h_k) h_first
        have h_twice := h_nodup e.2
        rw [h_self, List.nodup_cons] at h_twice
        exact h_twice.1 h_k
      · refine ih (fun k => (h_nodup k).sublist (h_sub k)) fun k k' a h h' => ?_
        exact h_disjoint k k' a ((h_sub k).subset h) ((h_sub k').subset h')

/-- With every priority on the list, none twice, it is the same elements. -/
theorem perm_byPriority {ks : List κ} (h_ks : ks.Nodup) (h_all : ∀ k, k ∈ ks)
    (h_nodup : ∀ k, (lane w k).Nodup)
    (h_disjoint : ∀ k k' a, a ∈ lane w k → a ∈ lane w k' → k = k') :
    (byPriority ks w).Nodup ∧ (byPriority ks w).Perm (w.map Prod.fst) := by
  have h_once : (byPriority ks w).Nodup := by
    rw [byPriority, List.nodup_flatMap]
    refine ⟨fun k _ => h_nodup k, h_ks.imp fun {k k'} h_ne => ?_⟩
    intro a h_a h_a'
    exact h_ne (h_disjoint k k' a h_a h_a')
  refine ⟨h_once, (List.perm_ext_iff_of_nodup h_once (nodup_of_lanes h_nodup h_disjoint)).mpr ?_⟩
  intro a
  rw [mem_byPriority, mem_map_fst_iff]
  simp only [h_all, true_and, mem_lane]

/-! ## Arrivals and departures -/

theorem lane_append_self : lane (w ++ [(a, k)]) k = lane w k ++ [a] := by
  simp [lane]

theorem lane_append_of_ne (h : k' ≠ k) : lane (w ++ [(a, k)]) k' = lane w k' := by
  simp [lane, Ne.symm h]

theorem lane_append (w w' : List (α × κ)) (k : κ) : lane (w ++ w') k = lane w k ++ lane w' k := by
  rw [lane, List.filter_append, List.map_append]
  rfl

/-- Elements that all have one priority. -/
theorem lane_map_self (l : List α) (k : κ) : lane (l.map fun a => (a, k)) k = l := by
  induction l with
  | nil => rfl
  | cons a l ih => simpa [lane] using ih

theorem lane_map_of_ne (l : List α) (h : k' ≠ k) : lane (l.map fun a => (a, k)) k' = [] := by
  rw [lane_eq_nil_iff]
  intro e h_e
  obtain ⟨a, -, rfl⟩ := List.mem_map.mp h_e
  exact Ne.symm h

variable [DecidableEq α]

theorem lane_erase_self (h_lane : lane w k = a :: rest) : lane (w.erase (a, k)) k = rest := by
  obtain ⟨tail, h_filter, h_rest⟩ := filter_of_lane h_lane
  rw [lane, ← List.erase_filter, h_filter, List.erase_cons_head, h_rest]

theorem lane_erase_of_ne (h : k' ≠ k) : lane (w.erase (a, k)) k' = lane w k' := by
  have h_not : (a, k) ∉ w.filter fun e => decide (e.2 = k') := by
    intro h_mem
    exact h (of_decide_eq_true (List.mem_filter.mp h_mem).2).symm
  rw [lane, ← List.erase_filter, List.erase_of_not_mem h_not, lane]

end PriorityFifo
end Lib
