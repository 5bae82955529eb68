/-
  Zydon.Lib.PriorityList

  Lists in order of priority, first come first served among equals.

  `InOrder prio stamp l`: a higher priority comes first, and of two equal ones
  the lower stamp, which is the time of arrival.  A new element goes in front of
  the first one of lower priority (`arrive`); that is also where it stops when
  it moves up from the end of the list past everything of lower priority
  (`arrive_append`).
-/

import Mathlib.Data.List.Sort

namespace Lib

variable {ι P : Type*} [LinearOrder P]

/-- In order of priority, and of arrival among equal priorities. -/
def InOrder (prio : ι → P) (stamp : ι → Nat) (l : List ι) : Prop :=
  l.Pairwise fun i j => prio j < prio i ∨ prio i = prio j ∧ stamp i < stamp j

/-- The list after the arrival of `i`. -/
def arrive (prio : ι → P) (i : ι) (l : List ι) : List ι :=
  l.orderedInsert (fun a b => prio b < prio a) i

variable {prio prio' : ι → P} {stamp stamp' : ι → Nat} {i : ι} {l l₁ l₂ : List ι}

theorem mem_arrive {j : ι} : j ∈ arrive prio i l ↔ j = i ∨ j ∈ l :=
  List.mem_orderedInsert _

theorem length_arrive : (arrive prio i l).length = l.length + 1 :=
  List.orderedInsert_length ..

/-- The arrival moves up from the end of the list. -/
theorem arrive_append (h_high : ∀ a ∈ l₁, prio i ≤ prio a) (h_low : ∀ a ∈ l₂, prio a < prio i) :
    arrive prio i (l₁ ++ l₂) = l₁ ++ i :: l₂ := by
  induction l₁ with
  | nil =>
      cases l₂ with
      | nil => rfl
      | cons b l₂ => exact if_pos (h_low b List.mem_cons_self)
  | cons a l₁ ih =>
      have h_a : ¬ prio a < prio i := not_lt.mpr (h_high a List.mem_cons_self)
      have h_rest : arrive prio i (l₁ ++ l₂) = l₁ ++ i :: l₂ :=
        ih fun b hb => h_high b (List.mem_cons_of_mem a hb)
      show List.orderedInsert _ i (a :: (l₁ ++ l₂)) = a :: (l₁ ++ i :: l₂)
      rw [List.orderedInsert_cons, if_neg h_a]
      exact congrArg (a :: ·) h_rest

namespace InOrder

theorem nil : InOrder prio stamp [] := List.Pairwise.nil

/-- A part of a list in order is in order. -/
theorem sublist (h : InOrder prio stamp l₂) (h_sub : l₁.Sublist l₂) : InOrder prio stamp l₁ :=
  List.Pairwise.sublist h_sub h

/-- The order only depends on the priorities and stamps of the elements. -/
theorem congr (h : InOrder prio stamp l) (h_prio : ∀ i ∈ l, prio' i = prio i)
    (h_stamp : ∀ i ∈ l, stamp' i = stamp i) : InOrder prio' stamp' l := by
  apply List.Pairwise.imp_of_mem _ h
  intro i j hi hj h_ij
  rw [h_prio i hi, h_prio j hj, h_stamp i hi, h_stamp j hj]
  exact h_ij

/-- An element behind another one does not have the higher priority. -/
theorem le_of_append (h : InOrder prio stamp (l₁ ++ l₂)) :
    ∀ a ∈ l₁, ∀ b ∈ l₂, prio b ≤ prio a := by
  intro a ha b hb
  rcases (List.pairwise_append.mp h).2.2 a ha b hb with h_lt | ⟨h_eq, -⟩
  · exact le_of_lt h_lt
  · exact le_of_eq h_eq.symm

/-- The arrival of the latest element keeps the order. -/
theorem arrive (h : InOrder prio stamp l) (h_latest : ∀ a ∈ l, stamp a < stamp i) :
    InOrder prio stamp (arrive prio i l) := by
  induction l with
  | nil => exact List.pairwise_singleton _ i
  | cons a l ih =>
      obtain ⟨h_a, h_l⟩ := List.pairwise_cons.mp h
      show InOrder prio stamp (List.orderedInsert _ i (a :: l))
      rw [List.orderedInsert_cons]
      split
      · next h_lt =>
          refine List.pairwise_cons.mpr ⟨fun b hb => Or.inl ?_, h⟩
          rcases List.mem_cons.mp hb with rfl | hb
          · exact h_lt
          · have h_tail : prio b ≤ prio a := le_of_append h a (List.mem_singleton_self a) b hb
            exact lt_of_le_of_lt h_tail h_lt
      · next h_ge =>
          refine List.pairwise_cons.mpr ⟨fun b hb => ?_, ?_⟩
          · rcases mem_arrive.mp hb with rfl | hb
            · rcases lt_or_eq_of_le (not_lt.mp h_ge) with h_lt | h_eq
              · exact Or.inl h_lt
              · exact Or.inr ⟨h_eq.symm, h_latest a List.mem_cons_self⟩
            · exact h_a b hb
          · exact ih h_l fun b hb => h_latest b (List.mem_cons_of_mem a hb)

end InOrder
end Lib
