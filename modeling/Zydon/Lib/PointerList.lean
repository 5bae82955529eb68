/-
  Zydon.Lib.PointerList

  Paths through a pointer field.  A heap of cells is seen through one field of
  its cells, `next : ι → Option ι` (`none` is the null pointer);
  `Seg next p l q` says that following it from `p` visits exactly the cells of
  `l`, in order, and arrives at `q`.

  A singly linked list that ends is a segment to `none`.  A doubly linked list
  is one segment along each of the two fields, through the same cells in
  opposite orders, so every lemma here serves both directions.
-/

import Mathlib.Data.List.Nodup

namespace Lib

variable {ι : Type*}

/-- Following `next` from `p` visits exactly `l` and arrives at `q`. -/
def Seg (next : ι → Option ι) : Option ι → List ι → Option ι → Prop
  | p, [], q => p = q
  | p, i :: l, q => p = some i ∧ Seg next (next i) l q

namespace Seg

variable {next next' : ι → Option ι} {p q m : Option ι} {i j : ι} {l l' : List ι}

@[simp] theorem nil_iff : Seg next p [] q ↔ p = q := Iff.rfl

@[simp] theorem cons_iff : Seg next p (i :: l) q ↔ p = some i ∧ Seg next (next i) l q := Iff.rfl

/-- A segment starts at the head of its list, or at its end. -/
theorem start_eq (h : Seg next p l q) : p = (l.head?).or q := by
  cases l with
  | nil => simpa using h
  | cons i l => simpa using h.1

theorem append_iff : Seg next p (l ++ l') q ↔ ∃ m, Seg next p l m ∧ Seg next m l' q := by
  induction l generalizing p with
  | nil => simp
  | cons i l ih => simp [ih, and_assoc]

/-- From one cell there is one segment to the null pointer. -/
theorem unique (h : Seg next p l none) (h' : Seg next p l' none) : l = l' := by
  induction l generalizing p l' with
  | nil =>
      cases l' with
      | nil => rfl
      | cons i l' => exact absurd (h.symm.trans h'.1) (by simp)
  | cons i l ih =>
      cases l' with
      | nil => exact absurd (h.1.symm.trans h') (by simp)
      | cons j l' =>
          obtain rfl : i = j := Option.some.inj (h.1.symm.trans h'.1)
          rw [ih h.2 h'.2]

/-- A segment only reads the field of its own cells. -/
theorem congr (h_eq : ∀ i ∈ l, next' i = next i) (h : Seg next p l q) : Seg next' p l q := by
  induction l generalizing p with
  | nil => exact h
  | cons i l ih =>
      obtain ⟨h_p, h_l⟩ := h
      refine ⟨h_p, ?_⟩
      rw [h_eq i List.mem_cons_self]
      exact ih (fun j hj => h_eq j (List.mem_cons_of_mem i hj)) h_l

/-- Pointing the last cell elsewhere moves the end of the segment. -/
theorem redirect_last (h : Seg next p (l ++ [i]) q) (h_eq : ∀ j ∈ l, next' j = next j) :
    Seg next' p (l ++ [i]) (next' i) := by
  obtain ⟨m, h_init, h_last⟩ := append_iff.mp h
  exact append_iff.mpr ⟨m, h_init.congr h_eq, h_last.1, rfl⟩

/-- Pointing the cell before `i` (or the start, if there is none) behind `i`
    takes `i` out of the segment. -/
theorem bypass (h : Seg next p (l ++ i :: l') q) (h_nodup : (l ++ i :: l').Nodup)
    (h_before : ∀ j, l.getLast? = some j → next' j = next i)
    (h_other : ∀ j, j ≠ i → l.getLast? ≠ some j → next' j = next j) :
    Seg next' (if l.isEmpty then next i else p) (l ++ l') q := by
  obtain ⟨m, h_l, h_m, h_l'⟩ := append_iff.mp h
  obtain ⟨h_nodup_l, h_nodup_l', h_disjoint⟩ := List.nodup_append.mp h_nodup
  obtain ⟨h_i, -⟩ := List.nodup_cons.mp h_nodup_l'
  have h_rest : Seg next' (next i) l' q := by
    apply h_l'.congr
    intro j hj
    apply h_other
    · rintro rfl
      exact h_i hj
    · intro h_last
      exact h_disjoint j (List.mem_of_getLast? h_last) j (List.mem_cons_of_mem i hj) rfl
  rcases List.eq_nil_or_concat l with rfl | ⟨a, k, rfl⟩
  · simpa using h_rest
  · rw [List.concat_eq_append] at h_l h_nodup_l h_before h_other h_disjoint ⊢
    have h_last : next' k = next i := h_before k (by simp)
    have h_init : ∀ j ∈ a, next' j = next j := by
      intro j hj
      apply h_other
      · exact h_disjoint j (by simp [hj]) i List.mem_cons_self
      · intro h_eq
        obtain rfl : k = j := by simpa using h_eq
        exact (List.nodup_append.mp h_nodup_l).2.2 k hj k (by simp) rfl
    rw [if_neg (by simp), append_iff]
    refine ⟨next i, ?_, h_rest⟩
    rw [← h_last]
    exact h_l.redirect_last h_init

/-- Two neighbours change places: the cell before them (or the start) points to
    the second one, that one to the first, and the first behind both. -/
theorem swap (h : Seg next p (l ++ i :: j :: l') q) (h_nodup : (l ++ i :: j :: l').Nodup)
    (h_before : ∀ k, l.getLast? = some k → next' k = some j) (h_j : next' j = some i)
    (h_i : next' i = next j)
    (h_other : ∀ k, k ≠ i → k ≠ j → l.getLast? ≠ some k → next' k = next k) :
    Seg next' (if l.isEmpty then some j else p) (l ++ j :: i :: l') q := by
  obtain ⟨m, h_l, -, -, h_l'⟩ := append_iff.mp h
  obtain ⟨h_nodup_l, h_nodup_l', h_disjoint⟩ := List.nodup_append.mp h_nodup
  have h_rest : Seg next' (next j) l' q := by
    apply h_l'.congr
    intro k hk
    apply h_other
    · rintro rfl
      exact (List.nodup_cons.mp h_nodup_l').1 (List.mem_cons_of_mem j hk)
    · rintro rfl
      exact (List.nodup_cons.mp (List.nodup_cons.mp h_nodup_l').2).1 hk
    · intro h_last
      exact h_disjoint k (List.mem_of_getLast? h_last) k (by simp [hk]) rfl
  have h_pair : Seg next' (some j) (j :: i :: l') q := ⟨rfl, h_j, by rw [h_i]; exact h_rest⟩
  rcases List.eq_nil_or_concat l with rfl | ⟨a, k, rfl⟩
  · exact h_pair
  · rw [List.concat_eq_append] at h_l h_nodup_l h_before h_other h_disjoint ⊢
    have h_last : next' k = some j := h_before k (by simp)
    have h_init : ∀ b ∈ a, next' b = next b := by
      intro b hb
      apply h_other
      · exact h_disjoint b (by simp [hb]) i List.mem_cons_self
      · exact h_disjoint b (by simp [hb]) j (by simp)
      · intro h_eq
        obtain rfl : k = b := by simpa using h_eq
        exact (List.nodup_append.mp h_nodup_l).2.2 k hb k (by simp) rfl
    rw [if_neg (by simp), append_iff]
    refine ⟨some j, ?_, h_pair⟩
    rw [← h_last]
    exact h_l.redirect_last h_init

end Seg
end Lib
