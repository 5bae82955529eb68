/-
  Zydon.Lib.Tokens

  Threads that hold tokens: each thread holds at most one, and no two threads
  hold the same one.  `Held tok l` says that `l` lists the tokens that are out,
  so that its length counts the threads that hold one; a thread takes a new
  token (`Held.take`) and gives it back (`Held.give`).

  The tokens are often the numbers of the elements of a log: the lemmas on
  numbered lists say that such elements are pairwise different.
-/

import Mathlib.Data.List.Nodup
import Mathlib.Data.List.Range
import Mathlib.Logic.Function.Basic

namespace Lib

variable {T α : Type*}

/-- The tokens `l` are out, each with one thread. -/
structure Held (tok : T → Option α) (l : List α) : Prop where
  nodup : l.Nodup
  mem_iff : ∀ a, a ∈ l ↔ ∃ t, tok t = some a
  unique : ∀ {t u a}, tok t = some a → tok u = some a → t = u

namespace Held

variable {tok : T → Option α} {l : List α}

/-- No token is out. -/
theorem nil (h : ∀ t, tok t = none) : Held tok [] where
  nodup := List.nodup_nil
  mem_iff := fun a => by simp [h]
  unique := fun {t u a} h_t => by simp [h] at h_t

theorem mem (h : Held tok l) {t : T} {a : α} (h_t : tok t = some a) : a ∈ l :=
  (h.mem_iff a).mpr ⟨t, h_t⟩

variable [DecidableEq T]

/-- A thread without a token takes one that is not out. -/
theorem take (h : Held tok l) {t : T} {a : α} (h_none : tok t = none) (h_new : a ∉ l) :
    Held (Function.update tok t (some a)) (a :: l) where
  nodup := List.nodup_cons.mpr ⟨h_new, h.nodup⟩
  mem_iff := by
    intro b
    rw [List.mem_cons]
    constructor
    · rintro (rfl | h_b)
      · exact ⟨t, Function.update_self ..⟩
      · obtain ⟨u, h_u⟩ := (h.mem_iff b).mp h_b
        have h_ne : u ≠ t := by
          rintro rfl
          rw [h_none] at h_u
          exact absurd h_u (by simp)
        exact ⟨u, by rw [Function.update_of_ne h_ne, h_u]⟩
    · rintro ⟨u, h_u⟩
      by_cases h_ut : u = t
      · subst h_ut
        rw [Function.update_self] at h_u
        exact Or.inl (Option.some.inj h_u).symm
      · rw [Function.update_of_ne h_ut] at h_u
        exact Or.inr (h.mem h_u)
  unique := by
    -- a token that was out before is not the new one
    have h_old : ∀ {u b}, tok u = some b → b ≠ a := by
      rintro u b h_u rfl
      exact h_new (h.mem h_u)
    intro u v b h_u h_v
    by_cases h_ut : u = t <;> by_cases h_vt : v = t
    · rw [h_ut, h_vt]
    · subst h_ut
      rw [Function.update_self] at h_u
      rw [Function.update_of_ne h_vt] at h_v
      exact absurd (Option.some.inj h_u).symm (h_old h_v)
    · subst h_vt
      rw [Function.update_self] at h_v
      rw [Function.update_of_ne h_ut] at h_u
      exact absurd (Option.some.inj h_v).symm (h_old h_u)
    · rw [Function.update_of_ne h_ut] at h_u
      rw [Function.update_of_ne h_vt] at h_v
      exact h.unique h_u h_v

/-- A thread gives its token back. -/
theorem give [DecidableEq α] (h : Held tok l) {t : T} {a : α} (h_t : tok t = some a) :
    Held (Function.update tok t none) (l.erase a) where
  nodup := h.nodup.erase a
  mem_iff := by
    intro b
    rw [h.nodup.mem_erase_iff, h.mem_iff]
    constructor
    · rintro ⟨h_ne, u, h_u⟩
      have h_ut : u ≠ t := by
        rintro rfl
        exact h_ne (Option.some.inj (h_u.symm.trans h_t))
      exact ⟨u, by rw [Function.update_of_ne h_ut, h_u]⟩
    · rintro ⟨u, h_u⟩
      by_cases h_ut : u = t
      · subst h_ut
        rw [Function.update_self] at h_u
        exact absurd h_u (by simp)
      · rw [Function.update_of_ne h_ut] at h_u
        refine ⟨?_, u, h_u⟩
        rintro rfl
        exact h_ut (h.unique h_u h_t)
  unique := by
    intro u v b h_u h_v
    by_cases h_ut : u = t
    · subst h_ut
      rw [Function.update_self] at h_u
      exact absurd h_u (by simp)
    · by_cases h_vt : v = t
      · subst h_vt
        rw [Function.update_self] at h_v
        exact absurd h_v (by simp)
      · rw [Function.update_of_ne h_ut] at h_u
        rw [Function.update_of_ne h_vt] at h_v
        exact h.unique h_u h_v

end Held

/-! ## Numbered lists -/

variable {β : Type*} {m : List (Nat × β)}

/-- An element of a numbered list is at its number. -/
theorem fst_of_numbered (h : m.map Prod.fst = List.range m.length) {n : Nat} {x : Nat × β}
    (h_x : m[n]? = some x) : x.1 = n := by
  have h_lt : n < m.length := (List.getElem?_eq_some_iff.mp h_x).1
  have h_fst : (m.map Prod.fst)[n]? = some x.1 := by rw [List.getElem?_map, h_x, Option.map_some]
  rw [h, List.getElem?_range h_lt] at h_fst
  exact (Option.some.inj h_fst).symm

theorem nodup_of_numbered (h : m.map Prod.fst = List.range m.length) : m.Nodup := by
  apply List.Nodup.of_map Prod.fst
  rw [h]
  exact List.nodup_range

/-- The next element gets the next number. -/
theorem numbered_append (h : m.map Prod.fst = List.range m.length) (v : β) :
    (m ++ [(m.length, v)]).map Prod.fst = List.range (m ++ [(m.length, v)]).length := by
  rw [List.map_append, h, List.length_append, List.length_singleton, List.range_succ]
  rfl

end Lib
