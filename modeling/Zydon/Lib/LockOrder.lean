/-
  Zydon.Lib.LockOrder

  Threads that wait for locks.

  No finite set of threads can all wait when each waits for a lock whose holder
  waits for a lock further up (`waits_eq_none`): that is what an order on the
  locks is for.  Conversely, when every step brings the threads closer to their
  ends, some run goes on until no thread can move (`Machine.exists_stuck`).
-/

import Mathlib.Data.Set.Finite.Range
import Mathlib.Order.Preorder.Finite
import Zydon.Lib.Machine

namespace Lib

/-- Nobody waits if whoever waits for a lock does so because of somebody who
    waits for a higher one. -/
theorem waits_eq_none {T A : Type*} [Finite T] [LinearOrder A] {waits : T → Option A}
    (h_up : ∀ t a, waits t = some a → ∃ t' a', waits t' = some a' ∧ a < a') (t : T) :
    waits t = none := by
  by_contra h_some
  obtain ⟨a, h_a⟩ := Option.ne_none_iff_exists'.mp h_some
  have h_finite : (Set.preimage some (Set.range waits)).Finite :=
    (Set.finite_range waits).preimage (Option.some_injective A).injOn
  obtain ⟨top, ⟨t', h_t'⟩, h_max⟩ := h_finite.exists_maximal ⟨a, t, h_a⟩
  obtain ⟨t'', b, h_b, h_lt⟩ := h_up t' top h_t'
  exact absurd (h_max ⟨t'', h_b⟩ h_lt.le) (not_le.mpr h_lt)

/-- A run that goes on until no label is enabled. -/
theorem Machine.exists_stuck {σ α : Type*} {M : Machine σ α} {work : σ → Nat}
    (h_step : ∀ s a s', M.step s a = some s' → work s' < work s) (s : σ) :
    ∃ tr s', M.exec s tr = some s' ∧ ∀ a, M.step s' a = none := by
  induction h_work : work s using Nat.strong_induction_on generalizing s with
  | h n ih =>
      by_cases h_stuck : ∀ a, M.step s a = none
      · exact ⟨[], s, rfl, h_stuck⟩
      · obtain ⟨a, h_a⟩ := not_forall.mp h_stuck
        obtain ⟨m, h_m⟩ := Option.ne_none_iff_exists'.mp h_a
        obtain ⟨tr, s', h_run, h_end⟩ := ih (work m) (h_work ▸ h_step s a m h_m) m rfl
        exact ⟨a :: tr, s', exec_cons_eq_some.mpr ⟨m, h_m, h_run⟩, h_end⟩

end Lib
