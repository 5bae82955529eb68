/-
  Zydon.Lib.Machine

  Labelled machines with a partial, executable step function, their finite
  runs, and the induction rules every invariant proof of the development goes
  through.

  A run is the list of the labels taken.  All nondeterminism (which thread
  moves, which argument a caller passes) lives in the label, so a run is
  replayed by evaluation and an invariant is proved by one step lemma plus one
  of the rules below:

    * `Reachable.invariant` — the invariant of all runs from the initial state;
    * `exec_invariant` — the invariant of the runs whose steps all meet a
      condition on the state before the step;
    * `exec_invariant_countP` — the same with an index that counts the labels
      of one kind, for invariants that only hold up to a bound on their number;
    * `exec_progress` — no run gets stuck.
-/

import Mathlib.Logic.Function.Basic

namespace Lib

/-- A machine: an initial state and a partial step function.  `step s a = none`
    says that label `a` is not enabled in `s`. -/
structure Machine (σ : Type*) (α : Type*) where
  init : σ
  step : σ → α → Option σ

namespace Machine

variable {σ α : Type*} (M : Machine σ α)

/-- The state after the labels of `tr`, or `none` if one of them is not enabled. -/
def exec : σ → List α → Option σ
  | s, [] => some s
  | s, a :: tr =>
      match M.step s a with
      | some s' => exec s' tr
      | none => none

/-- `s` is reached by some run from the initial state. -/
def Reachable (s : σ) : Prop :=
  ∃ tr, M.exec M.init tr = some s

/-- Every step of the run of `tr` from `s` meets the condition `ok` on the
    state before it. -/
def StepsMeet (ok : σ → α → Prop) : σ → List α → Prop
  | _, [] => True
  | s, a :: tr =>
      ok s a ∧
        match M.step s a with
        | some s' => StepsMeet ok s' tr
        | none => True

instance StepsMeet.decidable (ok : σ → α → Prop) [∀ s a, Decidable (ok s a)] :
    ∀ s tr, Decidable (M.StepsMeet ok s tr)
  | _, [] => .isTrue trivial
  | s, a :: tr =>
      match h : M.step s a with
      | some s' =>
          have := StepsMeet.decidable ok s' tr
          decidable_of_iff (ok s a ∧ M.StepsMeet ok s' tr) (by simp [StepsMeet, h])
      | none => decidable_of_iff (ok s a) (by simp [StepsMeet, h])

variable {M}

/-! ## Runs -/

@[simp] theorem exec_nil (s : σ) : M.exec s [] = some s := rfl

theorem exec_cons_eq_some {s s'' : σ} {a : α} {tr : List α} :
    M.exec s (a :: tr) = some s'' ↔ ∃ s', M.step s a = some s' ∧ M.exec s' tr = some s'' := by
  cases h : M.step s a <;> simp [exec, h]

theorem exec_append {s : σ} {tr tr' : List α} :
    M.exec s (tr ++ tr') = (M.exec s tr).bind fun s' => M.exec s' tr' := by
  induction tr generalizing s with
  | nil => rfl
  | cons a tr ih =>
      cases h : M.step s a with
      | none => simp [exec, h]
      | some s' => simpa [exec, h] using ih

theorem exec_append_eq_some {s s'' : σ} {tr tr' : List α} :
    M.exec s (tr ++ tr') = some s'' ↔
      ∃ s', M.exec s tr = some s' ∧ M.exec s' tr' = some s'' := by
  rw [exec_append, Option.bind_eq_some_iff]

theorem stepsMeet_cons {ok : σ → α → Prop} {s s' : σ} {a : α} {tr : List α}
    (h_step : M.step s a = some s') :
    M.StepsMeet ok s (a :: tr) ↔ ok s a ∧ M.StepsMeet ok s' tr := by
  simp [StepsMeet, h_step]

/-- A run is replayed by evaluation, together with what its last state
    satisfies. -/
theorem exec_of_decide {P : σ → Prop} [DecidablePred P] {s : σ} {tr : List α}
    (h : (M.exec s tr).any (fun s => decide (P s)) = true) :
    ∃ s', M.exec s tr = some s' ∧ P s' := by
  simpa [Option.any_eq_true] using h

/-! ## Invariant rules -/

/-- The invariant rule for runs whose steps all meet the condition `ok`. -/
theorem exec_invariant {ok : σ → α → Prop} {P : σ → Prop}
    (h_step : ∀ s a s', P s → ok s a → M.step s a = some s' → P s')
    {s s' : σ} {tr : List α} (h_init : P s) (h_meet : M.StepsMeet ok s tr)
    (h_run : M.exec s tr = some s') : P s' := by
  induction tr generalizing s with
  | nil =>
      obtain rfl : s = s' := by simpa using h_run
      exact h_init
  | cons a tr ih =>
      obtain ⟨m, hm, h_rest⟩ := exec_cons_eq_some.mp h_run
      obtain ⟨h_ok, h_meet⟩ := (stepsMeet_cons hm).mp h_meet
      exact ih (h_step s a m h_init h_ok hm) h_meet h_rest

/-- The invariant rule with an index that counts the labels `w` selects; the
    step may use that the count stays below `bound`. -/
theorem exec_invariant_countP {ok : σ → α → Prop} {P : Nat → σ → Prop} {w : α → Bool}
    {bound : Nat}
    (h_step : ∀ n s a s', P n s → ok s a → n + (if w a then 1 else 0) < bound →
      M.step s a = some s' → P (n + if w a then 1 else 0) s')
    {n : Nat} {s s' : σ} {tr : List α} (h_init : P n s) (h_meet : M.StepsMeet ok s tr)
    (h_count : n + tr.countP w < bound) (h_run : M.exec s tr = some s') :
    P (n + tr.countP w) s' := by
  induction tr generalizing n s with
  | nil =>
      obtain rfl : s = s' := by simpa using h_run
      simpa using h_init
  | cons a tr ih =>
      obtain ⟨m, hm, h_rest⟩ := exec_cons_eq_some.mp h_run
      obtain ⟨h_ok, h_meet⟩ := (stepsMeet_cons hm).mp h_meet
      have h_split : n + (a :: tr).countP w = n + (if w a then 1 else 0) + tr.countP w := by
        rw [List.countP_cons]; omega
      rw [h_split] at h_count ⊢
      exact ih (h_step n s a m h_init h_ok (by omega) hm) h_meet h_count h_rest

/-- The steps of a run meet a condition exactly when it holds after every prefix,
    for the label that follows. -/
theorem stepsMeet_iff {ok : σ → α → Prop} {s : σ} {tr : List α} :
    M.StepsMeet ok s tr ↔
      ∀ pre a post m, tr = pre ++ a :: post → M.exec s pre = some m → ok m a := by
  induction tr generalizing s with
  | nil => exact ⟨fun _ pre a post m h_tr => absurd h_tr (by simp), fun _ => trivial⟩
  | cons b tr ih =>
      constructor
      · intro h_meet pre a post m h_tr h_run
        cases pre with
        | nil =>
            obtain ⟨rfl, -⟩ := List.cons.inj h_tr
            obtain rfl : s = m := by simpa using h_run
            exact h_meet.1
        | cons c pre =>
            obtain ⟨rfl, h_rest⟩ := List.cons.inj h_tr
            obtain ⟨m', h_step, h_run⟩ := exec_cons_eq_some.mp h_run
            exact ih.mp ((stepsMeet_cons h_step).mp h_meet).2 pre a post m h_rest h_run
      · intro h
        refine ⟨h [] b tr s rfl rfl, ?_⟩
        cases h_step : M.step s b with
        | none => trivial
        | some m' =>
            refine ih.mpr fun pre a post m h_tr h_run => ?_
            exact h (b :: pre) a post m (by rw [h_tr]; rfl)
              (exec_cons_eq_some.mpr ⟨m', h_step, h_run⟩)

/-- The steps of a prefix are steps of the run. -/
theorem StepsMeet.of_append {ok : σ → α → Prop} {s : σ} {tr tr' : List α}
    (h : M.StepsMeet ok s (tr ++ tr')) : M.StepsMeet ok s tr := by
  refine stepsMeet_iff.mpr fun pre a post m h_tr h_run => ?_
  exact stepsMeet_iff.mp h pre a (post ++ tr') m (by rw [h_tr]; simp) h_run

/-- Conditions that agree on every reachable state are met by the same runs. -/
theorem stepsMeet_congr {ok ok' : σ → α → Prop}
    (h : ∀ s, M.Reachable s → ∀ a, ok s a ↔ ok' s a) (tr : List α) :
    M.StepsMeet ok M.init tr ↔ M.StepsMeet ok' M.init tr := by
  rw [stepsMeet_iff, stepsMeet_iff]
  constructor
  · intro h_meet pre a post m h_tr h_run
    exact (h m ⟨pre, h_run⟩ a).mp (h_meet pre a post m h_tr h_run)
  · intro h_meet pre a post m h_tr h_run
    exact (h m ⟨pre, h_run⟩ a).mpr (h_meet pre a post m h_tr h_run)

/-- A condition on the labels alone. -/
theorem stepsMeet_of_forall {ok : α → Prop} (s : σ) {tr : List α} (h : ∀ a ∈ tr, ok a) :
    M.StepsMeet (fun _ a => ok a) s tr := by
  induction tr generalizing s with
  | nil => trivial
  | cons a tr ih =>
      rw [List.forall_mem_cons] at h
      refine ⟨h.1, ?_⟩
      split
      · exact ih _ h.2
      · trivial

theorem stepsMeet_and {ok ok' : σ → α → Prop} {s : σ} {tr : List α} (h : M.StepsMeet ok s tr)
    (h' : M.StepsMeet ok' s tr) : M.StepsMeet (fun s a => ok s a ∧ ok' s a) s tr := by
  induction tr generalizing s with
  | nil => trivial
  | cons a tr ih =>
      refine ⟨⟨h.1, h'.1⟩, ?_⟩
      cases h_step : M.step s a with
      | none => trivial
      | some s' => exact ih ((stepsMeet_cons h_step).mp h).2 ((stepsMeet_cons h_step).mp h').2

/-- The condition that allows every step. -/
theorem stepsMeet_true (s : σ) (tr : List α) : M.StepsMeet (fun _ _ => True) s tr :=
  stepsMeet_of_forall s fun _ _ => trivial

/-- What is reached by one more step. -/
theorem Reachable.step {s s' : σ} {a : α} (h : M.Reachable s) (h_step : M.step s a = some s') :
    M.Reachable s' := by
  obtain ⟨tr, h_run⟩ := h
  have h_last : M.exec s [a] = some s' := exec_cons_eq_some.mpr ⟨s', h_step, rfl⟩
  exact ⟨tr ++ [a], exec_append_eq_some.mpr ⟨s, h_run, h_last⟩⟩

/-- The invariant rule for all reachable states. -/
theorem Reachable.invariant {P : σ → Prop} (h_init : P M.init)
    (h_step : ∀ s a s', P s → M.step s a = some s' → P s')
    {s : σ} (h : M.Reachable s) : P s := by
  obtain ⟨tr, h_run⟩ := h
  exact exec_invariant (fun s a s' hs _ => h_step s a s' hs) h_init (stepsMeet_true _ tr) h_run

/-- The progress rule: if every state with the invariant takes each of the labels
    that meet `ok`, and keeps the invariant, then every list of such labels is
    a run. -/
theorem exec_progress {ok : α → Prop} {P : σ → Prop}
    (h_step : ∀ s a, P s → ok a → ∃ s', M.step s a = some s' ∧ P s')
    {s : σ} {tr : List α} (h_init : P s) (h_ok : ∀ a ∈ tr, ok a) :
    ∃ s', M.exec s tr = some s' ∧ P s' := by
  induction tr generalizing s with
  | nil => exact ⟨s, rfl, h_init⟩
  | cons a tr ih =>
      rw [List.forall_mem_cons] at h_ok
      obtain ⟨m, hm, h_inv⟩ := h_step s a h_init h_ok.1
      obtain ⟨s', h_rest, h_inv'⟩ := ih h_inv h_ok.2
      exact ⟨s', exec_cons_eq_some.mpr ⟨m, hm, h_rest⟩, h_inv'⟩

end Machine
end Lib
