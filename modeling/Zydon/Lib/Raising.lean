/-
  Zydon.Lib.Raising

  A lock-free loop that raises a cell to at least a given value.

  The loop loads the cell, is done if that is high enough, and otherwise tries to
  exchange what it has loaded for the value, starting again if that fails.  Any
  number of calls of it interleave as if each were one step, at its last access
  (`IsRaised.shared`); when none is in progress the cell is the maximum of what it
  was and of all the values (`IsRaised.rank_eq`).

  The cell is a field of a state, and its order that of `rank`.
-/

import Mathlib.Order.MinMax
import Zydon.Lib.Interleaving

namespace Lib

/-- A field with an order on its values. -/
structure RankedField (S κ ρ : Type*) where
  get : S → κ
  set : S → κ → S
  rank : κ → ρ
  get_set : ∀ s x, get (set s x) = x

/-- Where a caller of the loop is. -/
inductive RaisePc (κ : Type*) where
  | idle
  | load (target : κ)
  /-- At the exchange of `current` for `target`. -/
  | exchange (current target : κ)
  deriving DecidableEq, Repr

inductive RaiseAction (κ : Type*) where
  | call (target : κ)
  /-- The next operation of the call in progress. -/
  | next
  /-- The exchange is weak, and fails without cause. -/
  | spurious
  deriving DecidableEq, Repr

/-- The value that a call in progress raises the cell to. -/
def RaisePc.target {κ : Type*} : RaisePc κ → Option κ
  | .idle => none
  | .load x | .exchange _ x => some x

variable {S κ ρ T : Type*} [LinearOrder ρ]

namespace RankedField

variable (f : RankedField S κ ρ)

/-- The loop as one step. -/
def raise (s : S) (target : κ) : S :=
  if f.rank target ≤ f.rank (f.get s) then s else f.set s target

/-- One operation of a caller of the loop. -/
def raiseStep [DecidableEq κ] (s : S) : RaisePc κ → RaiseAction κ → Option (S × RaisePc κ)
  | .idle, .call target => some (s, .load target)
  | .load target, .next =>
      if f.rank target ≤ f.rank (f.get s) then some (s, .idle)
      else some (s, .exchange (f.get s) target)
  | .exchange current target, .next =>
      if f.get s = current then some (f.set s target, .idle) else some (s, .load target)
  | .exchange _ target, .spurious => some (s, .load target)
  | _, _ => none

/-- A caller of the loop. -/
def raiser [DecidableEq κ] : ThreadProgram S (RaisePc κ) (RaiseAction κ) where
  start := .idle
  step := f.raiseStep

/-- The rank after a call. -/
theorem rank_raise (s : S) (target : κ) :
    f.rank (f.get (f.raise s target)) = max (f.rank (f.get s)) (f.rank target) := by
  rw [raise]
  split
  · next h_le => exact (max_eq_left h_le).symm
  · next h_le => rw [f.get_set, max_eq_right (le_of_lt (not_le.mp h_le))]

/-- What one operation does. -/
inductive RaiseEffect (s : S) : RaisePc κ → S → RaisePc κ → Prop
  | call (x : κ) : RaiseEffect s .idle s (.load x)
  | high (x : κ) : f.rank x ≤ f.rank (f.get s) → RaiseEffect s (.load x) s .idle
  | low (x : κ) : f.rank (f.get s) < f.rank x →
      RaiseEffect s (.load x) s (.exchange (f.get s) x)
  | exchanged (x : κ) : RaiseEffect s (.exchange (f.get s) x) (f.set s x) .idle
  | failed (current x : κ) : RaiseEffect s (.exchange current x) s (.load x)

theorem raiseStep_effect [DecidableEq κ] {s s' : S} {p p' : RaisePc κ} {a : RaiseAction κ}
    (h : f.raiseStep s p a = some (s', p')) :
    f.RaiseEffect s p s' p' ∧ ∀ x, a = .call x ↔ p = .idle ∧ p' = .load x := by
  cases p <;> cases a <;> simp only [raiseStep, reduceCtorEq] at h
  case idle.call x =>
    obtain ⟨rfl, rfl⟩ : _ = s' ∧ _ = p' := by simpa using h
    exact ⟨.call x, by simp⟩
  case load.next x =>
    split at h <;> obtain ⟨rfl, rfl⟩ : _ = s' ∧ _ = p' := by simpa using h
    · next h_le => exact ⟨.high x h_le, by simp⟩
    · next h_le => exact ⟨.low x (not_le.mp h_le), by simp⟩
  case exchange.next current x =>
    split at h <;> obtain ⟨rfl, rfl⟩ : _ = s' ∧ _ = p' := by simpa using h
    · next h_eq =>
        subst h_eq
        exact ⟨.exchanged x, by simp⟩
    · exact ⟨.failed current x, by simp⟩
  case exchange.spurious current x =>
    obtain ⟨rfl, rfl⟩ : _ = s' ∧ _ = p' := by simpa using h
    exact ⟨.failed current x, by simp⟩

/-- The values of the calls that a run starts. -/
def called (tr : List (T × RaiseAction κ)) : List κ :=
  tr.filterMap fun l =>
    match l.2 with
    | .call x => some x
    | .next | .spurious => none

/-- The state that the calls of `started`, with those of `done` completed in this
    order, have made of `m`. -/
structure IsRaised (m : S) (started done : List κ) (s : S) (pc : T → RaisePc κ) : Prop where
  /-- Each call has been one step. -/
  shared : s = done.foldl f.raise m
  done_sub : ∀ x ∈ done, x ∈ started
  /-- A call is completed or in progress. -/
  started_sub : ∀ x ∈ started, x ∈ done ∨ ∃ t, (pc t).target = some x
  target_mem : ∀ t x, (pc t).target = some x → x ∈ started
  /-- An exchange fails for good reason only when the cell has been raised since. -/
  behind : ∀ t current x, pc t = .exchange current x →
    f.rank current < f.rank x ∧ f.rank current ≤ f.rank (f.get s)

variable {f} {m s s' : S} {started done : List κ} {pc pc' : T → RaisePc κ}

theorem rank_foldl (done : List κ) (m : S) :
    f.rank (f.get (done.foldl f.raise m)) = (done.map f.rank).foldl max (f.rank (f.get m)) := by
  induction done generalizing m with
  | nil => rfl
  | cons x done ih => rw [List.foldl_cons, ih, rank_raise, List.map_cons, List.foldl_cons]

/-- The maximum is over the set of the values. -/
theorem foldl_max_le_iff {r b : ρ} {l : List ρ} : l.foldl max r ≤ b ↔ r ≤ b ∧ ∀ x ∈ l, x ≤ b := by
  induction l generalizing r with
  | nil => simp
  | cons x l ih => rw [List.foldl_cons, ih, max_le_iff, List.forall_mem_cons, and_assoc]

/-- With no call in progress the cell is the maximum of all the values. -/
theorem IsRaised.rank_eq (h : f.IsRaised m started done s pc) (h_idle : ∀ t, pc t = .idle) :
    f.rank (f.get s) = (started.map f.rank).foldl max (f.rank (f.get m)) := by
  have h_done : ∀ x ∈ started, x ∈ done := by
    intro x h_x
    rcases h.started_sub x h_x with h_mem | ⟨t, h_t⟩
    · exact h_mem
    · exact absurd h_t (by simp [h_idle t, RaisePc.target])
  rw [h.shared, rank_foldl]
  apply le_antisymm
  · obtain ⟨h_first, h_all⟩ := foldl_max_le_iff.mp (le_refl ((started.map f.rank).foldl max
      (f.rank (f.get m))))
    refine foldl_max_le_iff.mpr ⟨h_first, fun r h_r => ?_⟩
    obtain ⟨x, h_x, rfl⟩ := List.mem_map.mp h_r
    exact h_all _ (List.mem_map_of_mem (h.done_sub x h_x))
  · obtain ⟨h_first, h_all⟩ := foldl_max_le_iff.mp (le_refl ((done.map f.rank).foldl max
      (f.rank (f.get m))))
    refine foldl_max_le_iff.mpr ⟨h_first, fun r h_r => ?_⟩
    obtain ⟨x, h_x, rfl⟩ := List.mem_map.mp h_r
    exact h_all _ (List.mem_map_of_mem (h_done x h_x))

/-- The calls only raise the cell. -/
theorem IsRaised.le_rank (h : f.IsRaised m started done s pc) :
    f.rank (f.get m) ≤ f.rank (f.get s) := by
  rw [h.shared, rank_foldl]
  exact (foldl_max_le_iff.mp (le_refl _)).1

variable [DecidableEq T]

/-- A call in progress goes on. -/
theorem IsRaised.goOn (h : f.IsRaised m started done s pc) {t : T} {p : RaisePc κ}
    (h_target : p.target = (pc t).target)
    (h_behind : ∀ current x, p = .exchange current x →
      f.rank current < f.rank x ∧ f.rank current ≤ f.rank (f.get s)) :
    f.IsRaised m started done s (Function.update pc t p) := by
  have h_same : ∀ u, (Function.update pc t p u).target = (pc u).target := by
    intro u
    by_cases h_u : u = t
    · subst h_u
      rw [Function.update_self, h_target]
    · rw [Function.update_of_ne h_u]
  constructor
  case shared => exact h.shared
  case done_sub => exact h.done_sub
  case started_sub =>
    intro x h_x
    rcases h.started_sub x h_x with h_mem | ⟨u, h_u⟩
    · exact .inl h_mem
    · exact .inr ⟨u, (h_same u).trans h_u⟩
  case target_mem => exact fun u x h_x => h.target_mem u x ((h_same u).symm.trans h_x)
  case behind =>
    intro u current x h_u
    by_cases h_t : u = t
    · subst h_t
      rw [Function.update_self] at h_u
      exact h_behind current x h_u
    · rw [Function.update_of_ne h_t] at h_u
      exact h.behind u current x h_u

/-- A call starts. -/
theorem IsRaised.call (h : f.IsRaised m started done s pc) {t : T} (h_t : pc t = .idle) (x : κ) :
    f.IsRaised m (started ++ [x]) done s (Function.update pc t (.load x)) := by
  constructor
  case shared => exact h.shared
  case done_sub => exact fun y h_y => List.mem_append_left _ (h.done_sub y h_y)
  case started_sub =>
    intro y h_y
    rcases List.mem_append.mp h_y with h_y | h_y
    · rcases h.started_sub y h_y with h_mem | ⟨u, h_u⟩
      · exact .inl h_mem
      · have h_ne : u ≠ t := by
          rintro rfl
          exact absurd h_u (by simp [h_t, RaisePc.target])
        exact .inr ⟨u, by rw [Function.update_of_ne h_ne]; exact h_u⟩
    · obtain rfl := List.mem_singleton.mp h_y
      exact .inr ⟨t, by rw [Function.update_self]; rfl⟩
  case target_mem =>
    intro u y h_y
    by_cases h_u : u = t
    · subst h_u
      rw [Function.update_self] at h_y
      obtain rfl : x = y := by simpa [RaisePc.target] using h_y
      exact List.mem_append_right _ (List.mem_singleton.mpr rfl)
    · rw [Function.update_of_ne h_u] at h_y
      exact List.mem_append_left _ (h.target_mem u y h_y)
  case behind =>
    intro u current y h_u
    by_cases h_t : u = t
    · subst h_t
      rw [Function.update_self] at h_u
      exact absurd h_u (by simp)
    · rw [Function.update_of_ne h_t] at h_u
      exact h.behind u current y h_u

/-- A call completes: in this step it is made as a whole. -/
theorem IsRaised.complete (h : f.IsRaised m started done s pc) {t : T} {x : κ} {m' : S}
    (h_t : (pc t).target = some x) (h_m : m' = f.raise s x) :
    f.IsRaised m started (done ++ [x]) m' (Function.update pc t .idle) := by
  constructor
  case shared =>
    show m' = _
    rw [List.foldl_append, ← h.shared]
    exact h_m
  case done_sub =>
    intro y h_y
    rcases List.mem_append.mp h_y with h_y | h_y
    · exact h.done_sub y h_y
    · obtain rfl := List.mem_singleton.mp h_y
      exact h.target_mem t y h_t
  case started_sub =>
    intro y h_y
    rcases h.started_sub y h_y with h_mem | ⟨u, h_u⟩
    · exact .inl (List.mem_append_left _ h_mem)
    · by_cases h_ut : u = t
      · subst h_ut
        obtain rfl : x = y := Option.some.inj (h_t.symm.trans h_u)
        exact .inl (List.mem_append_right _ (List.mem_singleton.mpr rfl))
      · exact .inr ⟨u, by rw [Function.update_of_ne h_ut]; exact h_u⟩
  case target_mem =>
    intro u y h_y
    by_cases h_u : u = t
    · subst h_u
      rw [Function.update_self] at h_y
      exact absurd h_y (by simp [RaisePc.target])
    · rw [Function.update_of_ne h_u] at h_y
      exact h.target_mem u y h_y
  case behind =>
    intro u current y h_u
    by_cases h_t : u = t
    · subst h_t
      rw [Function.update_self] at h_u
      exact absurd h_u (by simp)
    · rw [Function.update_of_ne h_t] at h_u
      obtain ⟨h_lt, h_le⟩ := h.behind u current y h_u
      refine ⟨h_lt, le_trans h_le ?_⟩
      show _ ≤ f.rank (f.get m')
      rw [h_m, rank_raise]
      exact le_max_left _ _

variable [DecidableEq κ]

/-- What a step does. -/
theorem IsRaised.step {s s' : Threads T S (RaisePc κ)} {l : T × RaiseAction κ}
    (h : f.IsRaised m started done s.shared s.pc)
    (h_step : (f.raiser.interleave T m).step s l = some s') :
    ∃ done', f.IsRaised m (started ++ called [l]) done' s'.shared s'.pc := by
  obtain ⟨t, a⟩ := l
  obtain ⟨m', p, h_thread, rfl⟩ := ThreadProgram.interleave_step_eq_some h_step
  obtain ⟨h_effect, h_call⟩ := f.raiseStep_effect h_thread
  generalize h_pc : s.pc t = q at h_effect h_call
  -- only the start of a call adds to `started`
  have h_none : (∀ x, ¬ (q = .idle ∧ p = .load x)) → started ++ called [(t, a)] = started := by
    intro h_not
    cases a with
    | call x => exact absurd ((h_call x).mp rfl) (h_not x)
    | next | spurious => simp [called]
  cases h_effect with
  | call x =>
      obtain rfl : a = .call x := (h_call x).mpr ⟨rfl, rfl⟩
      exact ⟨done, h.call h_pc x⟩
  | high x h_le =>
      rw [h_none (by simp)]
      refine ⟨_, h.complete (x := x) (by rw [h_pc]; rfl) ?_⟩
      rw [raise, if_pos h_le]
  | low x h_lt =>
      rw [h_none (by simp)]
      refine ⟨done, h.goOn (by rw [h_pc]; rfl) fun current y h_y => ?_⟩
      obtain ⟨rfl, rfl⟩ : f.get s.shared = current ∧ x = y := by simpa using h_y
      exact ⟨h_lt, le_refl _⟩
  | exchanged x =>
      rw [h_none (by simp)]
      refine ⟨_, h.complete (x := x) (by rw [h_pc]; rfl) ?_⟩
      rw [raise, if_neg (not_le.mpr (h.behind t _ x h_pc).1)]
  | failed current x =>
      rw [h_none (by simp)]
      exact ⟨done, h.goOn (by rw [h_pc]; rfl) fun _ _ h_y => absurd h_y (by simp)⟩

/-- No step lowers the cell: an exchange that succeeds finds what its call has
    loaded, which is lower than the target. -/
theorem IsRaised.rank_le_step {s s' : Threads T S (RaisePc κ)} {l : T × RaiseAction κ}
    (h : f.IsRaised m started done s.shared s.pc)
    (h_step : (f.raiser.interleave T m).step s l = some s') :
    f.rank (f.get s.shared) ≤ f.rank (f.get s'.shared) := by
  obtain ⟨t, a⟩ := l
  obtain ⟨m', p, h_thread, rfl⟩ := ThreadProgram.interleave_step_eq_some h_step
  have h_effect := (f.raiseStep_effect h_thread).1
  show f.rank (f.get s.shared) ≤ f.rank (f.get m')
  generalize h_pc : s.pc t = q at h_effect
  cases h_effect with
  | call x | high x h_le | low x h_lt | failed current x => exact le_refl _
  | exchanged x =>
      rw [f.get_set]
      exact le_of_lt (h.behind t _ x h_pc).1

/-- In every interleaving the calls of the loop are made one after the other. -/
theorem isRaised_of_run {s : Threads T S (RaisePc κ)} {tr : List (T × RaiseAction κ)}
    (h_run : (f.raiser.interleave T m).exec (f.raiser.interleave T m).init tr = some s) :
    ∃ done, f.IsRaised m (called tr) done s.shared s.pc := by
  have h_all : ∀ (tr : List (T × RaiseAction κ)) (started done : List κ)
      (s s' : Threads T S (RaisePc κ)), f.IsRaised m started done s.shared s.pc →
      (f.raiser.interleave T m).exec s tr = some s' →
      ∃ done', f.IsRaised m (started ++ called tr) done' s'.shared s'.pc := by
    intro tr
    induction tr with
    | nil =>
        intro started done s s' h h_run
        obtain rfl : s = s' := by simpa using h_run
        exact ⟨done, by simpa [called] using h⟩
    | cons l tr ih =>
        intro started done s s' h h_run
        obtain ⟨s₁, h_step, h_rest⟩ := Machine.exec_cons_eq_some.mp h_run
        obtain ⟨done₁, h₁⟩ := h.step h_step
        obtain ⟨done', h'⟩ := ih _ done₁ s₁ s' h₁ h_rest
        have h_called : called (l :: tr) = called [l] ++ called tr := List.filterMap_append (l := [l])
        exact ⟨done', by rwa [List.append_assoc, ← h_called] at h'⟩
  have h_init : f.IsRaised m [] [] m fun _ : T => .idle := by
    constructor
    case shared => rfl
    case done_sub | started_sub => exact fun x h_x => absurd h_x (by simp)
    case target_mem => exact fun t x h_x => absurd h_x (by simp [RaisePc.target])
    case behind => exact fun t current x h_x => absurd h_x (by simp)
  simpa using h_all tr [] [] _ s h_init h_run

end RankedField
end Lib
