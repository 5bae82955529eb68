/-
  Zydon.Task.Stealer.Single

  The work-stealing deque with thieves that only call `steal`.

  A range of one element that a thief can still get is the element at `top`,
  and a pop that takes an element without an exchange takes one behind it, so
  such runs spare batches whatever their order (`SingleInv.spares`).  Every
  element pushed is then returned once, or is still in the buffer
  (`exactlyOnce_of_singleSteals`).
-/

import Zydon.Task.Stealer.Batch

namespace Zydon
namespace Stealer

open Lib

variable {Thief T : Type*} {elemSize : ℕ+}

-- ============================================================================
-- The invariant
-- ============================================================================

/-- The label is the start of a push. -/
def OwnerAction.isPush : OwnerAction T → Bool
  | .push _ => true
  | .pop | .run => false

/-- The label is the start of a push of the owner. -/
def isPush : OwnerAction T ⊕ Thief × ThiefAction → Bool
  | .inl a => a.isPush
  | .inr _ => false

/-- The label is not the start of a batch. -/
def isSingle : OwnerAction T ⊕ Thief × ThiefAction → Bool
  | .inr (_, .stealBatch _) => false
  | _ => true

/-- The thief goes for one element. -/
def ThiefPc.IsSingle : ThiefPc T → Prop
  | .idle => True
  | .loadBottom limit _ => limit = none
  | .stealing _ k _ => k = 1

/-- The number of pushes in progress. -/
def OwnerPc.pushing : OwnerPc T → Nat
  | .pushLoadTop _ _ | .pushGrow _ _ _ | .pushPut _ _ _ | .pushStore _ _ => 1
  | _ => 0

/-- The invariant of the runs without batches, after the start of `n` pushes. -/
structure SingleInv (n : Nat) (s : State Thief T) : Prop extends Inv s where
  single : ∀ h, (s.thread h).IsSingle
  endIndex_le : s.owner.endIndex s.shared.bottom + s.owner.pushing ≤ n

theorem singleInv_init [DecidableEq Thief] : SingleInv 0 (machine Thief T elemSize).init where
  toInv := inv_init
  single := fun _ => trivial
  endIndex_le := le_refl 0

/-- Fewer than `2^62` pushes leave room for one more. -/
theorem SingleInv.bottom_lt {n : Nat} {s : State Thief T} (hs : SingleInv n s)
    (h_n : n < 2 ^ 62) : s.shared.bottom < isizeMax := by
  have h_end := hs.owner.endIndex_eq
  have h_le := hs.endIndex_le
  unfold isizeMax
  omega

/-- A run without batches spares them. -/
theorem SingleInv.spares {n : Nat} {s : State Thief T} (hs : SingleInv n s) (h_n : n < 2 ^ 62) :
    ∀ a, SparesBatches s a := by
  intro a
  match a with
  | .inl (.push val) => exact hs.bottom_lt h_n
  | .inl .pop | .inr _ => trivial
  | .inl .run =>
      intro b h_b h
      have h_single := hs.single h
      cases h_pc : s.thread h with
      | idle | loadBottom limit t => rfl
      | stealing t k vals =>
          rw [h_pc] at h_single
          obtain rfl : k = 1 := h_single
          have h_lt : s.shared.top < b := by
            cases h_owner : s.owner <;> simp [h_owner, OwnerPc.takes] at h_b
            omega
          simp only [ThiefPc.claims, Bool.and_eq_false_iff, decide_eq_false_iff_not]
          omega

-- ============================================================================
-- Steps
-- ============================================================================

/-- Only the start of a push lets the deque end further on. -/
theorem SingleInv.endIndex_step {n : Nat} {s : State Thief T} {a : OwnerAction T} {d : Deque T}
    {pc : OwnerPc T} (hs : SingleInv n s)
    (h : ownerStep elemSize s.shared s.owner a = some (d, pc)) :
    pc.endIndex d.bottom + pc.pushing ≤ (n + if a.isPush then 1 else 0 : Nat) := by
  have h_le := hs.endIndex_le
  have h_owner := hs.owner
  have h_nonneg := hs.content.top_nonneg.trans hs.content.top_le
  have h_max := hs.content.last_le
  obtain ⟨d₀, pc₀, thread⟩ := s
  by_cases h_idle : pc₀ = .idle
  · subst h_idle
    cases a with
    | push val | pop =>
        obtain ⟨rfl, rfl⟩ : d₀ = d ∧ _ = pc := by simpa [ownerStep] using h
        simpa [OwnerPc.endIndex, OwnerPc.pushing, OwnerAction.isPush] using h_le
    | run => exact absurd h (by simp [ownerStep])
  obtain rfl := eq_run_of_ownerStep h h_idle
  cases pc₀ with
  | idle => exact absurd rfl h_idle
  | pushLoadTop b val =>
      simp only [ownerStep] at h
      split at h <;> cases h <;> exact h_le
  | pushGrow b t val =>
      simp only [ownerStep] at h
      split at h <;> cases h
      exact h_le
  | pushPut b t val =>
      cases h
      exact h_le
  | pushStore b val =>
      obtain ⟨rfl, h_lt, -⟩ : OwnerInv d₀ (.pushStore b val) := h_owner
      cases h
      simp only [OwnerPc.endIndex, OwnerPc.pushing, OwnerAction.isPush] at h_le h_nonneg ⊢
      rw [isize_eq (by omega) (by omega)]
      omega
  | popStore b =>
      obtain h_b : b + 1 = d₀.bottom := h_owner
      cases h
      simp only [OwnerPc.endIndex, OwnerPc.pushing, OwnerAction.isPush] at h_le ⊢
      omega
  | popLoadTop b =>
      simp only [OwnerPc.endIndex, OwnerPc.pushing] at h_le
      simp only [ownerStep] at h
      split at h <;> cases h
      · simp only [OwnerPc.endIndex, OwnerPc.pushing, OwnerAction.isPush]
        split <;> omega
      · exact h_le
  | popRead b t =>
      obtain ⟨rfl, -⟩ : OwnerInv d₀ (.popRead b t) := h_owner
      simp only [OwnerPc.endIndex, OwnerPc.pushing] at h_le
      simp only [ownerStep] at h
      split at h <;> cases h
      · next h_last =>
          rw [if_pos h_last] at h_le
          exact h_le
      · next h_ne =>
          rw [if_neg h_ne] at h_le
          exact h_le
  | popExchange b t val =>
      simp only [ownerStep] at h
      split at h <;> cases h <;> exact h_le
  | popRestore b result =>
      cases h
      simp only [OwnerPc.endIndex, OwnerPc.pushing, OwnerAction.isPush] at h_le h_nonneg h_max ⊢
      rw [isize_eq (by omega) h_max]
      omega

/-- A thief that starts `steal` goes for one element. -/
theorem isSingle_of_thiefStep {d d' : Deque T} {q q' : ThiefPc T} {a : ThiefAction}
    (h : thiefStep d q a = some (d', q')) (h_single : q.IsSingle)
    (h_a : ∀ outLen, a ≠ .stealBatch outLen) : q'.IsSingle := by
  cases q with
  | idle =>
      cases a with
      | steal =>
          cases h
          rfl
      | stealBatch outLen => exact absurd rfl (h_a outLen)
      | run => exact absurd h (by simp [thiefStep])
  | loadBottom limit t =>
      obtain rfl : limit = none := h_single
      cases a with
      | run =>
          simp only [thiefStep] at h
          split at h <;> cases h
          · next k h_k =>
              simp only [toSteal] at h_k
              split at h_k <;> cases h_k
              rfl
          · trivial
      | steal | stealBatch outLen => exact absurd h (by simp [thiefStep])
  | stealing t k vals =>
      cases a with
      | run =>
          simp only [thiefStep] at h
          split at h
          · cases h
            exact h_single
          · split at h <;> cases h <;> trivial
      | steal | stealBatch outLen => exact absurd h (by simp [thiefStep])

/-- A thief never writes `bottom`. -/
theorem thiefStep_bottom {d d' : Deque T} {q q' : ThiefPc T} {a : ThiefAction}
    (h : thiefStep d q a = some (d', q')) : d'.bottom = d.bottom := by
  cases q with
  | idle =>
      cases a with
      | steal | stealBatch outLen =>
          cases h
          rfl
      | run => exact absurd h (by simp [thiefStep])
  | loadBottom limit t =>
      cases a with
      | run =>
          simp only [thiefStep] at h
          split at h <;> cases h <;> rfl
      | steal | stealBatch outLen => exact absurd h (by simp [thiefStep])
  | stealing t k vals =>
      cases a with
      | run =>
          simp only [thiefStep] at h
          split at h
          · cases h
            rfl
          · split at h <;> cases h <;> rfl
      | steal | stealBatch outLen => exact absurd h (by simp [thiefStep])

/-- One step without a batch. -/
theorem SingleInv.step [DecidableEq Thief] {n : Nat} {s s' : State Thief T}
    {a : OwnerAction T ⊕ Thief × ThiefAction} (hs : SingleInv n s) (h_n : n < 2 ^ 62)
    (h_single : isSingle a) (h : (machine Thief T elemSize).step s a = some s') :
    SingleInv (n + if isPush a then 1 else 0) s' where
  toInv := hs.toInv.step (hs.spares h_n a) h
  single := by
    rcases a with a | ⟨k, a⟩
    · obtain ⟨m, p, -, rfl⟩ := OwnerAndThreads.step_owner_eq_some h
      exact hs.single
    · obtain ⟨m, q, h_step, rfl⟩ := OwnerAndThreads.step_thread_eq_some h
      apply (Function.forall_update_iff s.thread (p := fun _ q => q.IsSingle)).mpr
      refine ⟨isSingle_of_thiefStep h_step (hs.single k) ?_, fun i _ => hs.single i⟩
      rintro outLen rfl
      exact absurd h_single (by simp [isSingle])
  endIndex_le := by
    rcases a with a | ⟨k, a⟩
    · obtain ⟨m, p, h_step, rfl⟩ := OwnerAndThreads.step_owner_eq_some h
      exact hs.endIndex_step h_step
    · obtain ⟨m, q, h_step, rfl⟩ := OwnerAndThreads.step_thread_eq_some h
      have h_bottom := thiefStep_bottom h_step
      have h_le := hs.endIndex_le
      rw [← h_bottom] at h_le
      exact h_le

-- ============================================================================
-- Runs
-- ============================================================================

/-- What the deque promises: every value returned has been pushed, no element is
    returned twice, and between calls the elements pushed are those returned
    and those in the buffer from `top` up to `bottom`. -/
structure ExactlyOnce (s : State Thief T) : Prop where
  returned_pushed : ∀ y ∈ s.shared.returned, ∃ x ∈ s.shared.pushed, y = some x
  returned_once : s.shared.returned.Nodup
  conserved : Quiet s → s.shared.top ≤ s.shared.bottom ∧
    (s.shared.returned ++ slice s.shared.buffer.get s.shared.top
      (s.shared.bottom - s.shared.top).toNat).Perm (s.shared.pushed.map some)

theorem Inv.exactlyOnce {s : State Thief T} (hs : Inv s) : ExactlyOnce s where
  returned_pushed := by
    intro y h_y
    have h_mem := hs.content.conserved.subset (List.mem_append_left _ h_y)
    obtain ⟨x, h_x, rfl⟩ := List.mem_map.mp h_mem
    exact ⟨x, h_x, rfl⟩
  returned_once := hs.content.returned_nodup
  conserved := by
    intro h_quiet
    have h_content := hs.content
    rw [h_quiet.1] at h_content
    exact ⟨h_content.top_le, h_content.conserved⟩

variable [DecidableEq Thief]

/-- In every run of fewer than `2^62` pushes in which no thief steals a batch,
    the deque hands out every element exactly once. -/
theorem exactlyOnce_of_singleSteals {tr : List (OwnerAction T ⊕ Thief × ThiefAction)}
    {s : State Thief T} (h_single : ∀ a ∈ tr, isSingle a) (h_pushes : tr.countP isPush < 2 ^ 62)
    (h_run : (machine Thief T elemSize).exec (machine Thief T elemSize).init tr = some s) :
    ExactlyOnce s := by
  have h_count : 0 + tr.countP isPush < 2 ^ 62 := by omega
  have hs : SingleInv (0 + tr.countP isPush) s := by
    refine Machine.exec_invariant_countP ?_ singleInv_init
      (Machine.stepsMeet_of_forall _ h_single) h_count h_run
    intro n s a s' hs h_ok h_n h
    exact hs.step (by omega) h_ok h
  exact hs.exactlyOnce

/-- Two pushes; a thief reads the first element and a pop the second one, and
    both get theirs. -/
def singleRun : List (OwnerAction Unit ⊕ Unit × ThiefAction) :=
  pushAlone ++ pushAlone ++
    [.inr ((), .steal), .inr ((), .run), .inr ((), .run),
      .inl .pop, .inl .run, .inl .run, .inl .run, .inr ((), .run)]

theorem exactlyOnce_singleRun :
    ∃ s, (machine Unit Unit 8).exec (machine Unit Unit 8).init singleRun = some s ∧
      ExactlyOnce s := by
  obtain ⟨s, h_run⟩ := Option.isSome_iff_exists.mp (show
    ((machine Unit Unit 8).exec (machine Unit Unit 8).init singleRun).isSome by decide +kernel)
  exact ⟨s, h_run, exactlyOnce_of_singleSteals (by decide) (by decide) h_run⟩

end Stealer
end Zydon
