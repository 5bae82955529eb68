/-
  Zydon.Task.Executor.Priority

  The priorities of a task: `set_priority`, `boost_priority`, `unboost_priority`
  and the decay after an expired quantum, one call after the other.

  The decay is the end of `poll_task` (`solo_decay`).  It stops 8 below the base,
  although its test is on words that wrap (`decayPriority_effectivePriority`).
  `set_priority` infers that a boost is active from the effective priority, when
  it has already overwritten the base: a task without a boost does not follow it
  down.
-/

import Zydon.Task.Executor.Basic

namespace Zydon
namespace TaskControlBlock

open Lib

-- ============================================================================
-- Runs of the calls
-- ============================================================================

/-- The calls that touch the priorities of a task. -/
inductive PriorityCall where
  | setPriority (priority : BitVec 32)
  | boostPriority (boostTo : BitVec 32)
  | unboostPriority
  /-- The end of `poll_task` for a task whose quantum has expired. -/
  | expireQuantum
  deriving DecidableEq, Repr

/-- One call. -/
def priorityCall (t : TaskControlBlock) : PriorityCall → TaskControlBlock
  | .setPriority priority => t.setPriority priority
  | .boostPriority boostTo => t.boostPriority boostTo
  | .unboostPriority => t.unboostPriority
  | .expireQuantum => t.decayPriority

/-- The calls on a new task. -/
def priorities : Machine TaskControlBlock PriorityCall where
  init := .new
  step := fun t a => some (t.priorityCall a)

variable {t t' : TaskControlBlock}

-- ============================================================================
-- Each call on integers
-- ============================================================================

@[simp] theorem setPriority_basePriority (t : TaskControlBlock) (p : BitVec 32) :
    (t.setPriority p).basePriority = p := by
  simp only [setPriority]
  split <;> rfl

/-- `set_priority` raises the effective priority to the new base, and never
    lowers it. -/
theorem setPriority_effectivePriority (t : TaskControlBlock) (p : BitVec 32) :
    (t.setPriority p).effectivePriority.toInt = max p.toInt t.effectivePriority.toInt := by
  by_cases h_le : t.effectivePriority.toInt ≤ p.toInt
  · have h_sle : t.effectivePriority.sle p = true := BitVec.sle_iff_toInt_le.mpr h_le
    have h_set : (t.setPriority p).effectivePriority = p := by simp [setPriority, h_sle]
    rw [h_set, max_eq_left h_le]
  · have h_sle : t.effectivePriority.sle p = false := by
      rw [← Bool.not_eq_true, BitVec.sle_iff_toInt_le]
      exact h_le
    have h_ne : t.effectivePriority ≠ p := by
      rintro h_eq
      exact h_le (h_eq ▸ le_refl _)
    have h_keep : (t.setPriority p).effectivePriority = t.effectivePriority := by
      simp [setPriority, h_sle, h_ne]
    rw [h_keep, max_eq_right (by omega)]

theorem boostPriority_basePriority (t : TaskControlBlock) (p : BitVec 32) :
    (t.boostPriority p).basePriority = t.basePriority := by
  simp only [boostPriority]
  split <;> rfl

theorem boostPriority_effectivePriority (t : TaskControlBlock) (p : BitVec 32) :
    (t.boostPriority p).effectivePriority.toInt = max p.toInt t.effectivePriority.toInt := by
  by_cases h_le : p.toInt ≤ t.effectivePriority.toInt
  · have h_sle : p.sle t.effectivePriority = true := BitVec.sle_iff_toInt_le.mpr h_le
    have h_keep : (t.boostPriority p).effectivePriority = t.effectivePriority := by
      simp [boostPriority, h_sle]
    rw [h_keep, max_eq_right h_le]
  · have h_sle : p.sle t.effectivePriority = false := by
      rw [← Bool.not_eq_true, BitVec.sle_iff_toInt_le]
      exact h_le
    have h_boost : (t.boostPriority p).effectivePriority = p := by simp [boostPriority, h_sle]
    rw [h_boost, max_eq_left (by omega)]

-- ============================================================================
-- `set_priority` and the boost
-- ============================================================================

/-- After `set_priority p` the effective priority of a task without a boost is
    `p`, and that of a boosted task the larger of `p` and the boost. -/
def FollowsPriority (t : TaskControlBlock) (p : BitVec 32) : Prop :=
  (t.effectivePriority = t.basePriority →
    (t.setPriority p).basePriority = p ∧ (t.setPriority p).effectivePriority = p) ∧
  (t.basePriority.toInt < t.effectivePriority.toInt →
    (t.setPriority p).effectivePriority.toInt = max p.toInt t.effectivePriority.toInt)

/-- `set_priority` fails on a task without a boost whose priority it lowers, and
    only there. -/
theorem followsPriority_iff (t : TaskControlBlock) (p : BitVec 32) :
    t.FollowsPriority p ↔
      ¬ (t.effectivePriority = t.basePriority ∧ p.toInt < t.basePriority.toInt) := by
  have h_eff := setPriority_effectivePriority t p
  constructor
  · rintro ⟨h_follows, -⟩ ⟨h_unboosted, h_lower⟩
    obtain ⟨-, h_set⟩ := h_follows h_unboosted
    rw [h_set, h_unboosted] at h_eff
    omega
  · intro h_raise
    refine ⟨fun h_unboosted => ⟨setPriority_basePriority t p, ?_⟩, fun _ => h_eff⟩
    have h_le : t.basePriority.toInt ≤ p.toInt := by
      by_contra h_lower
      exact h_raise ⟨h_unboosted, by omega⟩
    rw [h_unboosted, max_eq_left h_le] at h_eff
    exact BitVec.toInt_inj.mp h_eff

/-- A new task is set to 5, then to 3. -/
theorem loweredPriority_not_followed :
    ∃ t, priorities.exec priorities.init [.setPriority 5] = some t ∧
      t.effectivePriority = t.basePriority ∧ ¬ t.FollowsPriority 3 ∧
      (t.setPriority 3).effectivePriority = 5 := by
  refine ⟨_, rfl, by decide, ?_, by decide⟩
  rintro ⟨h_follows, -⟩
  exact absurd (h_follows (by decide)).2 (by decide)

-- ============================================================================
-- The decay
-- ============================================================================

/-- A word above `base - 8`, wrapped, is not the least, and its predecessor is
    not 8 below the base, not wrapped. -/
theorem toInt_sub_one_of_mayDecay {eff base : BitVec 32} (h : mayDecay eff base = true) :
    (eff - 1).toInt = eff.toInt - 1 ∧ base.toInt - 8 ≤ eff.toInt - 1 := by
  have h_above : (base - 8).toInt < eff.toInt := BitVec.slt_iff_toInt_lt.mp h
  have h_low : -2 ^ 31 ≤ (base - 8).toInt := BitVec.le_toInt (base - 8)
  have h_high : eff.toInt < 2 ^ 31 := BitVec.toInt_lt
  have h_base : base.toInt < 2 ^ 31 := BitVec.toInt_lt
  have h_sub : (base - 8).toInt = (base.toInt - 8).bmod (2 ^ 32) := BitVec.toInt_sub
  have h_pred : (eff - 1).toInt = (eff.toInt - 1).bmod (2 ^ 32) := BitVec.toInt_sub
  constructor
  · rw [h_pred]
    apply Int.bmod_eq_of_le <;> omega
  · -- where `base - 8` wraps, it is above every word that is 8 below the base
    rw [h_sub, Int.bmod_eq_emod] at h_above
    split at h_above <;> omega

@[simp] theorem decayPriority_decayCounter (t : TaskControlBlock) :
    t.decayPriority.decayCounter = t.decayCounter + 1 := by
  simp only [decayPriority]
  split <;> [split <;> rfl; rfl]

@[simp] theorem decayPriority_basePriority (t : TaskControlBlock) :
    t.decayPriority.basePriority = t.basePriority := by
  simp only [decayPriority]
  split <;> [split <;> rfl; rfl]

/-- A decay is by one, at every fourth expiry, and only from above the bound. -/
theorem decayPriority_effectivePriority (t : TaskControlBlock) :
    t.decayPriority.effectivePriority = t.effectivePriority ∨
      (t.decayCounter + 1) % 4 = 0 ∧
      t.decayPriority.effectivePriority.toInt = t.effectivePriority.toInt - 1 ∧
      t.basePriority.toInt - 8 ≤ t.effectivePriority.toInt - 1 := by
  by_cases h_fourth : (t.decayCounter + 1) % 4 = 0
  · cases h_may : mayDecay t.effectivePriority t.basePriority with
    | false => exact .inl (by simp [decayPriority, h_may])
    | true =>
        obtain ⟨h_pred, h_bound⟩ := toInt_sub_one_of_mayDecay h_may
        refine .inr ⟨h_fourth, ?_, h_bound⟩
        have h_dec : t.decayPriority.effectivePriority = t.effectivePriority - 1 := by
          simp only [decayPriority, if_pos h_fourth, if_pos h_may]
        rw [h_dec, h_pred]
  · exact .inl (by simp only [decayPriority, if_neg h_fourth])

-- ============================================================================
-- The bound
-- ============================================================================

/-- The effective priority is at most 8 below the base. -/
def Bounded (t : TaskControlBlock) : Prop :=
  t.basePriority.toInt - 8 ≤ t.effectivePriority.toInt

theorem Bounded.priorityCall (h : t.Bounded) (a : PriorityCall) : (t.priorityCall a).Bounded := by
  unfold Bounded at h ⊢
  cases a with
  | setPriority p =>
      have h_eff := setPriority_effectivePriority t p
      show (t.setPriority p).basePriority.toInt - 8 ≤ (t.setPriority p).effectivePriority.toInt
      rw [setPriority_basePriority, h_eff]
      omega
  | boostPriority p =>
      have h_eff := boostPriority_effectivePriority t p
      show (t.boostPriority p).basePriority.toInt - 8 ≤ (t.boostPriority p).effectivePriority.toInt
      rw [boostPriority_basePriority, h_eff]
      omega
  | unboostPriority =>
      show t.basePriority.toInt - 8 ≤ t.basePriority.toInt
      omega
  | expireQuantum =>
      show t.decayPriority.basePriority.toInt - 8 ≤ t.decayPriority.effectivePriority.toInt
      rw [decayPriority_basePriority]
      rcases decayPriority_effectivePriority t with h_keep | ⟨-, h_dec, h_bound⟩
      · rwa [h_keep]
      · rwa [h_dec]

/-- The counter modulo 4, which its wrap does not disturb. -/
theorem decayCounter_mod_four (c : BitVec 32) : (c + 1).toNat % 4 = (c.toNat % 4 + 1) % 4 := by
  rw [BitVec.toNat_add]
  show (c.toNat + 1) % 2 ^ 32 % 4 = _
  omega

/-- The expiries of a run of `k` that may lower the priority are every fourth,
    counted from where the counter stands. -/
theorem effectivePriority_of_expiries {k : Nat}
    (h : priorities.exec t (List.replicate k .expireQuantum) = some t') :
    t.effectivePriority.toInt ≤
      t'.effectivePriority.toInt + ((t.decayCounter.toNat % 4 + k) / 4 : Nat) := by
  induction k generalizing t with
  | zero =>
      obtain rfl : t = t' := by simpa using h
      omega
  | succ k ih =>
      obtain ⟨t₁, h_step, h_rest⟩ := Machine.exec_cons_eq_some.mp h
      obtain rfl : t.decayPriority = t₁ := Option.some.inj h_step
      have h_later := ih h_rest
      have h_mod := decayCounter_mod_four t.decayCounter
      rw [decayPriority_decayCounter, h_mod] at h_later
      rcases decayPriority_effectivePriority t with h_keep | ⟨h_fourth, h_dec, -⟩
      · rw [h_keep] at h_later
        omega
      · have h_zero : (t.decayCounter + 1).toNat % 4 = 0 := congrArg BitVec.toNat h_fourth
        rw [h_dec] at h_later
        omega

/-- In every run the effective priority stays within 8 below the base, and `k`
    expiries in a row lower it by at most `(k + 3) / 4`. -/
theorem bounded_decay (h : priorities.Reachable t) :
    t.Bounded ∧
      ∀ k t', priorities.exec t (List.replicate k .expireQuantum) = some t' →
        t.effectivePriority.toInt ≤ t'.effectivePriority.toInt + ((k + 3) / 4 : Nat) := by
  constructor
  · have h_new : (0 : BitVec 32).toInt - 8 ≤ (0 : BitVec 32).toInt := by decide
    refine h.invariant h_new ?_
    rintro t a t' h_bounded h_step
    obtain rfl : t.priorityCall a = t' := Option.some.inj h_step
    exact h_bounded.priorityCall a
  · intro k t' h_run
    have h_drop := effectivePriority_of_expiries h_run
    omega

/-- A boost is undone, and four quanta expire. -/
def decayCalls : List PriorityCall :=
  [.setPriority 5, .boostPriority 9, .unboostPriority] ++ List.replicate 4 .expireQuantum

theorem bounded_decay_decayCalls :
    ∃ t, priorities.exec priorities.init decayCalls = some t ∧
      t.effectivePriority = 4 ∧ t.Bounded ∧
      ∀ k t', priorities.exec t (List.replicate k .expireQuantum) = some t' →
        4 ≤ t'.effectivePriority.toInt + ((k + 3) / 4 : Nat) :=
  ⟨_, rfl, by decide, bounded_decay ⟨decayCalls, rfl⟩⟩

end TaskControlBlock

-- ============================================================================
-- The end of `poll_task`
-- ============================================================================

namespace Executor

open Lib TaskControlBlock

variable {Core Task : Type*} [DecidableEq Core] [DecidableEq Task]

/-- The executor is in its main loop. -/
def ExecutorPc.isIdle : ExecutorPc Task → Bool
  | .idle => true
  | _ => false

omit [DecidableEq Core] in
@[simp] theorem setTcb_tcb (s : System Core Task) (task : Task)
    (f : TaskControlBlock → TaskControlBlock) : (s.setTcb task f).tcb task = f (s.tcb task) :=
  Function.update_self ..

omit [DecidableEq Core] in
theorem setTcb_setTcb (s : System Core Task) (task : Task)
    (f g : TaskControlBlock → TaskControlBlock) :
    (s.setTcb task f).setTcb task g = s.setTcb task (g ∘ f) := by
  simp only [System.setTcb, Function.update_self, Function.update_idem, Function.comp_apply]

omit [DecidableEq Core] in
/-- Two writes of the same block. -/
theorem setTcb_congr {s : System Core Task} {task : Task}
    {f g : TaskControlBlock → TaskControlBlock} (h : f (s.tcb task) = g (s.tcb task)) :
    s.setTcb task f = s.setTcb task g := by
  simp only [System.setTcb, h]

/-- Undisturbed, the steps of an executor after an expired quantum decay the
    priority of its task. -/
theorem solo_decay (c : Core) (s : System Core Task) (task : Task) :
    ∃ n ≤ 4, (executor Task c).Solo ExecutorPc.isIdle .run n s (.decay task)
      (s.setTcb task .decayPriority) .idle := by
  set t := s.tcb task with h_t
  set count : TaskControlBlock → TaskControlBlock :=
    fun b => { b with decayCounter := t.decayCounter + 1 } with h_count
  have h_decay : executorStep c s (.decay task) .run = some (s.setTcb task count,
      if (t.decayCounter + 1) % 4 = 0 then .loadEffective task else .idle) := rfl
  by_cases h_fourth : (t.decayCounter + 1) % 4 = 0
  · have h_eff : executorStep c (s.setTcb task count) (.loadEffective task) .run =
        some (s.setTcb task count, .loadBase task t.effectivePriority) := by
      simp only [executorStep, runStep, setTcb_tcb, if_true, h_count, ← h_t]
    have h_base : executorStep c (s.setTcb task count) (.loadBase task t.effectivePriority) .run =
        some (s.setTcb task count,
          if mayDecay t.effectivePriority t.basePriority then .decrement task else .idle) := by
      simp only [executorStep, runStep, setTcb_tcb, if_true, h_count, ← h_t]
    rw [if_pos h_fourth] at h_decay
    cases h_may : mayDecay t.effectivePriority t.basePriority with
    | true =>
        have h_all : s.setTcb task .decayPriority =
            (s.setTcb task count).setTcb task fun b =>
              { b with effectivePriority := b.effectivePriority - 1 } := by
          rw [setTcb_setTcb]
          apply setTcb_congr
          simp only [decayPriority, ← h_t, if_pos h_fourth, if_pos h_may, h_count,
            Function.comp_apply]
        rw [h_may, if_pos rfl] at h_base
        rw [h_all]
        exact ⟨4, le_refl _, .step rfl h_decay (.step rfl h_eff (.step rfl h_base
          (.step rfl rfl (.refl _ _))))⟩
    | false =>
        have h_all : s.setTcb task .decayPriority = s.setTcb task count := by
          apply setTcb_congr
          simp only [decayPriority, ← h_t, if_pos h_fourth, h_may, h_count, Bool.false_eq_true,
            if_false]
        rw [h_may, if_neg (by simp)] at h_base
        rw [h_all]
        exact ⟨3, by omega, .step rfl h_decay (.step rfl h_eff (.step rfl h_base (.refl _ _)))⟩
  · have h_all : s.setTcb task .decayPriority = s.setTcb task count := by
      apply setTcb_congr
      simp only [decayPriority, ← h_t, if_neg h_fourth, h_count]
    rw [if_neg h_fourth] at h_decay
    rw [h_all]
    exact ⟨1, by omega, .step rfl h_decay (.refl _ _)⟩

end Executor
end Zydon
