/-
  Zydon.Primitives.WaitQueue.Length

  The count of a wait queue, over every interleaving: any number of cores in
  `enqueue`, `remove`, `wake_one` and `wake_all`, the section under the spinlock
  and the update of `len` being one step each.

  `enqueue`, `remove` and `wake_one` change `len` by what they have done to the
  list, so that the two agree up to the updates that are still to come.
  `wake_all` stores 0, which is right only if nothing has happened to the list
  since its section, and no update is still to come (`ZeroIsRight`).
-/

import Mathlib.Data.Set.Card
import Zydon.Lib.Interleaving
import Zydon.Lib.Tally
import Zydon.Primitives.WaitQueue.Priority
import Zydon.Primitives.WaitQueue.WakeAll

namespace Zydon
namespace WaitQueue

open Lib

variable {Core ι Waker : Type*}

-- ============================================================================
-- The cores
-- ============================================================================

/-- Where a core is: outside the queue, or before its update of `len`. -/
inductive LenPc where
  | idle
  /-- The `fetch_add` of `enqueue`. -/
  | add
  /-- The `fetch_sub` of `remove` and `wake_one`. -/
  | sub
  /-- The store of 0 of `wake_all`. -/
  | store
  deriving DecidableEq, Repr

/-- The labels of a core: a call, up to the release of the spinlock, a write to a
    node of its own, and the update of `len`. -/
inductive LenAction (ι Waker : Type*) where
  | setWaker (node : ι) (waker : Waker)
  | setPriority (node : ι) (priority : Int)
  | enqueue (node : ι)
  | remove (node : ι)
  | wakeOne
  | wakeAll
  | updateLen

section Model

variable [DecidableEq ι]

/-- The calls; a node is enqueued while it is not linked, as `enqueue` asserts,
    and the loops of `enqueue` and `wake_all` end within `fuel` rounds. -/
def lenStep (fuel : Nat) (q : WaitQueue ι Waker) :
    LenPc → LenAction ι Waker → Option (WaitQueue ι Waker × LenPc)
  | .idle, .setWaker node waker => some (q.setWaker node waker, .idle)
  | .idle, .setPriority node priority => some (q.setPriority node priority, .idle)
  | .idle, .enqueue node =>
      if (q.nodes node).linked then none
      else (q.enqueueSection fuel node).map fun q => (q, .add)
  | .idle, .remove node =>
      match q.removeSection node with
      | (true, q) => some (q, .sub)
      | (false, q) => some (q, .idle)
  | .idle, .wakeOne =>
      match q.wakeOneSection with
      | (some _, q) => some (q, .sub)
      | (none, q) => some (q, .idle)
  | .idle, .wakeAll => (q.wakeAllSection fuel).map fun (_, q) => (q, .store)
  | .add, .updateLen => some (q.lenAdd, .idle)
  | .sub, .updateLen => some (q.lenSub, .idle)
  | .store, .updateLen => some (q.lenZero, .idle)
  | _, _ => none

/-- A core that uses the queue. -/
def lenUser (ι Waker : Type*) [DecidableEq ι] (fuel : Nat) :
    ThreadProgram (WaitQueue ι Waker) LenPc (LenAction ι Waker) where
  start := .idle
  step := lenStep fuel

/-- The cores `Core` on one queue, interleaved. -/
def lenMachine (Core ι Waker : Type*) [DecidableEq Core] [DecidableEq ι] (fuel : Nat) :
    Machine (Threads Core (WaitQueue ι Waker) LenPc) (Core × LenAction ι Waker) :=
  (lenUser ι Waker fuel).interleave Core new

end Model

/-- The number of linked nodes. -/
noncomputable def linkedNodes (q : WaitQueue ι Waker) : Nat :=
  {i | (q.nodes i).linked = true}.ncard

/-- A store of 0 finds as many nodes as there are `fetch_add`s that are still to
    come, less the `fetch_sub`s. -/
def ZeroIsRight [Fintype Core] (s : Threads Core (WaitQueue ι Waker) LenPc) :
    Core × LenAction ι Waker → Prop
  | (c, .updateLen) =>
      s.pc c = .store → tally s.pc .add = linkedNodes s.shared + tally s.pc .sub
  | _ => True

-- ============================================================================
-- The sections
-- ============================================================================

variable {q q' : WaitQueue ι Waker} {l l₁ l₂ : List ι} {node : ι}

theorem Rep.linkedNodes_eq (hq : Rep q l) : linkedNodes q = l.length := by
  classical
  have h_set : {i | (q.nodes i).linked = true} = (l.toFinset : Set ι) := by
    apply Set.ext
    intro i
    simpa using hq.linked_iff i
  rw [linkedNodes, h_set, Set.ncard_coe_finset, List.toFinset_card_of_nodup hq.nodup]

theorem Rep.lenZero (hq : Rep q l) : Rep q.lenZero l :=
  hq.congr rfl rfl (fun _ => rfl) (fun _ => rfl) fun _ => rfl

variable [DecidableEq ι]

/-- The insertion loop only moves its node, whatever the priorities are. -/
theorem Rep.bubble_length {fuel : Nat} (hq : Rep q (l₁ ++ node :: l₂))
    (h : WaitQueue.bubble fuel q node (q.nodes node).prev = some q') :
    ∃ l', Rep q' l' ∧ l'.length = (l₁ ++ node :: l₂).length ∧ q'.len = q.len := by
  have h_prev : (q.nodes node).prev = l₁.getLast? := hq.prev_eq
  induction fuel generalizing q l₁ l₂ with
  | zero =>
      rw [h_prev] at h
      cases h_last : l₁.getLast? with
      | none =>
          obtain rfl : q = q' := by simpa [h_last, WaitQueue.bubble] using h
          exact ⟨_, hq, rfl, rfl⟩
      | some cursor =>
          rw [h_last, WaitQueue.bubble] at h
          obtain rfl : q = q' := by grind
          exact ⟨_, hq, rfl, rfl⟩
  | succ fuel ih =>
      rw [h_prev] at h
      rcases List.eq_nil_or_concat l₁ with rfl | ⟨k, cursor, rfl⟩
      · obtain rfl : q = q' := by simpa [WaitQueue.bubble] using h
        exact ⟨_, hq, rfl, rfl⟩
      · rw [List.concat_eq_append] at *
        rw [List.getLast?_append_of_ne_nil _ (by simp), List.getLast?_singleton,
          WaitQueue.bubble] at h
        split at h
        · have h_swap : Rep (q.swapBefore node cursor) (k ++ node :: cursor :: l₂) := by
            apply Rep.swapBefore
            rwa [List.append_assoc] at hq
          obtain ⟨l', h_rep, h_length, h_len⟩ := ih h_swap h h_swap.prev_eq
          refine ⟨l', h_rep, ?_, h_len.trans (swapBefore_len ..)⟩
          simp only [List.length_append, List.length_cons, List.length_nil] at h_length ⊢
          omega
        · obtain rfl : q = q' := by simpa using h
          exact ⟨_, hq, rfl, rfl⟩

/-- `enqueue` links one node. -/
theorem Rep.enqueueSection_length {fuel : Nat} (hq : Rep q l)
    (h_free : (q.nodes node).linked = false)
    (h : WaitQueue.enqueueSection fuel q node = some q') :
    ∃ l', Rep q' l' ∧ l'.length = l.length + 1 ∧ q'.len = q.len := by
  obtain ⟨l', h_rep, h_length, h_len⟩ := (hq.link h_free).bubble_length h
  exact ⟨l', h_rep, by simpa using h_length, h_len.trans (link_len ..)⟩

/-- `remove` unlinks a node that is linked. -/
theorem Rep.removeSection_length {removed : Bool} (hq : Rep q l)
    (h : WaitQueue.removeSection q node = (removed, q')) :
    ∃ l', Rep q' l' ∧ l.length = l'.length + (if removed then 1 else 0) ∧ q'.len = q.len := by
  have h_rep := hq.removeSection node
  rw [h] at h_rep
  rw [WaitQueue.removeSection] at h
  split at h
  · next h_linked =>
      have h_mem := (hq.linked_iff node).mp h_linked
      have h_pos := List.length_pos_of_mem h_mem
      obtain ⟨rfl, rfl⟩ : true = removed ∧ q.unlink node = q' := by simpa using h
      refine ⟨l.erase node, h_rep, ?_, unlink_len q node⟩
      rw [List.length_erase_of_mem h_mem, if_pos rfl]
      omega
  · obtain ⟨rfl, rfl⟩ : false = removed ∧ q = q' := by simpa using h
    exact ⟨l, hq, rfl, rfl⟩

/-- `wake_one` unlinks a node if there is one. -/
theorem Rep.wakeOneSection_length {woken : Option (ι × Option Waker)} (hq : Rep q l)
    (h : WaitQueue.wakeOneSection q = (woken, q')) :
    ∃ l', Rep q' l' ∧ l.length = l'.length + (if woken.isSome then 1 else 0) ∧
      q'.len = q.len := by
  cases l with
  | nil =>
      have h_head : q.head = none := hq.head_eq
      rw [WaitQueue.wakeOneSection, h_head] at h
      obtain ⟨rfl, rfl⟩ : none = woken ∧ q = q' := by simpa using h
      exact ⟨[], hq, rfl, rfl⟩
  | cons node l =>
      have h_rep : Rep (q.unlink node) l := Rep.unlink (show Rep q ([] ++ node :: l) from hq)
      rw [hq.wakeOneSection_cons] at h
      obtain ⟨rfl, rfl⟩ := Prod.mk.inj h
      refine ⟨l, ?_, rfl, unlink_len q node⟩
      exact h_rep.modify node (fun _ => rfl) (fun _ => rfl) fun _ => rfl

theorem Rep.of_wakeOneSection_none (hq : Rep q l)
    (h : WaitQueue.wakeOneSection q = (none, q')) : Rep q' [] := by
  cases l with
  | nil =>
      obtain ⟨l', h_rep, h_length, -⟩ := hq.wakeOneSection_length h
      obtain rfl : l' = [] := List.eq_nil_of_length_eq_zero h_length.symm
      exact h_rep
  | cons node l =>
      rw [hq.wakeOneSection_cons] at h
      exact absurd h (by simp)

/-- The loop of `wake_all` ends when nothing is linked. -/
theorem Rep.wakeAllLoop {fuel : Nat} {wakers wakers' : List Waker} (hq : Rep q l)
    (h : WaitQueue.wakeAllLoop fuel wakers q = some (wakers', q')) : Rep q' [] := by
  have h_step : ∀ q : WaitQueue ι Waker, (∃ l, Rep q l) → ∃ l, Rep q.wakeOneSection.2 l := by
    rintro q ⟨l, hq⟩
    obtain ⟨l', h_rep, -⟩ := hq.wakeOneSection_length (Prod.eta q.wakeOneSection).symm
    exact ⟨l', h_rep⟩
  obtain ⟨-, q₁, ⟨l₁, hq₁⟩, h_section⟩ := wakeAllLoop_invariant h_step ⟨l, hq⟩ h
  exact hq₁.of_wakeOneSection_none h_section

-- ============================================================================
-- The count
-- ============================================================================

/-- What a step of a core at `p` does to a list of length `n` and to the count, if
    it takes the core to `p'`: the count is made to follow by the update that
    comes next, except for what `wake_all` does. -/
def CountsFor (p p' : LenPc) (len len' : Int) (n n' : Nat) : Prop :=
  len' + (if p' = .add then 1 else 0 : Nat) + (if p = .sub then 1 else 0 : Nat) + n =
    len + (if p = .add then 1 else 0 : Nat) + (if p' = .sub then 1 else 0 : Nat) + n'

/-- The steps of a core: it comes before the store of `wake_all`, makes that store,
    or counts for what it does. -/
theorem lenStep_cases {fuel : Nat} {p p' : LenPc} {a : LenAction ι Waker} (hq : Rep q l)
    (h : lenStep fuel q p a = some (q', p')) :
    ∃ l', Rep q' l' ∧
      (p ≠ .store ∧ p' = .store ∨
        p = .store ∧ a = .updateLen ∧ p' = .idle ∧ q'.len = 0 ∧ l' = l ∨
        p ≠ .store ∧ p' ≠ .store ∧ CountsFor p p' q.len q'.len l.length l'.length) := by
  cases p <;> cases a <;> simp only [lenStep, Option.some.injEq, Prod.mk.injEq] at h
  case idle.setWaker node waker =>
    obtain ⟨rfl, rfl⟩ := h
    exact ⟨l, hq.setWaker node waker, Or.inr (Or.inr ⟨by simp, by simp, rfl⟩)⟩
  case idle.setPriority node priority =>
    obtain ⟨rfl, rfl⟩ := h
    exact ⟨l, hq.setPriority node priority, Or.inr (Or.inr ⟨by simp, by simp, rfl⟩)⟩
  case idle.enqueue node =>
    split at h
    · exact absurd h (by simp)
    · next h_free =>
        obtain ⟨q₁, h_section, h_eq⟩ := Option.map_eq_some_iff.mp h
        obtain ⟨rfl, rfl⟩ := Prod.mk.inj h_eq
        obtain ⟨l', h_rep, h_length, h_len⟩ :=
          hq.enqueueSection_length (by simpa using h_free) h_section
        refine ⟨l', h_rep, Or.inr (Or.inr ⟨by simp, by simp, ?_⟩)⟩
        simp only [CountsFor, h_len, h_length, reduceCtorEq, if_true, if_false]
        omega
  case idle.remove node =>
    split at h
    · next q₁ h_section =>
        obtain ⟨rfl, rfl⟩ : q₁ = q' ∧ LenPc.sub = p' := by simpa using h
        obtain ⟨l', h_rep, h_length, h_len⟩ := hq.removeSection_length h_section
        refine ⟨l', h_rep, Or.inr (Or.inr ⟨by simp, by simp, ?_⟩)⟩
        simp only [CountsFor, h_len, h_length, reduceCtorEq, if_true, if_false]
        omega
    · next q₁ h_section =>
        obtain ⟨rfl, rfl⟩ : q₁ = q' ∧ LenPc.idle = p' := by simpa using h
        obtain ⟨l', h_rep, h_length, h_len⟩ := hq.removeSection_length h_section
        refine ⟨l', h_rep, Or.inr (Or.inr ⟨by simp, by simp, ?_⟩)⟩
        simp only [CountsFor, h_len, h_length, reduceCtorEq, Bool.false_eq_true, if_false]
        omega
  case idle.wakeOne =>
    split at h
    · next w q₁ h_section =>
        obtain ⟨rfl, rfl⟩ : q₁ = q' ∧ LenPc.sub = p' := by simpa using h
        obtain ⟨l', h_rep, h_length, h_len⟩ := hq.wakeOneSection_length h_section
        refine ⟨l', h_rep, Or.inr (Or.inr ⟨by simp, by simp, ?_⟩)⟩
        simp only [CountsFor, h_len, h_length, reduceCtorEq, Option.isSome_some, if_true, if_false]
        omega
    · next q₁ h_section =>
        obtain ⟨rfl, rfl⟩ : q₁ = q' ∧ LenPc.idle = p' := by simpa using h
        obtain ⟨l', h_rep, h_length, h_len⟩ := hq.wakeOneSection_length h_section
        refine ⟨l', h_rep, Or.inr (Or.inr ⟨by simp, by simp, ?_⟩)⟩
        simp only [CountsFor, h_len, h_length, reduceCtorEq, Option.isSome_none,
          Bool.false_eq_true, if_false]
        omega
  case idle.wakeAll =>
    obtain ⟨⟨wakers, q₁⟩, h_section, h_eq⟩ := Option.map_eq_some_iff.mp h
    obtain ⟨rfl, rfl⟩ := Prod.mk.inj h_eq
    exact ⟨[], hq.wakeAllLoop h_section, Or.inl ⟨by simp, rfl⟩⟩
  case add.updateLen =>
    obtain ⟨rfl, rfl⟩ := h
    refine ⟨l, hq.lenAdd, Or.inr (Or.inr ⟨by simp, by simp, ?_⟩)⟩
    simp only [CountsFor, lenAdd, reduceCtorEq, if_true, if_false]
    omega
  case sub.updateLen =>
    obtain ⟨rfl, rfl⟩ := h
    refine ⟨l, hq.lenSub, Or.inr (Or.inr ⟨by simp, by simp, ?_⟩)⟩
    simp only [CountsFor, lenSub, reduceCtorEq, if_true, if_false]
    omega
  case store.updateLen =>
    obtain ⟨rfl, rfl⟩ := h
    exact ⟨l, hq.lenZero, Or.inr (Or.inl ⟨rfl, rfl, rfl, rfl, rfl⟩)⟩
  all_goals exact absurd h (by simp)

/-- The count and the updates that are still to come make up for the list, as long
    as no store of 0 is to come. -/
def Counted [Fintype Core] (s : Threads Core (WaitQueue ι Waker) LenPc) : Prop :=
  ∃ l, Rep s.shared l ∧ ((∃ c, s.pc c = .store) ∨
    s.shared.len + tally s.pc .add = l.length + tally s.pc .sub)

variable [Fintype Core] [DecidableEq Core] {s s' : Threads Core (WaitQueue ι Waker) LenPc}

theorem Counted.step {fuel : Nat} {a : Core × LenAction ι Waker} (hs : Counted s)
    (h_ok : ZeroIsRight s a) (h : (lenMachine Core ι Waker fuel).step s a = some s') :
    Counted s' := by
  obtain ⟨c, a⟩ := a
  obtain ⟨l, hq, h_count⟩ := hs
  obtain ⟨q', p', h_core, rfl⟩ := ThreadProgram.interleave_step_eq_some h
  obtain ⟨l', hq', h_cases⟩ := lenStep_cases hq h_core
  have h_add := tally_update s.pc c p' .add
  have h_sub := tally_update s.pc c p' .sub
  refine ⟨l', hq', ?_⟩
  rcases h_cases with ⟨-, rfl⟩ | ⟨h_pc, rfl, rfl, h_len, rfl⟩ | ⟨h_pc, h_pc', h_counts⟩
  · exact Or.inl ⟨c, Function.update_self ..⟩
  · right
    have h_right : tally s.pc .add = l'.length + tally s.pc .sub := by
      rw [← hq.linkedNodes_eq]
      exact h_ok h_pc
    simp only [h_pc, reduceCtorEq, if_false] at h_add h_sub
    simp only [h_len]
    omega
  · rcases h_count with h_store | h_count
    · left
      have h_keep : s.pc c = .store → p' = .store := fun h => absurd h h_pc
      exact exists_update_of_imp (p := fun x => x = LenPc.store) h_keep h_store
    · right
      rw [CountsFor] at h_counts
      show q'.len + (tally (Function.update s.pc c p') .add : Nat) =
        l'.length + (tally (Function.update s.pc c p') .sub : Nat)
      omega

-- ============================================================================
-- Runs
-- ============================================================================

/-- If `wake_all` only stores 0 when that is right, the count of a queue that no
    call is at work on is the number of its linked nodes. -/
theorem len_eq_linkedNodes {fuel : Nat} {tr : List (Core × LenAction ι Waker)}
    (h_right : (lenMachine Core ι Waker fuel).StepsMeet ZeroIsRight
      (lenMachine Core ι Waker fuel).init tr)
    (h_run : (lenMachine Core ι Waker fuel).exec (lenMachine Core ι Waker fuel).init tr = some s)
    (h_quiet : ∀ c, s.pc c = .idle) : s.shared.len = linkedNodes s.shared := by
  have h_init : Counted (lenMachine Core ι Waker fuel).init := by
    refine ⟨[], rep_new, Or.inr ?_⟩
    have h_idle : ∀ p, p ≠ .idle →
        tally (lenMachine Core ι Waker fuel).init.pc p = 0 :=
      fun p h_p => tally_eq_zero_iff.mpr fun c => h_p.symm
    rw [h_idle .add (by simp), h_idle .sub (by simp)]
    rfl
  obtain ⟨l, hq, h_store | h_count⟩ :=
    Machine.exec_invariant (fun s a s' hs h_ok h => Counted.step hs h_ok h) h_init h_right h_run
  · obtain ⟨c, h_c⟩ := h_store
    exact absurd ((h_quiet c).symm.trans h_c) (by simp)
  · have h_add : tally s.pc .add = 0 := tally_eq_zero_iff.mpr fun c => by simp [h_quiet c]
    have h_sub : tally s.pc .sub = 0 := tally_eq_zero_iff.mpr fun c => by simp [h_quiet c]
    rw [hq.linkedNodes_eq]
    omega

-- ============================================================================
-- Two cores
-- ============================================================================

theorem linkedNodes_eq_card {α : Type*} [Fintype α] (q : WaitQueue α Waker) :
    linkedNodes q = (Finset.univ.filter fun i => (q.nodes i).linked = true).card := by
  rw [linkedNodes, Set.ncard_eq_toFinset_card']
  congr 1
  ext i
  simp

instance {α : Type*} [Fintype α] (s : Threads Core (WaitQueue α Waker) LenPc) :
    ∀ a, Decidable (ZeroIsRight s a)
  | (c, .updateLen) =>
      decidable_of_iff
        (s.pc c = .store → tally s.pc .add =
          (Finset.univ.filter fun i => (s.shared.nodes i).linked = true).card + tally s.pc .sub)
        (by rw [← linkedNodes_eq_card]; rfl)
  | (_, .setWaker ..) => .isTrue trivial
  | (_, .setPriority ..) => .isTrue trivial
  | (_, .enqueue _) => .isTrue trivial
  | (_, .remove _) => .isTrue trivial
  | (_, .wakeOne) => .isTrue trivial
  | (_, .wakeAll) => .isTrue trivial

/-- One core wakes the node of the other, which links another node before the
    store of 0 and adds 1 after it. -/
def addedAfterStore : List (Bool × LenAction Bool Unit) :=
  [(true, .setWaker true ()), (true, .enqueue true), (true, .updateLen), (false, .wakeAll),
    (true, .setWaker false ()), (true, .enqueue false), (false, .updateLen), (true, .updateLen)]

theorem len_eq_linkedNodes_addedAfterStore :
    ∃ s, (lenMachine Bool Bool Unit 2).exec (lenMachine Bool Bool Unit 2).init addedAfterStore =
        some s ∧
      s.shared.len = 1 ∧ s.shared.len = linkedNodes s.shared := by
  have h_right : (lenMachine Bool Bool Unit 2).StepsMeet ZeroIsRight
      (lenMachine Bool Bool Unit 2).init addedAfterStore := by decide +kernel
  obtain ⟨s, h_run, h_quiet, h_len⟩ : ∃ s, (lenMachine Bool Bool Unit 2).exec
      (lenMachine Bool Bool Unit 2).init addedAfterStore = some s ∧
        (∀ c, s.pc c = .idle) ∧ s.shared.len = 1 :=
    Machine.exec_of_decide (by decide +kernel)
  exact ⟨s, h_run, h_len, len_eq_linkedNodes h_right h_run h_quiet⟩

/-- One core calls `enqueue` between the section of the other's `wake_all`, which
    finds nothing, and its store. -/
def enqueuedMeanwhile : List (Bool × LenAction Bool Unit) :=
  [(false, .wakeAll), (true, .setWaker true ()), (true, .enqueue true), (true, .updateLen),
    (false, .updateLen)]

/-- The count of a queue with a linked node can be 0 for good. -/
theorem enqueuedMeanwhile_not_counted :
    ∃ s, (lenMachine Bool Bool Unit 2).Reachable s ∧ (∀ c, s.pc c = .idle) ∧
      s.shared.len = 0 ∧ linkedNodes s.shared = 1 := by
  obtain ⟨s, h_run, h_quiet, h_len, h_card⟩ : ∃ s, (lenMachine Bool Bool Unit 2).exec
      (lenMachine Bool Bool Unit 2).init enqueuedMeanwhile = some s ∧
        (∀ c, s.pc c = .idle) ∧ s.shared.len = 0 ∧
          (Finset.univ.filter fun i => (s.shared.nodes i).linked = true).card = 1 :=
    Machine.exec_of_decide (by decide +kernel)
  exact ⟨s, ⟨enqueuedMeanwhile, h_run⟩, h_quiet, h_len, by rw [linkedNodes_eq_card, h_card]⟩

end WaitQueue
end Zydon
