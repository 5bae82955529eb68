/-
  Zydon.Lib.SharedBox

  A box on the heap that two threads share, each with one reference to it.

  A thread runs its program on the contents of the box.  Where its program lets
  go of the reference it decrements the count, and the one that takes the last
  reference frees the box.  `sharing` is a program with that added to it;
  whatever the programs are, the box is freed once, by the last of the two, and
  no step reaches it afterwards (`Owned`), while its contents go through the states
  of the programs alone (`sharedInv_of_reachable`).
-/

import Mathlib.Data.BitVec
import Zydon.Lib.Interleaving

namespace Lib

/-- A counted box: what it held each time that it was freed, and how many steps
    have reached for it after that. -/
structure SharedBox (S : Type*) where
  refcount : BitVec 32
  contents : S
  freed : List S
  faults : Nat

/-- A thread at `pc` of its program, and its reference. -/
inductive Holder (P : Type*) where
  | holding (pc : P)
  /-- The thread has released the last reference, and is about to free the box. -/
  | freeing (pc : P)
  | gone (pc : P)
  deriving DecidableEq, Repr

/-- What a holder does next. -/
inductive HolderAction (A : Type*) where
  | run (a : A)
  | release
  | free
  deriving DecidableEq, Repr

variable {S P Q A B : Type*}

namespace Holder

def pc : Holder P → P
  | holding p | freeing p | gone p => p

def isGone : Holder P → Bool
  | gone _ => true
  | _ => false

def isHolding : Holder P → Bool
  | holding _ => true
  | _ => false

end Holder

namespace SharedBox

/-- A box with two references to it. -/
def new (contents : S) : SharedBox S :=
  { refcount := 2, contents := contents, freed := [], faults := 0 }

/-- A step reaches for the box. -/
def touch (b : SharedBox S) : SharedBox S :=
  { b with faults := if b.freed.isEmpty then b.faults else b.faults + 1 }

theorem touch_eq {b : SharedBox S} (h : b.freed = []) : b.touch = b := by
  obtain ⟨refcount, contents, freed, faults⟩ := b
  obtain rfl : freed = [] := h
  rfl

end SharedBox

/-- One step of a thread with a reference to the box, which its program lets go
    of where it is `finished`. -/
def sharingStep (prog : ThreadProgram S P A) (finished : P → Bool) (b : SharedBox S) :
    Holder P → HolderAction A → Option (SharedBox S × Holder P)
  | .holding p, .run a =>
      match prog.step b.contents p a with
      | some (contents, p) => some ({ b.touch with contents := contents }, .holding p)
      | none => none
  | .holding p, .release =>
      if finished p then
        some ({ b.touch with refcount := b.refcount - 1 },
          if b.refcount = 1 then .freeing p else .gone p)
      else none
  | .freeing p, .free => some ({ b.touch with freed := b.freed ++ [b.contents] }, .gone p)
  | _, _ => none

/-- The program of a thread with a reference to the box. -/
def sharing (prog : ThreadProgram S P A) (finished : P → Bool) :
    ThreadProgram (SharedBox S) (Holder P) (HolderAction A) where
  start := .holding prog.start
  step := sharingStep prog finished

/-- Two threads that share a box. -/
def sharedPair (left : ThreadProgram S P A) (right : ThreadProgram S Q B) (doneLeft : P → Bool)
    (doneRight : Q → Bool) (contents : S) :
    Machine (Pair (SharedBox S) (Holder P) (Holder Q)) (HolderAction A ⊕ HolderAction B) :=
  pair (sharing left doneLeft) (sharing right doneRight) (.new contents)

/-- The count of a box, and whether it is freed, with its holders at `h` and `k`. -/
def Owned (b : SharedBox S) : Holder P → Holder Q → Prop
  | .holding _, .holding _ => b.refcount = 2 ∧ b.freed = []
  | .holding _, .gone _ | .gone _, .holding _ => b.refcount = 1 ∧ b.freed = []
  | .freeing _, .gone _ | .gone _, .freeing _ => b.refcount = 0 ∧ b.freed = []
  | .gone _, .gone _ => b.refcount = 0 ∧ b.freed = [b.contents]
  | .holding _, .freeing _ | .freeing _, .holding _ | .freeing _, .freeing _ => False

/-- What one step of a holder does. -/
inductive SharingEffect (prog : ThreadProgram S P A) (b : SharedBox S) :
    Holder P → SharedBox S → Holder P → Prop
  | ran {p p' : P} {m : S} (a : A) : prog.step b.contents p a = some (m, p') →
      SharingEffect prog b (.holding p) { b.touch with contents := m } (.holding p')
  | last (p : P) : b.refcount = 1 →
      SharingEffect prog b (.holding p) { b.touch with refcount := b.refcount - 1 } (.freeing p)
  | released (p : P) : b.refcount ≠ 1 →
      SharingEffect prog b (.holding p) { b.touch with refcount := b.refcount - 1 } (.gone p)
  | freed (p : P) :
      SharingEffect prog b (.freeing p) { b.touch with freed := b.freed ++ [b.contents] } (.gone p)

variable {left : ThreadProgram S P A} {right : ThreadProgram S Q B} {doneLeft : P → Bool}
  {doneRight : Q → Bool} {contents : S} {b b' : SharedBox S} {h h' : Holder P} {k : Holder Q}

theorem sharingStep_effect {finished : P → Bool} {a : HolderAction A}
    (h_step : sharingStep left finished b h a = some (b', h')) : SharingEffect left b h b' h' := by
  cases h <;> cases a <;> simp only [sharingStep, reduceCtorEq] at h_step
  case holding.run p a =>
    split at h_step
    · next m p' h_prog =>
        obtain ⟨rfl, rfl⟩ : _ = b' ∧ _ = h' := by simpa using h_step
        exact .ran a h_prog
    · exact absurd h_step (by simp)
  case holding.release p =>
    split at h_step
    · obtain ⟨rfl, rfl⟩ : _ = b' ∧ _ = h' := by simpa using h_step
      split
      · next h_one => exact .last p h_one
      · next h_one => exact .released p h_one
    · exact absurd h_step (by simp)
  case freeing.free p =>
    obtain ⟨rfl, rfl⟩ : _ = b' ∧ _ = h' := by simpa using h_step
    exact .freed p

theorem owned_comm : Owned b h k ↔ Owned b k h := by
  cases h <;> cases k <;> exact Iff.rfl

/-- As long as a holder has something to do with the box, it is not freed. -/
theorem Owned.not_freed (h_owned : Owned b h k) (h_there : h.isGone = false) : b.freed = [] := by
  cases h with
  | holding p | freeing p =>
      cases k <;> first | exact h_owned.2 | exact h_owned.elim
  | gone p => exact absurd h_there (by simp [Holder.isGone])

/-- A step of a holder does not fault, and what it does to the contents is a step
    of its program. -/
theorem Owned.step (h_owned : Owned b h k) (h_step : SharingEffect left b h b' h') :
    Owned b' h' k ∧ b'.faults = b.faults ∧
      ((b'.contents = b.contents ∧ h'.pc = h.pc) ∨
        ∃ a, left.step b.contents h.pc a = some (b'.contents, h'.pc)) := by
  cases h_step with
  | ran a h_prog =>
      have h_live := h_owned.not_freed rfl
      refine ⟨?_, by rw [SharedBox.touch_eq h_live], .inr ⟨a, h_prog⟩⟩
      cases k <;> first | exact h_owned.elim | exact h_owned
  | last p h_one =>
      have h_live := h_owned.not_freed rfl
      refine ⟨?_, by rw [SharedBox.touch_eq h_live], .inl ⟨rfl, rfl⟩⟩
      cases k with
      | holding q => exact absurd (h_one.symm.trans h_owned.1) (by decide)
      | freeing q => exact h_owned.elim
      | gone q => exact ⟨by simp [h_one], h_live⟩
  | released p h_more =>
      have h_live := h_owned.not_freed rfl
      refine ⟨?_, by rw [SharedBox.touch_eq h_live], .inl ⟨rfl, rfl⟩⟩
      cases k with
      | holding q =>
          refine ⟨?_, h_live⟩
          rw [show b.refcount = 2 from h_owned.1]
          rfl
      | freeing q => exact h_owned.elim
      | gone q => exact absurd h_owned.1 h_more
  | freed p =>
      have h_live := h_owned.not_freed rfl
      refine ⟨?_, by rw [SharedBox.touch_eq h_live], .inl ⟨rfl, rfl⟩⟩
      cases k with
      | holding q | freeing q => exact h_owned.elim
      | gone q => exact ⟨h_owned.1, by simp [h_live, SharedBox.touch]⟩

/-- What is known of a box that two threads share. -/
structure SharedInv (left : ThreadProgram S P A) (right : ThreadProgram S Q B) (contents : S)
    (s : Pair (SharedBox S) (Holder P) (Holder Q)) : Prop where
  owned : Owned s.shared s.left s.right
  faults : s.shared.faults = 0
  reachable : (pair left right contents).Reachable
    { shared := s.shared.contents, left := s.left.pc, right := s.right.pc }

theorem sharedInv_of_reachable {s : Pair (SharedBox S) (Holder P) (Holder Q)}
    (h_reach : (sharedPair left right doneLeft doneRight contents).Reachable s) :
    SharedInv left right contents s := by
  apply h_reach.invariant
  · exact ⟨⟨rfl, rfl⟩, rfl, [], rfl⟩
  rintro s (a | a) s' hs h_step
  · obtain ⟨b, h, h_left, rfl⟩ := Pair.step_left_eq_some h_step
    obtain ⟨h_owned, h_faults, h_sim⟩ := hs.owned.step (sharingStep_effect h_left)
    refine ⟨h_owned, h_faults.trans hs.faults, ?_⟩
    rcases h_sim with ⟨h_contents, h_pc⟩ | ⟨a, h_prog⟩
    · simpa only [h_contents, h_pc] using hs.reachable
    · exact hs.reachable.step (a := .inl a) (by simp only [pair, h_prog])
  · obtain ⟨b, k, h_right, rfl⟩ := Pair.step_right_eq_some h_step
    obtain ⟨h_owned, h_faults, h_sim⟩ :=
      (owned_comm.mp hs.owned).step (sharingStep_effect h_right)
    refine ⟨owned_comm.mp h_owned, h_faults.trans hs.faults, ?_⟩
    rcases h_sim with ⟨h_contents, h_pc⟩ | ⟨a, h_prog⟩
    · simpa only [h_contents, h_pc] using hs.reachable
    · exact hs.reachable.step (a := .inr a) (by simp only [pair, h_prog])

/-- The count is the number of threads that hold a reference. -/
theorem Owned.refcount_eq (h_owned : Owned b h k) :
    b.refcount.toNat = h.isHolding.toNat + k.isHolding.toNat := by
  cases h <;> cases k <;> first | exact h_owned.elim | (rw [h_owned.1]; rfl)

/-- The box is freed when both threads are gone, once, with its last contents. -/
theorem Owned.freed_eq (h_owned : Owned b h k) :
    b.freed = if h.isGone && k.isGone then [b.contents] else [] := by
  cases h <;> cases k <;> first | exact h_owned.elim | exact h_owned.2

end Lib
