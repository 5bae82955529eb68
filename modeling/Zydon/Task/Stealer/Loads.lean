/-
  Zydon.Task.Stealer.Loads

  What thieves get from the work-stealing deque when `grow` may replace the buffer
  between their steps.

  A thief computes the address of an element from `buffer.data` and `buffer.cap`,
  which it loads first, and then reads the element.  `grow` frees the old buffer: a
  thief whose loads are older than that reads freed memory, and its exchange may
  still succeed.  In the runs where no read is that late, a thief reads what it would
  read from the buffer of the deque (`Loading.simulates`), and what comes out has been
  pushed.
-/

import Zydon.Task.Stealer.Cells

namespace Zydon
namespace Stealer

open Lib

variable {Thief T : Type*} {elemSize : ℕ+}

-- ============================================================================
-- The loads
-- ============================================================================

/-- What a thief has loaded for its next read.  A buffer is named by the number of
    those that `grow` has replaced before it was made. -/
inductive Loads where
  | nothing
  /-- `buffer.data`. -/
  | data (buf : Nat)
  /-- `buffer.data`, and then `buffer.cap`. -/
  | dataCap (buf cap : Nat)
  deriving DecidableEq

/-- The deque with its owner and its thieves, and with what the thieves have loaded. -/
structure Loading (Thief T : Type*) where
  state : State Thief T
  /-- How often `grow` has replaced the buffer. -/
  grown : Nat
  loads : Thief → Loads

/-- The owner is about to replace the buffer. -/
def OwnerPc.isGrowing : OwnerPc T → Bool
  | .pushGrow _ _ _ => true
  | _ => false

/-- The thief is about to read an element. -/
def ThiefPc.isReading : ThiefPc T → Bool
  | .stealing _ k vals => vals.length < k
  | _ => false

/-- The labels. -/
inductive LoadAction (Thief T : Type*) where
  /-- A step of the owner, or one of a thief that is not a read. -/
  | other (a : OwnerAction T ⊕ Thief × ThiefAction)
  /-- The load of `buffer.data`, or of `buffer.cap` after it. -/
  | load (h : Thief)
  /-- The read of an element. -/
  | read (h : Thief)

/-- `*self.data.add(i as usize & self.mask())`, with what has been loaded of `self`.  Of
    freed memory nothing is known; it reads as a cell that has not been written. -/
def Loading.readCell (s : Loading Thief T) (buf cap : Nat) (i : Int) : Option (Elem T) :=
  if buf = s.grown then s.state.shared.buffer.data ((i % 2 ^ 64).toNat &&& (cap - 1)) else none

section Steps

variable [DecidableEq Thief]

/-- One step.  The replacement of the buffer, from its allocation to the end of the
    store, is one step of the owner. -/
def Loading.step (elemSize : ℕ+) (s : Loading Thief T) :
    LoadAction Thief T → Option (Loading Thief T)
  | .other (.inl a) =>
      match (machine Thief T elemSize).step s.state (.inl a) with
      | some state =>
          some { s with
            state := state
            grown := if s.state.owner.isGrowing then s.grown + 1 else s.grown }
      | none => none
  | .other (.inr (h, a)) =>
      if (s.state.thread h).isReading then none
      else
        match (machine Thief T elemSize).step s.state (.inr (h, a)) with
        | some state => some { s with state := state }
        | none => none
  | .load h =>
      if (s.state.thread h).isReading then
        match s.loads h with
        | .nothing => some { s with loads := Function.update s.loads h (.data s.grown) }
        | .data buf =>
            some { s with
              loads := Function.update s.loads h (.dataCap buf s.state.shared.buffer.cap) }
        | .dataCap _ _ => none
      else none
  | .read h =>
      match s.state.thread h, s.loads h with
      | .stealing t k vals, .dataCap buf cap =>
          if vals.length < k then
            some { s with
              state := { s.state with
                thread := Function.update s.state.thread h
                  (.stealing t k (vals ++ [s.readCell buf cap (isize (t + vals.length))])) }
              loads := Function.update s.loads h .nothing }
          else none
      | _, _ => none

/-- One owner and any number of thieves, interleaved. -/
def loading (Thief T : Type*) [DecidableEq Thief] (elemSize : ℕ+) :
    Machine (Loading Thief T) (LoadAction Thief T) where
  init := { state := (machine Thief T elemSize).init, grown := 0, loads := fun _ => .nothing }
  step := Loading.step elemSize

end Steps

/-- The start of a push. -/
def LoadAction.isPush : LoadAction Thief T → Bool
  | .other a => Stealer.isPush a
  | .load _ | .read _ => false

/-- A read is one of the buffer that the deque has: `grow` has not replaced it since the
    load of `buffer.data`. -/
def ReadsLive (s : Loading Thief T) : LoadAction Thief T → Prop
  | .read h =>
      match s.loads h with
      | .dataCap buf _ => buf = s.grown
      | .nothing | .data _ => True
  | .other _ | .load _ => True

instance (s : Loading Thief T) : ∀ a, Decidable (ReadsLive s a)
  | .read h =>
      match h_loads : s.loads h with
      | .dataCap buf _ => decidable_of_iff (buf = s.grown) (by simp [ReadsLive, h_loads])
      | .nothing | .data _ => .isTrue (by simp [ReadsLive, h_loads])
  | .other _ | .load _ => .isTrue trivial

-- ============================================================================
-- The simulation
-- ============================================================================

/-- The buffer that has been loaded is no newer than that of the deque; if it is that
    buffer, so is its capacity. -/
def Loads.Ok (grown cap : Nat) : Loads → Prop
  | .nothing => True
  | .data buf => buf ≤ grown
  | .dataCap buf loaded => buf ≤ grown ∧ (buf = grown → loaded = cap)

/-- The invariant of all loads. -/
def LoadsInv (s : Loading Thief T) : Prop :=
  ∀ h, (s.loads h).Ok s.grown s.state.shared.buffer.cap

/-- After `grow` no thief has loaded the new buffer. -/
theorem Loads.Ok.grow {grown cap : Nat} {l : Loads} (h : l.Ok grown cap) (cap' : Nat) :
    l.Ok (grown + 1) cap' := by
  cases l with
  | nothing => trivial
  | data buf => exact Nat.le_succ_of_le h
  | dataCap buf loaded =>
      obtain ⟨h_le, -⟩ := h
      exact ⟨by omega, by omega⟩

/-- Only `grow` changes the capacity. -/
theorem ownerStep_cap {d d' : Deque T} {pc pc' : OwnerPc T} {a : OwnerAction T}
    (h : ownerStep elemSize d pc a = some (d', pc')) (h_pc : pc.isGrowing = false) :
    d'.buffer.cap = d.buffer.cap := by
  cases pc <;> cases a <;> simp only [ownerStep, reduceCtorEq] at h
  case pushGrow => exact absurd h_pc (by simp [OwnerPc.isGrowing])
  case idle.push | idle.pop | pushPut.run | pushStore.run | popStore.run | popRestore.run =>
    obtain ⟨rfl, rfl⟩ : _ = d' ∧ _ = pc' := by simpa using h
    rfl
  case pushLoadTop.run | popLoadTop.run | popRead.run | popExchange.run =>
    split at h <;> obtain ⟨rfl, rfl⟩ : _ = d' ∧ _ = pc' := by simpa using h
    all_goals rfl

/-- A thief leaves the buffer alone. -/
theorem thiefStep_buffer {d d' : Deque T} {pc pc' : ThiefPc T} {a : ThiefAction}
    (h : thiefStep d pc a = some (d', pc')) : d'.buffer = d.buffer := by
  cases pc <;> cases a <;> simp only [thiefStep, reduceCtorEq] at h
  case idle.steal | idle.stealBatch =>
    obtain ⟨rfl, rfl⟩ : _ = d' ∧ _ = pc' := by simpa using h
    rfl
  case loadBottom.run =>
    split at h <;> obtain ⟨rfl, rfl⟩ : _ = d' ∧ _ = pc' := by simpa using h
    all_goals rfl
  case stealing.run =>
    split at h
    · obtain ⟨rfl, rfl⟩ : _ = d' ∧ _ = pc' := by simpa using h
      rfl
    · split at h <;> obtain ⟨rfl, rfl⟩ : _ = d' ∧ _ = pc' := by simpa using h
      all_goals rfl

/-- The cell at the address that a thief has computed is that of `get`. -/
theorem Loading.readCell_eq {s : Loading Thief T} {buf cap : Nat} (h_buf : buf = s.grown)
    (h_cap : cap = s.state.shared.buffer.cap) (i : Int) :
    s.readCell buf cap i = s.state.shared.buffer.get i := by
  rw [readCell, if_pos h_buf, h_cap]
  rfl

variable [DecidableEq Thief]

theorem loadsInv_init : LoadsInv (loading Thief T elemSize).init := fun _ => trivial

/-- One thief loads, and everything else stays. -/
theorem LoadsInv.update {s : Loading Thief T} (hs : LoadsInv s) {h : Thief} {l : Loads}
    (h_l : l.Ok s.grown s.state.shared.buffer.cap) :
    ∀ k, (Function.update s.loads h l k).Ok s.grown s.state.shared.buffer.cap :=
  (Function.forall_update_iff s.loads (p := fun _ l => l.Ok s.grown _)).mpr
    ⟨h_l, fun k _ => hs k⟩

/-- A step is one of the deque whose reads go to its buffer, or a load. -/
theorem Loading.simulates {s s' : Loading Thief T} {a : LoadAction Thief T} (hs : LoadsInv s)
    (h_live : ReadsLive s a) (h : (loading Thief T elemSize).step s a = some s') :
    LoadsInv s' ∧ ((s'.state = s.state ∧ a.isPush = false) ∨
      ∃ b, (machine Thief T elemSize).step s.state b = some s'.state ∧
        Stealer.isPush b = a.isPush) := by
  rcases a with (a | ⟨h₀, a⟩) | h₀ | h₀ <;> simp only [loading, Loading.step] at h
  case other.inl =>
    split at h
    · next state h_step =>
        obtain rfl := Option.some.inj h
        refine ⟨fun k => ?_, .inr ⟨_, h_step, rfl⟩⟩
        obtain ⟨d, pc, h_owner, rfl⟩ := OwnerAndThreads.step_owner_eq_some h_step
        show (s.loads k).Ok (if s.state.owner.isGrowing then s.grown + 1 else s.grown) d.buffer.cap
        cases h_growing : s.state.owner.isGrowing with
        | true => exact (hs k).grow _
        | false =>
            rw [ownerStep_cap h_owner h_growing]
            exact hs k
    · exact absurd h (by simp)
  case other.inr =>
    split at h
    · exact absurd h (by simp)
    · split at h
      · next state h_step =>
          obtain rfl := Option.some.inj h
          refine ⟨fun k => ?_, .inr ⟨_, h_step, rfl⟩⟩
          obtain ⟨d, pc, h_thief, rfl⟩ := OwnerAndThreads.step_thread_eq_some h_step
          show (s.loads k).Ok s.grown d.buffer.cap
          rw [thiefStep_buffer h_thief]
          exact hs k
      · exact absurd h (by simp)
  case load =>
    split at h
    · have h_loads := hs h₀
      split at h
      · obtain rfl := Option.some.inj h
        exact ⟨hs.update (le_refl s.grown), .inl ⟨rfl, rfl⟩⟩
      · next buf h_data =>
          obtain rfl := Option.some.inj h
          rw [h_data] at h_loads
          exact ⟨hs.update ⟨h_loads, fun _ => rfl⟩, .inl ⟨rfl, rfl⟩⟩
      · exact absurd h (by simp)
    · exact absurd h (by simp)
  case read =>
    have h_loads := hs h₀
    split at h
    · next t k vals buf cap h_thread h_data =>
        split at h
        · next h_more =>
            obtain rfl := Option.some.inj h
            rw [h_data] at h_loads
            simp only [ReadsLive, h_data] at h_live
            refine ⟨hs.update trivial, .inr ⟨.inr (h₀, .run), ?_, rfl⟩⟩
            have h_thief : thiefStep s.state.shared (s.state.thread h₀) .run =
                some (s.state.shared, .stealing t k
                  (vals ++ [s.readCell buf cap (isize (t + vals.length))])) := by
              rw [s.readCell_eq h_live (h_loads.2 h_live), h_thread, thiefStep, if_pos h_more]
            simp only [machine, ownerAndThreads, thief, h_thief]
        · exact absurd h (by simp)
    · exact absurd h (by simp)

-- ============================================================================
-- Runs
-- ============================================================================

/-- For every run of fewer than `2^62` pushes, with batches of any length, in which no
    thief reads a buffer that `grow` has replaced. -/
theorem handsOutPushed_of_readsLive {tr : List (LoadAction Thief T)} {s : Loading Thief T}
    (h_pushes : tr.countP LoadAction.isPush < 2 ^ 62)
    (h_live : (loading Thief T elemSize).StepsMeet ReadsLive (loading Thief T elemSize).init tr)
    (h_run : (loading Thief T elemSize).exec (loading Thief T elemSize).init tr = some s) :
    HandsOutPushed s.state := by
  have h_count : 0 + tr.countP LoadAction.isPush < 2 ^ 62 := by omega
  obtain ⟨-, high, hs⟩ : LoadsInv s ∧
      ∃ high, CellsInv (0 + tr.countP LoadAction.isPush) high s.state := by
    refine Machine.exec_invariant_countP
      (P := fun n s => LoadsInv s ∧ ∃ high, CellsInv n high s.state) ?_
      ⟨loadsInv_init, 0, cellsInv_init⟩ h_live h_count h_run
    rintro n s a s' ⟨h_loads, high, hs⟩ h_ok h_n h
    obtain ⟨h_loads', ⟨h_same, h_push⟩ | ⟨b, h_step, h_push⟩⟩ := Loading.simulates h_loads h_ok h
    · rw [h_same, h_push]
      exact ⟨h_loads', high, hs⟩
    · rw [← h_push]
      exact ⟨h_loads', hs.step (by omega) h_step⟩
  exact hs.handsOutPushed

/-- A push into a full buffer. -/
def growingPush : List (OwnerAction Unit ⊕ Unit × ThiefAction) := pushAlone ++ [.inl .run]

/-- A thief reads the first element of a batch from the first buffer, and the second one
    from the buffer that the 65th push has made. -/
def grownUnderBatch : List (LoadAction Unit Unit) :=
  (List.replicate 64 pushAlone).flatten.map .other ++
    [.other (.inr ((), .stealBatch 2)), .other (.inr ((), .run)), .load (), .load (), .read ()] ++
    growingPush.map .other ++
    [.load (), .load (), .read (), .other (.inr ((), .run))]

theorem handsOutPushed_grownUnderBatch :
    ∃ s, (loading Unit Unit 8).exec (loading Unit Unit 8).init grownUnderBatch = some s ∧
      (s.state.shared.returned = [some (0, ()), some (1, ())] ∧ s.grown = 1) ∧
      HandsOutPushed s.state := by
  have h_replay : ((loading Unit Unit 8).exec (loading Unit Unit 8).init grownUnderBatch).any
      (fun s => decide (s.state.shared.returned = [some (0, ()), some (1, ())] ∧
        s.grown = 1)) = true := by
    decide +kernel
  obtain ⟨s, h_run, h_returned⟩ := Machine.exec_of_decide h_replay
  exact ⟨s, h_run, h_returned,
    handsOutPushed_of_readsLive (by decide +kernel) (by decide +kernel) h_run⟩

end Stealer
end Zydon
