/-
  Zydon.Variables.IdleStates

  The idle states of `variables/idle_states.rs`: which state `pick_idle_state` chooses
  after any calls of `set_state_mask` and `record_duration`.
-/

import Mathlib.Order.Bounds.Defs
import Zydon.Variables.Bits.Fields
import Zydon.Variables.Time

namespace Zydon
namespace IdleStates

open Lib

/-! ## Configurations -/

/-- `X86_MAX_CSTATES`. -/
abbrev x86MaxCstates : Nat := 12

/-- `X86_CSTATE_C1_MWAIT_HINT`. -/
def x86CstateC1MwaitHint : BitVec 32 := 0x00#32

/-- A single idle state; the exit latency is in microseconds. -/
structure X86IdleStateRaw where
  name : String
  mwaitHint : BitVec 32
  exitLatency : BitVec 32
  flushesTlb : Bool
  deriving DecidableEq, Repr

/-- A C1 state with the given exit latency. -/
def c1 (exitLatencyUs : BitVec 32) : X86IdleStateRaw :=
  { name := "C1", mwaitHint := x86CstateC1MwaitHint, exitLatency := exitLatencyUs,
    flushesTlb := false }

/-- The table of states, of which C1 ends the list, and the states that are allowed. -/
structure X86IdleStatesConfig where
  states : Vector X86IdleStateRaw x86MaxCstates
  defaultStateMask : BitVec 32

def x86IsBaseIdleState (state : X86IdleStateRaw) : Bool := state.mwaitHint == x86CstateC1MwaitHint

/-- The number of states up to C1, or `none` for a table without it. -/
def x86NumIdleStates (config : X86IdleStatesConfig) : Option Nat :=
  (config.states.toList.findIdx? x86IsBaseIdleState).map (· + 1)

/-! ## States at run time -/

structure X86IdleState where
  state : X86IdleStateRaw
  timesEntered : BitVec 64
  totalDuration : Time.ZxDuration
  deriving DecidableEq, Repr

def X86IdleState.new (state : X86IdleStateRaw) : X86IdleState :=
  { state := state, timesEntered := 0, totalDuration := 0 }

def X86IdleState.mwaitHint (s : X86IdleState) : BitVec 32 := s.state.mwaitHint

/-- Exit latency in nanoseconds. -/
def X86IdleState.exitLatency (s : X86IdleState) : Time.ZxDuration :=
  Time.zxDurationFromUsec (s.state.exitLatency.setWidth 64)

/-- `IDLE_DURATION_FACTOR`. -/
def idleDurationFactor : BitVec 32 := 3#32

def stateNumberFromMwaitHint (checks : OverflowChecks) (hint : BitVec 32) :
    Option (BitVec 32) := do
  checks.uadd (← Bits.bitsShift checks hint 8#32 4#32) 1#32

structure X86IdleStates where
  states : Vector (Option X86IdleState) x86MaxCstates
  numStates : Nat
  lastIdleDuration : Time.ZxDuration
  stateMask : BitVec 32

namespace X86IdleStates

/-- Construct from a configuration; one without C1 panics. -/
def new (config : X86IdleStatesConfig) : Option X86IdleStates := do
  let numStates ← x86NumIdleStates config
  return {
    states := Vector.ofFn fun i =>
      if i < numStates then some (X86IdleState.new config.states[i]) else none
    numStates := numStates
    lastIdleDuration := 0
    stateMask := config.defaultStateMask ||| 0x1#32 }

/-- `self.states[i].as_mut()`, as the slot it refers to. -/
def asMut (s : X86IdleStates) (i : Nat) : Option (Option Nat) :=
  s.states[i]?.map fun slot => slot.map fun _ => i

/-- The loop of `pick_idle_state` from state `i` on, for `rounds` more states, with the
    return after it. -/
def pickLoop (checks : OverflowChecks) (s : X86IdleStates) (validStateMask : BitVec 32) :
    Nat → Nat → Option (Option Nat)
  | 0, _ => s.asMut (s.numStates - 1)
  | rounds + 1, i =>
      s.states[i]?.bind fun
        | none => pickLoop checks s validStateMask rounds (i + 1)
        | some state => do
            let stateNum ← stateNumberFromMwaitHint checks state.mwaitHint
            let bit ← checks.shl 1#32 (← checks.usub stateNum 1#32)
            if validStateMask &&& bit = 0#32 then
              pickLoop checks s validStateMask rounds (i + 1)
            else
              let bound ← checks.smul (idleDurationFactor.setWidth 64) s.lastIdleDuration
              if state.exitLatency.toInt < bound.toInt then s.asMut i
              else pickLoop checks s validStateMask rounds (i + 1)

/-- The slot of the state that is picked; `none` is a panic. -/
def pickIdleState (checks : OverflowChecks) (s : X86IdleStates) : Option (Option Nat) :=
  if s.lastIdleDuration = 0 then s.asMut (s.numStates - 1)
  else s.pickLoop checks s.stateMask s.numStates 0

def recordDuration (s : X86IdleStates) (duration : Time.ZxDuration) : X86IdleStates :=
  { s with lastIdleDuration := duration }

def setStateMask (s : X86IdleStates) (mask : BitVec 32) : X86IdleStates :=
  { s with stateMask := mask ||| 0x1#32 }

end X86IdleStates

/-! ## Runs -/

/-- A call that changes what is picked. -/
inductive Call
  | setStateMask (mask : BitVec 32)
  | recordDuration (duration : Time.ZxDuration)
  deriving DecidableEq, Repr

def X86IdleStates.call (s : X86IdleStates) : Call → X86IdleStates
  | .setStateMask mask => s.setStateMask mask
  | .recordDuration duration => s.recordDuration duration

/-- The states after a sequence of calls. -/
def X86IdleStates.run (s : X86IdleStates) (calls : List Call) : X86IdleStates :=
  calls.foldl X86IdleStates.call s

/-- What is picked after a configuration's states went through the calls. -/
def pickAfter (config : X86IdleStatesConfig) (calls : List Call) (checks : OverflowChecks) :
    Option (Option Nat) := do
  (← X86IdleStates.new config).run calls |>.pickIdleState checks

/-! ## What the calls leave behind -/

/-- The mask a call asks for, if it does. -/
def Call.mask? : Call → Option (BitVec 32)
  | .setStateMask mask => some mask
  | .recordDuration _ => none

/-- The duration a call records, if it does. -/
def Call.duration? : Call → Option Time.ZxDuration
  | .setStateMask _ => none
  | .recordDuration duration => some duration

/-- The mask that was last asked for, of the configuration where no call has. -/
def lastMask (config : X86IdleStatesConfig) (calls : List Call) : BitVec 32 :=
  (calls.filterMap Call.mask?).getLast?.getD config.defaultStateMask

/-- The duration that was last recorded, 0 before the first. -/
def lastDuration (calls : List Call) : Time.ZxDuration :=
  (calls.filterMap Call.duration?).getLast?.getD 0

namespace X86IdleStates

/-- No call changes the table. -/
theorem run_states (s : X86IdleStates) (calls : List Call) :
    (s.run calls).states = s.states ∧ (s.run calls).numStates = s.numStates := by
  induction calls generalizing s with
  | nil => exact ⟨rfl, rfl⟩
  | cons c calls ih =>
      rw [run, List.foldl_cons, ← run, (ih _).1, (ih _).2]
      cases c <;> exact ⟨rfl, rfl⟩

theorem run_lastIdleDuration (s : X86IdleStates) (calls : List Call) :
    (s.run calls).lastIdleDuration
      = (calls.filterMap Call.duration?).getLast?.getD s.lastIdleDuration := by
  induction calls generalizing s with
  | nil => rfl
  | cons c calls ih =>
      rw [run, List.foldl_cons, ← run, ih]
      cases c with
      | setStateMask mask => simp [call, setStateMask, Call.duration?]
      | recordDuration duration =>
          simp [call, recordDuration, Call.duration?, List.getLast?_cons]

/-- The mask is kept with bit 0 set. -/
theorem run_stateMask {s : X86IdleStates} {calls : List Call} {mask : BitVec 32}
    (h_mask : s.stateMask = mask ||| 0x1#32) :
    (s.run calls).stateMask
      = (calls.filterMap Call.mask?).getLast?.getD mask ||| 0x1#32 := by
  induction calls generalizing s mask with
  | nil => exact h_mask
  | cons c calls ih =>
      rw [run, List.foldl_cons, ← run]
      cases c with
      | setStateMask mask' =>
          have h_new : (s.call (.setStateMask mask')).stateMask = mask' ||| 0x1#32 := rfl
          rw [ih h_new]
          simp [Call.mask?, List.getLast?_cons]
      | recordDuration duration =>
          have h_same : (s.call (.recordDuration duration)).stateMask = mask ||| 0x1#32 := h_mask
          rw [ih h_same]
          simp [Call.mask?]

end X86IdleStates

/-! ## The operands of the choice -/

/-- The bit of a state in the mask: bits [8:4] of its hint. -/
def cstateBit (state : X86IdleStateRaw) : Nat := state.mwaitHint.toNat / 16 % 32

theorem bitsShift_hint (checks : OverflowChecks) (hint : BitVec 32) :
    Bits.bitsShift checks hint 8#32 4#32 = some (BitVec.ofNat 32 (hint.toNat / 16 % 32)) := by
  rw [Bits.bitsShift, Bits.shiftField_eq_some (by decide) (by decide) (by decide) (by decide)]
  congr 1
  apply BitVec.eq_of_toNat_eq
  have h_mask : ((1#32 <<< ((8#32).toNat - (4#32).toNat + 1)) - 1#32).toNat = 2 ^ 5 - 1 := by
    decide
  have h_shift : (hint >>> (4#32).toNat).toNat = hint.toNat / 16 := by
    rw [BitVec.toNat_ushiftRight, Nat.shiftRight_eq_div_pow]
    rfl
  rw [BitVec.toNat_and, h_mask, h_shift, Nat.and_two_pow_sub_one_eq_mod, BitVec.toNat_ofNat]
  omega

/-- In any build the bit that is tested in the mask is the one of the state. -/
theorem state_bit (checks : OverflowChecks) (state : X86IdleStateRaw) :
    ∃ stateNum bitNum, stateNumberFromMwaitHint checks state.mwaitHint = some stateNum ∧
      checks.usub stateNum 1#32 = some bitNum ∧
      checks.shl 1#32 bitNum = some (1#32 <<< cstateBit state) := by
  have h_lt : cstateBit state < 32 := Nat.mod_lt _ (by decide)
  have h_bit : (BitVec.ofNat 32 (cstateBit state)).toNat = cstateBit state := by
    rw [BitVec.toNat_ofNat]
    omega
  refine ⟨BitVec.ofNat 32 (cstateBit state) + 1#32, BitVec.ofNat 32 (cstateBit state), ?_, ?_, ?_⟩
  · rw [stateNumberFromMwaitHint, bitsShift_hint]
    exact OverflowChecks.uadd_eq_some (by rw [← cstateBit, h_bit, BitVec.toNat_ofNat]; omega)
  · have h_num : (BitVec.ofNat 32 (cstateBit state) + 1#32).toNat = cstateBit state + 1 := by
      rw [BitVec.toNat_add, h_bit, BitVec.toNat_ofNat]
      omega
    rw [OverflowChecks.usub_eq_some (by rw [h_num, BitVec.toNat_ofNat]; omega),
      BitVec.add_sub_cancel]
  · rw [OverflowChecks.shl_eq_some (by rwa [h_bit]), h_bit]

/-- The latency is converted to nanoseconds exactly. -/
theorem toInt_exitLatency (state : X86IdleStateRaw) :
    (X86IdleState.new state).exitLatency.toInt = 1000 * state.exitLatency.toNat := by
  have h_lt := state.exitLatency.isLt
  have h_value : (state.exitLatency.setWidth 64).toInt = state.exitLatency.toNat := by
    rw [BitVec.toInt_eq_toNat_of_lt, BitVec.toNat_setWidth]
    · omega
    · rw [BitVec.toNat_setWidth]
      omega
  have h_thousand : (1000#64).toInt = 1000 := by decide
  rw [X86IdleState.exitLatency, X86IdleState.new, Time.zxDurationFromUsec,
    Time.toInt_zxDurationMulInt64_of_fits, h_value, h_thousand]
  rw [h_value, h_thousand]
  exact ⟨by omega, by omega⟩

/-! ## What is to be picked -/

/-- A state is allowed if its bit is in the mask, and C1 always. -/
def Allowed (mask : BitVec 32) (state : X86IdleStateRaw) : Prop :=
  cstateBit state = 0 ∨ mask.getLsbD (cstateBit state) = true

/-- An allowed state whose exit latency is less than three times the duration. -/
def Candidate (mask : BitVec 32) (duration : Int) (state : X86IdleStateRaw) : Prop :=
  Allowed mask state ∧ 1000 * (state.exitLatency.toNat : Int) < 3 * duration

/-- The slots of base states. -/
def baseSlots (config : X86IdleStatesConfig) : Set Nat :=
  {i | ∃ state, config.states[i]? = some state ∧ x86IsBaseIdleState state = true}

/-- The slots of candidates from the table's start up to C1. -/
def candidateSlots (config : X86IdleStatesConfig) (c1 : Nat) (mask : BitVec 32) (duration : Int) :
    Set Nat :=
  {i | i ≤ c1 ∧ ∃ state, config.states[i]? = some state ∧ Candidate mask duration state}

/-- Slot `i` holds the deepest candidate, or C1 if there is none or no duration. -/
def IsPick (config : X86IdleStatesConfig) (mask : BitVec 32) (duration : Int) (i : Nat) : Prop :=
  ∃ c1, IsLeast (baseSlots config) c1 ∧
    ((duration = 0 ∧ i = c1) ∨
      (duration ≠ 0 ∧ IsLeast (candidateSlots config c1 mask duration) i) ∨
      (duration ≠ 0 ∧ candidateSlots config c1 mask duration = ∅ ∧ i = c1))

theorem and_bit_eq_zero_iff (mask : BitVec 32) (state : X86IdleStateRaw) :
    (mask ||| 0x1#32) &&& (1#32 <<< cstateBit state) = 0#32 ↔ ¬ Allowed mask state := by
  have h_lt : cstateBit state < 32 := Nat.mod_lt _ (by decide)
  rw [← bne_eq_false_iff_eq, and_one_shiftLeft_bne_zero _ h_lt, BitVec.getLsbD_or, Allowed,
    BitVec.getLsbD_one]
  simp
  tauto

/-! ## The table after construction -/

/-- The states have the table of the configuration up to C1. -/
structure Describes (config : X86IdleStatesConfig) (c1 : Nat) (s : X86IdleStates) : Prop where
  numStates : s.numStates = c1 + 1
  slot : ∀ i ≤ c1, ∃ state, config.states[i]? = some state ∧
    s.states[i]? = some (some (X86IdleState.new state))

theorem x86NumIdleStates_eq {config : X86IdleStatesConfig} {c1 : Nat}
    (h_c1 : IsLeast (baseSlots config) c1) : x86NumIdleStates config = some (c1 + 1) := by
  obtain ⟨⟨state, h_state, h_base⟩, h_least⟩ := h_c1
  have h_find : config.states.toList.findIdx? x86IsBaseIdleState = some c1 := by
    obtain ⟨h_lt, rfl⟩ := Vector.getElem?_eq_some_iff.mp h_state
    rw [List.findIdx?_eq_some_iff_getElem]
    refine ⟨by simpa using h_lt, by simpa using h_base, fun j h_j h_early => ?_⟩
    have h_le := h_least (a := j)
      ⟨config.states[j], Vector.getElem?_eq_getElem (by omega), by simpa using h_early⟩
    omega
  rw [x86NumIdleStates, h_find, Option.map_some]

theorem new_describes {config : X86IdleStatesConfig} {c1 : Nat}
    (h_c1 : IsLeast (baseSlots config) c1) :
    ∃ s, X86IdleStates.new config = some s ∧ Describes config c1 s ∧
      s.lastIdleDuration = 0 ∧ s.stateMask = config.defaultStateMask ||| 0x1#32 := by
  have h_num := x86NumIdleStates_eq h_c1
  obtain ⟨⟨state, h_state, -⟩, -⟩ := h_c1
  obtain ⟨h_lt, -⟩ := Vector.getElem?_eq_some_iff.mp h_state
  refine ⟨_, by rw [X86IdleStates.new, h_num]; rfl, ⟨rfl, fun i h_i => ?_⟩, rfl, rfl⟩
  have h_slot : i < x86MaxCstates := by omega
  refine ⟨config.states[i], Vector.getElem?_eq_getElem h_slot, ?_⟩
  have h_within : i < c1 + 1 := by omega
  rw [Vector.getElem?_eq_getElem h_slot, Vector.getElem_ofFn]
  exact congrArg some (if_pos h_within)

theorem Describes.run {config : X86IdleStatesConfig} {c1 : Nat} {s : X86IdleStates}
    (h : Describes config c1 s) (calls : List Call) : Describes config c1 (s.run calls) := by
  obtain ⟨h_states, h_num⟩ := X86IdleStates.run_states s calls
  exact ⟨h_num.trans h.numStates, by rw [h_states]; exact h.slot⟩

/-! ## The loop -/

section Loop

variable {checks : OverflowChecks} {s : X86IdleStates} {mask : BitVec 32} {rounds i : Nat}
  {state : X86IdleStateRaw}

theorem asMut_eq (h_slot : s.states[i]? = some (some (X86IdleState.new state))) :
    s.asMut i = some (some i) := by
  rw [X86IdleStates.asMut, h_slot, Option.map_some, Option.map_some]

/-- A state that is not allowed is passed over. -/
theorem pickLoop_of_not_allowed
    (h_slot : s.states[i]? = some (some (X86IdleState.new state))) (h : ¬ Allowed mask state) :
    s.pickLoop checks (mask ||| 0x1#32) (rounds + 1) i
      = s.pickLoop checks (mask ||| 0x1#32) rounds (i + 1) := by
  obtain ⟨stateNum, bitNum, h_num, h_sub, h_shl⟩ := state_bit checks state
  rw [X86IdleStates.pickLoop, h_slot, Option.bind_some]
  simp only [X86IdleState.new, X86IdleState.mwaitHint, h_num, h_sub, h_shl, Option.bind_eq_bind,
    Option.bind_some, (and_bit_eq_zero_iff mask state).mpr h, if_true]

/-- For an allowed state the factor of the duration is multiplied out, and its latency
    compared with the product. -/
theorem pickLoop_of_allowed
    (h_slot : s.states[i]? = some (some (X86IdleState.new state))) (h : Allowed mask state) :
    s.pickLoop checks (mask ||| 0x1#32) (rounds + 1) i
      = (checks.smul 3#64 s.lastIdleDuration).bind fun bound =>
          if 1000 * (state.exitLatency.toNat : Int) < bound.toInt then some (some i)
          else s.pickLoop checks (mask ||| 0x1#32) rounds (i + 1) := by
  obtain ⟨stateNum, bitNum, h_num, h_sub, h_shl⟩ := state_bit checks state
  have h_bit : ¬ ((mask ||| 0x1#32) &&& (1#32 <<< cstateBit state) = 0#32) :=
    fun h_zero => (and_bit_eq_zero_iff mask state).mp h_zero h
  have h_factor : idleDurationFactor.setWidth 64 = 3#64 := by decide
  have h_hint : (X86IdleState.new state).mwaitHint = state.mwaitHint := rfl
  rw [X86IdleStates.pickLoop, h_slot, Option.bind_some]
  simp only [h_hint, h_num, h_sub, h_shl, Option.bind_eq_bind, Option.bind_some, h_bit, if_false,
    h_factor, toInt_exitLatency, asMut_eq h_slot]

variable {config : X86IdleStatesConfig} {c1 : Nat}

/-- If no candidate is left before slot `i`, and slot `i` is none, they come after it. -/
theorem candidateSlots_after {duration : Int} (h_state : config.states[i]? = some state)
    (h_before : ∀ j ∈ candidateSlots config c1 mask duration, i ≤ j)
    (h_not : ¬ Candidate mask duration state) :
    ∀ j ∈ candidateSlots config c1 mask duration, i + 1 ≤ j := by
  intro j h_j
  refine Nat.lt_of_le_of_ne (h_before j h_j) ?_
  rintro rfl
  obtain ⟨-, state', h_state', h_candidate⟩ := h_j
  obtain rfl : state = state' := Option.some.inj (h_state.symm.trans h_state')
  exact h_not h_candidate

/-- Where the product fits, the loop finds the first candidate that is left, or falls
    back to C1. -/
theorem pickLoop_picks (mask : BitVec 32) {bound : BitVec 64} (h_table : Describes config c1 s)
    (h_bound : checks.smul 3#64 s.lastIdleDuration = some bound)
    (h_value : bound.toInt = 3 * s.lastIdleDuration.toInt) (h_rounds : i + rounds = c1 + 1)
    (h_before : ∀ j ∈ candidateSlots config c1 mask s.lastIdleDuration.toInt, i ≤ j) :
    ∃ picked, s.pickLoop checks (mask ||| 0x1#32) rounds i = some (some picked) ∧
      (IsLeast (candidateSlots config c1 mask s.lastIdleDuration.toInt) picked ∨
        (candidateSlots config c1 mask s.lastIdleDuration.toInt = ∅ ∧ picked = c1)) := by
  induction rounds generalizing i with
  | zero =>
      obtain ⟨state, -, h_slot⟩ := h_table.slot c1 (Nat.le_refl _)
      refine ⟨c1, ?_, Or.inr ⟨Set.eq_empty_of_forall_notMem fun j h_j => ?_, rfl⟩⟩
      · rw [X86IdleStates.pickLoop, h_table.numStates]
        exact asMut_eq h_slot
      · have h_le := h_before j h_j
        have h_up := h_j.1
        omega
  | succ rounds ih =>
      obtain ⟨state, h_state, h_slot⟩ := h_table.slot i (by omega)
      have h_next := candidateSlots_after h_state h_before
      by_cases h_allowed : Allowed mask state
      · rw [pickLoop_of_allowed h_slot h_allowed, h_bound, Option.bind_some, h_value]
        by_cases h_latency : 1000 * (state.exitLatency.toNat : Int)
            < 3 * s.lastIdleDuration.toInt
        · rw [if_pos h_latency]
          have h_candidate : i ∈ candidateSlots config c1 mask s.lastIdleDuration.toInt :=
            ⟨by omega, state, h_state, h_allowed, h_latency⟩
          exact ⟨i, rfl, Or.inl ⟨h_candidate, h_before⟩⟩
        · rw [if_neg h_latency]
          exact ih (by omega) (h_next fun h_candidate => h_latency h_candidate.2)
      · rw [pickLoop_of_not_allowed h_slot h_allowed]
        exact ih (by omega) (h_next fun h_candidate => h_allowed h_candidate.1)

/-- Where it does not, a build with checks panics at the first allowed state, at C1 at
    the latest. -/
theorem pickLoop_on_eq_none (mask : BitVec 32) (h_table : Describes config c1 s)
    (h_base : c1 ∈ baseSlots config)
    (h_overflow : OverflowChecks.on.smul 3#64 s.lastIdleDuration = none)
    (h_rounds : i + rounds = c1 + 1) (h_left : i ≤ c1) :
    s.pickLoop .on (mask ||| 0x1#32) rounds i = none := by
  induction rounds generalizing i with
  | zero => omega
  | succ rounds ih =>
      obtain ⟨state, h_state, h_slot⟩ := h_table.slot i h_left
      by_cases h_allowed : Allowed mask state
      · rw [pickLoop_of_allowed h_slot h_allowed, h_overflow, Option.bind_none]
      · rw [pickLoop_of_not_allowed h_slot h_allowed]
        apply ih (by omega)
        have h_ne : i ≠ c1 := by
          rintro rfl
          obtain ⟨base, h_base_state, h_hint⟩ := h_base
          obtain rfl : state = base := Option.some.inj (h_state.symm.trans h_base_state)
          have h_zero : state.mwaitHint = 0#32 := by
            simpa [x86IsBaseIdleState, x86CstateC1MwaitHint] using h_hint
          exact h_allowed (Or.inl (by rw [cstateBit, h_zero]; rfl))
        omega

end Loop

/-! ## The choice after any calls -/

variable {config : X86IdleStatesConfig} {calls : List Call}

theorem exists_isLeast_baseSlots
    (h_c1 : ∃ state ∈ config.states, x86IsBaseIdleState state = true) :
    ∃ c1, IsLeast (baseSlots config) c1 := by
  classical
  obtain ⟨state, h_mem, h_base⟩ := h_c1
  obtain ⟨i, h_i⟩ := Vector.mem_iff_getElem?.mp h_mem
  have h_exists : ∃ i, i ∈ baseSlots config := ⟨i, state, h_i, h_base⟩
  exact ⟨Nat.find h_exists, Nat.find_spec h_exists, fun _ h_j => Nat.find_le h_j⟩

/-- In a build of either kind the state that is to be picked is picked. -/
def PicksDeepest (config : X86IdleStatesConfig) (calls : List Call) : Prop :=
  ∀ checks, ∃ i, pickAfter config calls checks = some (some i) ∧
    IsPick config (lastMask config calls) (lastDuration calls).toInt i

section Choice

variable {c1 : Nat} {checks : OverflowChecks}

/-- With no duration on record it is C1. -/
theorem pickAfter_of_zero (h_c1 : IsLeast (baseSlots config) c1)
    (h_zero : lastDuration calls = 0) : pickAfter config calls checks = some (some c1) := by
  obtain ⟨s, h_new, h_table, h_duration, -⟩ := new_describes h_c1
  have h_run := h_table.run calls
  obtain ⟨state, -, h_slot⟩ := h_run.slot c1 (Nat.le_refl _)
  have h_last : (s.run calls).lastIdleDuration = 0 := by
    rw [X86IdleStates.run_lastIdleDuration, h_duration]
    exact h_zero
  rw [pickAfter, h_new, Option.bind_eq_bind, Option.bind_some, X86IdleStates.pickIdleState,
    if_pos h_last, h_run.numStates]
  exact asMut_eq h_slot

/-- With one it is what the loop finds for the last mask and the last duration. -/
theorem pickAfter_of_nonzero (h_c1 : IsLeast (baseSlots config) c1)
    (h_nonzero : lastDuration calls ≠ 0) :
    ∃ s, Describes config c1 s ∧ s.lastIdleDuration = lastDuration calls ∧
      ∀ checks, pickAfter config calls checks
        = s.pickLoop checks (lastMask config calls ||| 0x1#32) (c1 + 1) 0 := by
  obtain ⟨s, h_new, h_table, h_duration, h_mask⟩ := new_describes h_c1
  have h_run := h_table.run calls
  have h_last : (s.run calls).lastIdleDuration = lastDuration calls := by
    rw [X86IdleStates.run_lastIdleDuration, h_duration, lastDuration]
  refine ⟨s.run calls, h_run, h_last, fun checks => ?_⟩
  rw [pickAfter, h_new, Option.bind_eq_bind, Option.bind_some, X86IdleStates.pickIdleState,
    if_neg (by rwa [h_last]), X86IdleStates.run_stateMask h_mask, h_run.numStates, lastMask]

/-- The product of the factor and a duration overflows unless it fits. -/
theorem smulOverflow_factor {d : BitVec 64} :
    (3#64).smulOverflow d = false ↔ Fits 64 (3 * d.toInt) := by
  have h_three : (3#64).toInt = 3 := by decide
  rw [smulOverflow_eq_false_iff, h_three]

/-- Where the product fits, the loop picks the deepest candidate. -/
theorem picksDeepest_of_fits (h_c1 : IsLeast (baseSlots config) c1)
    (h_nonzero : lastDuration calls ≠ 0) (h_fits : Fits 64 (3 * (lastDuration calls).toInt)) :
    PicksDeepest config calls := by
  intro checks
  obtain ⟨s, h_table, h_last, h_pick⟩ := pickAfter_of_nonzero h_c1 h_nonzero
  have h_no : (3#64).smulOverflow s.lastIdleDuration = false := by
    rw [smulOverflow_factor, h_last]
    exact h_fits
  have h_value : (3#64 * s.lastIdleDuration).toInt = 3 * s.lastIdleDuration.toInt :=
    BitVec.toInt_mul_of_not_smulOverflow (by simp [h_no])
  have h_bound : checks.smul 3#64 s.lastIdleDuration = some (3#64 * s.lastIdleDuration) :=
    OverflowChecks.smul_eq_some h_no
  obtain ⟨picked, h_picked, h_spec⟩ := pickLoop_picks (lastMask config calls) h_table h_bound
    h_value (Nat.zero_add (c1 + 1)) (fun j _ => Nat.zero_le j)
  have h_toInt : (lastDuration calls).toInt ≠ 0 := fun h_zero =>
    h_nonzero (BitVec.eq_of_toInt_eq h_zero)
  rw [h_last] at h_spec
  refine ⟨picked, (h_pick checks).trans h_picked, c1, h_c1, Or.inr ?_⟩
  rcases h_spec with h_candidate | ⟨h_empty, h_fallback⟩
  · exact Or.inl ⟨h_toInt, h_candidate⟩
  · exact Or.inr ⟨h_toInt, h_empty, h_fallback⟩

/-- Where it does not, a build with checks panics. -/
theorem pickAfter_on_eq_none (h_c1 : IsLeast (baseSlots config) c1)
    (h_nonzero : lastDuration calls ≠ 0) (h_fits : ¬ Fits 64 (3 * (lastDuration calls).toInt)) :
    pickAfter config calls .on = none := by
  obtain ⟨s, h_table, h_last, h_pick⟩ := pickAfter_of_nonzero h_c1 h_nonzero
  have h_overflow : (3#64).smulOverflow s.lastIdleDuration = true := by
    rw [← Bool.not_eq_false, smulOverflow_factor, h_last]
    exact h_fits
  rw [h_pick]
  exact pickLoop_on_eq_none (lastMask config calls) h_table h_c1.1
    (OverflowChecks.smul_on_eq_none h_overflow) (Nat.zero_add (c1 + 1)) (Nat.zero_le _)

end Choice

/-- For every configuration with C1 and all calls: the deepest allowed state is picked,
    with no overflow, if and only if three times the duration that was last recorded is
    an `i64`. -/
theorem pickIdleState_deepest_iff
    (h_c1 : ∃ state ∈ config.states, x86IsBaseIdleState state = true) :
    PicksDeepest config calls ↔ Fits 64 (3 * (lastDuration calls).toInt) := by
  obtain ⟨c1, h_least⟩ := exists_isLeast_baseSlots h_c1
  by_cases h_zero : lastDuration calls = 0
  · have h_value : (lastDuration calls).toInt = 0 := by rw [h_zero]; decide
    refine iff_of_true (fun checks => ⟨c1, pickAfter_of_zero h_least h_zero, c1, h_least, ?_⟩) ?_
    · exact Or.inl ⟨h_value, rfl⟩
    · rw [h_value]
      decide
  · by_cases h_fits : Fits 64 (3 * (lastDuration calls).toInt)
    · exact iff_of_true (picksDeepest_of_fits h_least h_zero h_fits) h_fits
    · refine iff_of_false (fun h_picks => ?_) h_fits
      obtain ⟨i, h_some, -⟩ := h_picks .on
      rw [pickAfter_on_eq_none h_least h_zero h_fits] at h_some
      exact absurd h_some (by simp)

/-- A table of C6 and C1, with every state allowed. -/
def twoStates : X86IdleStatesConfig :=
  { states := (Vector.replicate x86MaxCstates (c1 1#32)).set 0
      { name := "C6", mwaitHint := 0x20#32, exitLatency := 133#32, flushesTlb := true }
    defaultStateMask := 0xFFFFFFFF#32 }

theorem pickIdleState_deepest_twoStates :
    PicksDeepest twoStates [.setStateMask 0x4#32, .recordDuration 1000000#64] :=
  (pickIdleState_deepest_iff ⟨twoStates.states[1], Vector.getElem_mem _, by decide⟩).mpr
    (by decide)

/-- After an idle time of 2^62 nanoseconds a build with checks panics, and one without
    picks C1, though C6 is allowed and wakes in time. -/
theorem pickIdleState_long_idle :
    pickAfter twoStates [.recordDuration (1#64 <<< 62)] .on = none ∧
      pickAfter twoStates [.recordDuration (1#64 <<< 62)] .off = some (some 1) ∧
      0 ∈ candidateSlots twoStates 1 0xFFFFFFFF#32 (2 ^ 62) ∧
      ¬ PicksDeepest twoStates [.recordDuration (1#64 <<< 62)] := by
  have h_panics : pickAfter twoStates [.recordDuration (1#64 <<< 62)] .on = none := by decide
  refine ⟨h_panics, by decide, ⟨by decide, _, rfl, ?_⟩, fun h_picks => ?_⟩
  · exact ⟨Or.inr (by decide), by decide⟩
  · obtain ⟨i, h_some, -⟩ := h_picks .on
    rw [h_panics] at h_some
    exact absurd h_some (by simp)

end IdleStates
end Zydon
