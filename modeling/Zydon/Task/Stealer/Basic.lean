/-
  Zydon.Task.Stealer.Basic

  The work-stealing deque of `task/stealer.rs`, one load, store,
  compare-exchange, or read or write of an element at a time, sequentially
  consistent.

  One owner pushes and pops at the bottom, any number of thieves steal at the
  top, one element (`steal`) or a batch (`stealBatch`).  The code never looks
  into the elements it moves; here an element is the number of the push that
  brought it, with its value, and `pushed` and `returned` record which elements
  have gone in and come out.  An element takes `elemSize` bytes of the buffer, at
  least one.
-/

import Mathlib.Data.PNat.Basic
import Zydon.Lib.Interleaving
import Zydon.Lib.Ring

namespace Zydon
namespace Stealer

open Lib

-- ============================================================================
-- Machine integers
-- ============================================================================

/-- `isize::MAX`. -/
def isizeMax : Int := 2 ^ 63 - 1

/-- The `isize` a result wraps to. -/
def isize (x : Int) : Int := x.bmod (2 ^ 64)

theorem isize_eq {x : Int} (h_low : 0 ≤ x + 2 ^ 63) (h_high : x ≤ isizeMax) : isize x = x := by
  unfold isizeMax at h_high
  apply Int.bmod_eq_of_le
  · show -((2 ^ 64 : Nat) / 2 : Int) ≤ x
    omega
  · show x < ((2 ^ 64 : Nat) + 1) / 2
    omega

theorem isize_bounds (x : Int) : 0 ≤ isize x + 2 ^ 63 ∧ isize x ≤ isizeMax := by
  have h_low := Int.le_bmod (x := x) (m := 2 ^ 64) (by decide)
  have h_high := Int.bmod_lt (x := x) (m := 2 ^ 64) (by decide)
  unfold isize isizeMax
  omega

/-- Wrapping in between does not matter for a sum, -/
@[simp] theorem isize_add_isize (x y : Int) : isize (isize x + y) = isize (x + y) :=
  Int.bmod_add_bmod

/-- and not for a difference. -/
@[simp] theorem isize_sub_isize (x y : Int) : isize (isize x - y) = isize (x - y) :=
  Int.bmod_sub_bmod

-- ============================================================================
-- The buffer
-- ============================================================================

/-- `DequeBuffer`; a cell that has not been written holds `none`. -/
structure DequeBuffer (E : Type*) where
  data : Nat → Option E
  logCap : Nat

namespace DequeBuffer

variable {E : Type*}

/-- `cap`. -/
def cap (buf : DequeBuffer E) : Nat := 1 <<< buf.logCap

/-- `mask`. -/
def mask (buf : DequeBuffer E) : Nat := buf.cap - 1

/-- `i as usize & self.mask()`. -/
def index (buf : DequeBuffer E) (i : Int) : Nat := (i % 2 ^ 64).toNat &&& buf.mask

/-- `Layout::array::<T>(cap)` is not refused: `isize::MAX` bytes hold the elements. -/
def LayoutFits (elemSize : ℕ+) (cap : Nat) : Prop := ((elemSize * cap : Nat) : Int) ≤ isizeMax

instance (elemSize : ℕ+) (cap : Nat) : Decidable (LayoutFits elemSize cap) :=
  inferInstanceAs (Decidable (_ ≤ isizeMax))

/-- `DequeBuffer::new`, or `none` for its panic. -/
def new (elemSize : ℕ+) (logCap : Nat) : Option (DequeBuffer E) :=
  if LayoutFits elemSize (1 <<< logCap) then some { data := fun _ => none, logCap := logCap }
  else none

/-- `get`. -/
def get (buf : DequeBuffer E) (i : Int) : Option E := buf.data (buf.index i)

/-- `put`. -/
def put (buf : DequeBuffer E) (i : Int) (val : Option E) : DequeBuffer E :=
  { buf with data := Function.update buf.data (buf.index i) val }

/-- The loop of `grow`: the `n` elements from index `i` on are copied. -/
def copy (old : DequeBuffer E) (buf : DequeBuffer E) (i : Int) : Nat → DequeBuffer E
  | 0 => buf
  | n + 1 => copy old (buf.put i (old.get i)) (i + 1) n

/-- `Worker::grow`: the buffer that replaces `old`, whose elements are the ones
    from `t` to `b`. -/
def grow (old : DequeBuffer E) (elemSize : ℕ+) (t b : Int) : Option (DequeBuffer E) :=
  (new elemSize (old.logCap + 1)).map fun buf => copy old buf t (b - t).toNat

end DequeBuffer

-- ============================================================================
-- The deque and its users
-- ============================================================================

/-- An element: the number of the push that brought it, and its value. -/
abbrev Elem (T : Type*) := Nat × T

/-- `DequeInner`, with the elements pushed and returned so far. -/
structure Deque (T : Type*) where
  bottom : Int
  top : Int
  buffer : DequeBuffer (Elem T)
  pushed : List (Elem T)
  returned : List (Option (Elem T))

/-- The size of a pointer, the element of an executor's deques. -/
def pointerSize : ℕ+ := 8

/-- `MIN_CAPACITY.trailing_zeros()`. -/
def minLogCap : Nat := 6

/-- `MAX_STEAL_BATCH`. -/
def maxStealBatch : Nat := 128

/-- `deque`. -/
def deque (T : Type*) : Deque T where
  bottom := 0
  top := 0
  buffer := { data := fun _ => none, logCap := minLogCap }
  pushed := []
  returned := []

variable {T : Type*}

/-- Where the owner is: outside the deque, or before the operation named, with
    its local variables. -/
inductive OwnerPc (T : Type*) where
  | idle
  /-- In `push`: the load of `top`. -/
  | pushLoadTop (b : Int) (val : Elem T)
  /-- In `push`: the replacement of the buffer. -/
  | pushGrow (b t : Int) (val : Elem T)
  /-- In `push`: the write of the element. -/
  | pushPut (b t : Int) (val : Elem T)
  /-- In `push`: the store of `bottom`. -/
  | pushStore (b : Int) (val : Elem T)
  /-- In `pop`: the first store of `bottom`. -/
  | popStore (b : Int)
  /-- In `pop`: the load of `top`. -/
  | popLoadTop (b : Int)
  /-- In `pop`: the read of the element. -/
  | popRead (b t : Int)
  /-- In `pop`: the exchange for the last element. -/
  | popExchange (b t : Int) (val : Option (Elem T))
  /-- In `pop`: the second store of `bottom`; then `result` is returned. -/
  | popRestore (b : Int) (result : Option (Option (Elem T)))
  deriving DecidableEq

/-- Where a thief is. -/
inductive ThiefPc (T : Type*) where
  | idle
  /-- In `steal` (no `limit`) or in `steal_batch` with an output buffer of
      length `limit`: the load of `bottom`. -/
  | loadBottom (limit : Option Nat) (t : Int)
  /-- The reads of the `k` elements from index `t`, of which `vals` have been
      read, and then the exchange of `top`. -/
  | stealing (t : Int) (k : Nat) (vals : List (Option (Elem T)))
  deriving DecidableEq

/-- The labels of the owner: the start of a call with its first load, and every
    later operation. -/
inductive OwnerAction (T : Type*) where
  | push (val : T)
  | pop
  | run
  deriving DecidableEq

/-- The labels of a thief. -/
inductive ThiefAction where
  | steal
  | stealBatch (outLen : Nat)
  | run
  deriving DecidableEq

/-- One operation of the owner. -/
def ownerStep (elemSize : ℕ+) (d : Deque T) :
    OwnerPc T → OwnerAction T → Option (Deque T × OwnerPc T)
  | .idle, .push val => some (d, .pushLoadTop d.bottom (d.pushed.length, val))
  | .idle, .pop => some (d, .popStore (isize (d.bottom - 1)))
  | .pushLoadTop b val, .run =>
      let t := d.top
      if isize (b - t) ≥ isize d.buffer.cap then some (d, .pushGrow b t val)
      else some (d, .pushPut b t val)
  | .pushGrow b t val, .run =>
      match d.buffer.grow elemSize t b with
      | some buffer => some ({ d with buffer := buffer }, .pushPut b t val)
      | none => none
  | .pushPut b _ val, .run =>
      some ({ d with buffer := d.buffer.put b (some val) }, .pushStore b val)
  | .pushStore b val, .run =>
      some ({ d with bottom := isize (b + 1), pushed := d.pushed ++ [val] }, .idle)
  | .popStore b, .run => some ({ d with bottom := b }, .popLoadTop b)
  | .popLoadTop b, .run =>
      let t := d.top
      if t ≤ b then some (d, .popRead b t) else some (d, .popRestore b none)
  | .popRead b t, .run =>
      let val := d.buffer.get b
      if t = b then some (d, .popExchange b t val)
      else some ({ d with returned := d.returned ++ [val] }, .idle)
  | .popExchange b t val, .run =>
      if d.top = t then some ({ d with top := isize (t + 1) }, .popRestore b (some val))
      else some (d, .popRestore b none)
  | .popRestore b result, .run =>
      some ({ d with bottom := isize (b + 1), returned := d.returned ++ result.toList }, .idle)
  | _, _ => none

/-- How many elements a thief that has loaded `t` and `b` goes for; `none` if
    it returns at once. -/
def toSteal (limit : Option Nat) (t b : Int) : Option Nat :=
  match limit with
  | none => if t < b then some 1 else none
  | some outLen =>
      let available := (max (isize (b - t)) 0).toNat
      if available = 0 then none else some (min (min available outLen) maxStealBatch)

/-- One operation of a thief.  The read of an element takes in the loads of `data` and
    `cap` that come before it; `Stealer.Loads` has them as steps of their own. -/
def thiefStep (d : Deque T) : ThiefPc T → ThiefAction → Option (Deque T × ThiefPc T)
  | .idle, .steal => some (d, .loadBottom none d.top)
  | .idle, .stealBatch outLen => some (d, .loadBottom (some outLen) d.top)
  | .loadBottom limit t, .run =>
      match toSteal limit t d.bottom with
      | some k => some (d, .stealing t k [])
      | none => some (d, .idle)
  | .stealing t k vals, .run =>
      if vals.length < k then
        some (d, .stealing t k (vals ++ [d.buffer.get (isize (t + vals.length))]))
      else if d.top = t then
        some ({ d with top := isize (t + k), returned := d.returned ++ vals }, .idle)
      else some (d, .idle)
  | _, _ => none

/-- The owner. -/
def worker (T : Type*) (elemSize : ℕ+) :
    ThreadProgram (Deque T) (OwnerPc T) (OwnerAction T) where
  start := .idle
  step := ownerStep elemSize

/-- A thief. -/
def thief (T : Type*) : ThreadProgram (Deque T) (ThiefPc T) ThiefAction where
  start := .idle
  step := thiefStep

/-- The deque with its owner and its thieves. -/
abbrev State (Thief T : Type*) := OwnerAndThreads Thief (Deque T) (OwnerPc T) (ThiefPc T)

/-- One owner and any number of thieves, interleaved. -/
def machine (Thief T : Type*) [DecidableEq Thief] (elemSize : ℕ+) :
    Machine (State Thief T) (OwnerAction T ⊕ Thief × ThiefAction) :=
  ownerAndThreads Thief (worker T elemSize) (thief T) (deque T)

-- ============================================================================
-- Reads and writes of the buffer
-- ============================================================================

namespace DequeBuffer

variable {E : Type*} {buf : DequeBuffer E} {elemSize : ℕ+}

theorem cap_eq (buf : DequeBuffer E) : buf.cap = 2 ^ buf.logCap := by
  rw [cap, Nat.one_shiftLeft]

theorem cap_pos (buf : DequeBuffer E) : 0 < buf.cap := by
  rw [cap_eq]
  exact Nat.two_pow_pos _

theorem cap_double {old : DequeBuffer E} (h : buf.logCap = old.logCap + 1) :
    buf.cap = old.cap + old.cap := by
  rw [cap_eq, cap_eq, h, Nat.pow_succ, Nat.mul_two]

/-- A smaller array fits as well. -/
theorem LayoutFits.mono {cap cap' : Nat} (h : LayoutFits elemSize cap) (h_le : cap' ≤ cap) :
    LayoutFits elemSize cap' := by
  have h_bytes : (elemSize * cap' : Nat) ≤ elemSize * cap := Nat.mul_le_mul_left _ h_le
  unfold LayoutFits at h ⊢
  omega

/-- `isize::MAX` bytes hold fewer than `2 ^ 63` elements. -/
theorem LayoutFits.logCap_le {k : Nat} (h : LayoutFits elemSize (1 <<< k)) : k ≤ 62 := by
  have h_bytes : 1 * 2 ^ k ≤ (elemSize : Nat) * 2 ^ k := Nat.mul_le_mul_right _ elemSize.pos
  rw [LayoutFits, Nat.one_shiftLeft] at h
  unfold isizeMax at h
  by_contra h_large
  have h_pow : 2 ^ 63 ≤ 2 ^ k := Nat.pow_le_pow_right (by decide) (by omega)
  omega

/-- A capacity is a power of two that an `isize` can hold. -/
theorem cap_le_of_logCap_le (h : buf.logCap ≤ 62) : (buf.cap : Int) ≤ 2 ^ 62 := by
  rw [cap_eq]
  exact_mod_cast Nat.pow_le_pow_right (by decide) h

/-- `grow` panics when the doubled capacity is too large. -/
theorem grow_eq (old : DequeBuffer E) (t b : Int) : old.grow elemSize t b =
    if LayoutFits elemSize (1 <<< (old.logCap + 1)) then
      some (copy old { data := fun _ => none, logCap := old.logCap + 1 } t (b - t).toNat)
    else none := by
  rw [grow, new]
  by_cases h_fits : LayoutFits elemSize (1 <<< (old.logCap + 1))
  · rw [if_pos h_fits, if_pos h_fits, Option.map_some]
  · rw [if_neg h_fits, if_neg h_fits, Option.map_none]

/-- The cell of an index is its residue. -/
theorem index_eq (h_cap : buf.logCap ≤ 64) (i : Int) : (buf.index i : Int) = i % buf.cap := by
  have h_dvd : (2 ^ buf.logCap : Int) ∣ 2 ^ 64 := pow_dvd_pow 2 h_cap
  have h_nonneg : 0 ≤ i % 2 ^ 64 := Int.emod_nonneg _ (by decide)
  rw [index, mask, cap_eq, Nat.and_two_pow_sub_one_eq_mod, Int.natCast_emod,
    Int.toNat_of_nonneg h_nonneg, Int.natCast_pow]
  exact Int.emod_emod_of_dvd _ h_dvd

/-- Indices that wrap to the same `isize` are in the same cell. -/
theorem index_congr {i j : Int} (h : isize i = isize j) : buf.index i = buf.index j := by
  have h_word : i % 2 ^ 64 = j % 2 ^ 64 := by
    have h_i : isize i % 2 ^ 64 = i % 2 ^ 64 := Int.bmod_emod
    have h_j : isize j % 2 ^ 64 = j % 2 ^ 64 := Int.bmod_emod
    rw [← h_i, ← h_j, h]
  rw [index, index, h_word]

theorem get_congr {i j : Int} (h : isize i = isize j) : buf.get i = buf.get j := by
  rw [get, get, index_congr h]

theorem put_congr {i j : Int} (h : isize i = isize j) (val : Option E) :
    buf.put i val = buf.put j val := by
  rw [put, put, index_congr h]

@[simp] theorem put_logCap (i : Int) (val : Option E) : (buf.put i val).logCap = buf.logCap := rfl

@[simp] theorem put_cap (i : Int) (val : Option E) : (buf.put i val).cap = buf.cap := rfl

theorem get_put (i j : Int) (val : Option E) :
    (buf.put i val).get j = if buf.index j = buf.index i then val else buf.get j := by
  show Function.update buf.data (buf.index i) val (buf.index j) = _
  rw [Function.update_apply]
  rfl

@[simp] theorem get_put_self (i : Int) (val : Option E) : (buf.put i val).get i = val := by
  rw [get_put, if_pos rfl]

/-- A write leaves the elements less than a capacity away. -/
theorem get_put_of_near (h_cap : buf.logCap ≤ 64) {i j : Int} (val : Option E) (h_ne : j ≠ i)
    (h_ij : j - i < buf.cap) (h_ji : i - j < buf.cap) : (buf.put i val).get j = buf.get j := by
  rw [get_put, if_neg]
  intro h_index
  have h_cell : j % (buf.cap : Int) = i % buf.cap := by
    rw [← index_eq h_cap, ← index_eq h_cap, h_index]
  exact h_ne (eq_of_emod_eq h_cell (by omega) (by omega))

/-- The copying loop: the elements from `i` on are those of the old buffer, and
    the ones before, up to a capacity away from the last, stay. -/
theorem copy_spec (old buf : DequeBuffer E) (h_cap : buf.logCap ≤ 64) (i : Int) (n : Nat)
    (h_fits : n ≤ buf.cap) :
    (copy old buf i n).logCap = buf.logCap ∧
    (∀ j, i ≤ j → j < i + n → (copy old buf i n).get j = old.get j) ∧
    ∀ j, j < i → i + n - buf.cap ≤ j → (copy old buf i n).get j = buf.get j := by
  induction n generalizing buf i with
  | zero =>
      refine ⟨rfl, fun j h_low h_high => ?_, fun _ _ _ => rfl⟩
      omega
  | succ n ih =>
      have h_next := ih (buf.put i (old.get i)) h_cap (i + 1) (show n ≤ buf.cap by omega)
      rw [put_cap, put_logCap] at h_next
      obtain ⟨h_log, h_copied, h_kept⟩ := h_next
      refine ⟨h_log, fun j h_low h_high => ?_, fun j h_low h_high => ?_⟩
      · by_cases h_j : j = i
        · subst h_j
          rw [copy, h_kept j (by omega) (by omega), get_put_self]
        · exact h_copied j (by omega) (by omega)
      · rw [copy, h_kept j (by omega) (by omega)]
        exact get_put_of_near h_cap _ (by omega) (by omega) (by omega)

/-- `grow` keeps the elements, and at least doubles the room. -/
theorem grow_spec {old : DequeBuffer E} {t b : Int} (h : old.grow elemSize t b = some buf)
    (h_le : t ≤ b) (h_fits : b - t ≤ old.cap) :
    buf.logCap = old.logCap + 1 ∧ buf.logCap ≤ 62 ∧
      ∀ j, t ≤ j → j < b → buf.get j = old.get j := by
  rw [grow_eq] at h
  split at h
  · next h_layout =>
      obtain rfl := Option.some.inj h
      have h_small : old.logCap + 1 ≤ 62 := h_layout.logCap_le
      let fresh : DequeBuffer E := { data := fun _ => none, logCap := old.logCap + 1 }
      have h_room : (b - t).toNat ≤ fresh.cap := by
        have h_double : fresh.cap = old.cap + old.cap := cap_double rfl
        omega
      obtain ⟨h_logCap, h_copied, -⟩ :=
        copy_spec old fresh (show old.logCap + 1 ≤ 64 by omega) t (b - t).toNat h_room
      refine ⟨h_logCap, ?_, fun j h_low h_high => h_copied j h_low (by omega)⟩
      rw [h_logCap]
      exact h_small
  · exact nomatch h

end DequeBuffer

end Stealer
end Zydon
