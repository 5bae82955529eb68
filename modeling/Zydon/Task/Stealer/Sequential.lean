/-
  Zydon.Task.Stealer.Sequential

  The work-stealing deque without interference: complete calls of `push`, `pop`,
  `steal` and `steal_batch`, one after the other, in any order.

  A complete call is the uninterrupted run of its steps.  What the calls mean is
  a list, with the oldest element first (`listCall`).  The elements are the cells
  from `top` up to `bottom`, wherever these lie in the buffer (`Holds`), and every
  call does to them what it does to the list (`refines_list`).
-/

import Zydon.Task.Stealer.Basic

namespace Zydon
namespace Stealer

open Lib

variable {T : Type*} {elemSize : ℕ+}

-- ============================================================================
-- Complete calls
-- ============================================================================

/-- The calls; `outLen` is the length of the output buffer of `steal_batch`. -/
inductive Call (T : Type*) where
  | push (val : T)
  | pop
  | steal
  | stealBatch (outLen : Nat)
  deriving DecidableEq

/-- What a call answers; for `steal_batch`, what it has written to the part of
    the output buffer whose length it returns. -/
inductive Answer (E : Type*) where
  | pushed
  | popped (result : Option E)
  | stolen (result : Option E)
  | batch (out : List E)
  deriving DecidableEq

/-- The owner is outside the deque. -/
def OwnerPc.isIdle : OwnerPc T → Bool
  | .idle => true
  | _ => false

/-- The thief is outside the deque. -/
def ThiefPc.isIdle : ThiefPc T → Bool
  | .idle => true
  | _ => false

/-- More steps than any call takes. -/
def callFuel : Nat := maxStealBatch + 4

/-- A call of the owner, uninterrupted. -/
def ownerCall (elemSize : ℕ+) (d : Deque T) (a : OwnerAction T) : Option (Deque T) :=
  match ownerStep elemSize d .idle a with
  | some (d, pc) => ((worker T elemSize).soloUntil OwnerPc.isIdle .run callFuel d pc).map Prod.fst
  | none => none

/-- A call of a thief, uninterrupted. -/
def thiefCall (d : Deque T) (a : ThiefAction) : Option (Deque T) :=
  match thiefStep d .idle a with
  | some (d, pc) => ((thief T).soloUntil ThiefPc.isIdle .run callFuel d pc).map Prod.fst
  | none => none

/-- What has been returned between `d` and `d'`; a cell that was never written
    is `none`. -/
def returnedSince (d d' : Deque T) : List (Option T) :=
  (d'.returned.drop d.returned.length).map (Option.map Prod.snd)

/-- One call, with its answer. -/
def call (elemSize : ℕ+) (d : Deque T) : Call T → Option (Answer (Option T) × Deque T)
  | .push val => (ownerCall elemSize d (.push val)).map fun d' => (.pushed, d')
  | .pop => (ownerCall elemSize d .pop).map fun d' => (.popped (returnedSince d d').head?, d')
  | .steal => (thiefCall d .steal).map fun d' => (.stolen (returnedSince d d').head?, d')
  | .stealBatch outLen =>
      (thiefCall d (.stealBatch outLen)).map fun d' => (.batch (returnedSince d d'), d')

/-- The deque, with the answers so far. -/
structure Session (T : Type*) where
  deque : Deque T
  answers : List (Answer (Option T))

/-- Sequences of calls. -/
def sequential (T : Type*) (elemSize : ℕ+) : Machine (Session T) (Call T) where
  init := { deque := Stealer.deque T, answers := [] }
  step := fun s a =>
    match call elemSize s.deque a with
    | some (answer, d) => some { deque := d, answers := s.answers ++ [answer] }
    | none => none

-- ============================================================================
-- The double-ended list
-- ============================================================================

/-- What a call answers, and what it leaves, of the elements `l`, oldest first. -/
def listCall (l : List T) : Call T → Answer T × List T
  | .push val => (.pushed, l ++ [val])
  | .pop => (.popped l.getLast?, l.dropLast)
  | .steal => (.stolen l.head?, l.tail)
  | .stealBatch outLen =>
      let k := min (min l.length outLen) maxStealBatch
      (.batch (l.take k), l.drop k)

/-- `None` and `0` are the answers on an empty list, or for an empty output
    buffer. -/
theorem listCall_empty_iff (l : List T) :
    ((listCall l .pop).1 = .popped none ↔ l = []) ∧
    ((listCall l .steal).1 = .stolen none ↔ l = []) ∧
    ∀ outLen, (listCall l (.stealBatch outLen)).1 = .batch [] ↔ l = [] ∨ outLen = 0 := by
  refine ⟨by simp [listCall], by simp [listCall], fun outLen => ?_⟩
  have h_max : 0 < maxStealBatch := by decide
  simp only [listCall, Answer.batch.injEq, List.take_eq_nil_iff, Nat.min_eq_zero_iff,
    List.length_eq_zero_iff]
  constructor
  · rintro (((h_nil | h_out) | h_zero) | h_nil)
    · exact .inl h_nil
    · exact .inr h_out
    · omega
    · exact .inl h_nil
  · rintro (h_nil | h_out)
    · exact .inr h_nil
    · exact .inl (.inl (.inr h_out))

/-- The answers to a sequence of calls, and the elements after it. -/
def listRun (l : List T) : List (Call T) → List (Answer T) × List T
  | [] => ([], l)
  | a :: calls =>
      let (answer, l') := listCall l a
      let (answers, l'') := listRun l' calls
      (answer :: answers, l'')

/-- The answer with every element read from its cell. -/
def Answer.read {E : Type*} : Answer E → Answer (Option E)
  | .pushed => .pushed
  | .popped result => .popped (result.map some)
  | .stolen result => .stolen (result.map some)
  | .batch out => .batch (out.map some)

/-- The call is a push. -/
def Call.isPush : Call T → Bool
  | .push _ => true
  | _ => false

-- ============================================================================
-- The list in the buffer
-- ============================================================================

/-- The value in the cell of an index. -/
def Deque.cell (d : Deque T) (i : Int) : Option T := (d.buffer.get i).map Prod.snd

/-- The deque contains the elements `l`; its indices may have wrapped. -/
structure Contains (d : Deque T) (l : List T) : Prop where
  top_eq : isize d.top = d.top
  bottom_eq : d.bottom = isize (d.top + l.length)
  fits : l.length ≤ d.buffer.cap
  logCap_le : d.buffer.logCap ≤ 62
  cells : slice d.cell d.top l.length = l.map some

/-- The larger buffer can be allocated, and the indices of a full deque do not
    wrap between `top` and `bottom`. -/
def Deque.MayGrow (d : Deque T) (elemSize : ℕ+) : Prop :=
  DequeBuffer.LayoutFits elemSize (1 <<< (d.buffer.logCap + 1)) ∧
    d.top + d.buffer.cap ≤ isizeMax

instance (d : Deque T) (elemSize : ℕ+) : Decidable (d.MayGrow elemSize) :=
  inferInstanceAs (Decidable (_ ∧ _))

/-- The deque holds the elements `l`, and `n` of them have been pushed so far. -/
structure Holds (n : Nat) (d : Deque T) (l : List T) : Prop where
  top_nonneg : 0 ≤ d.top
  bottom_eq : d.bottom = d.top + l.length
  bottom_le : d.bottom ≤ n
  fits : l.length ≤ d.buffer.cap
  logCap_le : d.buffer.logCap ≤ 62
  cells : slice d.cell d.top l.length = l.map some

theorem holds_deque : Holds 0 (deque T) [] where
  top_nonneg := le_refl _
  bottom_eq := rfl
  bottom_le := le_refl _
  fits := Nat.zero_le _
  logCap_le := show minLogCap ≤ 62 by decide
  cells := rfl

variable {n : Nat} {d : Deque T} {l : List T}

theorem Holds.length_le (hd : Holds n d l) : l.length ≤ n := by
  have h_top := hd.top_nonneg
  have h_bottom := hd.bottom_eq
  have h_le := hd.bottom_le
  omega

/-- The indices of fewer than `2 ^ 62` elements do not wrap. -/
theorem Holds.contains (hd : Holds n d l) (h_n : n < 2 ^ 62) : Contains d l where
  top_eq := by
    have h_top := hd.top_nonneg
    have h_bottom := hd.bottom_eq
    have h_le := hd.bottom_le
    exact isize_eq (by omega) (by unfold isizeMax; omega)
  bottom_eq := by
    have h_top := hd.top_nonneg
    have h_le := hd.bottom_le
    rw [← hd.bottom_eq, isize_eq (by have := hd.bottom_eq; omega) (by unfold isizeMax; omega)]
  fits := hd.fits
  logCap_le := hd.logCap_le
  cells := hd.cells

theorem Holds.of_contains (hd : Contains d l) (h_top : 0 ≤ d.top) (h_le : d.top + l.length ≤ n)
    (h_n : n ≤ 2 ^ 62) : Holds n d l := by
  have h_bottom : d.bottom = d.top + l.length := by
    rw [hd.bottom_eq]
    exact isize_eq (by omega) (by unfold isizeMax; omega)
  constructor
  case top_nonneg => exact h_top
  case bottom_eq => exact h_bottom
  case bottom_le => omega
  case fits => exact hd.fits
  case logCap_le => exact hd.logCap_le
  case cells => exact hd.cells

theorem Contains.length_le (hd : Contains d l) : (l.length : Int) ≤ 2 ^ 62 := by
  have h_fits := hd.fits
  have h_cap := DequeBuffer.cap_le_of_logCap_le hd.logCap_le
  omega

/-- The length that `push` and `steal_batch` compute. -/
theorem Contains.size_eq (hd : Contains d l) : isize (d.bottom - d.top) = l.length := by
  have h_length := hd.length_le
  have h_diff : d.top + (l.length : Int) - d.top = l.length := by omega
  rw [hd.bottom_eq, isize_sub_isize, h_diff]
  exact isize_eq (by omega) (by unfold isizeMax; omega)

theorem cell_congr (d : Deque T) {i j : Int} (h : isize i = isize j) : d.cell i = d.cell j := by
  rw [Deque.cell, Deque.cell, DequeBuffer.get_congr h]

/-- A slice from a wrapped index. -/
theorem slice_cell_isize (d : Deque T) (i : Int) (k : Nat) :
    slice d.cell (isize i) k = slice d.cell i k :=
  List.map_congr_left fun j _ => cell_congr d (isize_add_isize i j)

/-- The cells of the first `k` elements. -/
theorem Contains.take (hd : Contains d l) {k : Nat} (h_k : k ≤ l.length) :
    slice d.cell d.top k = (l.take k).map some := by
  obtain ⟨m, h_m⟩ := Nat.exists_eq_add_of_le h_k
  have h_cells := hd.cells
  rw [h_m, slice_add] at h_cells
  have h_take := congrArg (List.take k) h_cells
  rwa [List.take_left' length_slice, ← List.map_take] at h_take

/-- The cells of the elements behind the first `k`. -/
theorem Contains.drop (hd : Contains d l) {k : Nat} (h_k : k ≤ l.length) :
    slice d.cell (d.top + k) (l.length - k) = (l.drop k).map some := by
  have h_cells := hd.cells
  have h_split : l.length = k + (l.length - k) := by omega
  rw [h_split, slice_add] at h_cells
  have h_drop := congrArg (List.drop k) h_cells
  rwa [List.drop_left' length_slice, ← List.map_drop] at h_drop

/-- The first `k` elements leave the deque. -/
theorem Contains.advance (hd : Contains d l) {k : Nat} (h_k : k ≤ l.length)
    (returned : List (Option (Elem T))) :
    Contains { d with top := isize (d.top + k), returned := returned } (l.drop k) where
  top_eq := Int.bmod_bmod
  bottom_eq := by
    have h_end : d.top + (k : Int) + ((l.length - k : Nat) : Int) = d.top + l.length := by omega
    show d.bottom = isize (isize (d.top + k) + (l.drop k).length)
    rw [isize_add_isize, List.length_drop, h_end]
    exact hd.bottom_eq
  fits := by
    have := hd.fits
    rw [List.length_drop]
    show l.length - k ≤ d.buffer.cap
    omega
  logCap_le := hd.logCap_le
  cells := by
    show slice d.cell (isize (d.top + k)) (l.drop k).length = _
    rw [slice_cell_isize, List.length_drop]
    exact hd.drop h_k

theorem Holds.advance (hd : Holds n d l) (h_n : n < 2 ^ 62) {k : Nat} (h_k : k ≤ l.length)
    (returned : List (Option (Elem T))) :
    Holds n { d with top := isize (d.top + k), returned := returned } (l.drop k) := by
  have h_top := hd.top_nonneg
  have h_bottom := hd.bottom_eq
  have h_le := hd.bottom_le
  have h_next : isize (d.top + k) = d.top + k := isize_eq (by omega) (by unfold isizeMax; omega)
  refine .of_contains ((hd.contains h_n).advance h_k returned) ?_ ?_ (by omega)
  · show 0 ≤ isize (d.top + k)
    omega
  · show isize (d.top + k) + ((l.drop k).length : Int) ≤ n
    rw [h_next, List.length_drop]
    omega

/-! ## `push` -/

/-- A full buffer grows, whatever the cells its elements are in. -/
theorem Contains.grow (hd : Contains d l) (h_full : l.length = d.buffer.cap)
    (h_may : d.MayGrow elemSize) :
    ∃ buffer, d.buffer.grow elemSize d.top d.bottom = some buffer ∧
      buffer.logCap = d.buffer.logCap + 1 ∧ Contains { d with buffer := buffer } l ∧
        l.length < buffer.cap := by
  obtain ⟨h_layout, h_max⟩ := h_may
  have h_top := isize_bounds d.top
  rw [hd.top_eq] at h_top
  have h_bottom : d.bottom = d.top + l.length := by
    rw [hd.bottom_eq]
    exact isize_eq (by omega) (by omega)
  obtain ⟨buffer, h_grow⟩ : ∃ buffer, d.buffer.grow elemSize d.top d.bottom = some buffer :=
    ⟨_, by rw [DequeBuffer.grow_eq, if_pos h_layout]⟩
  obtain ⟨h_logCap, h_logCap_le, h_get⟩ := DequeBuffer.grow_spec h_grow (by omega) (by omega)
  have h_cap := DequeBuffer.cap_double h_logCap
  have h_pos := DequeBuffer.cap_pos d.buffer
  refine ⟨buffer, h_grow, h_logCap, ?_, by omega⟩
  constructor
  case top_eq => exact hd.top_eq
  case bottom_eq => exact hd.bottom_eq
  case fits =>
    show l.length ≤ buffer.cap
    omega
  case logCap_le => exact h_logCap_le
  case cells =>
    rw [← hd.cells]
    apply slice_congr
    intro i h_low h_high
    show (buffer.get i).map Prod.snd = (d.buffer.get i).map Prod.snd
    rw [h_get i h_low (show i < d.bottom by rw [h_bottom]; exact h_high)]

/-- With room for one more, an element is added behind the last. -/
theorem Contains.append (hd : Contains d l) (h_room : l.length < d.buffer.cap) (x : Elem T) :
    Contains
      { d with buffer := d.buffer.put d.bottom (some x), bottom := isize (d.bottom + 1)
               pushed := d.pushed ++ [x] } (l ++ [x.2]) := by
  have h_logCap := hd.logCap_le
  have h_put : d.buffer.put d.bottom (some x) = d.buffer.put (d.top + l.length) (some x) := by
    apply DequeBuffer.put_congr
    rw [hd.bottom_eq]
    exact Int.bmod_bmod
  rw [h_put]
  constructor
  case top_eq => exact hd.top_eq
  case bottom_eq =>
    show isize (d.bottom + 1) = isize (d.top + (l ++ [x.2]).length)
    rw [hd.bottom_eq, isize_add_isize, List.length_append, List.length_singleton, Nat.cast_succ,
      ← Int.add_assoc]
  case fits =>
    rw [List.length_append, List.length_singleton]
    exact h_room
  case logCap_le => exact h_logCap
  case cells =>
    rw [List.length_append, List.length_singleton, slice_succ, List.map_append, ← hd.cells]
    congr 1
    · apply slice_congr
      intro i h_low h_high
      show ((d.buffer.put (d.top + l.length) (some x)).get i).map Prod.snd =
        (d.buffer.get i).map Prod.snd
      have h_low : d.top ≤ i := h_low
      have h_high : i < d.top + (l.length : Int) := h_high
      rw [DequeBuffer.get_put_of_near (by omega) _ (by omega) (by omega) (by omega)]
    · show [((d.buffer.put (d.top + l.length) (some x)).get (d.top + l.length)).map Prod.snd] =
        [some x.2]
      rw [DequeBuffer.get_put_self, Option.map_some]

/-- The last two steps of `push`. -/
theorem solo_pushPut (d : Deque T) (b t : Int) (x : Elem T) :
    (worker T elemSize).Solo OwnerPc.isIdle .run 2 d (.pushPut b t x)
      { d with buffer := d.buffer.put b (some x), bottom := isize (b + 1)
               pushed := d.pushed ++ [x] } .idle :=
  .step rfl rfl (.step rfl rfl (.refl _ _))

/-- A call of the owner returns when its steps come to an end. -/
theorem ownerCall_eq (elemSize : ℕ+) {d₁ d' : Deque T} {a : OwnerAction T} {pc : OwnerPc T}
    {k : Nat}
    (h_start : ownerStep elemSize d .idle a = some (d₁, pc))
    (h_solo : (worker T elemSize).Solo OwnerPc.isIdle .run k d₁ pc d' .idle) (h_k : k ≤ callFuel) :
    ownerCall elemSize d a = some d' := by
  rw [ownerCall, h_start]
  simp only [h_solo.soloUntil rfl h_k, Option.map_some]

/-- The comparison of `push`. -/
theorem Contains.isFull_iff (hd : Contains d l) :
    isize (d.bottom - d.top) ≥ isize d.buffer.cap ↔ l.length = d.buffer.cap := by
  have h_fits := hd.fits
  have h_cap := DequeBuffer.cap_le_of_logCap_le hd.logCap_le
  rw [hd.size_eq, isize_eq (x := d.buffer.cap) (by omega) (by unfold isizeMax; omega)]
  omega

/-- `push` into a buffer with room. -/
theorem call_push_of_room {d : Deque T} (val : T)
    (h_room : ¬ isize (d.bottom - d.top) ≥ isize d.buffer.cap) :
    call elemSize d (.push val) = some (.pushed,
      { d with buffer := d.buffer.put d.bottom (some (d.pushed.length, val))
               bottom := isize (d.bottom + 1)
               pushed := d.pushed ++ [(d.pushed.length, val)] }) := by
  have h_load : ownerStep elemSize d (.pushLoadTop d.bottom (d.pushed.length, val)) .run =
      some (d, .pushPut d.bottom d.top (d.pushed.length, val)) := by
    simp only [ownerStep]
    rw [if_neg h_room]
  have h_call := ownerCall_eq elemSize (a := .push val) rfl
    (.step rfl h_load (solo_pushPut _ _ _ _)) (by decide)
  rw [call, h_call, Option.map_some]

/-- `push` into a full buffer. -/
theorem call_push_of_full {d : Deque T} {buffer : DequeBuffer (Elem T)} (val : T)
    (h_full : isize (d.bottom - d.top) ≥ isize d.buffer.cap)
    (h_grow : d.buffer.grow elemSize d.top d.bottom = some buffer) :
    call elemSize d (.push val) = some (.pushed,
      { d with buffer := buffer.put d.bottom (some (d.pushed.length, val))
               bottom := isize (d.bottom + 1)
               pushed := d.pushed ++ [(d.pushed.length, val)] }) := by
  have h_load : ownerStep elemSize d (.pushLoadTop d.bottom (d.pushed.length, val)) .run =
      some (d, .pushGrow d.bottom d.top (d.pushed.length, val)) := by
    simp only [ownerStep]
    rw [if_pos h_full]
  have h_replace : ownerStep elemSize d (.pushGrow d.bottom d.top (d.pushed.length, val)) .run =
      some ({ d with buffer := buffer }, .pushPut d.bottom d.top (d.pushed.length, val)) := by
    simp only [ownerStep, h_grow]
  have h_call := ownerCall_eq elemSize (a := .push val) rfl
    (.step rfl h_load (.step rfl h_replace (solo_pushPut _ _ _ _))) (by decide)
  rw [call, h_call, Option.map_some]

/-- `push` into a full buffer for which there is no larger one. -/
theorem call_push_of_panic {d : Deque T} (val : T)
    (h_full : isize (d.bottom - d.top) ≥ isize d.buffer.cap)
    (h_grow : d.buffer.grow elemSize d.top d.bottom = none) :
    call elemSize d (.push val) = none := by
  have h_load : ownerStep elemSize d (.pushLoadTop d.bottom (d.pushed.length, val)) .run =
      some (d, .pushGrow d.bottom d.top (d.pushed.length, val)) := by
    simp only [ownerStep]
    rw [if_pos h_full]
  have h_replace :
      ownerStep elemSize d (.pushGrow d.bottom d.top (d.pushed.length, val)) .run = none := by
    simp only [ownerStep, h_grow]
  have h_solo : (worker T elemSize).soloUntil OwnerPc.isIdle .run callFuel d
      (.pushLoadTop d.bottom (d.pushed.length, val)) = none := by
    show (worker T elemSize).soloUntil OwnerPc.isIdle .run (130 + 1 + 1) d _ = none
    simp only [ThreadProgram.soloUntil, worker, OwnerPc.isIdle, h_load, h_replace,
      Bool.false_eq_true, if_false]
  have h_call : ownerCall elemSize d (.push val) = none := by
    simp only [ownerCall, ownerStep, h_solo, Option.map_none]
  rw [call, h_call, Option.map_none]

/-- `push` puts the new element behind the last, in a buffer that grows when it
    is full. -/
theorem Contains.push (hd : Contains d l) (h_may : l.length = d.buffer.cap → d.MayGrow elemSize)
    (val : T) :
    ∃ d', call elemSize d (.push val) = some (.pushed, d') ∧ d'.top = d.top ∧
      d'.buffer.logCap = d.buffer.logCap + (if l.length = d.buffer.cap then 1 else 0) ∧
      Contains d' (l ++ [val]) := by
  by_cases h_full : l.length = d.buffer.cap
  · obtain ⟨buffer, h_grow, h_logCap, hd', h_room⟩ := hd.grow h_full (h_may h_full)
    refine ⟨_, call_push_of_full val (hd.isFull_iff.mpr h_full) h_grow, rfl, ?_,
      hd'.append h_room (d.pushed.length, val)⟩
    rw [if_pos h_full]
    exact h_logCap
  · have h_fits := hd.fits
    have h_room : l.length < d.buffer.cap := by omega
    refine ⟨_, call_push_of_room val (fun h => h_full (hd.isFull_iff.mp h)), rfl, ?_,
      hd.append h_room (d.pushed.length, val)⟩
    rw [if_neg h_full]
    rfl

/-- The indices of fewer than `2 ^ 62` elements allow the deque to grow. -/
theorem Holds.mayGrow_iff (hd : Holds n d l) (h_n : n < 2 ^ 62) (h_full : l.length = d.buffer.cap) :
    d.MayGrow elemSize ↔ DequeBuffer.LayoutFits elemSize (1 <<< (d.buffer.logCap + 1)) := by
  have h_bottom := hd.bottom_eq
  have h_le := hd.bottom_le
  refine and_iff_left ?_
  unfold isizeMax
  omega

theorem Holds.push_of_mayGrow (hd : Holds n d l) (h_n : n < 2 ^ 62)
    (h_may : l.length = d.buffer.cap → d.MayGrow elemSize) (val : T) :
    ∃ d', call elemSize d (.push val) = some (.pushed, d') ∧
      d.buffer.logCap ≤ d'.buffer.logCap ∧ Holds (n + 1) d' (l ++ [val]) := by
  have h_top := hd.top_nonneg
  have h_bottom := hd.bottom_eq
  have h_le := hd.bottom_le
  obtain ⟨d', h_call, h_same, h_logCap, hd'⟩ := (hd.contains h_n).push h_may val
  refine ⟨d', h_call, by omega, .of_contains hd' (by omega) ?_ h_n⟩
  rw [List.length_append, List.length_singleton]
  omega

/-- A full buffer can grow if a layout may have twice as many elements. -/
theorem Holds.push (hd : Holds n d l) (h_n : n < 2 ^ 62)
    (h_layout : DequeBuffer.LayoutFits elemSize (2 * l.length)) (val : T) :
    ∃ d', call elemSize d (.push val) = some (.pushed, d') ∧
      d.buffer.logCap ≤ d'.buffer.logCap ∧ Holds (n + 1) d' (l ++ [val]) := by
  refine hd.push_of_mayGrow h_n (fun h_full => (hd.mayGrow_iff h_n h_full).mpr ?_) val
  apply h_layout.mono
  rw [Nat.one_shiftLeft, Nat.pow_succ, ← DequeBuffer.cap_eq, h_full, Nat.mul_comm]

/-- A push that returns has put its element behind the last. -/
theorem Holds.of_push (hd : Holds n d l) (h_n : n < 2 ^ 62) {val : T}
    {r : Answer (Option T) × Deque T} (h_call : call elemSize d (.push val) = some r) :
    r.1 = .pushed ∧ Holds (n + 1) r.2 (l ++ [val]) := by
  by_cases h_may : l.length = d.buffer.cap → d.MayGrow elemSize
  · obtain ⟨d', h_push, -, hd'⟩ := hd.push_of_mayGrow h_n h_may val
    obtain rfl := Option.some.inj (h_push.symm.trans h_call)
    exact ⟨rfl, hd'⟩
  · obtain ⟨h_full, h_not⟩ := Classical.not_imp.mp h_may
    rw [hd.mayGrow_iff h_n h_full] at h_not
    have h_grow : d.buffer.grow elemSize d.top d.bottom = none := by
      rw [DequeBuffer.grow_eq, if_neg h_not]
    have h_panic := call_push_of_panic val ((hd.contains h_n).isFull_iff.mpr h_full) h_grow
    exact absurd (h_panic.symm.trans h_call) (by simp)

/-! ## `pop` -/

theorem returnedSince_eq {d' : Deque T} {out : List (Option (Elem T))}
    (h : d'.returned = d.returned ++ out) :
    returnedSince d d' = out.map (Option.map Prod.snd) := by
  rw [returnedSince, h, List.drop_left]

/-- The last element leaves the deque. -/
theorem Holds.dropLast {x : T} (hd : Holds n d (l ++ [x])) (h_n : n < 2 ^ 62)
    (returned : List (Option (Elem T))) :
    Holds n { d with bottom := d.bottom - 1, returned := returned } l := by
  have h_bottom := hd.bottom_eq
  have h_le := hd.bottom_le
  have h_fits := hd.fits
  rw [List.length_append, List.length_singleton] at h_bottom h_fits
  constructor
  case top_nonneg => exact hd.top_nonneg
  case bottom_eq =>
    show d.bottom - 1 = d.top + (l.length : Int)
    omega
  case bottom_le =>
    show d.bottom - 1 ≤ (n : Int)
    omega
  case fits =>
    show l.length ≤ d.buffer.cap
    omega
  case logCap_le => exact hd.logCap_le
  case cells =>
    have h_take := (hd.contains h_n).take (k := l.length) (by simp)
    rwa [List.take_left] at h_take

/-- The cell of the last element. -/
theorem Holds.cell_last {x : T} (hd : Holds n d (l ++ [x])) (h_n : n < 2 ^ 62) :
    d.cell (d.bottom - 1) = some x := by
  have h_bottom := hd.bottom_eq
  have h_cells := (hd.contains h_n).drop (k := l.length) (by simp)
  rw [List.length_append, List.length_singleton] at h_bottom h_cells
  rw [Nat.add_sub_cancel_left, List.drop_left] at h_cells
  have h_last : d.bottom - 1 = d.top + (l.length : Int) := by omega
  rw [h_last]
  simpa [slice] using h_cells

/-- The steps of `pop` on an empty deque: `bottom` is put back. -/
theorem solo_popEmpty {b : Int} (h_b : isize (b + 1) = d.bottom) (h : b < d.top) :
    (worker T elemSize).Solo OwnerPc.isIdle .run 3 d (.popStore b) d .idle := by
  have h_load : ownerStep elemSize { d with bottom := b } (.popLoadTop b) .run =
      some ({ d with bottom := b }, .popRestore b none) := by
    simp only [ownerStep]
    rw [if_neg (by omega)]
  have h_restore : ownerStep elemSize { d with bottom := b } (.popRestore b none) .run =
      some (d, .idle) := by
    simp only [ownerStep, h_b, Option.toList_none, List.append_nil]
  exact .step rfl rfl (.step rfl h_load (.step rfl h_restore (.refl _ _)))

/-- The load of `top`, when there is an element to take. -/
theorem ownerStep_popLoadTop (elemSize : ℕ+) {b : Int} (h : d.top ≤ b) :
    ownerStep elemSize { d with bottom := b } (.popLoadTop b) .run =
      some ({ d with bottom := b }, .popRead b d.top) := by
  simp only [ownerStep]
  rw [if_pos h]

/-- The steps of `pop` for the last element: `top` passes it, and `bottom` is put
    back. -/
theorem solo_popLast {b : Int} (h_b : isize (b + 1) = d.bottom) (h : d.top = b) :
    (worker T elemSize).Solo OwnerPc.isIdle .run 5 d (.popStore b)
      { d with top := isize (d.top + 1), returned := d.returned ++ [d.buffer.get b] } .idle := by
  have h_load := ownerStep_popLoadTop elemSize (d := d) (b := b) (by omega)
  have h_read : ownerStep elemSize { d with bottom := b } (.popRead b d.top) .run =
      some ({ d with bottom := b }, .popExchange b d.top (d.buffer.get b)) := by
    simp only [ownerStep, if_pos h]
  have h_exchange : ownerStep elemSize { d with bottom := b }
      (.popExchange b d.top (d.buffer.get b)) .run =
        some ({ d with bottom := b, top := isize (d.top + 1) },
          .popRestore b (some (d.buffer.get b))) := by
    simp only [ownerStep, if_true]
  have h_restore : ownerStep elemSize { d with bottom := b, top := isize (d.top + 1) }
      (.popRestore b (some (d.buffer.get b))) .run =
        some ({ d with top := isize (d.top + 1), returned := d.returned ++ [d.buffer.get b] },
          .idle) := by
    simp only [ownerStep, h_b, Option.toList_some]
  exact .step rfl rfl (.step rfl h_load (.step rfl h_read (.step rfl h_exchange
    (.step rfl h_restore (.refl _ _)))))

/-- The steps of `pop` for an element that is not the last. -/
theorem solo_popMore {b : Int} (h : d.top < b) :
    (worker T elemSize).Solo OwnerPc.isIdle .run 3 d (.popStore b)
      { d with bottom := b, returned := d.returned ++ [d.buffer.get b] } .idle := by
  have h_load := ownerStep_popLoadTop elemSize (d := d) (b := b) (by omega)
  have h_read : ownerStep elemSize { d with bottom := b } (.popRead b d.top) .run =
      some ({ d with bottom := b, returned := d.returned ++ [d.buffer.get b] }, .idle) := by
    simp only [ownerStep]
    rw [if_neg (by omega)]
  exact .step rfl rfl (.step rfl h_load (.step rfl h_read (.refl _ _)))

/-- `pop` takes the newest element. -/
theorem Holds.pop (hd : Holds n d l) (h_n : n < 2 ^ 62) (elemSize : ℕ+) :
    ∃ d', call elemSize d .pop = some (.popped (l.getLast?.map some), d') ∧
      Holds n d' l.dropLast := by
  have h_top := hd.top_nonneg
  have h_bottom := hd.bottom_eq
  have h_le := hd.bottom_le
  have h_start : ownerStep elemSize d .idle .pop = some (d, .popStore (d.bottom - 1)) := by
    rw [ownerStep, isize_eq (by omega) (by unfold isizeMax; omega)]
  have h_back : isize (d.bottom - 1 + 1) = d.bottom := by
    rw [isize_eq (by omega) (by unfold isizeMax; omega)]
    omega
  rcases List.eq_nil_or_concat' l with rfl | ⟨l', x, rfl⟩
  · rw [List.length_nil] at h_bottom
    have h_call := ownerCall_eq elemSize h_start (solo_popEmpty h_back (by omega)) (by decide)
    refine ⟨d, ?_, hd⟩
    rw [call, h_call, Option.map_some, returnedSince_eq (List.append_nil _).symm]
    rfl
  · have h_cell : (d.buffer.get (d.bottom - 1)).map Prod.snd = some x := hd.cell_last h_n
    rw [List.length_append, List.length_singleton] at h_bottom
    rw [List.getLast?_concat, List.dropLast_concat, Option.map_some]
    by_cases h_last : d.top = d.bottom - 1
    · have h_call := ownerCall_eq elemSize h_start (solo_popLast h_back h_last) (by decide)
      have h_nil : l' = [] := List.eq_nil_of_length_eq_zero (by omega)
      subst h_nil
      refine ⟨_, ?_, hd.advance h_n (k := 1) (by simp)
        (d.returned ++ [d.buffer.get (d.bottom - 1)])⟩
      rw [call, h_call, Option.map_some, returnedSince_eq rfl, List.map_singleton, h_cell,
        List.head?_cons]
      rfl
    · have h_call := ownerCall_eq elemSize h_start (solo_popMore (by omega)) (by decide)
      refine ⟨_, ?_, hd.dropLast h_n (d.returned ++ [d.buffer.get (d.bottom - 1)])⟩
      rw [call, h_call, Option.map_some, returnedSince_eq rfl, List.map_singleton, h_cell,
        List.head?_cons]

/-! ## `steal` and `steal_batch` -/

/-- A call of a thief returns when its steps come to an end. -/
theorem thiefCall_eq {d₁ d' : Deque T} {a : ThiefAction} {pc : ThiefPc T} {k : Nat}
    (h_start : thiefStep d .idle a = some (d₁, pc))
    (h_solo : (thief T).Solo ThiefPc.isIdle .run k d₁ pc d' .idle) (h_k : k ≤ callFuel) :
    thiefCall d a = some d' := by
  rw [thiefCall, h_start]
  simp only [h_solo.soloUntil rfl h_k, Option.map_some]

/-- The reads of a thief: `j` cells more. -/
theorem solo_reads {t : Int} {k i j : Nat} (h_j : i + j ≤ k) :
    (thief T).Solo ThiefPc.isIdle .run j d (.stealing t k (slice d.buffer.get t i)) d
      (.stealing t k (slice d.buffer.get t (i + j))) := by
  induction j generalizing i with
  | zero => exact .refl _ _
  | succ j ih =>
      have h_read : thiefStep d (.stealing t k (slice d.buffer.get t i)) .run =
          some (d, .stealing t k (slice d.buffer.get t (i + 1))) := by
        have h_cell : d.buffer.get (isize (t + i)) = d.buffer.get (t + i) :=
          DequeBuffer.get_congr Int.bmod_bmod
        simp only [thiefStep, length_slice]
        rw [if_pos (by omega), h_cell, slice_succ]
      rw [Nat.add_comm j 1, ← Nat.add_assoc, Nat.add_comm 1 j]
      exact .step rfl h_read (ih (by omega))

/-- The steps of a thief that goes for `k` elements. -/
theorem solo_stealing (d : Deque T) (k : Nat) :
    (thief T).Solo ThiefPc.isIdle .run (k + 1) d (.stealing d.top k [])
      { d with top := isize (d.top + k), returned := d.returned ++ slice d.buffer.get d.top k }
        .idle := by
  have h_exchange : thiefStep d (.stealing d.top k (slice d.buffer.get d.top k)) .run =
      some ({ d with top := isize (d.top + k)
                     returned := d.returned ++ slice d.buffer.get d.top k }, .idle) := by
    simp only [thiefStep, length_slice, Nat.lt_irrefl, if_false, if_true]
  have h_reads := solo_reads (d := d) (t := d.top) (k := k) (i := 0) (j := k) (by omega)
  rw [Nat.zero_add] at h_reads
  exact h_reads.trans (.step rfl h_exchange (.refl _ _))

/-- The steps of a thief that has loaded `top`, with what they bring it. -/
theorem Contains.steal_solo (hd : Contains d l) {limit : Option Nat} {k : Nat}
    (h_steal : toSteal limit d.top d.bottom = some k) (h_k : k ≤ l.length) :
    (thief T).Solo ThiefPc.isIdle .run (k + 2) d (.loadBottom limit d.top)
      { d with top := isize (d.top + k), returned := d.returned ++ slice d.buffer.get d.top k }
        .idle ∧
    (slice d.buffer.get d.top k).map (Option.map Prod.snd) = (l.take k).map some := by
  have h_load : thiefStep d (.loadBottom limit d.top) .run =
      some (d, .stealing d.top k []) := by
    simp only [thiefStep, h_steal]
  refine ⟨.step rfl h_load (solo_stealing d k), ?_⟩
  rw [← hd.take h_k, slice, slice, List.map_map]
  rfl

/-- `steal` takes the oldest element. -/
theorem Holds.steal (hd : Holds n d l) (h_n : n < 2 ^ 62) (elemSize : ℕ+) :
    ∃ d', call elemSize d .steal = some (.stolen (l.head?.map some), d') ∧ Holds n d' l.tail := by
  have h_bottom := hd.bottom_eq
  cases l with
  | nil =>
      have h_none : toSteal none d.top d.bottom = none := by
        rw [List.length_nil] at h_bottom
        simp only [toSteal]
        rw [if_neg (by omega)]
      have h_load : thiefStep d (.loadBottom none d.top) .run = some (d, .idle) := by
        simp only [thiefStep, h_none]
      have h_call := thiefCall_eq (a := .steal) rfl (.step rfl h_load (.refl _ _)) (by decide)
      refine ⟨d, ?_, hd⟩
      rw [call, h_call, Option.map_some, returnedSince_eq (List.append_nil _).symm]
      rfl
  | cons x l =>
      have h_one : toSteal none d.top d.bottom = some 1 := by
        rw [List.length_cons] at h_bottom
        simp only [toSteal]
        rw [if_pos (by omega)]
      obtain ⟨h_solo, h_taken⟩ := (hd.contains h_n).steal_solo h_one (by simp)
      have h_call := thiefCall_eq (a := .steal) rfl h_solo (by decide)
      refine ⟨_, ?_, hd.advance h_n (k := 1) (by simp) (d.returned ++ slice d.buffer.get d.top 1)⟩
      rw [call, h_call, Option.map_some, returnedSince_eq rfl, h_taken]
      rfl

/-- `steal_batch` takes the oldest elements, in order, up to the two limits. -/
theorem Contains.stealBatch (hd : Contains d l) (elemSize : ℕ+) (outLen : Nat) :
    ∃ returned, call elemSize d (.stealBatch outLen) =
      some (.batch ((l.take (min (min l.length outLen) maxStealBatch)).map some),
        { d with top := isize (d.top + (min (min l.length outLen) maxStealBatch : Nat))
                 returned := returned }) := by
  have h_available : (max (isize (d.bottom - d.top)) 0).toNat = l.length := by
    rw [hd.size_eq]
    omega
  set k := min (min l.length outLen) maxStealBatch with h_k_def
  have h_k : k ≤ l.length := by omega
  by_cases h_nil : l.length = 0
  · have h_none : toSteal (some outLen) d.top d.bottom = none := by
      simp only [toSteal, h_available, h_nil, if_true]
    have h_load : thiefStep d (.loadBottom (some outLen) d.top) .run = some (d, .idle) := by
      simp only [thiefStep, h_none]
    have h_call := thiefCall_eq (a := .stealBatch outLen) rfl (.step rfl h_load (.refl _ _))
      (by decide)
    have h_zero : k = 0 := by omega
    refine ⟨d.returned, ?_⟩
    rw [call, h_call, Option.map_some, returnedSince_eq (List.append_nil _).symm, h_zero,
      Nat.cast_zero, Int.add_zero, hd.top_eq]
    rfl
  · have h_some : toSteal (some outLen) d.top d.bottom = some k := by
      simp only [toSteal, h_available]
      rw [if_neg h_nil]
    obtain ⟨h_solo, h_taken⟩ := hd.steal_solo h_some h_k
    have h_fuel : k + 2 ≤ callFuel := by
      unfold callFuel
      omega
    have h_call := thiefCall_eq (a := .stealBatch outLen) rfl h_solo h_fuel
    refine ⟨d.returned ++ slice d.buffer.get d.top k, ?_⟩
    rw [call, h_call, Option.map_some, returnedSince_eq rfl, h_taken]

theorem Holds.stealBatch (hd : Holds n d l) (h_n : n < 2 ^ 62) (elemSize : ℕ+) (outLen : Nat) :
    ∃ d', call elemSize d (.stealBatch outLen) =
        some (.batch ((l.take (min (min l.length outLen) maxStealBatch)).map some), d') ∧
      Holds n d' (l.drop (min (min l.length outLen) maxStealBatch)) := by
  obtain ⟨returned, h_call⟩ := (hd.contains h_n).stealBatch elemSize outLen
  exact ⟨_, h_call, hd.advance h_n (by omega) returned⟩

-- ============================================================================
-- Sequences of calls
-- ============================================================================

/-- A call that is not a `push` returns, and does to the deque what it does to the list. -/
theorem Holds.takes (hd : Holds n d l) (h_n : n < 2 ^ 62) (elemSize : ℕ+) {a : Call T}
    (h_a : a.isPush = false) :
    ∃ d', Stealer.call elemSize d a = some ((listCall l a).1.read, d') ∧
      Holds n d' (listCall l a).2 := by
  cases a with
  | push val => exact absurd h_a (by simp [Call.isPush])
  | pop => exact hd.pop h_n elemSize
  | steal => exact hd.steal h_n elemSize
  | stealBatch outLen => exact hd.stealBatch h_n elemSize outLen

theorem Call.eq_push {a : Call T} (h_a : a.isPush = true) : ∃ val, a = .push val := by
  cases a with
  | push val => exact ⟨val, rfl⟩
  | pop | steal | stealBatch outLen => exact absurd h_a (by simp [Call.isPush])

/-- So does a `push` that returns. -/
theorem Holds.call (hd : Holds n d l) (h_n : n < 2 ^ 62) {a : Call T}
    {r : Answer (Option T) × Deque T} (h_call : Stealer.call elemSize d a = some r) :
    r.1 = (listCall l a).1.read ∧ Holds (n + if a.isPush then 1 else 0) r.2 (listCall l a).2 := by
  cases h_a : a.isPush with
  | true =>
      obtain ⟨val, rfl⟩ := Call.eq_push h_a
      exact hd.of_push h_n h_call
  | false =>
      obtain ⟨d', h_takes, hd'⟩ := hd.takes h_n elemSize h_a
      obtain rfl := Option.some.inj (h_takes.symm.trans h_call)
      exact ⟨rfl, hd'⟩

/-- It returns if the layout of the larger buffer is not refused. -/
theorem Holds.returns (hd : Holds n d l) (h_n : n < 2 ^ 62) (a : Call T)
    (h_layout : DequeBuffer.LayoutFits elemSize (2 * l.length)) :
    ∃ r, Stealer.call elemSize d a = some r := by
  cases h_a : a.isPush with
  | true =>
      obtain ⟨val, rfl⟩ := Call.eq_push h_a
      obtain ⟨d', h_push, -⟩ := hd.push h_n h_layout val
      exact ⟨_, h_push⟩
  | false =>
      obtain ⟨d', h_takes, -⟩ := hd.takes h_n elemSize h_a
      exact ⟨_, h_takes⟩

theorem sequential_step_eq_some {s s' : Session T} {a : Call T} :
    (sequential T elemSize).step s a = some s' ↔ ∃ r, call elemSize s.deque a = some r ∧
      s' = { deque := r.2, answers := s.answers ++ [r.1] } := by
  simp only [sequential]
  cases h_call : call elemSize s.deque a with
  | none => simp
  | some r => simp [eq_comm]

theorem countP_isPush_cons (n : Nat) (a : Call T) (calls : List (Call T)) :
    n + (a :: calls).countP Call.isPush =
      n + (if a.isPush then 1 else 0) + calls.countP Call.isPush := by
  rw [List.countP_cons]
  omega

/-- The calls of a session answer what they do on the list. -/
theorem Holds.exec {calls : List (Call T)} (hd : Holds n d l)
    {answers : List (Answer (Option T))} (h_n : n + calls.countP Call.isPush < 2 ^ 62)
    {s : Session T} (h_run : (sequential T elemSize).exec ⟨d, answers⟩ calls = some s) :
    s.answers = answers ++ (listRun l calls).1.map Answer.read ∧
      Holds (n + calls.countP Call.isPush) s.deque (listRun l calls).2 := by
  induction calls generalizing n d l answers with
  | nil =>
      obtain rfl := Option.some.inj h_run
      exact ⟨(List.append_nil _).symm, hd⟩
  | cons a calls ih =>
      rw [countP_isPush_cons] at h_n ⊢
      obtain ⟨m, h_step, h_rest⟩ := Machine.exec_cons_eq_some.mp h_run
      obtain ⟨r, h_call, rfl⟩ := sequential_step_eq_some.mp h_step
      obtain ⟨h_answer, hd'⟩ := hd.call (by omega) h_call
      obtain ⟨h_answers, h_holds⟩ := ih hd' h_n h_rest
      refine ⟨?_, h_holds⟩
      rw [h_answers, h_answer, List.append_assoc]
      rfl

/-- They return, if the layouts of the larger buffers are not refused. -/
theorem Holds.exec_returns {calls : List (Call T)} (hd : Holds n d l)
    (answers : List (Answer (Option T))) (h_n : n + calls.countP Call.isPush < 2 ^ 62)
    (h_layout : DequeBuffer.LayoutFits elemSize (2 * (n + calls.countP Call.isPush))) :
    ∃ s, (sequential T elemSize).exec ⟨d, answers⟩ calls = some s := by
  induction calls generalizing n d l answers with
  | nil => exact ⟨_, rfl⟩
  | cons a calls ih =>
      rw [countP_isPush_cons] at h_n h_layout
      have h_length := hd.length_le
      obtain ⟨r, h_call⟩ := hd.returns (by omega) a (h_layout.mono (by omega))
      obtain ⟨-, hd'⟩ := hd.call (by omega) h_call
      obtain ⟨s, h_run⟩ := ih hd' (answers ++ [r.1]) h_n h_layout
      exact ⟨s, Machine.exec_cons_eq_some.mpr ⟨_, sequential_step_eq_some.mpr ⟨r, h_call, rfl⟩,
        h_run⟩⟩

/-- The deque answers `None` or 0 when the elements `l` are no more, or the output
    buffer of a batch has no room. -/
structure EmptyAnswers (elemSize : ℕ+) (d : Deque T) (l : List T) : Prop where
  pop : (call elemSize d .pop).map Prod.fst = some (.popped none) ↔ l = []
  steal : (call elemSize d .steal).map Prod.fst = some (.stolen none) ↔ l = []
  stealBatch : ∀ outLen, (call elemSize d (.stealBatch outLen)).map Prod.fst = some (.batch []) ↔
    l = [] ∨ outLen = 0

theorem Holds.emptyAnswers (hd : Holds n d l) (h_n : n < 2 ^ 62) : EmptyAnswers elemSize d l := by
  obtain ⟨h_pop, h_steal, h_batch⟩ := listCall_empty_iff l
  have h_answer : ∀ a : Call T, a.isPush = false →
      (Stealer.call elemSize d a).map Prod.fst = some (listCall l a).1.read := by
    intro a h_a
    obtain ⟨d', h_call, -⟩ := hd.takes h_n elemSize h_a
    rw [h_call, Option.map_some]
  constructor
  case pop =>
    rw [h_answer .pop rfl, ← h_pop]
    simp [listCall, Answer.read]
  case steal =>
    rw [h_answer .steal rfl, ← h_steal]
    simp [listCall, Answer.read]
  case stealBatch =>
    intro outLen
    rw [h_answer (.stealBatch outLen) rfl, ← h_batch outLen]
    simp [listCall, Answer.read]

/-- Every sequence of complete calls with fewer than `2 ^ 62` pushes is answered as
    on a list of the elements, oldest first, and leaves the elements of that list in
    the deque, in order; the next call finds the deque empty when the list is.  The
    calls are complete, at least if a layout may have twice as many elements as are
    pushed: for elements of one byte it always may. -/
theorem refines_list (elemSize : ℕ+) {calls : List (Call T)}
    (h_pushes : calls.countP Call.isPush < 2 ^ 62) :
    (DequeBuffer.LayoutFits elemSize (2 * calls.countP Call.isPush) →
      ∃ s, (sequential T elemSize).exec (sequential T elemSize).init calls = some s) ∧
    ∀ s, (sequential T elemSize).exec (sequential T elemSize).init calls = some s →
      s.answers = (listRun [] calls).1.map Answer.read ∧
      s.deque.bottom = s.deque.top + (listRun [] calls).2.length ∧
      slice s.deque.cell s.deque.top (listRun [] calls).2.length =
        (listRun [] calls).2.map some ∧
      EmptyAnswers elemSize s.deque (listRun [] calls).2 := by
  have h_n : 0 + calls.countP Call.isPush < 2 ^ 62 := by omega
  refine ⟨fun h_layout => ?_, fun s h_run => ?_⟩
  · exact Holds.exec_returns holds_deque [] h_n (by rwa [Nat.zero_add])
  · obtain ⟨h_answers, h_holds⟩ := Holds.exec holds_deque h_n h_run
    exact ⟨h_answers, h_holds.bottom_eq, h_holds.cells, h_holds.emptyAnswers h_n⟩

/-- Three pushes, a `pop`, a batch of at most five, and a `pop` of nothing. -/
def sessionCalls : List (Call Nat) :=
  [.push 1, .push 2, .push 3, .pop, .stealBatch 5, .pop]

example : (listRun [] sessionCalls).1 =
    [.pushed, .pushed, .pushed, .popped (some 3), .batch [1, 2], .popped none] := by
  decide

theorem refines_sessionCalls :
    ∃ s, (sequential Nat 8).exec (sequential Nat 8).init sessionCalls = some s ∧
      s.answers = (listRun [] sessionCalls).1.map Answer.read ∧
      EmptyAnswers 8 s.deque [] := by
  obtain ⟨h_returns, h_answers⟩ := refines_list 8
    (show sessionCalls.countP Call.isPush < 2 ^ 62 by decide)
  obtain ⟨s, h_run⟩ := h_returns (by decide)
  exact ⟨s, h_run, (h_answers s h_run).1, (h_answers s h_run).2.2.2⟩

end Stealer
end Zydon
