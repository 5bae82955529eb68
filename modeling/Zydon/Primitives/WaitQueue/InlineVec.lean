/-
  Zydon.Primitives.WaitQueue.InlineVec

  The vector in which `wake_all` collects the wakers, `heapless::Vec` of
  `primitives/wait_queue.rs`: what it yields through its iterator and what it drops.
  Reading a value out leaves the cell as it is, and the drop of the vector knows only
  its length, so that every value that was yielded is dropped as well.
-/

import Mathlib.Data.Vector.Basic
import Zydon.Primitives.WaitQueue.WakeAll

namespace Zydon
namespace Heapless

variable {α : Type*} {n : Nat}

/-! ## The vector -/

/-- The cells, of which `none` is uninitialized, and how many are in use. -/
structure Vec (α : Type*) (n : Nat) where
  buf : Vector (Option α) n
  len : Nat

namespace Vec

def new (α : Type*) (n : Nat) : Vec α n := { buf := Vector.replicate n none, len := 0 }

/-- `push`: a full vector gives the value back. -/
def push (v : Vec α n) (val : α) : Except α Unit × Vec α n :=
  if h : v.len ≥ n then (.error val, v)
  else (.ok (), { buf := v.buf.set v.len (some val) (by omega), len := v.len + 1 })

/-- The value in cell `i`; to take an uninitialized cell for one is undefined
    (`none`), and so is no cell. -/
def assumeInit (v : Vec α n) (i : Nat) : Option α := v.buf[i]?.join

/-- The loop of `drop` from cell `i` on, for `rounds` more cells: the values dropped. -/
def dropLoop (v : Vec α n) : Nat → Nat → Option (List α)
  | 0, _ => some []
  | rounds + 1, i => do
      let val ← v.assumeInit i
      return val :: (← dropLoop v rounds (i + 1))

def drop (v : Vec α n) : Option (List α) := v.dropLoop v.len 0

end Vec

structure IntoIter (α : Type*) (n : Nat) where
  vec : Vec α n
  idx : Nat

def Vec.intoIter (v : Vec α n) : IntoIter α n := { vec := v, idx := 0 }

/-- `next`: the value is read out of its cell. -/
def IntoIter.next (it : IntoIter α n) : Option (Option α × IntoIter α n) :=
  if it.idx ≥ it.vec.len then some (none, it)
  else do
    let val ← it.vec.assumeInit it.idx
    return (some val, { it with idx := it.idx + 1 })

/-! ## Its use -/

/-- Pushes one after the other, with their results. -/
def pushAll : Vec α n → List α → List (Except α Unit) × Vec α n
  | v, [] => ([], v)
  | v, val :: vals =>
      let (result, v) := v.push val
      let (results, v) := pushAll v vals
      (result :: results, v)

/-- `calls` calls of `next`, with what they yield. -/
def nexts : Nat → IntoIter α n → Option (List α × IntoIter α n)
  | 0, it => some ([], it)
  | calls + 1, it => do
      let (val, it) ← it.next
      let (vals, it) ← nexts calls it
      return (val.toList ++ vals, it)

/-- A vector from its construction to the drop of its iterator, which drops the vector:
    the results of the pushes, what the iterator yields, and what is dropped. -/
def lifetime (n : Nat) (vals : List α) (calls : Nat) :
    Option (List (Except α Unit) × List α × List α) := do
  let (results, v) := pushAll (Vec.new α n) vals
  let (yielded, it) ← nexts calls v.intoIter
  let dropped ← it.vec.drop
  return (results, yielded, dropped)

/-! ## What the cells hold -/

/-- The cells in use hold the values of the list. -/
structure Holds (v : Vec α n) (vals : List α) : Prop where
  len : v.len = vals.length
  cell : ∀ i, (h_i : i < vals.length) → v.buf[i]? = some (some vals[i])

variable {v : Vec α n} {vals : List α}

theorem Holds.new : Holds (Vec.new α n) [] where
  len := rfl
  cell i h_i := absurd h_i (Nat.not_lt_zero i)

theorem Holds.assumeInit (h : Holds v vals) {i : Nat} (h_i : i < vals.length) :
    v.assumeInit i = some vals[i] := by
  rw [Vec.assumeInit, h.cell i h_i, Option.join_some]

theorem Holds.push (h : Holds v vals) (h_room : vals.length < n) (val : α) :
    ∃ v', v.push val = (.ok (), v') ∧ Holds v' (vals ++ [val]) := by
  have h_len : ¬ v.len ≥ n := by
    rw [h.len]
    omega
  refine ⟨_, by rw [Vec.push, dif_neg h_len], ?_, fun i h_i => ?_⟩
  · rw [List.length_append, List.length_singleton]
    exact congrArg (· + 1) h.len
  · rw [List.length_append, List.length_singleton] at h_i
    by_cases h_last : i = vals.length
    · subst h_last
      simp [h.len, h_room]
    · rw [List.getElem_append_left (by omega), ← h.cell i (by omega)]
      exact Vector.getElem?_set_ne (by omega) (by rw [h.len]; omega)

theorem Holds.push_full (h : Holds v vals) (h_full : n ≤ vals.length) (val : α) :
    v.push val = (.error val, v) := by
  have h_len : v.len ≥ n := by rwa [h.len]
  rw [Vec.push, dif_pos h_len]

/-- The pushes that find room succeed, and the others give their value back. -/
theorem Holds.pushAll (h : Holds v vals) (more : List α) :
    ∃ v', pushAll v more = ((more.take (n - vals.length)).map (fun _ => .ok ())
        ++ (more.drop (n - vals.length)).map .error, v') ∧
      Holds v' (vals ++ more.take (n - vals.length)) := by
  induction more generalizing v vals with
  | nil => exact ⟨v, by simp [Heapless.pushAll], by simpa using h⟩
  | cons val more ih =>
      by_cases h_room : vals.length < n
      · obtain ⟨v₁, h_push, h_holds⟩ := h.push h_room val
        obtain ⟨v', h_more, h_all⟩ := ih h_holds
        have h_left : n - vals.length = n - (vals ++ [val]).length + 1 := by
          rw [List.length_append, List.length_singleton]
          omega
        refine ⟨v', ?_, ?_⟩
        · simp only [Heapless.pushAll, h_push, h_more, h_left]
          simp
        · rw [h_left, List.take_succ_cons]
          simpa using h_all
      · have h_none : n - vals.length = 0 := by omega
        obtain ⟨v', h_more, h_all⟩ := ih h
        rw [h_none] at h_more h_all ⊢
        refine ⟨v', ?_, by simpa using h_all⟩
        simp only [Heapless.pushAll, h.push_full (Nat.le_of_not_lt h_room), h_more]
        simp

/-! ## What is yielded and what is dropped -/

/-- The drop of the cells from `i` on drops the values they hold. -/
theorem Holds.dropLoop (h : Holds v vals) {rounds i : Nat} (h_rounds : i + rounds = vals.length) :
    v.dropLoop rounds i = some (vals.drop i) := by
  induction rounds generalizing i with
  | zero => rw [Vec.dropLoop, List.drop_of_length_le (by omega)]
  | succ rounds ih =>
      have h_i : i < vals.length := by omega
      rw [Vec.dropLoop, h.assumeInit h_i, ih (by omega), List.drop_eq_getElem_cons h_i]
      rfl

theorem Holds.drop (h : Holds v vals) : v.drop = some vals := by
  rw [Vec.drop, h.len, h.dropLoop (Nat.zero_add _), List.drop_zero]

theorem Holds.next_of_lt (h : Holds v vals) {idx : Nat} (h_idx : idx < vals.length) :
    IntoIter.next ⟨v, idx⟩ = some (some vals[idx], ⟨v, idx + 1⟩) := by
  have h_len : ¬ idx ≥ v.len := by
    rw [h.len]
    omega
  rw [IntoIter.next, if_neg h_len, h.assumeInit h_idx]
  rfl

theorem Holds.next_of_ge (h : Holds v vals) {idx : Nat} (h_idx : idx ≥ vals.length) :
    IntoIter.next ⟨v, idx⟩ = some (none, ⟨v, idx⟩) := by
  have h_len : idx ≥ v.len := by rwa [h.len]
  rw [IntoIter.next, if_pos h_len]

/-- The calls yield the values in order, and leave the vector as it was. -/
theorem Holds.nexts (h : Holds v vals) (calls idx : Nat) :
    ∃ idx', nexts calls ⟨v, idx⟩ = some ((vals.drop idx).take calls, ⟨v, idx'⟩) := by
  induction calls generalizing idx with
  | zero => exact ⟨idx, by rw [Heapless.nexts, List.take_zero]⟩
  | succ calls ih =>
      by_cases h_idx : idx < vals.length
      · obtain ⟨idx', h_rest⟩ := ih (idx + 1)
        refine ⟨idx', ?_⟩
        rw [Heapless.nexts, h.next_of_lt h_idx, List.drop_eq_getElem_cons h_idx,
          List.take_succ_cons]
        simp [h_rest]
      · obtain ⟨idx', h_rest⟩ := ih idx
        refine ⟨idx', ?_⟩
        have h_nil : vals.drop idx = [] := List.drop_of_length_le (by omega)
        rw [h_nil, List.take_nil] at h_rest ⊢
        rw [Heapless.nexts, h.next_of_ge (Nat.le_of_not_lt h_idx)]
        simp [h_rest]

/-- The whole life of a vector that holds `held` after its pushes: the calls of `next`
    take nothing from what is dropped. -/
theorem Holds.lifetime {held : List α} (h : Holds (Heapless.pushAll (Vec.new α n) vals).2 held)
    (calls : Nat) : lifetime n vals calls =
      some ((Heapless.pushAll (Vec.new α n) vals).1, held.take calls, held) := by
  obtain ⟨idx, h_nexts⟩ := h.nexts calls 0
  rw [List.drop_zero] at h_nexts
  simp only [Heapless.lifetime, Vec.intoIter, h_nexts, h.drop, Option.bind_eq_bind,
    Option.bind_some]
  rfl

theorem lifetime_eq (n : Nat) (vals : List α) (calls : Nat) :
    lifetime n vals calls = some
      ((vals.take n).map (fun _ => .ok ()) ++ (vals.drop n).map .error,
        (vals.take n).take calls, vals.take n) := by
  have h_new : Holds (Vec.new α n) [] := Holds.new
  obtain ⟨v, h_push, h_holds⟩ := h_new.pushAll vals
  rw [List.length_nil, Nat.sub_zero] at h_push h_holds
  rw [List.nil_append] at h_holds
  have h_after : Holds (Heapless.pushAll (Vec.new α n) vals).2 (vals.take n) := by
    rw [h_push]
    exact h_holds
  rw [h_after.lifetime calls, h_push]

/-- The pushes that find room succeed, those beyond the capacity give their value back,
    and every value that was pushed is yielded or dropped, once in all. -/
def OwnsOnce (n : Nat) (vals : List α) (calls : Nat) : Prop :=
  ∃ yielded dropped,
    lifetime n vals calls = some
      ((vals.take n).map (fun _ => .ok ()) ++ (vals.drop n).map .error, yielded, dropped) ∧
    (yielded ++ dropped).Perm (vals.take n)

/-- Every value is owned once if and only if none is yielded: no call of `next` is made,
    or there is no value to yield. -/
theorem ownsOnce_iff (n : Nat) (vals : List α) (calls : Nat) :
    OwnsOnce n vals calls ↔ calls = 0 ∨ n = 0 ∨ vals = [] := by
  have h_nil : (vals.take n).take calls = [] ↔ calls = 0 ∨ n = 0 ∨ vals = [] := by
    rw [List.take_eq_nil_iff, List.take_eq_nil_iff]
  rw [← h_nil, OwnsOnce, lifetime_eq]
  refine ⟨?_, fun h_none => ?_⟩
  · rintro ⟨yielded, dropped, h_life, h_perm⟩
    simp only [Option.some.injEq, Prod.mk.injEq, true_and] at h_life
    obtain ⟨rfl, rfl⟩ := h_life
    have h_length := h_perm.length_eq
    rw [List.length_append] at h_length
    exact List.length_eq_zero_iff.mp (by omega)
  · refine ⟨[], vals.take n, by rw [h_none], ?_⟩
    rw [List.nil_append]

/-- One value and one call: it is yielded, and dropped as well. -/
theorem lifetime_yields_and_drops :
    lifetime 64 [7] 1 = some ([.ok ()], [7], [7]) ∧ ¬ OwnsOnce 64 [7] 1 := by
  have h_life : lifetime 64 [7] 1 = some ([.ok ()], [7], [7]) := lifetime_eq 64 [7] 1
  refine ⟨h_life, ?_⟩
  rintro ⟨yielded, dropped, h_some, h_perm⟩
  rw [h_life] at h_some
  simp only [Option.some.injEq, Prod.mk.injEq] at h_some
  obtain ⟨-, rfl, rfl⟩ := h_some
  exact absurd h_perm.length_eq (by decide)

/-! ## The wakers of `wake_all` -/

section WakeAll

open WaitQueue

variable {ι Waker : Type*}

/-- `pushWaker` is `push`, with the value that is given back dropped. -/
theorem Holds.pushWaker {v : Vec Waker wakersCapacity} {wakers : List Waker} (h : Holds v wakers)
    (waker : Waker) : Holds (v.push waker).2 (pushWaker wakers (some waker)) := by
  by_cases h_full : wakers.length ≥ wakersCapacity
  · rw [h.push_full h_full, WaitQueue.pushWaker, if_pos h_full]
    exact h
  · obtain ⟨v', h_push, h_holds⟩ := h.push (by omega) waker
    rw [h_push, WaitQueue.pushWaker, if_neg h_full]
    exact h_holds

/-- The vector holds the wakers that were taken from the nodes. -/
theorem Holds.pushWakers {v : Vec Waker wakersCapacity} {wakers : List Waker} (h : Holds v wakers)
    (taken : List (Option Waker)) :
    Holds (Heapless.pushAll v (taken.filterMap id)).2 (taken.foldl WaitQueue.pushWaker wakers) := by
  induction taken generalizing v wakers with
  | nil => exact h
  | cons waker taken ih =>
      cases waker with
      | none => exact ih h
      | some waker => exact ih (h.pushWaker waker)

variable [DecidableEq ι]

/-- The wakers that `wake_all` collects were pushed one after the other. -/
theorem wakeAllLoop_pushed {fuel : Nat} {wakers wakers' : List Waker}
    {q q' : WaitQueue ι Waker} (h : wakeAllLoop fuel wakers q = some (wakers', q')) :
    ∃ taken : List (Option Waker), wakers' = taken.foldl pushWaker wakers := by
  induction fuel generalizing wakers q with
  | zero =>
      rw [wakeAllLoop] at h
      split at h
      · obtain ⟨rfl, -⟩ : wakers = wakers' ∧ _ = q' := by simpa using h
        exact ⟨[], rfl⟩
      · exact absurd h (by simp)
  | succ fuel ih =>
      rw [wakeAllLoop] at h
      split at h
      · obtain ⟨rfl, -⟩ : wakers = wakers' ∧ _ = q' := by simpa using h
        exact ⟨[], rfl⟩
      · next waker q₁ _ =>
          obtain ⟨taken, rfl⟩ := ih h
          exact ⟨waker :: taken, rfl⟩

/-- A waker that `wake_all` invokes has been consumed by the call of `wake`, and is
    dropped once more with the vector. -/
theorem wakeAll_drops_invoked {fuel : Nat} {wakers : List Waker} {q q' : WaitQueue ι Waker}
    (h : wakeAllSection fuel q = some (wakers, q')) :
    ∃ pushed results, lifetime wakersCapacity pushed (wakers.length + 1)
      = some (results, wakers, wakers) := by
  obtain ⟨taken, rfl⟩ := wakeAllLoop_pushed h
  have h_new : Holds (Vec.new Waker wakersCapacity) [] := Holds.new
  have h_life := (h_new.pushWakers taken).lifetime ((taken.foldl pushWaker []).length + 1)
  rw [List.take_of_length_le (Nat.le_succ _)] at h_life
  exact ⟨_, _, h_life⟩

end WakeAll

end Heapless
end Zydon
