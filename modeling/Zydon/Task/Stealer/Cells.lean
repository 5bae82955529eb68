/-
  Zydon.Task.Stealer.Cells

  What the cells of the work-stealing deque hold, over every interleaving of its owner
  with thieves that steal batches.

  A batch may take elements that pops have taken already, and move `top` past `bottom`;
  the elements of the next pushes are then lost.  What comes out has been pushed all the
  same: below a high-water mark, which pops and batches do not lower, every cell from
  `top` on has been written.  A thief whose exchange succeeds has read such cells, and
  `grow` copies all of them.
-/

import Zydon.Task.Stealer.Single

namespace Zydon
namespace Stealer

open Lib

variable {Thief T : Type*} {elemSize : ℕ+}

-- ============================================================================
-- The invariant
-- ============================================================================

/-- The element that is in its cell and not counted as pushed yet. -/
def OwnerPc.writing : OwnerPc T → List (Elem T)
  | .pushStore _ val => [val]
  | _ => []

/-- The elements that have been written to their cells. -/
def written (d : Deque T) (pc : OwnerPc T) : List (Elem T) := d.pushed ++ pc.writing

/-- What has been read is an element of `known`, not a cell that has not been written. -/
def IsRead (known : List (Elem T)) (v : Option (Elem T)) : Prop := ∃ e ∈ known, v = some e

/-- The cells of the deque, with the high-water mark `high`. -/
structure Cells (d : Deque T) (high : Int) (known : List (Elem T)) : Prop where
  top_nonneg : 0 ≤ d.top
  top_le : d.top ≤ high
  bottom_le : d.bottom ≤ high
  fits : high ≤ d.top + d.buffer.cap
  high_le : high ≤ d.pushed.length
  logCap_le : d.buffer.logCap ≤ 62
  elems : ∀ i e, d.buffer.get i = some e → e ∈ known
  filled : ∀ i, d.top ≤ i → i < high → (d.buffer.get i).isSome
  returned : ∀ v ∈ d.returned, IsRead known v

/-- The local variables of the owner. -/
def OwnerReads (d : Deque T) (high : Int) (known : List (Elem T)) : OwnerPc T → Prop
  | .idle => 0 ≤ d.bottom
  | .pushLoadTop b _ => b = d.bottom ∧ 0 ≤ b
  | .pushGrow b t _ => b = d.bottom ∧ 0 ≤ b ∧ t ≤ d.top ∧ t ≤ b ∧ b - t ≤ d.buffer.cap ∧ high ≤ b
  | .pushPut b t _ => b = d.bottom ∧ 0 ≤ b ∧ t ≤ d.top ∧ b - t < d.buffer.cap
  | .pushStore b val => b = d.bottom ∧ 0 ≤ b ∧ d.buffer.get b = some val ∧
      b - d.top < d.buffer.cap
  | .popStore b => b + 1 = d.bottom ∧ 0 ≤ d.bottom
  | .popLoadTop b => b = d.bottom ∧ -1 ≤ b ∧ b < high
  | .popRead b t => b = d.bottom ∧ 0 ≤ b ∧ b < high ∧ t ≤ d.top ∧ (d.buffer.get b).isSome
  | .popExchange b t val => b = d.bottom ∧ 0 ≤ b ∧ b < high ∧ t = b ∧ IsRead known val
  | .popRestore b result => b = d.bottom ∧ -1 ≤ b ∧ b < high ∧ ∀ v ∈ result, IsRead known v

/-- The local variables of a thief: as long as its exchange can succeed, its range is
    below the mark and it has read elements. -/
def ThiefReads (top high : Int) (known : List (Elem T)) : ThiefPc T → Prop
  | .idle => True
  | .loadBottom _ t => 0 ≤ t ∧ t ≤ top
  | .stealing t k vals => 0 ≤ t ∧ t ≤ top ∧
      (t = top → t + k ≤ high ∧ ∀ v ∈ vals, IsRead known v)

/-- The invariant, after the start of `n` pushes. -/
structure CellsInv (n : Nat) (high : Int) (s : State Thief T) : Prop where
  cells : Cells s.shared high (written s.shared s.owner)
  pushes : s.shared.pushed.length + s.owner.pushing ≤ n
  owner : OwnerReads s.shared high (written s.shared s.owner) s.owner
  thief : ∀ h, ThiefReads s.shared.top high (written s.shared s.owner) (s.thread h)

theorem IsRead.mono {known known' : List (Elem T)} {v : Option (Elem T)} (h : IsRead known v)
    (h_known : known ⊆ known') : IsRead known' v := by
  obtain ⟨e, h_e, rfl⟩ := h
  exact ⟨e, h_known h_e, rfl⟩

theorem cellsInv_init [DecidableEq Thief] : CellsInv 0 0 (machine Thief T elemSize).init where
  cells :=
    { top_nonneg := le_refl 0
      top_le := le_refl 0
      bottom_le := le_refl 0
      fits := show (0 : Int) ≤ 0 + ((1 <<< minLogCap : Nat) : Int) by decide
      high_le := le_refl 0
      logCap_le := show minLogCap ≤ 62 by decide
      elems := fun _ _ h => absurd h (by simp [machine, ownerAndThreads, deque, DequeBuffer.get])
      filled := fun i h_low h_high => absurd h_high (not_lt.mpr h_low)
      returned := fun _ h => absurd h (by simp [machine, ownerAndThreads, deque]) }
  pushes := le_refl 0
  owner := le_refl 0
  thief := fun _ => trivial

variable {d : Deque T} {high : Int} {known : List (Elem T)}

/-- A cell that has been written holds an element. -/
theorem Cells.isRead (hd : Cells d high known) {i : Int} (h : (d.buffer.get i).isSome) :
    IsRead known (d.buffer.get i) := by
  obtain ⟨e, h_e⟩ := Option.isSome_iff_exists.mp h
  exact ⟨e, hd.elems i e h_e, h_e⟩

/-- A thief keeps its invariant when the mark and `top` move on. -/
theorem ThiefReads.mono {top top' high' : Int} {known' : List (Elem T)} {q : ThiefPc T}
    (h : ThiefReads top high known q) (h_top : top ≤ top') (h_high : high ≤ high')
    (h_known : known ⊆ known') : ThiefReads top' high' known' q := by
  cases q with
  | idle => trivial
  | loadBottom limit t => exact ⟨h.1, h.2.trans h_top⟩
  | stealing t k vals =>
      obtain ⟨h_nonneg, h_le, h_range⟩ := h
      refine ⟨h_nonneg, h_le.trans h_top, fun h_t => ?_⟩
      obtain ⟨h_end, h_vals⟩ := h_range (by omega)
      exact ⟨by omega, fun v h_v => (h_vals v h_v).mono h_known⟩

/-- The owner keeps its invariant when a thief moves `top` on. -/
theorem OwnerReads.advance {d' : Deque T} {pc : OwnerPc T} (h : OwnerReads d high known pc)
    (h_top : d.top ≤ d'.top) (h_bottom : d'.bottom = d.bottom) (h_buffer : d'.buffer = d.buffer) :
    OwnerReads d' high known pc := by
  cases pc with
  | idle | pushLoadTop b val | popStore b | popLoadTop b | popRestore b result
  | popExchange b t val =>
      simp only [OwnerReads, h_bottom] at h ⊢
      exact h
  | pushGrow b t val | pushPut b t val =>
      simp only [OwnerReads, h_bottom, h_buffer] at h ⊢
      omega
  | pushStore b val =>
      simp only [OwnerReads, h_bottom, h_buffer] at h ⊢
      exact ⟨h.1, h.2.1, h.2.2.1, by omega⟩
  | popRead b t =>
      simp only [OwnerReads, h_bottom, h_buffer] at h ⊢
      exact ⟨h.1, h.2.1, h.2.2.1, by omega, h.2.2.2.2⟩

-- ============================================================================
-- Steps of the owner
-- ============================================================================

variable {n : Nat} {thread : Thief → ThiefPc T}

/-- A step of the owner that writes no cell and leaves `top` alone. -/
theorem CellsInv.of_owner {bottom : Int} {out : List (Option (Elem T))} {pc pc' : OwnerPc T}
    (hs : CellsInv n high ⟨d, pc, thread⟩) (h_writing : pc.writing = pc'.writing)
    (h_pushing : pc'.pushing ≤ pc.pushing) (h_bottom : bottom ≤ high)
    (h_out : ∀ v ∈ out, IsRead (written d pc) v)
    (h_owner : OwnerReads { d with bottom := bottom, returned := d.returned ++ out } high
      (written d pc) pc') :
    CellsInv n high ⟨{ d with bottom := bottom, returned := d.returned ++ out }, pc', thread⟩ := by
  have h_known : written { d with bottom := bottom, returned := d.returned ++ out } pc' =
      written d pc := by
    rw [written, written, h_writing]
  have h_pushes := hs.pushes
  constructor
  case cells =>
    rw [h_known]
    exact { hs.cells with
      bottom_le := h_bottom
      returned := List.forall_mem_append.mpr ⟨hs.cells.returned, h_out⟩ }
  case pushes =>
    simp only at h_pushes ⊢
    omega
  case owner =>
    rw [h_known]
    exact h_owner
  case thief =>
    rw [h_known]
    exact hs.thief

/-- One that writes nothing at all. -/
theorem CellsInv.move {pc pc' : OwnerPc T} (hs : CellsInv n high ⟨d, pc, thread⟩)
    (h_writing : pc.writing = pc'.writing) (h_pushing : pc'.pushing ≤ pc.pushing)
    (h_owner : OwnerReads d high (written d pc) pc') : CellsInv n high ⟨d, pc', thread⟩ := by
  have h_same : { d with bottom := d.bottom, returned := d.returned ++ [] } = d := by
    rw [List.append_nil]
  rw [← h_same]
  refine hs.of_owner h_writing h_pushing hs.cells.bottom_le (by simp) ?_
  rw [h_same]
  exact h_owner

/-- The indices are far from where they wrap. -/
theorem Cells.bounds (hd : Cells d high known) (h_n : d.pushed.length < 2 ^ 62) :
    0 ≤ high ∧ high < 2 ^ 62 ∧ (d.buffer.cap : Int) ≤ 2 ^ 62 ∧
      isize d.buffer.cap = d.buffer.cap := by
  have h_cap := DequeBuffer.cap_le_of_logCap_le hd.logCap_le
  have h_nonneg := hd.top_nonneg
  have h_le := hd.top_le
  have h_high := hd.high_le
  refine ⟨by omega, by omega, h_cap, isize_eq (by omega) ?_⟩
  unfold isizeMax
  omega

theorem CellsInv.push (hs : CellsInv n high ⟨d, .idle, thread⟩) (val : T) :
    CellsInv (n + 1) high ⟨d, .pushLoadTop d.bottom (d.pushed.length, val), thread⟩ := by
  have h_pushes : d.pushed.length + 0 ≤ n := hs.pushes
  have h_bottom : 0 ≤ d.bottom := hs.owner
  exact ⟨hs.cells, show d.pushed.length + 1 ≤ n + 1 by omega, ⟨rfl, h_bottom⟩, hs.thief⟩

theorem CellsInv.pushLoadTop {b : Int} {val : Elem T}
    (hs : CellsInv n high ⟨d, .pushLoadTop b val, thread⟩) (h_n : n < 2 ^ 62) :
    CellsInv n high ⟨d, if isize (b - d.top) ≥ isize d.buffer.cap then .pushGrow b d.top val
      else .pushPut b d.top val, thread⟩ := by
  have hd : Cells d high _ := hs.cells
  obtain ⟨rfl, h_nonneg⟩ : OwnerReads d high _ (.pushLoadTop b val) := hs.owner
  have h_pushes : d.pushed.length + 1 ≤ n := hs.pushes
  obtain ⟨h_high, h_max, h_cap, h_cap_eq⟩ := hd.bounds (by omega)
  have h_top := hd.top_nonneg
  have h_top_le := hd.top_le
  have h_bottom := hd.bottom_le
  have h_fits := hd.fits
  have h_pos := DequeBuffer.cap_pos d.buffer
  have h_size : isize (d.bottom - d.top) = d.bottom - d.top :=
    isize_eq (by omega) (by unfold isizeMax; omega)
  rw [h_size, h_cap_eq]
  split
  · exact hs.move rfl (le_refl _) ⟨rfl, h_nonneg, le_refl _, by omega, by omega, by omega⟩
  · exact hs.move rfl (le_refl _) ⟨rfl, h_nonneg, le_refl _, by omega⟩

/-- The loop of `grow` writes what it has read from the old buffer. -/
theorem DequeBuffer.copy_elems {E : Type*} {old buf : DequeBuffer E} {i k : Int} {m : Nat} {e : E}
    (h : (DequeBuffer.copy old buf i m).get k = some e) :
    buf.get k = some e ∨ ∃ j, old.get j = some e := by
  induction m generalizing buf i with
  | zero => exact .inl h
  | succ m ih =>
      rcases ih h with h_put | h_old
      · rw [DequeBuffer.get_put] at h_put
        split at h_put
        · exact .inr ⟨i, h_put⟩
        · exact .inl h_put
      · exact .inr h_old

/-- `grow` copies every cell from `top` up to the mark. -/
theorem CellsInv.pushGrow {b t : Int} {val : Elem T} {buffer : DequeBuffer (Elem T)}
    (hs : CellsInv n high ⟨d, .pushGrow b t val, thread⟩)
    (h : d.buffer.grow elemSize t b = some buffer) :
    CellsInv n high ⟨{ d with buffer := buffer }, .pushPut b t val, thread⟩ := by
  have hd : Cells d high _ := hs.cells
  obtain ⟨rfl, h_nonneg, h_t, h_t_le, h_size, h_mark⟩ :
    OwnerReads d high _ (.pushGrow b t val) := hs.owner
  obtain ⟨h_logCap, h_logCap_le, h_get⟩ := DequeBuffer.grow_spec h h_t_le h_size
  have h_cap : buffer.cap = d.buffer.cap + d.buffer.cap := DequeBuffer.cap_double h_logCap
  have h_pos := DequeBuffer.cap_pos d.buffer
  have h_fits := hd.fits
  have h_elems : ∀ i e, buffer.get i = some e → ∃ j, d.buffer.get j = some e := by
    intro i e h_e
    rw [DequeBuffer.grow_eq] at h
    split at h
    · obtain rfl := Option.some.inj h
      exact (DequeBuffer.copy_elems h_e).resolve_left (by simp [DequeBuffer.get])
    · exact absurd h (by simp)
  constructor
  case cells =>
    refine { hd with
      fits := show high ≤ d.top + buffer.cap by omega
      logCap_le := h_logCap_le
      elems := fun i e h_e => ?_
      filled := fun i h_low h_high => ?_ }
    · obtain ⟨j, h_j⟩ := h_elems i e h_e
      exact hd.elems j e h_j
    · show (buffer.get i).isSome
      rw [h_get i (h_t.trans h_low) (by omega)]
      exact hd.filled i h_low h_high
  case pushes => exact hs.pushes
  case owner => exact ⟨rfl, h_nonneg, h_t, show d.bottom - t < buffer.cap by omega⟩
  case thief => exact hs.thief

/-- A push writes its element to a cell. -/
theorem CellsInv.pushPut {b t : Int} {val : Elem T}
    (hs : CellsInv n high ⟨d, .pushPut b t val, thread⟩) :
    CellsInv n high ⟨{ d with buffer := d.buffer.put b (some val) }, .pushStore b val, thread⟩ := by
  have hd : Cells d high d.pushed := by simpa [written, OwnerPc.writing] using hs.cells
  have h_thief : ∀ h, ThiefReads d.top high d.pushed (thread h) := by
    simpa [written, OwnerPc.writing] using hs.thief
  obtain ⟨rfl, h_nonneg, h_t, h_room⟩ : OwnerReads d high _ (.pushPut b t val) := hs.owner
  have h_known : d.pushed ⊆ d.pushed ++ [val] := List.subset_append_left _ _
  constructor
  case cells =>
    refine { hd with
      elems := fun i e h_e => ?_
      filled := fun i h_low h_high => ?_
      returned := fun v h_v => (hd.returned v h_v).mono h_known }
    · rw [DequeBuffer.get_put] at h_e
      split at h_e
      · obtain rfl := Option.some.inj h_e
        exact List.mem_append_right _ (List.mem_singleton_self _)
      · exact h_known (hd.elems i e h_e)
    · rw [DequeBuffer.get_put]
      split
      · rfl
      · exact hd.filled i h_low h_high
  case pushes => exact hs.pushes
  case owner =>
    refine ⟨rfl, h_nonneg, DequeBuffer.get_put_self .., ?_⟩
    show d.bottom - d.top < d.buffer.cap
    omega
  case thief => exact fun h => (h_thief h).mono (le_refl _) (le_refl _) h_known

/-- The push is counted, and the mark is raised to its element. -/
theorem CellsInv.pushStore {b : Int} {val : Elem T}
    (hs : CellsInv n high ⟨d, .pushStore b val, thread⟩) (h_n : n < 2 ^ 62) :
    CellsInv n (max high (b + 1))
      ⟨{ d with bottom := isize (b + 1), pushed := d.pushed ++ [val] }, .idle, thread⟩ := by
  have hd : Cells d high (d.pushed ++ [val]) := hs.cells
  obtain ⟨rfl, h_nonneg, h_get, h_room⟩ : OwnerReads d high _ (.pushStore b val) := hs.owner
  have h_pushes : d.pushed.length + 1 ≤ n := hs.pushes
  obtain ⟨h_high, h_max, -⟩ := hd.bounds (by omega)
  have h_bottom := hd.bottom_le
  have h_top_le := hd.top_le
  have h_fits := hd.fits
  have h_high_le := hd.high_le
  have h_next : isize (d.bottom + 1) = d.bottom + 1 :=
    isize_eq (by omega) (by unfold isizeMax; omega)
  have h_written : written { d with bottom := isize (d.bottom + 1), pushed := d.pushed ++ [val] }
      .idle = d.pushed ++ [val] := List.append_nil _
  constructor
  case cells =>
    rw [h_written]
    refine { hd with
      top_le := le_max_of_le_left h_top_le
      bottom_le := ?_
      fits := show max high (d.bottom + 1) ≤ d.top + d.buffer.cap by omega
      high_le := ?_
      filled := fun i h_low h_i => ?_ }
    · rw [h_next]
      exact le_max_right _ _
    · show max high (d.bottom + 1) ≤ ((d.pushed ++ [val]).length : Int)
      rw [List.length_append, List.length_singleton]
      omega
    · -- below the old mark, or the element of this push
      show (d.buffer.get i).isSome
      by_cases h_below : i < high
      · exact hd.filled i h_low h_below
      · obtain rfl : i = d.bottom := by omega
        rw [h_get]
        rfl
  case pushes =>
    show (d.pushed ++ [val]).length + 0 ≤ n
    rw [List.length_append, List.length_singleton]
    omega
  case owner =>
    show 0 ≤ isize (d.bottom + 1)
    omega
  case thief =>
    rw [h_written]
    exact fun h => (hs.thief h).mono (le_refl _) (le_max_left _ _) (List.Subset.refl _)

theorem CellsInv.pop (hs : CellsInv n high ⟨d, .idle, thread⟩) (h_n : n < 2 ^ 62) :
    CellsInv n high ⟨d, .popStore (isize (d.bottom - 1)), thread⟩ := by
  have hd : Cells d high _ := hs.cells
  have h_pushes : d.pushed.length + 0 ≤ n := hs.pushes
  obtain ⟨h_high, h_max, -⟩ := hd.bounds (by omega)
  have h_bottom := hd.bottom_le
  have h_nonneg : 0 ≤ d.bottom := hs.owner
  have h_prev : isize (d.bottom - 1) = d.bottom - 1 :=
    isize_eq (by omega) (by unfold isizeMax; omega)
  exact hs.move rfl (le_refl _) ⟨by omega, h_nonneg⟩

theorem CellsInv.popStore {b : Int} (hs : CellsInv n high ⟨d, .popStore b, thread⟩) :
    CellsInv n high ⟨{ d with bottom := b }, .popLoadTop b, thread⟩ := by
  obtain ⟨h_b, h_nonneg⟩ : OwnerReads d high _ (.popStore b) := hs.owner
  have h_bottom : d.bottom ≤ high := hs.cells.bottom_le
  have h_next : CellsInv n high
      ⟨{ d with bottom := b, returned := d.returned ++ [] }, .popLoadTop b, thread⟩ :=
    hs.of_owner rfl (le_refl _) (by omega) (by simp) ⟨rfl, by omega, by omega⟩
  rwa [List.append_nil] at h_next

/-- A pop that does not find the deque empty goes for a cell that has been written. -/
theorem CellsInv.popLoadTop {b : Int} (hs : CellsInv n high ⟨d, .popLoadTop b, thread⟩) :
    CellsInv n high ⟨d, if d.top ≤ b then .popRead b d.top else .popRestore b none, thread⟩ := by
  have hd : Cells d high _ := hs.cells
  obtain ⟨rfl, h_low, h_lt⟩ : OwnerReads d high _ (.popLoadTop b) := hs.owner
  have h_top := hd.top_nonneg
  split
  · next h_le =>
      exact hs.move rfl (le_refl _)
        ⟨rfl, by omega, h_lt, le_refl _, hd.filled d.bottom h_le h_lt⟩
  · exact hs.move rfl (le_refl _) ⟨rfl, h_low, h_lt, by simp⟩

theorem CellsInv.popRead {b t : Int} (hs : CellsInv n high ⟨d, .popRead b t, thread⟩) :
    (t = b → CellsInv n high ⟨d, .popExchange b t (d.buffer.get b), thread⟩) ∧
    CellsInv n high ⟨{ d with returned := d.returned ++ [d.buffer.get b] }, .idle, thread⟩ := by
  have hd : Cells d high _ := hs.cells
  obtain ⟨rfl, h_nonneg, h_lt, h_t, h_some⟩ : OwnerReads d high _ (.popRead b t) := hs.owner
  have h_read := hd.isRead h_some
  constructor
  · exact fun h_last => hs.move rfl (le_refl _) ⟨rfl, h_nonneg, h_lt, h_last, h_read⟩
  · exact hs.of_owner rfl (le_refl _) hd.bottom_le (by simpa using h_read) h_nonneg

theorem CellsInv.popExchange {b t : Int} {val : Option (Elem T)}
    (hs : CellsInv n high ⟨d, .popExchange b t val, thread⟩) (h_n : n < 2 ^ 62) :
    (d.top = t →
      CellsInv n high ⟨{ d with top := isize (t + 1) }, .popRestore b (some val), thread⟩) ∧
    CellsInv n high ⟨d, .popRestore b none, thread⟩ := by
  have hd : Cells d high _ := hs.cells
  obtain ⟨rfl, h_nonneg, h_lt, rfl, h_val⟩ :
    OwnerReads d high _ (.popExchange b t val) := hs.owner
  have h_pushes : d.pushed.length + 0 ≤ n := hs.pushes
  obtain ⟨h_high, h_max, -⟩ := hd.bounds (by omega)
  have h_next : isize (d.bottom + 1) = d.bottom + 1 :=
    isize_eq (by omega) (by unfold isizeMax; omega)
  constructor
  · intro h_top
    have h_fits := hd.fits
    rw [h_next]
    constructor
    case cells =>
      exact { hd with
        top_nonneg := show 0 ≤ d.bottom + 1 by omega
        top_le := show d.bottom + 1 ≤ high by omega
        fits := show high ≤ d.bottom + 1 + d.buffer.cap by omega
        filled := fun i h_low h_i => hd.filled i
          (le_trans (show d.top ≤ d.bottom + 1 by omega) h_low) h_i }
    case pushes => exact hs.pushes
    case owner =>
      refine ⟨rfl, by omega, h_lt, fun v h_v => ?_⟩
      obtain rfl := Option.some.inj h_v
      exact h_val
    case thief =>
      exact fun h => (hs.thief h).mono (show d.top ≤ d.bottom + 1 by omega) (le_refl _)
        (List.Subset.refl _)
  · exact hs.move rfl (le_refl _) ⟨rfl, by omega, h_lt, by simp⟩

theorem CellsInv.popRestore {b : Int} {result : Option (Option (Elem T))}
    (hs : CellsInv n high ⟨d, .popRestore b result, thread⟩) (h_n : n < 2 ^ 62) :
    CellsInv n high
      ⟨{ d with bottom := isize (b + 1), returned := d.returned ++ result.toList }, .idle,
        thread⟩ := by
  have hd : Cells d high _ := hs.cells
  obtain ⟨rfl, h_low, h_lt, h_result⟩ : OwnerReads d high _ (.popRestore b result) := hs.owner
  have h_pushes : d.pushed.length + 0 ≤ n := hs.pushes
  obtain ⟨h_high, h_max, -⟩ := hd.bounds (by omega)
  have h_next : isize (d.bottom + 1) = d.bottom + 1 :=
    isize_eq (by omega) (by unfold isizeMax; omega)
  rw [h_next]
  exact hs.of_owner rfl (le_refl _) (by omega) (by simpa using h_result)
    (show 0 ≤ d.bottom + 1 by omega)

/-- One step of the owner. -/
theorem CellsInv.owner_step {s : State Thief T} {a : OwnerAction T} {d : Deque T} {pc : OwnerPc T}
    (hs : CellsInv n high s) (h_n : n < 2 ^ 62)
    (h : ownerStep elemSize s.shared s.owner a = some (d, pc)) :
    ∃ high', CellsInv (n + if a.isPush then 1 else 0) high'
      { s with shared := d, owner := pc } := by
  obtain ⟨d₀, pc₀, thread⟩ := s
  by_cases h_idle : pc₀ = .idle
  · subst h_idle
    cases a with
    | push val =>
        obtain ⟨rfl, rfl⟩ : d₀ = d ∧ _ = pc := by simpa [ownerStep] using h
        exact ⟨high, hs.push val⟩
    | pop =>
        obtain ⟨rfl, rfl⟩ : d₀ = d ∧ _ = pc := by simpa [ownerStep] using h
        exact ⟨high, hs.pop h_n⟩
    | run => exact absurd h (by simp [ownerStep])
  obtain rfl := eq_run_of_ownerStep h h_idle
  cases pc₀ with
  | idle => exact absurd rfl h_idle
  | pushLoadTop b val =>
      have h_next := hs.pushLoadTop h_n
      refine ⟨high, ?_⟩
      simp only [ownerStep] at h
      split at h <;> obtain ⟨rfl, rfl⟩ : d₀ = d ∧ _ = pc := by simpa using h
      · next h_full => rwa [if_pos h_full] at h_next
      · next h_room => rwa [if_neg h_room] at h_next
  | pushGrow b t val =>
      simp only [ownerStep] at h
      split at h
      · next buffer h_grow =>
          obtain ⟨rfl, rfl⟩ : _ = d ∧ _ = pc := by simpa using h
          exact ⟨high, hs.pushGrow h_grow⟩
      · exact absurd h (by simp)
  | pushPut b t val =>
      obtain ⟨rfl, rfl⟩ : _ = d ∧ _ = pc := by simpa [ownerStep] using h
      exact ⟨high, hs.pushPut⟩
  | pushStore b val =>
      obtain ⟨rfl, rfl⟩ : _ = d ∧ _ = pc := by simpa [ownerStep] using h
      exact ⟨_, hs.pushStore h_n⟩
  | popStore b =>
      obtain ⟨rfl, rfl⟩ : _ = d ∧ _ = pc := by simpa [ownerStep] using h
      exact ⟨high, hs.popStore⟩
  | popLoadTop b =>
      have h_next := hs.popLoadTop
      refine ⟨high, ?_⟩
      simp only [ownerStep] at h
      split at h <;> obtain ⟨rfl, rfl⟩ : d₀ = d ∧ _ = pc := by simpa using h
      · next h_le => rwa [if_pos h_le] at h_next
      · next h_gt => rwa [if_neg h_gt] at h_next
  | popRead b t =>
      simp only [ownerStep] at h
      split at h <;> obtain ⟨rfl, rfl⟩ : _ = d ∧ _ = pc := by simpa using h
      · next h_last => exact ⟨high, hs.popRead.1 h_last⟩
      · exact ⟨high, hs.popRead.2⟩
  | popExchange b t val =>
      simp only [ownerStep] at h
      split at h <;> obtain ⟨rfl, rfl⟩ : _ = d ∧ _ = pc := by simpa using h
      · next h_top => exact ⟨high, (hs.popExchange h_n).1 h_top⟩
      · exact ⟨high, (hs.popExchange h_n).2⟩
  | popRestore b result =>
      obtain ⟨rfl, rfl⟩ : _ = d ∧ _ = pc := by simpa [ownerStep] using h
      exact ⟨high, hs.popRestore h_n⟩

-- ============================================================================
-- Steps of a thief
-- ============================================================================

/-- A pop lowers `bottom` to -1 at most. -/
theorem OwnerReads.bottom_ge {pc : OwnerPc T} (h : OwnerReads d high known pc) :
    -1 ≤ d.bottom := by
  cases pc <;> simp only [OwnerReads] at h <;> omega

variable [DecidableEq Thief]

/-- A thief moves, and everything shared stays. -/
theorem CellsInv.of_thief {s : State Thief T} (hs : CellsInv n high s) {h : Thief} {q : ThiefPc T}
    (h_q : ThiefReads s.shared.top high (written s.shared s.owner) q) :
    CellsInv n high { s with thread := Function.update s.thread h q } where
  cells := hs.cells
  pushes := hs.pushes
  owner := hs.owner
  thief := (Function.forall_update_iff s.thread (p := fun _ q => ThiefReads s.shared.top high
    (written s.shared s.owner) q)).mpr ⟨h_q, fun k _ => hs.thief k⟩

/-- The exchange of a thief succeeds, on a range below the mark. -/
theorem CellsInv.exchange {s : State Thief T} (hs : CellsInv n high s) (h_n : n < 2 ^ 62)
    {h : Thief} {k : Nat} {vals : List (Option (Elem T))}
    (h_pc : s.thread h = .stealing s.shared.top k vals) :
    CellsInv n high { s with
      shared := { s.shared with
        top := isize (s.shared.top + k)
        returned := s.shared.returned ++ vals }
      thread := Function.update s.thread h .idle } := by
  have h_thief := hs.thief h
  rw [h_pc] at h_thief
  obtain ⟨h_nonneg, -, h_range⟩ := h_thief
  obtain ⟨h_end, h_vals⟩ := h_range rfl
  have h_pushes := hs.pushes
  have h_fits := hs.cells.fits
  obtain ⟨h_high, h_max, -⟩ := hs.cells.bounds (by omega)
  have h_next : isize (s.shared.top + k) = s.shared.top + k :=
    isize_eq (by omega) (by unfold isizeMax; omega)
  have h_le : s.shared.top ≤ s.shared.top + k := by omega
  rw [h_next]
  constructor
  case cells =>
    exact { hs.cells with
      top_nonneg := show 0 ≤ s.shared.top + k by omega
      top_le := h_end
      fits := show high ≤ s.shared.top + k + s.shared.buffer.cap by omega
      filled := fun i h_low h_i => hs.cells.filled i (le_trans h_le h_low) h_i
      returned := List.forall_mem_append.mpr ⟨hs.cells.returned, h_vals⟩ }
  case pushes => exact h_pushes
  case owner => exact hs.owner.advance h_le rfl rfl
  case thief =>
    refine (Function.forall_update_iff s.thread (p := fun _ q => ThiefReads (s.shared.top + k) high
      (written s.shared s.owner) q)).mpr ⟨trivial, fun i _ => ?_⟩
    exact (hs.thief i).mono h_le (le_refl _) (List.Subset.refl _)

/-- One step of a thief. -/
theorem CellsInv.thief_step {s : State Thief T} {h : Thief} {a : ThiefAction} {d : Deque T}
    {q : ThiefPc T} (hs : CellsInv n high s) (h_n : n < 2 ^ 62)
    (h_step : thiefStep s.shared (s.thread h) a = some (d, q)) :
    CellsInv n high { s with shared := d, thread := Function.update s.thread h q } := by
  have h_top := hs.cells.top_nonneg
  have h_pushes := hs.pushes
  obtain ⟨h_high, h_max, -⟩ := hs.cells.bounds (by omega)
  have h_thief := hs.thief h
  cases h_pc : s.thread h with
  | idle =>
      rw [h_pc] at h_step
      cases a with
      | steal | stealBatch outLen =>
          obtain ⟨rfl, rfl⟩ : s.shared = d ∧ _ = q := by simpa [thiefStep] using h_step
          exact hs.of_thief ⟨h_top, le_refl _⟩
      | run => exact absurd h_step (by simp [thiefStep])
  | loadBottom limit t =>
      rw [h_pc] at h_step h_thief
      obtain ⟨h_nonneg, h_le⟩ := h_thief
      cases a with
      | run =>
          simp only [thiefStep] at h_step
          split at h_step <;> obtain ⟨rfl, rfl⟩ : s.shared = d ∧ _ = q := by simpa using h_step
          · next k h_k =>
              have h_low := hs.owner.bottom_ge
              have h_bottom := hs.cells.bottom_le
              have h_top_le := hs.cells.top_le
              have h_range := toSteal_le (by omega) (by unfold isizeMax; omega) h_k
              exact hs.of_thief ⟨h_nonneg, h_le, fun _ => ⟨by omega, by simp⟩⟩
          · exact hs.of_thief trivial
      | steal | stealBatch outLen => exact absurd h_step (by simp [thiefStep])
  | stealing t k vals =>
      rw [h_pc] at h_step h_thief
      obtain ⟨h_nonneg, h_le, h_range⟩ := h_thief
      cases a with
      | run =>
          simp only [thiefStep] at h_step
          split at h_step
          · next h_more =>
              obtain ⟨rfl, rfl⟩ : s.shared = d ∧ _ = q := by simpa using h_step
              refine hs.of_thief ⟨h_nonneg, h_le, fun h_t => ?_⟩
              obtain ⟨h_end, h_vals⟩ := h_range h_t
              refine ⟨h_end, List.forall_mem_append.mpr ⟨h_vals, ?_⟩⟩
              have h_index : isize (t + vals.length) = t + vals.length :=
                isize_eq (by omega) (by unfold isizeMax; omega)
              rw [h_index, List.forall_mem_singleton]
              exact hs.cells.isRead (hs.cells.filled _ (by omega) (by omega))
          · split at h_step <;> obtain ⟨rfl, rfl⟩ : _ = d ∧ _ = q := by simpa using h_step
            · next h_eq =>
                subst h_eq
                exact hs.exchange h_n h_pc
            · exact hs.of_thief trivial
      | steal | stealBatch outLen => exact absurd h_step (by simp [thiefStep])

/-- One step of the owner or of a thief. -/
theorem CellsInv.step {s s' : State Thief T} {a : OwnerAction T ⊕ Thief × ThiefAction}
    (hs : CellsInv n high s) (h_n : n < 2 ^ 62)
    (h : (machine Thief T elemSize).step s a = some s') :
    ∃ high', CellsInv (n + if isPush a then 1 else 0) high' s' := by
  rcases a with a | ⟨k, a⟩
  · obtain ⟨m, p, h_step, rfl⟩ := OwnerAndThreads.step_owner_eq_some h
    exact hs.owner_step h_n h_step
  · obtain ⟨m, q, h_step, rfl⟩ := OwnerAndThreads.step_thread_eq_some h
    exact ⟨high, hs.thief_step h_n h_step⟩

-- ============================================================================
-- What comes out
-- ============================================================================

/-- What comes out of the deque has gone in, and what is in it has been written. -/
structure HandsOutPushed (s : State Thief T) : Prop where
  returned : ∀ v ∈ s.shared.returned, ∃ e ∈ s.shared.pushed ++ s.owner.writing, v = some e
  held : ∀ i, s.shared.top ≤ i → i < s.shared.bottom →
    ∃ e ∈ s.shared.pushed ++ s.owner.writing, s.shared.buffer.get i = some e

omit [DecidableEq Thief] in
theorem CellsInv.handsOutPushed {s : State Thief T} (hs : CellsInv n high s) :
    HandsOutPushed s where
  returned := hs.cells.returned
  held := fun i h_low h_high =>
    hs.cells.isRead (hs.cells.filled i h_low (lt_of_lt_of_le h_high hs.cells.bottom_le))

end Stealer
end Zydon
