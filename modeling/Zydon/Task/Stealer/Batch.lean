/-
  Zydon.Task.Stealer.Batch

  Which elements come out of the work-stealing deque, over every interleaving
  of its owner with any number of thieves.

  A pop takes an element that is not the last one by its store of `bottom`
  alone, while a thief takes a whole range by one exchange of `top`.  A thief
  that has computed its range before the store still gets all of it
  (`batch_steals_popped`).  `SparesBatches` excludes such pops; the runs within
  it return every element at most once (`returned_nodup_of_sparesBatches`).

  The invariant counts the elements: those returned, the one a pop has taken
  and not returned yet, and those at the indices from `top` up to `endIndex`
  are the ones pushed (`Content.conserved`).  A thief whose exchange can still
  succeed has a range below `endIndex` and has read what is still there
  (`ThiefInv`).
-/

import Mathlib.Data.Fintype.Basic
import Zydon.Lib.Tokens
import Zydon.Task.Stealer.Basic

namespace Zydon
namespace Stealer

open Lib

variable {Thief T : Type*} {elemSize : ℕ+}

-- ============================================================================
-- The invariant
-- ============================================================================

/-- The index behind the last element of the deque.  A pop that has stored
    `bottom` leaves its element in the deque until it has seen that the element
    is not the last one. -/
def OwnerPc.endIndex (bottom : Int) : OwnerPc T → Int
  | .popLoadTop b | .popExchange b _ _ | .popRestore b _ => b + 1
  | .popRead b t => if t = b then b + 1 else b
  | _ => bottom

/-- The element a pop has taken and not returned yet. -/
def OwnerPc.inHand (get : Int → Option (Elem T)) : OwnerPc T → List (Option (Elem T))
  | .popRead b t => if t = b then [] else [get b]
  | .popRestore _ result => result.toList
  | _ => []

/-- The elements of the deque end at `last`, and `hand` has been taken out. -/
structure Content (d : Deque T) (last : Int) (hand : List (Option (Elem T))) : Prop where
  top_nonneg : 0 ≤ d.top
  top_le : d.top ≤ last
  last_le : last ≤ isizeMax
  fits : last - d.top ≤ d.buffer.cap
  logCap_le : d.buffer.logCap ≤ 62
  conserved : (d.returned ++ (hand ++ slice d.buffer.get d.top (last - d.top).toNat)).Perm
    (d.pushed.map some)
  numbered : d.pushed.map Prod.fst = List.range d.pushed.length

/-- The local variables of the owner. -/
def OwnerInv (d : Deque T) : OwnerPc T → Prop
  | .idle => True
  | .pushLoadTop b val => b = d.bottom ∧ b < isizeMax ∧ val.1 = d.pushed.length
  | .pushGrow b t val => b = d.bottom ∧ b < isizeMax ∧ val.1 = d.pushed.length ∧ t ≤ d.top ∧
      b - t ≤ d.buffer.cap
  | .pushPut b t val => b = d.bottom ∧ b < isizeMax ∧ val.1 = d.pushed.length ∧ t ≤ d.top ∧
      b - t < d.buffer.cap
  | .pushStore b val => b = d.bottom ∧ b < isizeMax ∧ val.1 = d.pushed.length ∧
      d.buffer.get b = some val ∧ b - d.top < d.buffer.cap
  | .popStore b => b + 1 = d.bottom
  | .popLoadTop b | .popRestore b _ => b = d.bottom
  | .popRead b t => b = d.bottom ∧ t ≤ b ∧ t ≤ d.top
  | .popExchange b t val => b = d.bottom ∧ t = b ∧ t ≤ d.top ∧ val = d.buffer.get b

/-- The local variables of a thief: as long as its exchange can succeed, its
    range is in the deque and it has read what is there. -/
def ThiefInv (top last : Int) (get : Int → Option (Elem T)) : ThiefPc T → Prop
  | .idle => True
  | .loadBottom _ t => 0 ≤ t ∧ t ≤ top
  | .stealing t k vals => 0 ≤ t ∧ t ≤ top ∧ vals.length ≤ k ∧
      (t = top → t + k ≤ last ∧ vals = slice get t vals.length)

/-- The invariant of the deque. -/
structure Inv (s : State Thief T) : Prop where
  content : Content s.shared (s.owner.endIndex s.shared.bottom)
    (s.owner.inHand s.shared.buffer.get)
  owner : OwnerInv s.shared s.owner
  thief : ∀ h, ThiefInv s.shared.top (s.owner.endIndex s.shared.bottom) s.shared.buffer.get
    (s.thread h)

theorem inv_init [DecidableEq Thief] : Inv (machine Thief T elemSize).init where
  content :=
    { top_nonneg := le_refl 0
      top_le := le_refl 0
      last_le := show (0 : Int) ≤ isizeMax by decide
      fits := show (0 : Int) - 0 ≤ ((1 <<< minLogCap : Nat) : Int) by decide
      logCap_le := show minLogCap ≤ 62 by decide
      conserved := List.Perm.refl []
      numbered := rfl }
  owner := trivial
  thief := fun _ => trivial

/-! ## Stability -/

/-- A thief keeps its invariant when `top` moves on, or stays and the deque
    keeps the range of the thief and its elements. -/
theorem ThiefInv.stable {top top' last last' : Int} {get get' : Int → Option (Elem T)}
    {pc : ThiefPc T} (h : ThiefInv top last get pc) (h_top : top ≤ top')
    (h_last : top' = top → ∀ t k vals, pc = .stealing t k vals → t = top → t + k ≤ last')
    (h_get : top' = top → ∀ i, top ≤ i → i < last' → get' i = get i) :
    ThiefInv top' last' get' pc := by
  cases pc with
  | idle => trivial
  | loadBottom limit t => exact ⟨h.1, h.2.trans h_top⟩
  | stealing t k vals =>
      obtain ⟨h_nonneg, h_le, h_len, h_range⟩ := h
      refine ⟨h_nonneg, h_le.trans h_top, h_len, fun h_t => ?_⟩
      have h_same : top' = top := by omega
      have h_old : t = top := by omega
      have h_bound := h_last h_same t k vals rfl h_old
      refine ⟨h_bound, ?_⟩
      obtain ⟨-, h_vals⟩ := h_range h_old
      have h_slice : slice get' t vals.length = slice get t vals.length :=
        slice_congr fun i h_low h_high => h_get h_same i (by omega) (by omega)
      rw [h_slice]
      exact h_vals

/-- A thief keeps its invariant when elements are added at the bottom. -/
theorem ThiefInv.extend {top last last' : Int} {get get' : Int → Option (Elem T)}
    {pc : ThiefPc T} (h : ThiefInv top last get pc) (h_last : last ≤ last')
    (h_get : ∀ i, top ≤ i → i < last' → get' i = get i) : ThiefInv top last' get' pc := by
  refine h.stable (le_refl top) (fun _ t k vals h_pc h_t => ?_) fun _ => h_get
  subst h_pc
  have h_bound := (h.2.2.2 h_t).1
  omega

/-- A thief keeps its invariant when `top` moves on. -/
theorem ThiefInv.advance {top top' last : Int} {get : Int → Option (Elem T)} {pc : ThiefPc T}
    (h : ThiefInv top last get pc) (h_top : top ≤ top') : ThiefInv top' last get pc := by
  refine h.stable h_top (fun _ t k vals h_pc h_t => ?_) fun _ _ _ _ => rfl
  subst h_pc
  exact (h.2.2.2 h_t).1

/-- The content only depends on the elements in the deque. -/
theorem Content.congr {d d' : Deque T} {last : Int} {hand : List (Option (Elem T))}
    (hd : Content d last hand) (h_top : d'.top = d.top) (h_pushed : d'.pushed = d.pushed)
    (h_returned : d'.returned = d.returned) (h_logCap : d'.buffer.logCap ≤ 62)
    (h_cap : d.buffer.cap ≤ d'.buffer.cap)
    (h_get : ∀ i, d.top ≤ i → i < last → d'.buffer.get i = d.buffer.get i) :
    Content d' last hand where
  top_nonneg := h_top ▸ hd.top_nonneg
  top_le := h_top ▸ hd.top_le
  last_le := hd.last_le
  fits := by
    have := hd.fits
    omega
  logCap_le := h_logCap
  conserved := by
    have h_le := hd.top_le
    have h_slice : slice d'.buffer.get d.top (last - d.top).toNat =
        slice d.buffer.get d.top (last - d.top).toNat :=
      slice_congr fun i h_low h_high => h_get i h_low (by omega)
    rw [h_top, h_pushed, h_returned, h_slice]
    exact hd.conserved
  numbered := h_pushed ▸ hd.numbered

/-- With room for one more, the cells of the elements are not the one behind
    the last. -/
theorem Content.get_put {d : Deque T} {last : Int} {hand : List (Option (Elem T))}
    (hd : Content d last hand) (h_room : last - d.top < d.buffer.cap) (val : Option (Elem T)) :
    ∀ i, d.top ≤ i → i < last → (d.buffer.put last val).get i = d.buffer.get i := by
  intro i h_low h_high
  have h_logCap := hd.logCap_le
  exact DequeBuffer.get_put_of_near (by omega) val (by omega) (by omega) (by omega)

/-- A push publishes the element behind the last. -/
theorem Content.push {d : Deque T} {val : Elem T} (hd : Content d d.bottom [])
    (h_max : d.bottom < isizeMax) (h_room : d.bottom - d.top < d.buffer.cap)
    (h_get : d.buffer.get d.bottom = some val) (h_number : val.1 = d.pushed.length) :
    Content { d with bottom := d.bottom + 1, pushed := d.pushed ++ [val] } (d.bottom + 1) [] where
  top_nonneg := hd.top_nonneg
  top_le := hd.top_le.trans (by omega)
  last_le := by
    show d.bottom + 1 ≤ isizeMax
    omega
  fits := show d.bottom + 1 - d.top ≤ d.buffer.cap by omega
  logCap_le := hd.logCap_le
  conserved := by
    have h_le := hd.top_le
    have h_count : (d.bottom + 1 - d.top).toNat = (d.bottom - d.top).toNat + 1 := by omega
    have h_last : d.top + ((d.bottom - d.top).toNat : Int) = d.bottom := by omega
    show (d.returned ++ ([] ++ slice d.buffer.get d.top (d.bottom + 1 - d.top).toNat)).Perm
      ((d.pushed ++ [val]).map some)
    rw [h_count, slice_succ, h_last, h_get, List.map_append, ← List.append_assoc,
      ← List.append_assoc]
    have h_old := hd.conserved
    rw [← List.append_assoc] at h_old
    exact h_old.append_right _
  numbered := by
    obtain ⟨number, value⟩ := val
    obtain rfl : number = d.pushed.length := h_number
    exact numbered_append hd.numbered value

/-- A pop takes the last element out of the deque. -/
theorem Content.take {d : Deque T} {b : Int} (hd : Content d (b + 1) []) (h_lt : d.top < b) :
    Content d b [d.buffer.get b] where
  top_nonneg := hd.top_nonneg
  top_le := by omega
  last_le := by
    have := hd.last_le
    omega
  fits := by
    have := hd.fits
    omega
  logCap_le := hd.logCap_le
  conserved := by
    have h_count : (b + 1 - d.top).toNat = (b - d.top).toNat + 1 := by omega
    have h_last : d.top + ((b - d.top).toNat : Int) = b := by omega
    have h_old := hd.conserved
    rw [h_count, slice_succ, h_last, List.nil_append] at h_old
    exact (List.Perm.append_left _ List.perm_append_comm).trans h_old
  numbered := hd.numbered

/-- An exchange of `top` takes the first `k` elements out of the deque. -/
theorem Content.steal {d : Deque T} {last : Int} {hand : List (Option (Elem T))} {k : Nat}
    (hd : Content d last hand) (h_range : d.top + k ≤ last) :
    Content { d with top := d.top + k } last (slice d.buffer.get d.top k ++ hand) where
  top_nonneg := by
    have := hd.top_nonneg
    show 0 ≤ d.top + k
    omega
  top_le := h_range
  last_le := hd.last_le
  fits := by
    have := hd.fits
    show last - (d.top + k) ≤ d.buffer.cap
    omega
  logCap_le := hd.logCap_le
  conserved := by
    have h_count : (last - d.top).toNat = k + (last - (d.top + k)).toNat := by omega
    have h_old := hd.conserved
    rw [h_count, slice_add] at h_old
    show (d.returned ++ (slice d.buffer.get d.top k ++ hand ++
      slice d.buffer.get (d.top + k) (last - (d.top + k)).toNat)).Perm (d.pushed.map some)
    rw [List.append_assoc]
    exact (List.Perm.append_left _ (List.perm_append_comm_assoc ..)).trans h_old
  numbered := hd.numbered

/-- Elements that have been taken out are returned. -/
theorem Content.giveBack {d : Deque T} {last : Int} {out hand : List (Option (Elem T))}
    (hd : Content d last (out ++ hand)) :
    Content { d with returned := d.returned ++ out } last hand where
  top_nonneg := hd.top_nonneg
  top_le := hd.top_le
  last_le := hd.last_le
  fits := hd.fits
  logCap_le := hd.logCap_le
  conserved := by
    have h_old := hd.conserved
    rw [List.append_assoc] at h_old
    show (d.returned ++ out ++ (hand ++ slice d.buffer.get d.top (last - d.top).toNat)).Perm
      (d.pushed.map some)
    rw [List.append_assoc]
    exact h_old
  numbered := hd.numbered

/-- `bottom` is not part of the content. -/
theorem Content.setBottom {d : Deque T} {last : Int} {hand : List (Option (Elem T))}
    (hd : Content d last hand) (b : Int) : Content { d with bottom := b } last hand :=
  { hd with }

-- ============================================================================
-- The steps of the owner
-- ============================================================================

/-- The thief goes for a range that contains index `b`, and its exchange of
    `top` can still succeed. -/
def ThiefPc.claims (top b : Int) : ThiefPc T → Bool
  | .stealing t k _ => t = top && b < t + k
  | _ => false

/-- The index of the element that the next step of the owner takes without an
    exchange. -/
def OwnerPc.takes (top : Int) : OwnerPc T → Option Int
  | .popLoadTop b => if top < b then some b else none
  | _ => none

/-- A pop takes no element that a batch in progress can still get, and a push
    finds room for one more below `isize::MAX`. -/
def SparesBatches (s : State Thief T) : OwnerAction T ⊕ Thief × ThiefAction → Prop
  | .inl .run => ∀ b ∈ s.owner.takes s.shared.top,
      ∀ h, (s.thread h).claims s.shared.top b = false
  | .inl (.push _) => s.shared.bottom < isizeMax
  | _ => True

instance SparesBatches.decidable [Fintype Thief] (s : State Thief T) :
    ∀ a, Decidable (SparesBatches s a)
  | .inl .run => inferInstanceAs (Decidable (∀ b ∈ s.owner.takes s.shared.top, _))
  | .inl (.push _) => inferInstanceAs (Decidable (_ < _))
  | .inl .pop | .inr _ => inferInstanceAs (Decidable True)

variable {d : Deque T} {thread : Thief → ThiefPc T}

/-- A step of the owner that leaves `top` and the elements alone, and does not
    move the end of the deque up, keeps the thieves. -/
theorem Inv.of_owner {d' : Deque T} {pc pc' : OwnerPc T} (hs : Inv ⟨d, pc, thread⟩)
    (h_top : d'.top = d.top)
    (h_last : pc.endIndex d.bottom ≤ pc'.endIndex d'.bottom)
    (h_get : ∀ i, d.top ≤ i → i < pc'.endIndex d'.bottom → d'.buffer.get i = d.buffer.get i)
    (h_content : Content d' (pc'.endIndex d'.bottom) (pc'.inHand d'.buffer.get))
    (h_owner : OwnerInv d' pc') : Inv ⟨d', pc', thread⟩ where
  content := h_content
  owner := h_owner
  thief := fun h => by
    show ThiefInv d'.top _ _ _
    rw [h_top]
    exact (hs.thief h).extend h_last h_get

theorem Inv.push (hs : Inv ⟨d, .idle, thread⟩) (h_max : d.bottom < isizeMax) (val : T) :
    Inv ⟨d, .pushLoadTop d.bottom (d.pushed.length, val), thread⟩ :=
  hs.of_owner rfl (le_refl _) (fun _ _ _ => rfl) hs.content ⟨rfl, h_max, rfl⟩

theorem Inv.pushLoadTop {b : Int} {val : Elem T} (hs : Inv ⟨d, .pushLoadTop b val, thread⟩) :
    Inv ⟨d, if isize (b - d.top) ≥ isize d.buffer.cap then .pushGrow b d.top val
      else .pushPut b d.top val, thread⟩ := by
  obtain ⟨rfl, h_max, h_number⟩ : OwnerInv d (.pushLoadTop b val) := hs.owner
  have h_content : Content d d.bottom [] := hs.content
  have h_fits := h_content.fits
  have h_top := h_content.top_le
  have h_nonneg := h_content.top_nonneg
  have h_size : isize (d.bottom - d.top) = d.bottom - d.top :=
    isize_eq (by omega) (by omega)
  split
  · exact hs.of_owner rfl (le_refl _) (fun _ _ _ => rfl) h_content
      ⟨rfl, h_max, h_number, le_refl _, h_fits⟩
  · next h_room =>
      have h_cap := DequeBuffer.cap_le_of_logCap_le h_content.logCap_le
      have h_cap_eq : isize d.buffer.cap = d.buffer.cap := by
        apply isize_eq
        · omega
        · unfold isizeMax
          omega
      rw [h_size, h_cap_eq] at h_room
      exact hs.of_owner rfl (le_refl _) (fun _ _ _ => rfl) h_content
        ⟨rfl, h_max, h_number, le_refl _, by omega⟩

theorem Inv.pushGrow {b t : Int} {val : Elem T} {buffer : DequeBuffer (Elem T)}
    (hs : Inv ⟨d, .pushGrow b t val, thread⟩) (h : d.buffer.grow elemSize t b = some buffer) :
    Inv ⟨{ d with buffer := buffer }, .pushPut b t val, thread⟩ := by
  obtain ⟨rfl, h_max, h_number, h_t, h_size⟩ : OwnerInv d (.pushGrow b t val) := hs.owner
  have h_content : Content d d.bottom [] := hs.content
  have h_top := h_content.top_le
  obtain ⟨h_logCap, h_logCap_le, h_get⟩ := DequeBuffer.grow_spec h (by omega) h_size
  have h_cap := DequeBuffer.cap_double h_logCap
  have h_cap_pos := DequeBuffer.cap_pos d.buffer
  have h_keep : ∀ i, d.top ≤ i → i < d.bottom → buffer.get i = d.buffer.get i :=
    fun i h_low h_high => h_get i (by omega) h_high
  refine hs.of_owner rfl (le_refl _) h_keep ?_ ?_
  · exact h_content.congr rfl rfl rfl h_logCap_le (by show d.buffer.cap ≤ buffer.cap; omega) h_keep
  · exact ⟨rfl, h_max, h_number, h_t, by show d.bottom - t < (buffer.cap : Int); omega⟩

theorem Inv.pushPut {b t : Int} {val : Elem T} (hs : Inv ⟨d, .pushPut b t val, thread⟩) :
    Inv ⟨{ d with buffer := d.buffer.put b (some val) }, .pushStore b val, thread⟩ := by
  obtain ⟨rfl, h_max, h_number, h_t, h_size⟩ : OwnerInv d (.pushPut b t val) := hs.owner
  have h_content : Content d d.bottom [] := hs.content
  have h_keep := h_content.get_put (by omega) (some val)
  refine hs.of_owner rfl (le_refl _) h_keep ?_ ?_
  · exact h_content.congr rfl rfl rfl h_content.logCap_le (le_refl _) h_keep
  · refine ⟨rfl, h_max, h_number, DequeBuffer.get_put_self .., ?_⟩
    show d.bottom - d.top < (d.buffer.cap : Int)
    omega

theorem Inv.pushStore {b : Int} {val : Elem T} (hs : Inv ⟨d, .pushStore b val, thread⟩) :
    Inv ⟨{ d with bottom := isize (b + 1), pushed := d.pushed ++ [val] }, .idle, thread⟩ := by
  obtain ⟨rfl, h_max, h_number, h_get, h_room⟩ : OwnerInv d (.pushStore b val) := hs.owner
  have h_content : Content d d.bottom [] := hs.content
  have h_top := h_content.top_le
  have h_nonneg := h_content.top_nonneg
  have h_next : isize (d.bottom + 1) = d.bottom + 1 := isize_eq (by omega) (by omega)
  rw [h_next]
  refine hs.of_owner rfl ?_ (fun _ _ _ => rfl) (h_content.push h_max h_room h_get h_number) trivial
  show d.bottom ≤ d.bottom + 1
  omega

/-- The end of the deque is `bottom`, or one behind it during a pop. -/
theorem OwnerInv.endIndex_eq {pc : OwnerPc T} (h : OwnerInv d pc) :
    pc.endIndex d.bottom = d.bottom ∨ pc.endIndex d.bottom = d.bottom + 1 := by
  cases pc with
  | popLoadTop b | popRestore b result =>
      obtain rfl : b = d.bottom := h
      exact .inr rfl
  | popExchange b t val =>
      obtain ⟨rfl, -⟩ : OwnerInv d (.popExchange b t val) := h
      exact .inr rfl
  | popRead b t =>
      obtain ⟨rfl, -⟩ : OwnerInv d (.popRead b t) := h
      simp only [OwnerPc.endIndex]
      split
      · exact .inr rfl
      · exact .inl rfl
  | idle | pushLoadTop b val | pushGrow b t val | pushPut b t val | pushStore b val | popStore b =>
      exact .inl rfl

theorem Inv.pop (hs : Inv ⟨d, .idle, thread⟩) :
    Inv ⟨d, .popStore (isize (d.bottom - 1)), thread⟩ := by
  have h_content : Content d d.bottom [] := hs.content
  have h_top := h_content.top_le
  have h_nonneg := h_content.top_nonneg
  have h_max := h_content.last_le
  have h_prev : isize (d.bottom - 1) = d.bottom - 1 := isize_eq (by omega) (by omega)
  refine hs.of_owner rfl (le_refl _) (fun _ _ _ => rfl) h_content ?_
  show isize (d.bottom - 1) + 1 = d.bottom
  omega

theorem Inv.popStore {b : Int} (hs : Inv ⟨d, .popStore b, thread⟩) :
    Inv ⟨{ d with bottom := b }, .popLoadTop b, thread⟩ := by
  obtain h_b : b + 1 = d.bottom := hs.owner
  have h_content : Content d d.bottom [] := hs.content
  refine hs.of_owner rfl (show d.bottom ≤ b + 1 by omega) (fun _ _ _ => rfl) ?_ rfl
  show Content { d with bottom := b } (b + 1) []
  rw [h_b]
  exact h_content.setBottom b

/-- The step at which a pop takes an element that is not the last. -/
theorem Inv.popLoadTop {b : Int} (hs : Inv ⟨d, .popLoadTop b, thread⟩)
    (h_spare : d.top < b → ∀ h, (thread h).claims d.top b = false) :
    Inv ⟨d, if d.top ≤ b then .popRead b d.top else .popRestore b none, thread⟩ := by
  obtain rfl : b = d.bottom := hs.owner
  have h_content : Content d (d.bottom + 1) [] := hs.content
  split
  · next h_le =>
      by_cases h_last : d.top = d.bottom
      · have h_end : (OwnerPc.popRead d.bottom d.top : OwnerPc T).endIndex d.bottom = d.bottom + 1 :=
          if_pos h_last
        have h_hand : (OwnerPc.popRead d.bottom d.top : OwnerPc T).inHand d.buffer.get = [] :=
          if_pos h_last
        refine hs.of_owner rfl ?_ (fun _ _ _ => rfl) ?_ ⟨rfl, h_le, le_refl _⟩
        · rw [h_end]
          exact le_refl _
        · rw [h_end, h_hand]
          exact h_content
      · have h_end : (OwnerPc.popRead d.bottom d.top : OwnerPc T).endIndex d.bottom = d.bottom :=
          if_neg h_last
        have h_hand : (OwnerPc.popRead d.bottom d.top : OwnerPc T).inHand d.buffer.get =
            [d.buffer.get d.bottom] := if_neg h_last
        have h_lt : d.top < d.bottom := by omega
        constructor
        · show Content d _ _
          rw [h_end, h_hand]
          exact h_content.take h_lt
        · exact ⟨rfl, h_le, le_refl _⟩
        · intro h
          show ThiefInv d.top _ _ (thread h)
          rw [h_end]
          refine (hs.thief h).stable (le_refl _) (fun _ t k vals h_pc h_t => ?_) fun _ _ _ _ => rfl
          have h_free := h_spare h_lt h
          rw [show thread h = .stealing t k vals from h_pc] at h_free
          simp only [ThiefPc.claims, Bool.and_eq_false_iff, decide_eq_false_iff_not] at h_free
          rcases h_free with h_ne | h_below
          · exact absurd h_t h_ne
          · omega
  · exact hs.of_owner rfl (le_refl _) (fun _ _ _ => rfl) h_content rfl

theorem Inv.popRead {b t : Int} (hs : Inv ⟨d, .popRead b t, thread⟩) :
    (t = b → Inv ⟨d, .popExchange b t (d.buffer.get b), thread⟩) ∧
    (t ≠ b → Inv ⟨{ d with returned := d.returned ++ [d.buffer.get b] }, .idle, thread⟩) := by
  obtain ⟨rfl, h_le, h_top⟩ : OwnerInv d (.popRead b t) := hs.owner
  refine ⟨fun h_last => ?_, fun h_ne => ?_⟩
  · subst h_last
    have h_content : Content d (d.bottom + 1) [] := by
      have h := hs.content
      simp only [OwnerPc.endIndex, OwnerPc.inHand, if_true] at h
      exact h
    refine hs.of_owner rfl ?_ (fun _ _ _ => rfl) h_content ⟨rfl, rfl, h_top, rfl⟩
    simp only [OwnerPc.endIndex, if_true]
    exact le_refl _
  · have h_content : Content d d.bottom [d.buffer.get d.bottom] := by
      have h := hs.content
      simp only [OwnerPc.endIndex, OwnerPc.inHand, if_neg h_ne] at h
      exact h
    refine hs.of_owner rfl ?_ (fun _ _ _ => rfl) ?_ trivial
    · simp only [OwnerPc.endIndex, if_neg h_ne]
      exact le_refl _
    · have h_out : Content d d.bottom ([d.buffer.get d.bottom] ++ []) := by rwa [List.append_nil]
      exact h_out.giveBack

theorem Inv.popExchange {b t : Int} {val : Option (Elem T)}
    (hs : Inv ⟨d, .popExchange b t val, thread⟩) :
    (d.top = t → Inv ⟨{ d with top := isize (t + 1) }, .popRestore b (some val), thread⟩) ∧
    (d.top ≠ t → Inv ⟨d, .popRestore b none, thread⟩) := by
  obtain ⟨rfl, rfl, h_top, rfl⟩ : OwnerInv d (.popExchange b t val) := hs.owner
  have h_content : Content d (d.bottom + 1) [] := hs.content
  refine ⟨fun h_last => ?_, fun _ => ?_⟩
  · have h_max := h_content.last_le
    have h_nonneg := h_content.top_nonneg
    have h_next : isize (d.bottom + 1) = d.top + (1 : Nat) := by
      rw [isize_eq (by omega) h_max]
      omega
    rw [h_next]
    have h_taken := h_content.steal (k := 1) (by omega)
    have h_one : slice d.buffer.get d.top 1 ++ [] = [d.buffer.get d.bottom] := by
      simp [slice, h_last]
    rw [h_one] at h_taken
    constructor
    · exact h_taken
    · rfl
    · intro h
      exact (hs.thief h).advance (by show d.top ≤ d.top + (1 : Nat); omega)
  · exact hs.of_owner rfl (le_refl _) (fun _ _ _ => rfl) h_content rfl

theorem Inv.popRestore {b : Int} {result : Option (Option (Elem T))}
    (hs : Inv ⟨d, .popRestore b result, thread⟩) :
    Inv ⟨{ d with bottom := isize (b + 1), returned := d.returned ++ result.toList }, .idle,
      thread⟩ := by
  obtain rfl : b = d.bottom := hs.owner
  have h_content : Content d (d.bottom + 1) result.toList := hs.content
  have h_max := h_content.last_le
  have h_nonneg := h_content.top_nonneg
  have h_top := h_content.top_le
  have h_next : isize (d.bottom + 1) = d.bottom + 1 := isize_eq (by omega) h_max
  rw [h_next]
  refine hs.of_owner rfl (le_refl _) (fun _ _ _ => rfl) ?_ trivial
  have h_out : Content d (d.bottom + 1) (result.toList ++ []) := by rwa [List.append_nil]
  exact h_out.giveBack.setBottom _

/-- Inside a call the owner only runs on. -/
theorem eq_run_of_ownerStep {pc : OwnerPc T} {a : OwnerAction T} {r : Deque T × OwnerPc T}
    (h : ownerStep elemSize d pc a = some r) (h_pc : pc ≠ .idle) : a = .run := by
  cases a with
  | run => rfl
  | push val | pop => cases pc <;> simp [ownerStep] at h h_pc

/-- One step of the owner. -/
theorem Inv.owner_step {s : State Thief T} {a : OwnerAction T} {d : Deque T} {pc : OwnerPc T}
    (hs : Inv s) (h_ok : SparesBatches s (.inl a))
    (h : ownerStep elemSize s.shared s.owner a = some (d, pc)) :
    Inv { s with shared := d, owner := pc } := by
  obtain ⟨d₀, pc₀, thread⟩ := s
  by_cases h_idle : pc₀ = .idle
  · subst h_idle
    cases a with
    | push val =>
        obtain ⟨rfl, rfl⟩ : d₀ = d ∧ _ = pc := by simpa [ownerStep] using h
        exact hs.push h_ok val
    | pop =>
        obtain ⟨rfl, rfl⟩ : d₀ = d ∧ _ = pc := by simpa [ownerStep] using h
        exact hs.pop
    | run => exact absurd h (by simp [ownerStep])
  obtain rfl := eq_run_of_ownerStep h h_idle
  cases pc₀ with
  | idle => exact absurd rfl h_idle
  | pushLoadTop b val =>
      have h_next := hs.pushLoadTop
      simp only [ownerStep] at h
      split at h <;> obtain ⟨rfl, rfl⟩ : d₀ = d ∧ _ = pc := by simpa using h
      · next h_full => rwa [if_pos h_full] at h_next
      · next h_room => rwa [if_neg h_room] at h_next
  | pushGrow b t val =>
      simp only [ownerStep] at h
      split at h
      · next buffer h_grow =>
          obtain ⟨rfl, rfl⟩ : _ = d ∧ _ = pc := by simpa using h
          exact hs.pushGrow h_grow
      · exact absurd h (by simp)
  | pushPut b t val =>
      obtain ⟨rfl, rfl⟩ : _ = d ∧ _ = pc := by simpa [ownerStep] using h
      exact hs.pushPut
  | pushStore b val =>
      obtain ⟨rfl, rfl⟩ : _ = d ∧ _ = pc := by simpa [ownerStep] using h
      exact hs.pushStore
  | popStore b =>
      obtain ⟨rfl, rfl⟩ : _ = d ∧ _ = pc := by simpa [ownerStep] using h
      exact hs.popStore
  | popLoadTop b =>
      have h_next := hs.popLoadTop fun h_lt => h_ok b (if_pos h_lt)
      simp only [ownerStep] at h
      split at h <;> obtain ⟨rfl, rfl⟩ : d₀ = d ∧ _ = pc := by simpa using h
      · next h_le => rwa [if_pos h_le] at h_next
      · next h_gt => rwa [if_neg h_gt] at h_next
  | popRead b t =>
      simp only [ownerStep] at h
      split at h <;> obtain ⟨rfl, rfl⟩ : _ = d ∧ _ = pc := by simpa using h
      · next h_last => exact hs.popRead.1 h_last
      · next h_ne => exact hs.popRead.2 h_ne
  | popExchange b t val =>
      simp only [ownerStep] at h
      split at h <;> obtain ⟨rfl, rfl⟩ : _ = d ∧ _ = pc := by simpa using h
      · next h_top => exact hs.popExchange.1 h_top
      · next h_ne => exact hs.popExchange.2 h_ne
  | popRestore b result =>
      obtain ⟨rfl, rfl⟩ : _ = d ∧ _ = pc := by simpa [ownerStep] using h
      exact hs.popRestore

-- ============================================================================
-- The steps of a thief
-- ============================================================================

/-- A range that a thief goes for ends at the `bottom` it has loaded. -/
theorem toSteal_le {limit : Option Nat} {t b : Int} {k : Nat} (h_low : 0 ≤ b - t + 2 ^ 63)
    (h_high : b - t ≤ isizeMax) (h : toSteal limit t b = some k) : t + k ≤ b := by
  cases limit with
  | none =>
      simp only [toSteal] at h
      split at h
      · next h_lt =>
          obtain rfl : 1 = k := Option.some.inj h
          omega
      · exact absurd h (by simp)
  | some outLen =>
      simp only [toSteal, isize_eq h_low h_high] at h
      split at h
      · exact absurd h (by simp)
      · obtain rfl := Option.some.inj h
        omega

/-- `top` moves on: the owner keeps its invariant. -/
theorem OwnerInv.advance {pc : OwnerPc T} {top : Int} (h : OwnerInv d pc) (h_top : d.top ≤ top)
    (returned : List (Option (Elem T))) :
    OwnerInv { d with top := top, returned := returned } pc := by
  cases pc with
  | idle => trivial
  | pushLoadTop b val => exact h
  | popStore b | popLoadTop b | popRestore b result => exact h
  | pushGrow b t val =>
      obtain ⟨h_b, h_max, h_number, h_t, h_size⟩ := h
      exact ⟨h_b, h_max, h_number, h_t.trans h_top, h_size⟩
  | pushPut b t val =>
      obtain ⟨h_b, h_max, h_number, h_t, h_size⟩ := h
      exact ⟨h_b, h_max, h_number, h_t.trans h_top, h_size⟩
  | pushStore b val =>
      obtain ⟨h_b, h_max, h_number, h_get, h_room⟩ := h
      refine ⟨h_b, h_max, h_number, h_get, ?_⟩
      show b - top < (d.buffer.cap : Int)
      omega
  | popRead b t =>
      obtain ⟨h_b, h_le, h_t⟩ := h
      exact ⟨h_b, h_le, h_t.trans h_top⟩
  | popExchange b t val =>
      obtain ⟨h_b, h_t, h_le, h_val⟩ := h
      exact ⟨h_b, h_t, h_le.trans h_top, h_val⟩

variable [DecidableEq Thief]

/-- A thief moves, and everything shared stays. -/
theorem Inv.of_thief {s : State Thief T} (hs : Inv s) {h : Thief} {q : ThiefPc T}
    (h_q : ThiefInv s.shared.top (s.owner.endIndex s.shared.bottom) s.shared.buffer.get q) :
    Inv { s with thread := Function.update s.thread h q } where
  content := hs.content
  owner := hs.owner
  thief := (Function.forall_update_iff s.thread (p := fun _ q => ThiefInv s.shared.top
    (s.owner.endIndex s.shared.bottom) s.shared.buffer.get q)).mpr ⟨h_q, fun k _ => hs.thief k⟩

/-- A thief reads the next element of its range. -/
theorem Inv.read {s : State Thief T} (hs : Inv s) {h : Thief} {t : Int} {k : Nat}
    {vals : List (Option (Elem T))} (h_pc : s.thread h = .stealing t k vals)
    (h_more : vals.length < k) :
    Inv { s with
      thread := Function.update s.thread h
        (.stealing t k (vals ++ [s.shared.buffer.get (isize (t + vals.length))])) } := by
  apply hs.of_thief
  have h_thief := hs.thief h
  rw [h_pc] at h_thief
  obtain ⟨h_nonneg, h_le, -, h_range⟩ := h_thief
  refine ⟨h_nonneg, h_le, ?_, fun h_t => ?_⟩
  · rw [List.length_append]
    exact h_more
  · obtain ⟨h_end, h_vals⟩ := h_range h_t
    have h_max := hs.content.last_le
    refine ⟨h_end, ?_⟩
    rw [isize_eq (by omega) (by omega), List.length_append, List.length_singleton, slice_succ,
      ← h_vals]

/-- The exchange of a thief succeeds. -/
theorem Inv.exchange {s : State Thief T} (hs : Inv s) {h : Thief} {t : Int} {k : Nat}
    {vals : List (Option (Elem T))} (h_pc : s.thread h = .stealing t k vals)
    (h_all : ¬ vals.length < k) (h_top : s.shared.top = t) :
    Inv { s with
      shared := { s.shared with top := isize (t + k), returned := s.shared.returned ++ vals }
      thread := Function.update s.thread h .idle } := by
  have h_thief := hs.thief h
  rw [h_pc] at h_thief
  obtain ⟨h_nonneg, -, h_len, h_range⟩ := h_thief
  obtain ⟨h_end, h_vals⟩ := h_range h_top.symm
  have h_max := hs.content.last_le
  have h_k : vals.length = k := by omega
  have h_next : isize (t + k) = s.shared.top + k := by
    rw [isize_eq (by omega) (by omega), h_top]
  rw [h_k, ← h_top] at h_vals
  rw [h_next, h_vals]
  have h_content := hs.content.steal (k := k) (by omega)
  constructor
  · exact h_content.giveBack
  · exact hs.owner.advance (by omega) _
  · apply (Function.forall_update_iff s.thread (p := fun _ q => ThiefInv (s.shared.top + k)
      (s.owner.endIndex s.shared.bottom) s.shared.buffer.get q)).mpr
    exact ⟨trivial, fun i _ => (hs.thief i).advance (by omega)⟩

/-- One step of a thief. -/
theorem Inv.thief_step {s : State Thief T} {h : Thief} {a : ThiefAction} {d : Deque T}
    {q : ThiefPc T} (hs : Inv s) (h_step : thiefStep s.shared (s.thread h) a = some (d, q)) :
    Inv { s with shared := d, thread := Function.update s.thread h q } := by
  have h_top := hs.content.top_nonneg
  cases h_pc : s.thread h with
  | idle =>
      rw [h_pc] at h_step
      cases a with
      | steal | stealBatch outLen =>
          obtain ⟨rfl, rfl⟩ : s.shared = d ∧ _ = q := by simpa [thiefStep] using h_step
          exact hs.of_thief ⟨h_top, le_refl _⟩
      | run => exact absurd h_step (by simp [thiefStep])
  | loadBottom limit t =>
      rw [h_pc] at h_step
      cases a with
      | run =>
          have h_thief := hs.thief h
          rw [h_pc] at h_thief
          obtain ⟨h_nonneg, h_le⟩ := h_thief
          simp only [thiefStep] at h_step
          split at h_step <;> obtain ⟨rfl, rfl⟩ : s.shared = d ∧ _ = q := by simpa using h_step
          · next k h_k =>
              apply hs.of_thief
              have h_end := hs.owner.endIndex_eq
              have h_le_end := hs.content.top_le
              have h_max := hs.content.last_le
              unfold isizeMax at h_max
              have h_range := toSteal_le (by omega) (by unfold isizeMax; omega) h_k
              exact ⟨h_nonneg, h_le, Nat.zero_le k, fun _ => ⟨by omega, rfl⟩⟩
          · exact hs.of_thief trivial
      | steal | stealBatch outLen => exact absurd h_step (by simp [thiefStep])
  | stealing t k vals =>
      rw [h_pc] at h_step
      cases a with
      | run =>
          simp only [thiefStep] at h_step
          split at h_step
          · next h_more =>
              obtain ⟨rfl, rfl⟩ : s.shared = d ∧ _ = q := by simpa using h_step
              exact hs.read h_pc h_more
          · next h_all =>
              split at h_step <;> obtain ⟨rfl, rfl⟩ : _ = d ∧ _ = q := by simpa using h_step
              · next h_eq => exact hs.exchange h_pc h_all h_eq
              · exact hs.of_thief trivial
      | steal | stealBatch outLen => exact absurd h_step (by simp [thiefStep])

-- ============================================================================
-- Runs
-- ============================================================================

/-- No call is in progress. -/
def Quiet (s : State Thief T) : Prop := s.owner = .idle ∧ ∀ h, s.thread h = .idle

instance [Fintype Thief] [DecidableEq T] (s : State Thief T) : Decidable (Quiet s) :=
  inferInstanceAs (Decidable (_ ∧ _))

/-- The elements pushed are pairwise different, so the ones returned are. -/
theorem Content.returned_nodup {last : Int} {hand : List (Option (Elem T))}
    (hd : Content d last hand) : d.returned.Nodup := by
  have h_pushed : (d.pushed.map some).Nodup :=
    (nodup_of_numbered hd.numbered).map (Option.some_injective _)
  exact (List.nodup_append.mp (hd.conserved.symm.nodup h_pushed)).1

/-- One step that spares batches. -/
theorem Inv.step {s s' : State Thief T} {a : OwnerAction T ⊕ Thief × ThiefAction} (hs : Inv s)
    (h_ok : SparesBatches s a) (h : (machine Thief T elemSize).step s a = some s') : Inv s' := by
  rcases a with a | ⟨h_thief, a⟩
  · obtain ⟨m, p, h_own, rfl⟩ := OwnerAndThreads.step_owner_eq_some h
    exact hs.owner_step h_ok h_own
  · obtain ⟨m, q, h_own, rfl⟩ := OwnerAndThreads.step_thread_eq_some h
    exact hs.thief_step h_own

/-- The labels of a push without interference. -/
def pushAlone : List (OwnerAction Unit ⊕ Unit × ThiefAction) :=
  [.inl (.push ()), .inl .run, .inl .run, .inl .run]

end Stealer
end Zydon
