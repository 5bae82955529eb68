/-
  Zydon.Primitives.Broadcast.Lifetime

  The reference count of a broadcast channel, over every sequence of calls.

  `broadcast` returns two halves, and counts one reference.  `subscribe` adds one
  for each receiver it makes, and each `drop` takes one away, so that the count
  stays one short of the halves: the allocation is freed while a half is left, and
  the last half to be dropped finds it gone (`not_countsHalves_of_reachable`).
-/

import Zydon.Primitives.Broadcast.Calls

namespace Zydon
namespace Broadcast

open Lib

variable {R T Waker : Type*}

/-- The number of halves that have not been dropped. -/
def System.live (s : System R T Waker) : Nat :=
  s.receivers.card + if s.sender.closing then 0 else 1

/-- The count is that of the halves, the allocation is there as long as there is
    one, and no call has reached for it later. -/
structure CountsHalves (s : System R T Waker) : Prop where
  counts : s.allocated = true → s.refcount.toNat = s.live
  allocated_iff : s.allocated = true ↔ 0 < s.live
  not_faulted : s.faulted = false

/-- The count is one short. -/
structure OneShort (s : System R T Waker) : Prop where
  quiet : s.sender.quiet = true
  counts : s.allocated = true → ∃ n, 0 < n ∧ Counts s.refcount n ∧ s.live = n + 1
  freed : s.allocated = false → s.faulted = false → 0 < s.live

variable {s s' : System R T Waker}

/-- The last reference is released before the last half is dropped. -/
theorem OneShort.not_countsHalves (h : OneShort s) : ¬ CountsHalves s := by
  rintro ⟨h_counts, h_iff, h_faulted⟩
  cases h_allocated : s.allocated with
  | true =>
      obtain ⟨n, -, h_n, h_live⟩ := h.counts h_allocated
      have h_eq : s.refcount.toNat = n + 1 := (h_counts h_allocated).trans h_live
      have h_le : s.refcount.toNat ≤ n := by
        rw [h_n.toNat_mod]
        exact Nat.mod_le n _
      omega
  | false =>
      have h_pos : 0 < s.live := h.freed h_allocated h_faulted
      exact absurd (h_iff.mpr h_pos) (by simp [h_allocated])

/-- One half is dropped. -/
theorem OneShort.release {n : Nat} (h_quiet : s.sender.quiet = true) (h_n : 0 < n)
    (h_counts : Counts s.refcount n) (h_live : s.live = n) : OneShort s.release := by
  obtain ⟨n, rfl⟩ : ∃ m, n = m + 1 := Nat.exists_eq_add_of_le' h_n
  refine ⟨h_quiet, fun h_allocated => ⟨n, ?_, h_counts.sub, h_live⟩, fun _ _ => ?_⟩
  · -- a count of one would have freed the allocation
    apply Nat.pos_of_ne_zero
    rintro rfl
    have h_one : s.refcount = 1 := h_counts
    simp [System.release, h_one] at h_allocated
  · show 0 < s.live
    omega

variable [DecidableEq R] {fuel : Nat}

theorem OneShort.new (first : R) : OneShort (.new first : System R T Waker) where
  quiet := rfl
  counts := fun _ => ⟨1, Nat.one_pos, .one, by simp [System.live, System.new, SendPc.closing]⟩
  freed := fun h => nomatch h

theorem OneShort.effect (h : OneShort s) (h_effect : CallEffect fuel s s') : OneShort s' := by
  obtain ⟨h_quiet, h_counts, h_freed⟩ := h
  cases h_effect with
  | fault h_allocated =>
      exact ⟨h_quiet, fun h => (nomatch h_allocated.symm.trans h), fun _ h => (nomatch h)⟩
  | send h_allocated h_open h_alone =>
      obtain ⟨h_quiet', h_closing⟩ := sendAlone_pc h_quiet h_open h_alone
      obtain ⟨n, h_n, h_count, h_live⟩ := h_counts h_allocated
      refine ⟨h_quiet', fun _ => ⟨n, h_n, h_count, ?_⟩, fun h => (nomatch h_allocated.symm.trans h)⟩
      rw [← h_live, System.live, System.live, h_closing, h_open]
      rfl
  | dropSender h_allocated h_open h_alone =>
      obtain ⟨h_quiet', h_closing⟩ := sendAlone_pc h_quiet h_open h_alone
      obtain ⟨n, h_n, h_count, h_live⟩ := h_counts h_allocated
      refine .release h_quiet' h_n h_count ?_
      rw [System.live, h_open] at h_live
      rw [System.live, h_closing]
      exact Nat.succ.inj h_live
  | @subscribe new _ _ h_allocated h_new h_alone =>
      obtain ⟨n, h_n, h_count, h_live⟩ := h_counts h_allocated
      refine ⟨h_quiet, fun _ => ⟨n + 1, Nat.succ_pos n, h_count.add, ?_⟩,
        fun h => (nomatch h_allocated.symm.trans h)⟩
      have h_card : (insert new s.receivers).card = s.receivers.card + 1 :=
        Finset.card_insert_of_notMem h_new
      rw [System.live] at h_live
      show (insert new s.receivers).card + _ = _
      rw [h_card, Nat.add_right_comm, ← h_live]
      rfl
  | poll h_alone => exact ⟨h_quiet, h_counts, h_freed⟩
  | dropFuture h_alone => exact ⟨h_quiet, h_counts, h_freed⟩
  | idle => exact ⟨h_quiet, h_counts, h_freed⟩
  | @dropReceiver r h_allocated h_live =>
      obtain ⟨n, h_n, h_count, h_eq⟩ := h_counts h_allocated
      refine .release h_quiet h_n h_count ?_
      have h_card : (s.receivers.erase r).card + 1 = s.receivers.card :=
        Finset.card_erase_add_one h_live
      rw [System.live] at h_eq
      show (s.receivers.erase r).card + (if s.sender.closing then 0 else 1) = n
      omega

/-- In no reachable state does the count equal the number of the halves, with the
    allocation there for them. -/
theorem not_countsHalves_of_reachable {first : R}
    (h : (calls T Waker first fuel).Reachable s) : ¬ CountsHalves s := by
  have h_short : OneShort s :=
    h.invariant (.new first) fun _ _ _ h_short h_step =>
      h_short.effect (System.step_effect h_step).2
  exact h_short.not_countsHalves

/-- The receiver is dropped first, then the sender. -/
def receiverFirst : List (Call Nat Nat Unit) := [.dropReceiver 0, .dropSender]

/-- After the receiver has been dropped, the sender is live and the allocation
    freed. -/
theorem not_countsHalves_receiverDropped :
    ∃ s, (calls Nat Unit (0 : Nat) 0).exec (.new 0) [.dropReceiver 0] = some s ∧
      (s.live = 1 ∧ s.allocated = false) ∧ ¬ CountsHalves s := by
  have h_replay : ((calls Nat Unit (0 : Nat) 0).exec (.new 0) [.dropReceiver 0]).any
      (fun s => decide (s.live = 1 ∧ s.allocated = false)) = true := by
    decide +kernel
  obtain ⟨s, h_run, h_freed⟩ := Machine.exec_of_decide h_replay
  exact ⟨s, h_run, h_freed, not_countsHalves_of_reachable ⟨_, h_run⟩⟩

/-- The sender stores the closed generation in the freed allocation. -/
theorem faulted_receiverFirst :
    ∃ s, (calls Nat Unit (0 : Nat) 0).exec (.new 0) receiverFirst = some s ∧
      s.faulted = true ∧ ¬ CountsHalves s := by
  have h_replay : ((calls Nat Unit (0 : Nat) 0).exec (.new 0) receiverFirst).any
      (fun s => decide (s.faulted = true)) = true := by
    decide +kernel
  obtain ⟨s, h_run, h_faulted⟩ := Machine.exec_of_decide h_replay
  exact ⟨s, h_run, h_faulted, fun h => nomatch h.not_faulted.symm.trans h_faulted⟩

end Broadcast
end Zydon
