/-
  Zydon.Primitives.Channel.Stranding

  Parked futures of the channel when no call is interrupted.

  Senders wait for the free slots of the buffer, and receivers for its values:
  both are lines in which a wake-up takes the first waiter out (`Served`).  A
  woken future stays `registered`, so that it does not queue again.  Two orders
  of calls then lose a wake-up, on either side: the woken future comes late and
  parks again, or it is dropped.  `KeepsWakeUps` excludes the two, and the runs
  within it strand nobody (`noneStranded_of_keepsWakeUps`).
-/

import Mathlib.Data.Fintype.Powerset
import Zydon.Lib.WaitLine
import Zydon.Primitives.Channel.Delivery
import Zydon.Primitives.Channel.Lines

namespace Zydon
namespace Channel

open Lib WaitQueue

variable {SF RF Waker V : Type*}

-- ============================================================================
-- Waiters
-- ============================================================================

/-- The last poll of the future returned `Pending`, and it has not been dropped;
    its waker has been invoked since the start of that poll. -/
def SendFuture.waiter (x : SendFuture V) : Waiter where
  pending := x.status = .pending
  woken := x.woken

/-- The same for a receive future. -/
def RecvFuture.waiter (x : RecvFuture) : Waiter where
  pending := x.status = .pending
  woken := x.woken

namespace ChannelInner

def senders (c : ChannelInner SF RF Waker V) (f : SF) : Waiter := (c.sendFutures f).waiter

def receivers (c : ChannelInner SF RF Waker V) (f : RF) : Waiter := (c.recvFutures f).waiter

end ChannelInner

/-- If the buffer has room and some send future is pending, then some pending send
    future has been woken since its last poll; and the same for values in the
    buffer and receive futures. -/
structure NoneStranded (c : ChannelInner SF RF Waker V) : Prop where
  send : c.len.toNat < c.capacity.val → (∃ f, (c.senders f).pending = true) →
    ∃ f, (c.senders f).pending = true ∧ (c.senders f).woken = true
  recv : 0 < c.len.toNat → (∃ f, (c.receivers f).pending = true) →
    ∃ f, (c.receivers f).pending = true ∧ (c.receivers f).woken = true

/-- The call does not lose a wake-up:

    * a future that a wake-up has taken off its queue is not polled while the
      buffer is full (for a receive future: empty);
    * a pending future that has been woken is not dropped while others are queued
      behind it, unless at least as many other pending futures have been woken as
      there are free slots (for a receive future: values). -/
def KeepsWakeUps (c : ChannelInner SF RF Waker V) : Call SF RF Waker V → Prop
  | .inl (.poll f _) => c.capacity.val ≤ c.len.toNat → (c.sendFutures f).registered = true →
      (c.sendWaiters.nodes f).linked = true
  | .inl (.dropFuture f) => (c.senders f).pending = true → (c.senders f).woken = true →
      c.sendWaiters.head ≠ none →
        ∃ ws, f ∉ ws ∧ AllWoken c.senders ws ∧ c.capacity.val - c.len.toNat ≤ ws.card
  | .inr (.poll f _) => c.len.toNat = 0 → (c.recvFutures f).registered = true →
      (c.recvWaiters.nodes f).linked = true
  | .inr (.dropFuture f) => (c.receivers f).pending = true → (c.receivers f).woken = true →
      c.recvWaiters.head ≠ none →
        ∃ ws, f ∉ ws ∧ AllWoken c.receivers ws ∧ c.len.toNat ≤ ws.card
  | .inl (.trySend _) | .inl .run | .inr .tryRecv | .inr .run => True

section Decide

variable [Fintype SF] [DecidableEq SF] [Fintype RF] [DecidableEq RF]

instance NoneStranded.decidable (c : ChannelInner SF RF Waker V) : Decidable (NoneStranded c) :=
  decidable_of_iff
    ((c.len.toNat < c.capacity.val → (∃ f, (c.senders f).pending = true) →
        ∃ f, (c.senders f).pending = true ∧ (c.senders f).woken = true) ∧
      (0 < c.len.toNat → (∃ f, (c.receivers f).pending = true) →
        ∃ f, (c.receivers f).pending = true ∧ (c.receivers f).woken = true))
    ⟨fun ⟨h_send, h_recv⟩ => ⟨h_send, h_recv⟩, fun h => ⟨h.send, h.recv⟩⟩

instance KeepsWakeUps.decidable (c : ChannelInner SF RF Waker V) :
    ∀ a, Decidable (KeepsWakeUps c a)
  | .inl (.poll _ _) | .inr (.poll _ _) => inferInstanceAs (Decidable (_ → _ → _))
  | .inl (.dropFuture f) =>
      inferInstanceAs (Decidable (_ → _ → _ → ∃ ws : Finset SF, f ∉ ws ∧ _ ∧ _))
  | .inr (.dropFuture f) =>
      inferInstanceAs (Decidable (_ → _ → _ → ∃ ws : Finset RF, f ∉ ws ∧ _ ∧ _))
  | .inl (.trySend _) | .inl .run | .inr .tryRecv | .inr .run => inferInstanceAs (Decidable True)

end Decide

-- ============================================================================
-- The two lines
-- ============================================================================

namespace Ring

variable {r : Ring V}

theorem put_len (value : V) (h_room : r.len.toNat < r.capacity.val) :
    (r.put value).len.toNat = r.len.toNat + 1 :=
  lenAdd_len h_room

theorem take_len (h_some : 0 < r.len.toNat) : r.take.len.toNat = r.len.toNat - 1 :=
  lenSub_len h_some

end Ring

namespace LineChannel

def senders (v : LineChannel SF RF V) (f : SF) : Waiter := (v.sendFutures f).waiter

def receivers (v : LineChannel SF RF V) (f : RF) : Waiter := (v.recvFutures f).waiter

end LineChannel

/-- The senders wait for the free slots, and the receivers for the values. -/
structure LineInv (v : LineChannel SF RF V) : Prop where
  len_le : v.len.toNat ≤ v.capacity.val
  unsent : ∀ f, (v.sendFutures f).status = .fresh ∨ (v.sendFutures f).status = .pending →
    (v.sendFutures f).value ≠ none
  send : Served (v.capacity.val - v.len.toNat) v.sendLine v.senders
  recv : Served v.len.toNat v.recvLine v.receivers

namespace LineInv

variable [DecidableEq SF] [DecidableEq RF] {v v' : LineChannel SF RF V}
  {c : ChannelInner SF RF Waker V} {ls : List SF} {lr : List RF}

omit [DecidableEq SF] in
/-- A value is put in, and the first receiver woken. -/
theorem served_put (h : Served v.len.toNat v.recvLine v.receivers) (value : V)
    (h_room : v.len.toNat < v.capacity.val) :
    Served (v.put value).len.toNat (v.put value).recvLine (v.put value).receivers := by
  have h_len : (v.put value).len.toNat = v.len.toNat + 1 := by
    rw [LineChannel.put_toRing]
    exact Ring.put_len value h_room
  rw [h_len]
  cases h_line : v.recvLine with
  | nil =>
      have h_put : v.put value = { v with toRing := v.toRing.put value } := by
        simp only [LineChannel.put, LineChannel.wakeRecv, h_line]
      rw [h_put]
      show Served _ v.recvLine v.receivers
      rw [h_line] at h ⊢
      exact h.free_nil
  | cons g l =>
      have h_woken : (fun f => (Function.update v.recvFutures g
          { v.recvFutures g with woken := true } f).waiter) =
            Function.update v.receivers g { v.receivers g with woken := true } :=
        Function.comp_update RecvFuture.waiter v.recvFutures g _
      simp only [LineChannel.put, LineChannel.wakeRecv, h_line]
      show Served _ l (fun f => (Function.update v.recvFutures g _ f).waiter)
      rw [h_line] at h
      rw [h_woken]
      exact h.wake

omit [DecidableEq RF] in
/-- A value is taken out, and the first sender woken. -/
theorem served_take (h : Served (v.capacity.val - v.len.toNat) v.sendLine v.senders)
    (h_some : 0 < v.len.toNat) (h_le : v.len.toNat ≤ v.capacity.val) :
    Served (v.take.capacity.val - v.take.len.toNat) v.take.sendLine v.take.senders := by
  have h_len : v.take.capacity.val - v.take.len.toNat = v.capacity.val - v.len.toNat + 1 := by
    rw [LineChannel.take_toRing, Ring.take_len h_some]
    show v.capacity.val - (v.len.toNat - 1) = _
    omega
  rw [h_len]
  cases h_line : v.sendLine with
  | nil =>
      have h_take : v.take = { v with toRing := v.toRing.take } := by
        simp only [LineChannel.take, LineChannel.wakeSend, h_line]
      rw [h_take]
      show Served _ v.sendLine v.senders
      rw [h_line] at h ⊢
      exact h.free_nil
  | cons g l =>
      have h_woken : (fun f => (Function.update v.sendFutures g
          { v.sendFutures g with woken := true } f).waiter) =
            Function.update v.senders g { v.senders g with woken := true } :=
        Function.comp_update SendFuture.waiter v.sendFutures g _
      simp only [LineChannel.take, LineChannel.wakeSend, h_line]
      show Served _ l (fun f => (Function.update v.sendFutures g _ f).waiter)
      rw [h_line] at h
      rw [h_woken]
      exact h.wake

omit [DecidableEq SF] in
/-- A value is put in: there is one free slot fewer for the senders. -/
theorem put (h : LineInv v) (value : V) (h_room : v.len.toNat < v.capacity.val) :
    LineInv (v.put value) ∧ Served ((v.put value).capacity.val - (v.put value).len.toNat + 1)
      (v.put value).sendLine (v.put value).senders := by
  have h_len : (v.put value).len.toNat = v.len.toNat + 1 := by
    rw [LineChannel.put_toRing]
    exact Ring.put_len value h_room
  have h_capacity : (v.put value).capacity = v.capacity := by
    rw [LineChannel.put_toRing]
    rfl
  have h_senders : (v.put value).senders = v.senders := by
    funext f
    rw [LineChannel.senders, LineChannel.put_sendFutures]
    rfl
  have h_send : Served ((v.put value).capacity.val - (v.put value).len.toNat + 1)
      (v.put value).sendLine (v.put value).senders := by
    rw [h_len, h_capacity, h_senders, LineChannel.put_sendLine]
    exact h.send.mono (by omega)
  refine ⟨⟨?_, ?_, h_send.mono (Nat.le_succ _), served_put h.recv value h_room⟩, h_send⟩
  · rw [h_len, h_capacity]
    exact h_room
  · rw [LineChannel.put_sendFutures]
    exact h.unsent

omit [DecidableEq RF] in
/-- A value is taken out: there is one value fewer for the receivers. -/
theorem take (h : LineInv v) (h_some : 0 < v.len.toNat) :
    LineInv v.take ∧ Served (v.take.len.toNat + 1) v.take.recvLine v.take.receivers := by
  have h_le := h.len_le
  have h_len : v.take.len.toNat = v.len.toNat - 1 := by
    rw [LineChannel.take_toRing]
    exact Ring.take_len h_some
  have h_capacity : v.take.capacity = v.capacity := by
    rw [LineChannel.take_toRing]
    rfl
  have h_receivers : v.take.receivers = v.receivers := by
    funext f
    rw [LineChannel.receivers, LineChannel.take_recvFutures]
    rfl
  have h_recv : Served (v.take.len.toNat + 1) v.take.recvLine v.take.receivers := by
    rw [h_len, h_receivers, LineChannel.take_recvLine]
    exact h.recv.mono (by omega)
  refine ⟨⟨?_, ?_, served_take h.send h_some h_le, h_recv.mono (Nat.le_succ _)⟩, h_recv⟩
  · rw [h_len, h_capacity]
    omega
  · intro f h_f
    rw [(v.take_sendFutures f).2] at h_f
    rw [(v.take_sendFutures f).1]
    exact h.unsent f h_f

omit [DecidableEq RF] in
theorem leaveSend (h : LineInv v) {f : SF} {x : SendFuture V}
    (h_x : x.status = .ready ∨ x.status = .dropped)
    (h_send : Served (v.capacity.val - v.len.toNat) (v.sendLine.erase f)
      (Function.update v.senders f x.waiter)) : LineInv (v.leaveSend f x) where
  len_le := h.len_le
  unsent := by
    intro g h_g
    by_cases h_gf : g = f
    · subst h_gf
      rcases h_x with h_x | h_x <;> simp [LineChannel.leaveSend, h_x] at h_g
    · simp only [LineChannel.leaveSend, Function.update_of_ne h_gf] at h_g ⊢
      exact h.unsent g h_g
  send := by
    have h_left : (v.leaveSend f x).senders = Function.update v.senders f x.waiter :=
      Function.comp_update SendFuture.waiter v.sendFutures f x
    rw [h_left]
    exact h_send
  recv := h.recv

omit [DecidableEq SF] in
theorem leaveRecv (h : LineInv v) {f : RF} {x : RecvFuture}
    (h_recv : Served v.len.toNat (v.recvLine.erase f) (Function.update v.receivers f x.waiter)) :
    LineInv (v.leaveRecv f x) where
  len_le := h.len_le
  unsent := h.unsent
  send := h.send
  recv := by
    have h_left : (v.leaveRecv f x).receivers = Function.update v.receivers f x.waiter :=
      Function.comp_update RecvFuture.waiter v.recvFutures f x
    rw [h_left]
    exact h_recv

omit [DecidableEq RF] in
/-- A send future parks.  One that is registered has kept its place in the line. -/
theorem parkSend (h : LineInv v) {f : SF} (h_full : v.capacity.val ≤ v.len.toNat)
    (h_value : (v.sendFutures f).value ≠ none)
    (h_place : (v.sendFutures f).registered = true ↔ f ∈ v.sendLine) : LineInv (v.parkSend f) where
  len_le := h.len_le
  unsent := by
    intro g h_g
    by_cases h_gf : g = f
    · subst h_gf
      simpa [LineChannel.parkSend] using h_value
    · simp only [LineChannel.parkSend, Function.update_of_ne h_gf] at h_g ⊢
      exact h.unsent g h_g
  send := by
    have h_served : Served 0 v.sendLine v.senders := h.send.mono (Nat.zero_le _)
    have h_parked : (v.parkSend f).senders = Function.update v.senders f ⟨true, false⟩ :=
      Function.comp_update SendFuture.waiter v.sendFutures f _
    have h_none : (v.parkSend f).capacity.val - (v.parkSend f).len.toNat = 0 :=
      Nat.sub_eq_zero_of_le h_full
    rw [h_parked, h_none]
    by_cases h_again : (v.sendFutures f).registered = true
    · simp only [LineChannel.parkSend, if_pos h_again]
      exact h_served.park_again (h_place.mp h_again)
    · simp only [LineChannel.parkSend, if_neg h_again]
      exact h_served.park fun h_mem => h_again (h_place.mpr h_mem)
  recv := h.recv

omit [DecidableEq SF] in
/-- A receive future parks. -/
theorem parkRecv (h : LineInv v) {f : RF} (h_empty : v.len.toNat = 0)
    (h_place : (v.recvFutures f).registered = true ↔ f ∈ v.recvLine) : LineInv (v.parkRecv f) where
  len_le := h.len_le
  unsent := h.unsent
  send := h.send
  recv := by
    have h_served : Served 0 v.recvLine v.receivers := h.recv.mono (Nat.zero_le _)
    have h_parked : (v.parkRecv f).receivers = Function.update v.receivers f ⟨true, false⟩ :=
      Function.comp_update RecvFuture.waiter v.recvFutures f _
    have h_none : (v.parkRecv f).len.toNat = 0 := h_empty
    rw [h_parked, h_none]
    by_cases h_again : (v.recvFutures f).registered = true
    · simp only [LineChannel.parkRecv, if_pos h_again]
      exact h_served.park_again (h_place.mp h_again)
    · simp only [LineChannel.parkRecv, if_neg h_again]
      exact h_served.park fun h_mem => h_again (h_place.mpr h_mem)

/-- One call keeps the lines. -/
theorem step (h : LineInv (c.lined ls lr)) (hc : Quiet c ls lr) {a : Call SF RF Waker V}
    {o : Outcome V} (h_ok : KeepsWakeUps c a) (h_call : CallEffect (c.lined ls lr) a v' o) :
    LineInv v' := by
  have h_head : c.sendWaiters.head ≠ none ↔ ls ≠ [] := by
    rw [hc.send.head_eq, ne_eq, List.head?_eq_none_iff]
  have h_recv_head : c.recvWaiters.head ≠ none ↔ lr ≠ [] := by
    rw [hc.recv.head_eq, ne_eq, List.head?_eq_none_iff]
  cases h_call with
  | trySend h_room => exact (h.put _ h_room).1
  | tryFull h_full | tryEmpty h_empty => exact h
  | send h_status h_room h_value =>
      obtain ⟨h_put, h_send⟩ := h.put _ h_room
      exact h_put.leaveSend (.inl rfl) (h_send.take rfl)
  | @sendPark f waker h_status h_none =>
      have h_value := h.unsent f h_status
      have h_full : c.capacity.val ≤ c.len.toNat :=
        Nat.not_lt.mp fun h_room => h_value (h_none h_room)
      refine h.parkSend h_full h_value ⟨fun h_again => ?_, hc.sendRegistered f⟩
      exact (hc.send.linked_iff f).mp (h_ok h_full h_again)
  | @sendDrop f =>
      refine h.leaveSend (.inr rfl) (h.send.leave rfl (Nat.le_refl _) fun h_f h_woken h_ne => ?_)
      exact h_ok h_f h_woken (h_head.mpr h_ne)
  | tryRecv h_some => exact (h.take h_some).1
  | recv h_some =>
      obtain ⟨h_take, h_recv⟩ := h.take h_some
      exact h_take.leaveRecv (h_recv.take rfl)
  | @recvPark f waker h_empty =>
      refine h.parkRecv h_empty ⟨fun h_again => ?_, hc.recvRegistered f⟩
      exact (hc.recv.linked_iff f).mp (h_ok h_empty h_again)
  | @recvDrop f =>
      refine h.leaveRecv (h.recv.leave rfl (Nat.le_refl _) fun h_f h_woken h_ne => ?_)
      exact h_ok h_f h_woken (h_recv_head.mpr h_ne)

end LineInv

-- ============================================================================
-- Runs
-- ============================================================================

section Runs

variable [DecidableEq SF] [DecidableEq RF]

omit [DecidableEq SF] [DecidableEq RF] in
theorem LineInv.new (capacity : Capacity) (values : SF → V) :
    LineInv ((channel capacity values : ChannelInner SF RF Waker V).lined [] []) where
  len_le := Nat.zero_le _
  unsent := fun _ _ => Option.some_ne_none _
  send := Served.nil fun _ => rfl
  recv := Served.nil fun _ => rfl

/-- In every run of uninterrupted calls that loses no wake-up, no parked future is
    stranded. -/
theorem noneStranded_of_keepsWakeUps {capacity : Capacity} {values : SF → V}
    {tr : List (Call SF RF Waker V)} {s : History SF RF Waker V}
    (h_meet : (aloneMachine RF Waker capacity values).StepsMeet
      (fun s a => KeepsWakeUps s.channel a) (aloneMachine RF Waker capacity values).init tr)
    (h_run : (aloneMachine RF Waker capacity values).exec
      (aloneMachine RF Waker capacity values).init tr = some s) : NoneStranded s.channel := by
  obtain ⟨ls, lr, -, h_lines⟩ :
      ∃ ls lr, Quiet s.channel ls lr ∧ LineInv (s.channel.lined ls lr) := by
    refine Machine.exec_invariant
      (P := fun s => ∃ ls lr, Quiet s.channel ls lr ∧ LineInv (s.channel.lined ls lr))
      (fun s a s' => ?_) ⟨[], [], quiet_channel capacity values, LineInv.new capacity values⟩
      h_meet h_run
    rintro ⟨ls, lr, h_quiet, h_lines⟩ h_ok h_step
    simp only [aloneMachine] at h_step
    split at h_step
    · next c o h_call =>
        cases h_step
        obtain ⟨ls', lr', h_quiet', h_effect⟩ := callAlone_effect h_quiet h_call
        exact ⟨ls', lr', h_quiet', h_lines.step h_quiet h_ok h_effect⟩
    · exact absurd h_step (by simp)
  refine ⟨fun h_room h_some => ?_, fun h_some => h_lines.recv.someone_woken h_some⟩
  exact h_lines.send.someone_woken (Nat.sub_pos_of_lt h_room) h_some

end Runs

/-- A channel of capacity one with two futures on each side. -/
abbrev smallMachine : Machine (History Bool Bool Unit Nat) (Call Bool Bool Unit Nat) :=
  aloneMachine Bool Unit capacityOne fun _ => 0

/-- The channel is full and two sends wait.  A receive wakes the first one, which
    sends; the second one is dropped, and a receive future waits in the end. -/
def handedOnRun : List (Call Bool Bool Unit Nat) :=
  [.inl (.trySend 0), .inl (.poll false ()), .inl (.poll true ()), .inr .tryRecv,
    .inl (.poll false ()), .inr .tryRecv, .inl (.dropFuture true), .inr (.poll false ())]

theorem noneStranded_handedOnRun :
    ∃ s, smallMachine.exec smallMachine.init handedOnRun = some s ∧ NoneStranded s.channel := by
  have h_meet : smallMachine.StepsMeet (fun s a => KeepsWakeUps s.channel a) smallMachine.init
      handedOnRun := by
    decide +kernel
  obtain ⟨s, h_run⟩ := Option.isSome_iff_exists.mp (show
    (smallMachine.exec smallMachine.init handedOnRun).isSome by decide +kernel)
  exact ⟨s, h_run, noneStranded_of_keepsWakeUps h_meet h_run⟩

/-- A receive wakes the first of two waiting sends, which is dropped. -/
def cancelledSendRun : List (Call Bool Bool Unit Nat) :=
  [.inl (.trySend 0), .inl (.poll false ()), .inl (.poll true ()), .inr .tryRecv,
    .inl (.dropFuture false)]

/-- A `try_send` fills the channel before the woken send is polled, which parks
    again without queueing; the next receive wakes nobody. -/
def bargedSendRun : List (Call Bool Bool Unit Nat) :=
  [.inl (.trySend 0), .inl (.poll false ()), .inr .tryRecv, .inl (.trySend 0),
    .inl (.poll false ()), .inr .tryRecv]

/-- A send wakes the first of two waiting receives, which is dropped. -/
def cancelledRecvRun : List (Call Bool Bool Unit Nat) :=
  [.inr (.poll false ()), .inr (.poll true ()), .inl (.trySend 0), .inr (.dropFuture false)]

/-- A `try_recv` empties the channel before the woken receive is polled, which
    parks again without queueing; the next send wakes nobody. -/
def bargedRecvRun : List (Call Bool Bool Unit Nat) :=
  [.inr (.poll false ()), .inl (.trySend 0), .inr .tryRecv, .inr (.poll false ()),
    .inl (.trySend 0)]

/-- After each of the first two runs the channel has room, and a send future is
    pending that nobody has woken; after each of the other two it has a value,
    and the same holds of a receive future. -/
theorem channelRuns_strand_futures :
    (∀ tr ∈ [cancelledSendRun, bargedSendRun],
      ∃ s, smallMachine.exec smallMachine.init tr = some s ∧
        s.channel.len.toNat < s.channel.capacity.val ∧ ¬ NoneStranded s.channel) ∧
    ∀ tr ∈ [cancelledRecvRun, bargedRecvRun],
      ∃ s, smallMachine.exec smallMachine.init tr = some s ∧
        0 < s.channel.len.toNat ∧ ¬ NoneStranded s.channel := by
  constructor
  · rw [List.forall_mem_cons, List.forall_mem_singleton]
    exact ⟨Machine.exec_of_decide (by decide +kernel), Machine.exec_of_decide (by decide +kernel)⟩
  · rw [List.forall_mem_cons, List.forall_mem_singleton]
    exact ⟨Machine.exec_of_decide (by decide +kernel), Machine.exec_of_decide (by decide +kernel)⟩

end Channel
end Zydon
