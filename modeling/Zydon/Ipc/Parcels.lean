/-
  Zydon.Ipc.Parcels

  Messages through a ring, from the data and the handles that the sender packs into
  them to those that the receiver unpacks.

  `Parcel` is what is meant by a message; `pack` is the constructor that makes the
  message, and `Unpacks` says what all the accessors make of one.  The ring carries
  them in order (`deliversParcels_of_reachable`), whatever the steps of its two ends.
-/

import Mathlib.Data.List.Forall2
import Mathlib.Data.List.Perm.Basic
import Zydon.Ipc.Message.RoundTrip
import Zydon.Ipc.SpscRing.Lifetime

namespace Zydon

open Lib

-- ============================================================================
-- Parcels
-- ============================================================================

/-- What a sender puts into a message: bytes, or a region of a VMO. -/
inductive Parcel where
  | inline (sender : TaskId) (txId : BitVec 64) (data : List (BitVec 8)) (handles : List Handle)
  | zeroCopy (sender : TaskId) (txId : BitVec 64) (vmo : Handle) (offset size : BitVec 64)
      (handles : List Handle)

namespace Parcel

/-- The constructor of the message. -/
def pack : Parcel → Except Panic (Except MessageError Message)
  | inline sender txId data handles => Message.newInline sender txId data handles
  | zeroCopy sender txId vmo offset size handles =>
      Message.newZeroCopy sender txId vmo offset size handles

def sender : Parcel → TaskId
  | inline sender _ _ _ | zeroCopy sender _ _ _ _ _ => sender

def txId : Parcel → BitVec 64
  | inline _ txId _ _ | zeroCopy _ txId _ _ _ _ => txId

def vmoReference : Parcel → Option VmoReference
  | inline _ _ _ _ => none
  | zeroCopy _ _ vmo offset size _ => some ⟨vmo.raw, offset, size⟩

/-- A region of a VMO is sent as the bytes of a reference to it. -/
def bytes : Parcel → List (BitVec 8)
  | inline _ _ data _ => data
  | zeroCopy _ _ vmo offset size _ => VmoReference.toBytes ⟨vmo.raw, offset, size⟩

/-- The handles that come with it; that of the VMO is the first. -/
def handles : Parcel → List Handle
  | inline _ _ _ handles => handles
  | zeroCopy _ _ vmo _ _ handles => vmo :: handles

end Parcel

/-- What the receiver reads off a message, and the handles it takes out of it. -/
structure Unpacks (m : Message) (p : Parcel) : Prop where
  sender : m.header.sender = p.sender
  txId : m.header.txId = p.txId
  vmoReference : m.vmoReference = p.vmoReference
  payload : m.payload = .ok p.bytes
  /-- All of them, once. -/
  handsOver : m.HandsOver p.handles

namespace Message

variable {sender : TaskId} {txId offset size : BitVec 64} {data : List (BitVec 8)}
  {hs : List Handle} {v : Handle} {m : Message}

theorem newInline_header (h : newInline sender txId data hs = .ok (.ok m)) :
    m.header.sender = sender ∧ m.header.txId = txId := by
  rw [newInline] at h
  split at h
  · exact absurd h (by simp)
  · split at h
    · exact absurd h (by simp)
    · simp only [bind, Except.bind] at h
      split at h
      · exact absurd h (by simp)
      · split at h
        · exact absurd h (by simp)
        · cases h
          exact ⟨rfl, rfl⟩

theorem newZeroCopy_header (h : newZeroCopy sender txId v offset size hs = .ok (.ok m)) :
    m.header.sender = sender ∧ m.header.txId = txId := by
  rw [newZeroCopy] at h
  split at h
  · exact absurd h (by simp)
  · simp only [bind, Except.bind] at h
    split at h
    · exact absurd h (by simp)
    · split at h
      · exact absurd h (by simp)
      · cases h
        exact ⟨rfl, rfl⟩

end Message

/-- A message that has been made for a parcel unpacks to it. -/
theorem Parcel.unpacks {p : Parcel} {m : Message} (h : p.pack = .ok (.ok m)) : Unpacks m p := by
  cases p with
  | inline sender txId data hs =>
      obtain ⟨h_data, h_hs⟩ := Message.newInline_isOk.mp ⟨m, h⟩
      obtain ⟨m', h_new, h_inline⟩ := Message.newInline_ok sender txId h_data h_hs
      obtain rfl : m' = m := by simpa using h_new.symm.trans h
      obtain ⟨h_payload, h_handles, h_vmo⟩ := h_inline.decodes
      obtain ⟨h_sender, h_tx⟩ := Message.newInline_header h
      exact ⟨h_sender, h_tx, h_vmo, h_payload, Message.handsOver_of_handles h_handles⟩
  | zeroCopy sender txId vmo offset size hs =>
      obtain ⟨m', h_new, h_zero⟩ := Message.newZeroCopy_ok sender txId vmo offset size
        (Message.newZeroCopy_isOk.mp ⟨m, h⟩)
      obtain rfl : m' = m := by simpa using h_new.symm.trans h
      obtain ⟨h_vmo, h_handles⟩ := h_zero.decodes
      obtain ⟨h_sender, h_tx⟩ := Message.newZeroCopy_header h
      have h_payload := slicePrefix_of_start h_zero.payload
        (h_zero.payloadSize.trans (VmoReference.length_toBytes _).symm)
      exact ⟨h_sender, h_tx, h_vmo, h_payload, Message.handsOver_of_handles h_handles⟩

/-- What is taken out of a message is determined by it. -/
theorem Message.HandsOver.unique {m : Message} {hs hs' : List Handle} (h : m.HandsOver hs)
    (h' : m.HandsOver hs') : hs = hs' := by
  obtain ⟨result, rest, h_take, rfl, -⟩ := h
  obtain ⟨result', rest', h_take', rfl, -⟩ := h'
  obtain ⟨rfl, -⟩ : result = result' ∧ rest = rest' := by simpa using h_take.symm.trans h_take'
  rfl

/-- A message unpacks to one parcel only. -/
theorem unpacks_rightUnique : Relator.RightUnique Unpacks := by
  intro m p p' h h'
  have h_sender := h.sender.symm.trans h'.sender
  have h_tx := h.txId.symm.trans h'.txId
  have h_vmo := h.vmoReference.symm.trans h'.vmoReference
  have h_bytes := Except.ok.inj (h.payload.symm.trans h'.payload)
  have h_handles := h.handsOver.unique h'.handsOver
  cases p with
  | inline sender txId data hs =>
      cases p' with
      | inline sender' txId' data' hs' =>
          simp only [Parcel.sender, Parcel.txId, Parcel.bytes, Parcel.handles] at *
          rw [h_sender, h_tx, h_bytes, h_handles]
      | zeroCopy sender' txId' vmo' offset' size' hs' =>
          exact absurd h_vmo (by simp [Parcel.vmoReference])
  | zeroCopy sender txId vmo offset size hs =>
      cases p' with
      | inline sender' txId' data' hs' => exact absurd h_vmo (by simp [Parcel.vmoReference])
      | zeroCopy sender' txId' vmo' offset' size' hs' =>
          obtain ⟨rfl, rfl⟩ := List.cons.inj h_handles
          obtain ⟨-, rfl, rfl⟩ : vmo.raw = vmo.raw ∧ offset = offset' ∧ size = size' := by
            simpa [Parcel.vmoReference] using h_vmo
          simp only [Parcel.sender, Parcel.txId] at h_sender h_tx
          rw [h_sender, h_tx]

-- ============================================================================
-- Through the ring
-- ============================================================================

namespace SpscRing

/-- What is related to a list pairwise has a part that is related to each part of the
    list. -/
theorem exists_sublist_of_forall₂ {α β : Type*} {R : α → β → Prop} {l l' : List α} {m : List β}
    (h_sub : l'.Sublist l) (h : List.Forall₂ R l m) :
    ∃ m', List.Forall₂ R l' m' ∧ m'.Sublist m := by
  induction h_sub generalizing m with
  | slnil => exact ⟨[], .nil, List.nil_sublist m⟩
  | cons a _ ih =>
      cases h with
      | cons h_a h_rest =>
          obtain ⟨m', h_m', h_sub'⟩ := ih h_rest
          exact ⟨m', h_m', h_sub'.cons _⟩
  | cons_cons a _ ih =>
      cases h with
      | cons h_a h_rest =>
          obtain ⟨m', h_m', h_sub'⟩ := ih h_rest
          exact ⟨_ :: m', .cons h_a h_m', h_sub'.cons_cons _⟩

/-- What is related to two lists, one after the other, is in two parts. -/
theorem exists_append_of_forall₂ {α β : Type*} {R : α → β → Prop} {l l' : List α} {m : List β}
    (h : List.Forall₂ R (l ++ l') m) :
    ∃ m₁ m₂, m = m₁ ++ m₂ ∧ List.Forall₂ R l m₁ ∧ List.Forall₂ R l' m₂ := by
  induction l generalizing m with
  | nil => exact ⟨[], m, rfl, .nil, h⟩
  | cons a l ih =>
      cases h with
      | cons h_a h_rest =>
          obtain ⟨m₁, m₂, rfl, h₁, h₂⟩ := ih h_rest
          exact ⟨_ :: m₁, m₂, rfl, .cons h_a h₁, h₂⟩

/-- Where each of the parcels is: the messages of those in `received` have come out of
    the ring, of those in `waiting` are in it, of those in `inHand` are in the hand of
    the sender, and of those in `refused` have been given back. -/
structure CarriesParcels (s : Recorded (State Message) (Offers Message))
    (parcels received waiting inHand refused : List Parcel) : Prop where
  ofReceived : List.Forall₂ (fun x p => ∃ m, x = some m ∧ Unpacks m p) s.state.shared.received
    received
  ofWaiting : List.Forall₂ Unpacks
    (s.state.shared.accepted.drop s.state.shared.received.length) waiting
  ofInHand : List.Forall₂ Unpacks s.state.left.inHand inHand
  ofRefused : List.Forall₂ Unpacks s.record.refused refused
  inOrder : (received ++ waiting ++ inHand).Sublist parcels
  /-- Each in one of the four places, once. -/
  once : parcels.Perm (refused ++ (received ++ waiting ++ inHand))

/-- The messages that the sender has made for `parcels` and offered to a ring of any
    capacity come out in its order, each for the parcel it was made for; those of the
    parcels that are neither received nor waiting were given back or are in the hand of
    the sender. -/
theorem deliversParcels_of_reachable {capacity : Capacity}
    {s : Recorded (State Message) (Offers Message)} {parcels : List Parcel}
    (h : (offeredMachine Message capacity).Reachable s)
    (h_packed : List.Forall₂ (fun m p => p.pack = .ok (.ok m)) s.record.offered parcels) :
    ∃ received waiting inHand refused,
      CarriesParcels s parcels received waiting inHand refused := by
  have hs := offerInv_of_reachable h
  have h_unpacks := h_packed.imp fun m p => Parcel.unpacks
  have h_once : s.record.offered.Perm
      (s.record.refused ++ (s.state.shared.accepted ++ s.state.left.inHand)) := by
    rw [← List.append_assoc]
    exact hs.once
  -- the parcels of the accepted messages and of the one in hand, in order
  obtain ⟨kept, h_kept, h_sub⟩ := exists_sublist_of_forall₂ hs.inOrder h_unpacks
  -- and those of the refused ones
  obtain ⟨all, h_all, -⟩ := List.perm_comp_forall₂ h_once.symm h_unpacks
  obtain ⟨refused, -, -, h_refused, -⟩ := exists_append_of_forall₂ h_all
  have h_perm : parcels.Perm (refused ++ kept) :=
    List.rel_perm_imp unpacks_rightUnique h_unpacks (List.rel_append h_refused h_kept) h_once
  obtain ⟨accepted, inHand, rfl, h_accepted, h_hand⟩ := exists_append_of_forall₂ h_kept
  rw [← List.take_append_drop s.state.shared.received.length s.state.shared.accepted]
    at h_accepted
  obtain ⟨received, waiting, rfl, h_received, h_waiting⟩ := exists_append_of_forall₂ h_accepted
  refine ⟨received, waiting, inHand, refused, ?_, h_waiting, h_hand, h_refused, h_sub, h_perm⟩
  rw [hs.inv.fifo, List.forall₂_map_left_iff]
  exact h_received.imp fun m p h_m => ⟨m, rfl, h_m⟩

/-- Two bytes with a handle, and a region of a VMO; and both once more. -/
def fourParcels : List Parcel :=
  [.inline ⟨3⟩ 7 [1, 2] [⟨5⟩], .zeroCopy ⟨3⟩ 8 ⟨9⟩ 4096 512 [],
    .inline ⟨3⟩ 7 [1, 2] [⟨5⟩], .zeroCopy ⟨3⟩ 8 ⟨9⟩ 4096 512 []]

/-- Two messages fill the ring, and the next one is refused; the first is received, and
    one more is in the hand of the sender. -/
def sendFour (m m' : Message) : List (SendAction Message ⊕ RecvAction) :=
  .inl (.trySend m) :: List.replicate 4 (.inl .run) ++
    .inl (.trySend m') :: List.replicate 4 (.inl .run) ++
    .inl (.trySend m) :: .inl .run ::
    .inr .tryRecv :: List.replicate 5 (.inr .run) ++ [.inl (.trySend m')]

theorem deliversParcels_sendFour :
    ∃ m m' s, (offeredMachine Message capacityTwo).exec (offeredMachine Message capacityTwo).init
        (sendFour m m') = some s ∧
      (s.state.shared.received = [some m] ∧ s.record.refused = [m] ∧
        s.state.left.inHand = [m']) ∧
      ∃ received waiting inHand refused,
        CarriesParcels s fourParcels received waiting inHand refused := by
  have h_first : ∃ m, (Parcel.inline ⟨3⟩ 7 [1, 2] [⟨5⟩]).pack = .ok (.ok m) :=
    Message.newInline_isOk.mpr ⟨by decide, by decide⟩
  have h_second : ∃ m, (Parcel.zeroCopy ⟨3⟩ 8 ⟨9⟩ 4096 512 []).pack = .ok (.ok m) :=
    Message.newZeroCopy_isOk.mpr (by decide)
  obtain ⟨m, h_m⟩ := h_first
  obtain ⟨m', h_m'⟩ := h_second
  have h_run : ∃ s, (offeredMachine Message capacityTwo).exec
      (offeredMachine Message capacityTwo).init (sendFour m m') = some s ∧
        s.record.offered = [m, m', m, m'] ∧ s.state.shared.received = [some m] ∧
        s.record.refused = [m] ∧ s.state.left.inHand = [m'] := by
    simp [sendFour, offeredMachine, Machine.recorded, machine, pair, producer, consumer,
      Machine.exec, sendStep, recvStep, Ring.isFull, Ring.new, capacityTwo, noteOffer,
      Ring.setSlot, Ring.slot, Ring.idx, List.replicate, SendPc.inHand]
  obtain ⟨s, h_exec, h_offered, h_places⟩ := h_run
  refine ⟨m, m', s, h_exec, h_places, deliversParcels_of_reachable ⟨_, h_exec⟩ ?_⟩
  rw [h_offered]
  exact .cons h_m (.cons h_m' (.cons h_m (.cons h_m' .nil)))

end SpscRing
end Zydon
