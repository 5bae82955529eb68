/-
  Zydon.Primitives.Channel.Lines

  What the uninterrupted calls of the channel come to, without its wait queues.

  A `LineChannel` has the list of the queued futures in place of each queue, and
  does each call at once.  The channel follows it call by call
  (`callAlone_sim`).  A call is a stretch of operations put together from what
  its parts do: the ring, `wake_one`, and parking or leaving a queue.
-/

import Zydon.Primitives.Channel.Alone
import Zydon.Primitives.WaitQueue.Parked

namespace Zydon
namespace Channel

open Lib WaitQueue

variable {SF RF Waker V : Type*}

-- ============================================================================
-- The channel with lists for its queues
-- ============================================================================

namespace Ring

/-- A value goes in: its position is claimed, its slot written and flagged, and
    it is counted. -/
def put (r : Ring V) (value : V) : Ring V :=
  (((r.claim value).write r.sendPos (r.claimed.length, value)).setOccupied r.sendPos true).lenAdd

/-- The slot of the next position to receive. -/
def front (r : Ring V) : Option (Elem V) := r.data (r.idx r.recvPos)

/-- The value at the front goes out. -/
def take (r : Ring V) : Ring V :=
  ((r.claimRecv.setOccupied r.recvPos false).read r.recvPos).lenSub

end Ring

/-- The channel, with the list of the queued futures for each of its queues. -/
structure LineChannel (SF RF V : Type*) extends Ring V where
  sendLine : List SF
  recvLine : List RF
  sendFutures : SF → SendFuture V
  recvFutures : RF → RecvFuture

namespace LineChannel

variable [DecidableEq SF] [DecidableEq RF]

/-- The first queued send future is woken. -/
def wakeSend (v : LineChannel SF RF V) : LineChannel SF RF V :=
  match v.sendLine with
  | [] => v
  | g :: l =>
      { v with
        sendLine := l
        sendFutures := Function.update v.sendFutures g { v.sendFutures g with woken := true } }

/-- The first queued receive future is woken. -/
def wakeRecv (v : LineChannel SF RF V) : LineChannel SF RF V :=
  match v.recvLine with
  | [] => v
  | g :: l =>
      { v with
        recvLine := l
        recvFutures := Function.update v.recvFutures g { v.recvFutures g with woken := true } }

/-- A send future leaves the line. -/
def leaveSend (v : LineChannel SF RF V) (f : SF) (x : SendFuture V) : LineChannel SF RF V :=
  { v with sendLine := v.sendLine.erase f, sendFutures := Function.update v.sendFutures f x }

/-- A receive future leaves the line. -/
def leaveRecv (v : LineChannel SF RF V) (f : RF) (x : RecvFuture) : LineChannel SF RF V :=
  { v with recvLine := v.recvLine.erase f, recvFutures := Function.update v.recvFutures f x }

/-- A send future parks.  One that is registered is not queued, whether it is in
    the line or not. -/
def parkSend (v : LineChannel SF RF V) (f : SF) : LineChannel SF RF V :=
  { v with
    sendLine := if (v.sendFutures f).registered then v.sendLine else v.sendLine ++ [f]
    sendFutures := Function.update v.sendFutures f
      ⟨(v.sendFutures f).value, true, .pending, false⟩ }

/-- A receive future parks. -/
def parkRecv (v : LineChannel SF RF V) (f : RF) : LineChannel SF RF V :=
  { v with
    recvLine := if (v.recvFutures f).registered then v.recvLine else v.recvLine ++ [f]
    recvFutures := Function.update v.recvFutures f ⟨true, .pending, false⟩ }

/-- A value goes in, and the first receiver is woken. -/
def put (v : LineChannel SF RF V) (value : V) : LineChannel SF RF V :=
  { v with toRing := v.toRing.put value }.wakeRecv

/-- A value goes out, and the first sender is woken. -/
def take (v : LineChannel SF RF V) : LineChannel SF RF V :=
  { v with toRing := v.toRing.take }.wakeSend

/-- A poll of a send future. -/
def pollSend (v : LineChannel SF RF V) (f : SF) : LineChannel SF RF V × SendOutcome V :=
  if v.len.toNat < v.capacity.val then
    match (v.sendFutures f).value with
    | some value =>
        ((v.put value).leaveSend f ⟨none, false, .ready, false⟩, .poll (some (.ok ())))
    | none => (v.parkSend f, .poll none)
  else (v.parkSend f, .poll none)

/-- A poll of a receive future. -/
def pollRecv (v : LineChannel SF RF V) (f : RF) : LineChannel SF RF V × RecvOutcome V :=
  if 0 < v.len.toNat then
    (v.take.leaveRecv f ⟨false, .ready, false⟩, .poll (some (.ok v.front)))
  else (v.parkRecv f, .poll none)

/-- A call of a producer. -/
def send (v : LineChannel SF RF V) :
    SendAction SF Waker V → Option (LineChannel SF RF V × SendOutcome V)
  | .trySend value =>
      some (if v.len.toNat < v.capacity.val then (v.put value, .trySend (.ok ()))
        else (v, .trySend (.error (.full value))))
  | .poll f _ =>
      match (v.sendFutures f).status with
      | .fresh | .pending => some (v.pollSend f)
      | .polling | .ready | .dropped => none
  | .dropFuture f =>
      match (v.sendFutures f).status with
      | .fresh | .pending | .ready =>
          some (v.leaveSend f { v.sendFutures f with status := .dropped }, .dropped)
      | .polling | .dropped => none
  | .run => none

/-- A call of the consumer. -/
def recv (v : LineChannel SF RF V) :
    RecvAction RF Waker → Option (LineChannel SF RF V × RecvOutcome V)
  | .tryRecv =>
      some (if 0 < v.len.toNat then (v.take, .tryRecv (.ok v.front))
        else (v, .tryRecv (.error .empty)))
  | .poll f _ =>
      match (v.recvFutures f).status with
      | .fresh | .pending => some (v.pollRecv f)
      | .polling | .ready | .dropped => none
  | .dropFuture f =>
      match (v.recvFutures f).status with
      | .fresh | .pending | .ready =>
          some (v.leaveRecv f { v.recvFutures f with status := .dropped }, .dropped)
      | .polling | .dropped => none
  | .run => none

/-- A call of either side. -/
def call (v : LineChannel SF RF V) :
    Call SF RF Waker V → Option (LineChannel SF RF V × Outcome V)
  | .inl a => (v.send a).map fun r => (r.1, .inl r.2)
  | .inr a => (v.recv a).map fun r => (r.1, .inr r.2)

/-! ### What `wake_one` leaves alone -/

omit [DecidableEq SF] in
@[simp] theorem put_toRing (v : LineChannel SF RF V) (value : V) :
    (v.put value).toRing = v.toRing.put value := by
  simp only [put, wakeRecv]
  split <;> rfl

omit [DecidableEq SF] in
@[simp] theorem put_sendLine (v : LineChannel SF RF V) (value : V) :
    (v.put value).sendLine = v.sendLine := by
  simp only [put, wakeRecv]
  split <;> rfl

omit [DecidableEq SF] in
@[simp] theorem put_sendFutures (v : LineChannel SF RF V) (value : V) :
    (v.put value).sendFutures = v.sendFutures := by
  simp only [put, wakeRecv]
  split <;> rfl

omit [DecidableEq RF] in
@[simp] theorem take_toRing (v : LineChannel SF RF V) : v.take.toRing = v.toRing.take := by
  simp only [take, wakeSend]
  split <;> rfl

omit [DecidableEq RF] in
@[simp] theorem take_recvLine (v : LineChannel SF RF V) : v.take.recvLine = v.recvLine := by
  simp only [take, wakeSend]
  split <;> rfl

omit [DecidableEq RF] in
@[simp] theorem take_recvFutures (v : LineChannel SF RF V) :
    v.take.recvFutures = v.recvFutures := by
  simp only [take, wakeSend]
  split <;> rfl

omit [DecidableEq RF] in
/-- A wake-up only touches `woken`. -/
theorem take_sendFutures (v : LineChannel SF RF V) (f : SF) :
    (v.take.sendFutures f).value = (v.sendFutures f).value ∧
      (v.take.sendFutures f).status = (v.sendFutures f).status := by
  simp only [take, wakeSend]
  split
  · exact ⟨rfl, rfl⟩
  · next g l h_line =>
      by_cases h_f : f = g
      · subst h_f
        simp
      · simp [h_f]

end LineChannel

/-- The channel with the lists `ls` and `lr` for its queues. -/
def ChannelInner.lined (c : ChannelInner SF RF Waker V) (ls : List SF) (lr : List RF) :
    LineChannel SF RF V where
  toRing := c.toRing
  sendLine := ls
  recvLine := lr
  sendFutures := c.sendFutures
  recvFutures := c.recvFutures

/-- The futures of `ls` and `lr` are queued, and nothing is under way in the
    queues. -/
structure Quiet (c : ChannelInner SF RF Waker V) (ls : List SF) (lr : List RF) : Prop where
  open_ : c.closed = false
  send : Parked c.sendWaiters ls
  recv : Parked c.recvWaiters lr
  sendRegistered : ∀ f ∈ ls, (c.sendFutures f).registered = true
  recvRegistered : ∀ f ∈ lr, (c.recvFutures f).registered = true

theorem quiet_channel (capacity : Capacity) (values : SF → V) :
    Quiet (channel capacity values : ChannelInner SF RF Waker V) [] [] where
  open_ := rfl
  send := Parked.new
  recv := Parked.new
  sendRegistered := fun _ h => absurd h List.not_mem_nil
  recvRegistered := fun _ h => absurd h List.not_mem_nil

/-- What the channel returns is what the `LineChannel` does, and the channel
    ends up as it. -/
def Follows {O : Type*} (r : Option (ChannelInner SF RF Waker V × O)) :
    Option (LineChannel SF RF V × O) → Prop
  | some (v, result) => ∃ c, r = some (c, result) ∧ Quiet c v.sendLine v.recvLine ∧
      c.lined v.sendLine v.recvLine = v
  | none => r = none

theorem Follows.intro {O : Type*} {r : Option (ChannelInner SF RF Waker V × O)}
    {c : ChannelInner SF RF Waker V} {ls : List SF} {lr : List RF} {v : LineChannel SF RF V}
    {result : O} (h_r : r = some (c, result)) (h_quiet : Quiet c ls lr)
    (h_v : c.lined ls lr = v) : Follows r (some (v, result)) := by
  subst h_v
  exact ⟨c, h_r, h_quiet, rfl⟩

theorem Follows.map {O O' : Type*} {r : Option (ChannelInner SF RF Waker V × O)}
    {r' : Option (LineChannel SF RF V × O)} (h : Follows r r') (g : O → O') :
    Follows (r.map fun x => (x.1, g x.2)) (r'.map fun x => (x.1, g x.2)) := by
  cases r' with
  | none =>
      obtain rfl : r = none := h
      rfl
  | some x =>
      obtain ⟨c, rfl, h_quiet, h_v⟩ := h
      exact ⟨c, rfl, h_quiet, h_v⟩

-- ============================================================================
-- Producers
-- ============================================================================

variable [DecidableEq SF] [DecidableEq RF] {c : ChannelInner SF RF Waker V} {ls : List SF}
  {lr : List RF}

omit [DecidableEq RF] in
/-- The ring, the queue of the senders and one send future change.  The futures
    queued are registered. -/
theorem Quiet.setSend (hc : Quiet c ls lr) {r : Ring V} {q : WaitQueue SF Waker} {ls' : List SF}
    {f : SF} {x : SendFuture V} (h_q : Parked q ls') (h_x : f ∈ ls' → x.registered = true)
    (h_other : ∀ g ∈ ls', g ≠ f → g ∈ ls) :
    Quiet { c with
      toRing := r
      sendWaiters := q
      sendFutures := Function.update c.sendFutures f x } ls' lr :=
  { hc with
    send := h_q
    sendRegistered := forall_mem_update (p := fun x : SendFuture V => x.registered = true) h_x
      fun g h_g h_ne => hc.sendRegistered g (h_other g h_g h_ne) }

omit [DecidableEq SF] in
/-- The same for the receivers. -/
theorem Quiet.setRecv (hc : Quiet c ls lr) {r : Ring V} {q : WaitQueue RF Waker} {lr' : List RF}
    {f : RF} {x : RecvFuture} (h_q : Parked q lr') (h_x : f ∈ lr' → x.registered = true)
    (h_other : ∀ g ∈ lr', g ≠ f → g ∈ lr) :
    Quiet { c with
      toRing := r
      recvWaiters := q
      recvFutures := Function.update c.recvFutures f x } ls lr' :=
  { hc with
    recv := h_q
    recvRegistered := forall_mem_update (p := fun x : RecvFuture => x.registered = true) h_x
      fun g h_g h_ne => hc.recvRegistered g (h_other g h_g h_ne) }

/-- `n` operations of a producer inside a call. -/
abbrev SendSolo (n : Nat) (c : ChannelInner SF RF Waker V) (p : SendPc SF RF Waker V)
    (c' : ChannelInner SF RF Waker V) (p' : SendPc SF RF Waker V) : Prop :=
  ThreadProgram.Solo (sender SF RF Waker V) SendPc.isIdle .run n c p c' p'

theorem SendSolo.alone {c' c₁ : ChannelInner SF RF Waker V} {a : SendAction SF Waker V}
    {p₁ : SendPc SF RF Waker V} {n : Nat} {result : SendOutcome V}
    (h_start : sendStart c a = some (c₁, p₁)) (h : SendSolo n c₁ p₁ c' (.idle (some result)))
    (h_n : n ≤ 10) : sendAlone c a = some (c', result) := by
  simp only [sendAlone, h_start, h.soloUntil rfl h_n]

/-- From the claim of a position to the count of its value. -/
theorem send_put (c : ChannelInner SF RF Waker V) (call : SendCall SF) (value : V) :
    SendSolo 4 c (.claim call value) { c with toRing := c.toRing.put value } (.wakeOne call) :=
  .step rfl rfl (.step rfl rfl (.step rfl rfl (.step rfl rfl (.refl _ _))))

/-- `recv_waiters.wake_one`. -/
theorem send_wake (hc : Quiet c ls lr) (call : SendCall SF) :
    ∃ n c', n ≤ 3 ∧ SendSolo n c (.wakeOne call) (sendWoken c' call).1 (sendWoken c' call).2 ∧
      Quiet c' ls lr.tail ∧ c'.lined ls lr.tail = (c.lined ls lr).wakeRecv := by
  cases lr with
  | nil =>
      have h_step : sendStep c (.wakeOne call) .run = some (sendWoken c call) := by
        simp only [sendStep, sendRun, hc.recv.wakeOne_nil]
      exact ⟨1, c, by omega, .step rfl h_step (.refl _ _), hc, rfl⟩
  | cons g lr =>
      obtain ⟨waker, q, h_wake, h_q, -⟩ := hc.recv.wakeOne_cons
      have h_step : sendStep c (.wakeOne call) .run =
          some ({ c with recvWaiters := q }, .wakeLenSub call g true) := by
        simp only [sendStep, sendRun, h_wake, Option.isSome_some]
      refine ⟨3, { c with recvWaiters := q.lenSub }.setRecv g fun x => { x with woken := true },
        Nat.le_refl 3, .step rfl h_step (.step rfl rfl (.step rfl rfl (.refl _ _))), ?_, rfl⟩
      exact hc.setRecv h_q.lenSub
        (fun h_g => hc.recvRegistered g (List.mem_cons_of_mem g h_g))
        fun f h_f _ => List.mem_cons_of_mem g h_f

/-- What `poll` does after `wake_one`: it unregisters the future. -/
theorem send_finish (hc : Quiet c ls lr) (f : SF) :
    ∃ n c', n ≤ 2 ∧ SendSolo n (sendWoken c (.poll f)).1 (sendWoken c (.poll f)).2 c'
        (.idle (some (.poll (some (.ok ()))))) ∧
      Quiet c' (ls.erase f) lr ∧ c'.lined (ls.erase f) lr = (c.lined ls lr).leaveSend f
        { c.sendFutures f with registered := false, status := .ready } := by
  have h_erase : ∀ q, Parked q (ls.erase f) →
      Quiet (sendReady { c with sendWaiters := q } f).1 (ls.erase f) lr := fun q h_q =>
    hc.setSend h_q (fun h_f => absurd h_f hc.send.nodup.not_mem_erase)
      fun g h_g _ => List.mem_of_mem_erase h_g
  by_cases h_mem : f ∈ ls
  · obtain ⟨q, h_remove, h_q⟩ := hc.send.remove_of_mem h_mem
    have h_woken : sendWoken c (.poll f) = (c, .remove f) := by
      rw [sendWoken, if_pos (hc.sendRegistered f h_mem)]
    have h_step : sendStep c (.remove f) .run =
        some ({ c with sendWaiters := q }, .removeLenSub f) := by
      simp only [sendStep, sendRun, h_remove, if_true]
    rw [h_woken]
    exact ⟨2, _, Nat.le_refl 2, .step rfl h_step (.step rfl rfl (.refl _ _)),
      h_erase _ h_q.lenSub, rfl⟩
  · have h_q : Parked c.sendWaiters (ls.erase f) := by
      rw [List.erase_of_not_mem h_mem]
      exact hc.send
    by_cases h_registered : (c.sendFutures f).registered = true
    · have h_woken : sendWoken c (.poll f) = (c, .remove f) := by
        rw [sendWoken, if_pos h_registered]
      have h_step : sendStep c (.remove f) .run = some (sendReady c f) := by
        simp only [sendStep, sendRun, hc.send.remove_of_not_mem h_mem, Bool.false_eq_true, if_false]
      rw [h_woken]
      exact ⟨1, _, by omega, .step rfl h_step (.refl _ _), h_erase _ h_q, rfl⟩
    · have h_woken : sendWoken c (.poll f) = sendReady c f := by
        rw [sendWoken, if_neg h_registered]
      rw [h_woken]
      exact ⟨0, _, by omega, .refl _ _, h_erase _ h_q, rfl⟩

/-- `poll` parks. -/
theorem send_park (hc : Quiet c ls lr) (f : SF) (waker : Waker) :
    ∃ n c' ls', n ≤ 2 ∧ SendSolo n (sendPark c f waker).1 (sendPark c f waker).2 c'
        (.idle (some (.poll none))) ∧
      Quiet c' ls' lr ∧ c'.lined ls' lr =
        { c.lined ls lr with
          sendLine := if (c.sendFutures f).registered then ls else ls ++ [f]
          sendFutures := Function.update c.sendFutures f
            { c.sendFutures f with registered := true, status := .pending } } := by
  by_cases h_again : (c.sendFutures f).registered = true
  · have h_park : sendPark c f waker = (c, .setWaker f waker) := by rw [sendPark, if_pos h_again]
    rw [h_park, if_pos h_again]
    refine ⟨1, _, ls, by omega, .step rfl rfl (.refl _ _), ?_, rfl⟩
    exact hc.setSend (hc.send.setWaker f waker) (fun _ => rfl) fun g h_g _ => h_g
  · have h_free : f ∉ ls := fun h_mem => h_again (hc.sendRegistered f h_mem)
    have h_waker : ((c.sendWaiters.setWaker f waker).nodes f).waker.isSome := by
      rw [WaitQueue.setWaker, modify_nodes, if_pos rfl]
      rfl
    obtain ⟨q, h_enqueue, h_q⟩ := (hc.send.setWaker f waker).enqueue h_free h_waker 0
    have h_park : sendPark c f waker =
        ({ c with sendWaiters := c.sendWaiters.setWaker f waker }, .enqueue f) := by
      rw [sendPark, if_neg h_again]
    have h_step : sendStep { c with sendWaiters := c.sendWaiters.setWaker f waker } (.enqueue f)
        .run = some ({ c with sendWaiters := q }, .enqueueLenAdd f) := by
      simp only [sendStep, sendRun, h_enqueue]
    rw [h_park, if_neg h_again]
    refine ⟨2, _, ls ++ [f], Nat.le_refl 2, .step rfl h_step (.step rfl rfl (.refl _ _)), ?_, rfl⟩
    exact hc.setSend h_q.lenAdd (fun _ => rfl) fun g h_g h_ne => by simpa [h_ne] using h_g

/-- The drop of a send future. -/
theorem send_drop (hc : Quiet c ls lr) (f : SF) :
    ∃ n c', n ≤ 1 ∧ SendSolo n (sendDrop c f).1 (sendDrop c f).2 c' (.idle (some .dropped)) ∧
      Quiet c' (ls.erase f) lr ∧ c'.lined (ls.erase f) lr = (c.lined ls lr).leaveSend f
        { c.sendFutures f with status := .dropped } := by
  have h_erase : ∀ q, Parked q (ls.erase f) → Quiet ({ c with sendWaiters := q }.setSend f
      fun x => { x with status := .dropped }) (ls.erase f) lr := fun q h_q =>
    hc.setSend h_q (fun h_f => absurd h_f hc.send.nodup.not_mem_erase)
      fun g h_g _ => List.mem_of_mem_erase h_g
  by_cases h_mem : f ∈ ls
  · obtain ⟨q, h_remove, h_q⟩ := hc.send.remove_of_mem h_mem
    have h_drop : sendDrop c f = ({ c with sendWaiters := q }.setSend f
        fun x => { x with status := .dropped }, .dropLenSub f) := by
      simp only [sendDrop, hc.sendRegistered f h_mem, h_remove, if_true, ChannelInner.setSend]
    rw [h_drop]
    exact ⟨1, _, Nat.le_refl 1, .step rfl rfl (.refl _ _), h_erase _ h_q.lenSub, rfl⟩
  · have h_q : Parked c.sendWaiters (ls.erase f) := by
      rw [List.erase_of_not_mem h_mem]
      exact hc.send
    have h_drop : sendDrop c f =
        (c.setSend f fun x => { x with status := .dropped }, .idle (some .dropped)) := by
      cases h_registered : (c.sendFutures f).registered <;>
        simp [sendDrop, h_registered, hc.send.remove_of_not_mem h_mem, ChannelInner.setSend]
    rw [h_drop]
    exact ⟨0, _, Nat.zero_le 1, .refl _ _, h_erase _ h_q, rfl⟩

/-- A poll that sends: the value goes in, the first receiver is woken, and the
    future leaves the line. -/
theorem pollSendAlone_sent (hc : Quiet c ls lr) (f : SF) (waker : Waker) {value : V}
    (h_status : (c.sendFutures f).status = .fresh ∨ (c.sendFutures f).status = .pending)
    (h_len : c.len.toNat < c.capacity.val) (h_value : (c.sendFutures f).value = some value) :
    Follows (sendAlone c (.poll f waker)) (some (((c.lined ls lr).put value).leaveSend f
      ⟨none, false, .ready, false⟩, .poll (some (.ok ())))) := by
  have h_start : sendStart c (.poll f waker) =
      some (c.setSend f fun x => { x with status := .polling, woken := false },
        .pollLoadLen f waker) := by
    simp only [sendStart, h_status, hc.open_, if_true, Bool.false_eq_true, if_false]
  let c₁ : ChannelInner SF RF Waker V := { c with
    sendFutures := Function.update c.sendFutures f
      ⟨none, (c.sendFutures f).registered, .polling, false⟩ }
  have h_claim : sendStep (c.setSend f fun x => { x with status := .polling, woken := false })
      (.pollLoadLen f waker) .run = some (c₁, .claim (.poll f) value) := by
    simp only [sendStep, sendRun, ChannelInner.setSend, Function.update_self, h_len, h_value,
      if_true, Function.update_idem, c₁]
  have hc₁ : Quiet { c₁ with toRing := c₁.toRing.put value } ls lr :=
    hc.setSend hc.send (fun h_f => hc.sendRegistered f h_f) fun g h_g _ => h_g
  obtain ⟨n, c₂, h_n, h_wake, hc₂, h_c₂⟩ := send_wake hc₁ (.poll f)
  obtain ⟨k, c₃, h_k, h_finish, hc₃, h_c₃⟩ := send_finish hc₂ f
  have h_run := ((send_put c₁ (.poll f) value).trans h_wake).trans h_finish
  have h_futures : c₂.sendFutures = c₁.sendFutures := by
    have h := congrArg LineChannel.sendFutures h_c₂
    cases lr <;> exact h
  refine .intro (SendSolo.alone h_start (.step rfl h_claim h_run) (by omega)) hc₃ ?_
  rw [h_c₃, h_c₂, h_futures]
  cases lr <;> simp [LineChannel.leaveSend, LineChannel.put, LineChannel.wakeRecv,
    ChannelInner.lined, c₁]

/-- A poll that parks. -/
theorem pollSendAlone_parked (hc : Quiet c ls lr) (f : SF) (waker : Waker)
    (h_status : (c.sendFutures f).status = .fresh ∨ (c.sendFutures f).status = .pending)
    (h_full : c.len.toNat < c.capacity.val → (c.sendFutures f).value = none) :
    Follows (sendAlone c (.poll f waker)) (some ((c.lined ls lr).parkSend f, .poll none)) := by
  let c₁ : ChannelInner SF RF Waker V :=
    c.setSend f fun x => { x with status := .polling, woken := false }
  have h_start : sendStart c (.poll f waker) = some (c₁, .pollLoadLen f waker) := by
    simp only [sendStart, h_status, hc.open_, if_true, Bool.false_eq_true, if_false, c₁]
  have h_full₁ : c₁.len.toNat < c₁.capacity.val → (c₁.sendFutures f).value = none := by
    simpa [c₁, ChannelInner.setSend] using h_full
  have h_park : sendStep c₁ (.pollLoadLen f waker) .run = some (sendPark c₁ f waker) := by
    simp only [sendStep, sendRun]
    split
    · next h_len => rw [h_full₁ h_len]
    · rfl
  have hc₁ : Quiet c₁ ls lr :=
    hc.setSend hc.send (fun h_f => hc.sendRegistered f h_f) fun g h_g _ => h_g
  obtain ⟨n, c₂, ls', h_n, h_run, hc₂, h_c₂⟩ := send_park hc₁ f waker
  refine .intro (SendSolo.alone h_start (.step rfl h_park h_run) (by omega)) hc₂ ?_
  rw [h_c₂]
  cases h_registered : (c.sendFutures f).registered <;>
    simp [LineChannel.parkSend, ChannelInner.lined, ChannelInner.setSend, c₁, h_registered]

theorem trySendAlone (hc : Quiet c ls lr) (value : V) :
    Follows (sendAlone c (.trySend value))
      ((c.lined ls lr).send (.trySend value : SendAction SF Waker V)) := by
  have h_start : sendStart c (.trySend value) = some (c, .tryLoadLen value) := by
    simp only [sendStart, hc.open_, Bool.false_eq_true, if_false]
  simp only [LineChannel.send]
  split
  · next h_len =>
      have h_len' : ¬ c.len.toNat ≥ c.capacity.val := Nat.not_le.mpr h_len
      have h_claim : sendStep c (.tryLoadLen value) .run = some (c, .claim .trySend value) := by
        simp only [sendStep, sendRun, if_neg h_len']
      have hc₁ : Quiet { c with toRing := c.toRing.put value } ls lr := { hc with }
      obtain ⟨n, c₂, h_n, h_wake, hc₂, h_c₂⟩ := send_wake hc₁ .trySend
      have h_run := (send_put c .trySend value).trans h_wake
      exact .intro (SendSolo.alone h_start (.step rfl h_claim h_run) (by omega)) hc₂ h_c₂
  · next h_len =>
      have h_ge : c.len.toNat ≥ c.capacity.val := Nat.not_lt.mp h_len
      have h_full : sendStep c (.tryLoadLen value) .run =
          some (c, .idle (some (.trySend (.error (.full value))))) := by
        simp only [sendStep, sendRun, if_pos h_ge]
      exact .intro (SendSolo.alone h_start (.step rfl h_full (.refl _ _)) (by omega)) hc rfl

/-- Every call of a producer is what it is on a `LineChannel`. -/
theorem sendAlone_sim (hc : Quiet c ls lr) (a : SendAction SF Waker V) :
    Follows (sendAlone c a) ((c.lined ls lr).send a) := by
  have h_same : ∀ f, ((c.lined ls lr).sendFutures f).status = (c.sendFutures f).status :=
    fun _ => rfl
  cases a with
  | trySend value => exact trySendAlone hc value
  | poll f waker =>
      have h_poll : (c.sendFutures f).status = .fresh ∨ (c.sendFutures f).status = .pending →
          Follows (sendAlone c (.poll f waker)) (some ((c.lined ls lr).pollSend f)) := by
        intro h_status
        simp only [LineChannel.pollSend]
        split
        · next h_len =>
            split
            · next h_value => exact pollSendAlone_sent hc f waker h_status h_len h_value
            · next h_value => exact pollSendAlone_parked hc f waker h_status fun _ => h_value
        · next h_len => exact pollSendAlone_parked hc f waker h_status fun h => absurd h h_len
      cases h_status : (c.sendFutures f).status with
      | fresh =>
          simp only [LineChannel.send, h_same, h_status]
          exact h_poll (.inl h_status)
      | pending =>
          simp only [LineChannel.send, h_same, h_status]
          exact h_poll (.inr h_status)
      | polling | ready | dropped =>
          simp [LineChannel.send, h_same, h_status, Follows, sendAlone, sendStart]
  | dropFuture f =>
      have h_drop : sendStart c (.dropFuture f) = some (sendDrop c f) →
          Follows (sendAlone c (.dropFuture f)) (some ((c.lined ls lr).leaveSend f
            { c.sendFutures f with status := .dropped }, .dropped)) := by
        intro h_start
        obtain ⟨n, c', h_n, h_run, hc', h_c'⟩ := send_drop hc f
        exact .intro (SendSolo.alone h_start h_run (by omega)) hc' h_c'
      cases h_status : (c.sendFutures f).status with
      | fresh | pending | ready =>
          simp only [LineChannel.send, h_same, h_status]
          exact h_drop (by simp only [sendStart, h_status])
      | polling | dropped =>
          simp only [LineChannel.send, h_same, h_status, Follows, sendAlone, sendStart]
  | run => rfl

-- ============================================================================
-- The consumer
-- ============================================================================

/-- `n` operations of the consumer inside a call. -/
abbrev RecvSolo (n : Nat) (c : ChannelInner SF RF Waker V) (p : RecvPc SF RF Waker V)
    (c' : ChannelInner SF RF Waker V) (p' : RecvPc SF RF Waker V) : Prop :=
  ThreadProgram.Solo (receiver SF RF Waker V) RecvPc.isIdle .run n c p c' p'

theorem RecvSolo.alone {c' c₁ : ChannelInner SF RF Waker V} {a : RecvAction RF Waker}
    {p₁ : RecvPc SF RF Waker V} {n : Nat} {result : RecvOutcome V}
    (h_start : recvStart c a = some (c₁, p₁)) (h : RecvSolo n c₁ p₁ c' (.idle (some result)))
    (h_n : n ≤ 13) : recvAlone c a = some (c', result) := by
  simp only [recvAlone, h_start, h.soloUntil rfl h_n]

/-- From the claim of a position to the count of its value. -/
theorem recv_take (c : ChannelInner SF RF Waker V) (call : RecvCall RF) :
    RecvSolo 4 c (.claim call) { c with toRing := c.toRing.take } (.wakeOne call c.front) :=
  .step rfl rfl (.step rfl rfl (.step rfl rfl (.step rfl rfl (.refl _ _))))

/-- `send_waiters.wake_one`. -/
theorem recv_wake (hc : Quiet c ls lr) (call : RecvCall RF) (value : Option (Elem V)) :
    ∃ n c', n ≤ 3 ∧ RecvSolo n c (.wakeOne call value) (recvWoken c' value call).1
        (recvWoken c' value call).2 ∧
      Quiet c' ls.tail lr ∧ c'.lined ls.tail lr = (c.lined ls lr).wakeSend := by
  cases ls with
  | nil =>
      have h_step : recvStep c (.wakeOne call value) .run = some (recvWoken c value call) := by
        simp only [recvStep, recvRun, hc.send.wakeOne_nil]
      exact ⟨1, c, by omega, .step rfl h_step (.refl _ _), hc, rfl⟩
  | cons g ls =>
      obtain ⟨waker, q, h_wake, h_q, -⟩ := hc.send.wakeOne_cons
      have h_step : recvStep c (.wakeOne call value) .run =
          some ({ c with sendWaiters := q }, .wakeLenSub call value g true) := by
        simp only [recvStep, recvRun, h_wake, Option.isSome_some]
      refine ⟨3, { c with sendWaiters := q.lenSub }.setSend g fun x => { x with woken := true },
        Nat.le_refl 3, .step rfl h_step (.step rfl rfl (.step rfl rfl (.refl _ _))), ?_, rfl⟩
      exact hc.setSend h_q.lenSub
        (fun h_g => hc.sendRegistered g (List.mem_cons_of_mem g h_g))
        fun f h_f _ => List.mem_cons_of_mem g h_f

/-- What `poll` does after `wake_one`: it unregisters the future. -/
theorem recv_finish (hc : Quiet c ls lr) (f : RF) (value : Option (Elem V)) :
    ∃ n c', n ≤ 2 ∧ RecvSolo n (recvWoken c value (.poll f)).1 (recvWoken c value (.poll f)).2 c'
        (.idle (some (.poll (some (.ok value))))) ∧
      Quiet c' ls (lr.erase f) ∧ c'.lined ls (lr.erase f) = (c.lined ls lr).leaveRecv f
        { c.recvFutures f with registered := false, status := .ready } := by
  have h_erase : ∀ q, Parked q (lr.erase f) →
      Quiet (recvReady { c with recvWaiters := q } f (.ok value)).1 ls (lr.erase f) := fun q h_q =>
    hc.setRecv h_q (fun h_f => absurd h_f hc.recv.nodup.not_mem_erase)
      fun g h_g _ => List.mem_of_mem_erase h_g
  by_cases h_mem : f ∈ lr
  · obtain ⟨q, h_remove, h_q⟩ := hc.recv.remove_of_mem h_mem
    have h_woken : recvWoken c value (.poll f) = (c, .remove f (.ready value)) := by
      rw [recvWoken, if_pos (hc.recvRegistered f h_mem)]
    have h_step : recvStep c (.remove f (.ready value)) .run =
        some ({ c with recvWaiters := q }, .removeLenSub f (.ready value)) := by
      simp only [recvStep, recvRun, h_remove, if_true]
    rw [h_woken]
    exact ⟨2, _, Nat.le_refl 2, .step rfl h_step (.step rfl rfl (.refl _ _)),
      h_erase _ h_q.lenSub, rfl⟩
  · have h_q : Parked c.recvWaiters (lr.erase f) := by
      rw [List.erase_of_not_mem h_mem]
      exact hc.recv
    by_cases h_registered : (c.recvFutures f).registered = true
    · have h_woken : recvWoken c value (.poll f) = (c, .remove f (.ready value)) := by
        rw [recvWoken, if_pos h_registered]
      have h_step : recvStep c (.remove f (.ready value)) .run =
          some (recvReady c f (.ok value)) := by
        simp only [recvStep, recvRun, hc.recv.remove_of_not_mem h_mem, Bool.false_eq_true, if_false,
          recvRemoved]
      rw [h_woken]
      exact ⟨1, _, by omega, .step rfl h_step (.refl _ _), h_erase _ h_q, rfl⟩
    · have h_woken : recvWoken c value (.poll f) = recvReady c f (.ok value) := by
        rw [recvWoken, if_neg h_registered]
      rw [h_woken]
      exact ⟨0, _, by omega, .refl _ _, h_erase _ h_q, rfl⟩

/-- `poll` parks, and finds the channel still empty. -/
theorem recv_park (hc : Quiet c ls lr) (f : RF) (waker : Waker) (h_empty : ¬ c.len.toNat > 0) :
    ∃ n c' lr', n ≤ 4 ∧ RecvSolo n (recvPark c f waker).1 (recvPark c f waker).2 c'
        (.idle (some (.poll none))) ∧
      Quiet c' ls lr' ∧ c'.lined ls lr' =
        { c.lined ls lr with
          recvLine := if (c.recvFutures f).registered then lr else lr ++ [f]
          recvFutures := Function.update c.recvFutures f
            { c.recvFutures f with registered := true, status := .pending } } := by
  -- the two checks after registering
  have h_recheck : ∀ c₁ : ChannelInner SF RF Waker V, c₁.toRing = c.toRing → c₁.closed = false →
      RecvSolo 2 c₁ (.recheckLen f) (c₁.setRecv f fun x => { x with status := .pending })
        (.idle (some (.poll none))) := by
    intro c₁ h_ring h_open
    have h_len : recvStep c₁ (.recheckLen f) .run = some (c₁, .recheckClosed f) := by
      rw [← h_ring] at h_empty
      simp only [recvStep, recvRun, if_neg h_empty]
    refine .step rfl h_len (.step rfl ?_ (.refl _ _))
    simp only [receiver, recvStep, recvRun, h_open, Bool.false_eq_true, if_false]
  by_cases h_again : (c.recvFutures f).registered = true
  · have h_park : recvPark c f waker = (c, .setWaker f waker) := by rw [recvPark, if_pos h_again]
    rw [h_park, if_pos h_again]
    refine ⟨3, _, lr, by omega, .step rfl rfl (h_recheck _ rfl hc.open_), ?_, ?_⟩
    · exact hc.setRecv (hc.recv.setWaker f waker) (fun h_f => hc.recvRegistered f h_f)
        fun g h_g _ => h_g
    · simp [ChannelInner.lined, ChannelInner.setRecv, h_again]
  · have h_free : f ∉ lr := fun h_mem => h_again (hc.recvRegistered f h_mem)
    have h_waker : ((c.recvWaiters.setWaker f waker).nodes f).waker.isSome := by
      rw [WaitQueue.setWaker, modify_nodes, if_pos rfl]
      rfl
    obtain ⟨q, h_enqueue, h_q⟩ := (hc.recv.setWaker f waker).enqueue h_free h_waker 0
    have h_park : recvPark c f waker =
        ({ c with recvWaiters := c.recvWaiters.setWaker f waker }, .enqueue f) := by
      rw [recvPark, if_neg h_again]
    have h_step : recvStep { c with recvWaiters := c.recvWaiters.setWaker f waker } (.enqueue f)
        .run = some ({ c with recvWaiters := q }, .enqueueLenAdd f) := by
      simp only [recvStep, recvRun, h_enqueue]
    rw [h_park, if_neg h_again]
    refine ⟨4, _, lr ++ [f], Nat.le_refl 4,
      .step rfl h_step (.step rfl rfl (h_recheck _ rfl hc.open_)), ?_, ?_⟩
    · simp only [ChannelInner.setRecv, Function.update_idem, Function.update_self]
      exact hc.setRecv h_q.lenAdd (fun _ => rfl) fun g h_g h_ne => by simpa [h_ne] using h_g
    · simp [ChannelInner.lined, ChannelInner.setRecv]

/-- The drop of a receive future. -/
theorem recv_drop (hc : Quiet c ls lr) (f : RF) :
    ∃ n c', n ≤ 1 ∧ RecvSolo n (recvDrop c f).1 (recvDrop c f).2 c' (.idle (some .dropped)) ∧
      Quiet c' ls (lr.erase f) ∧ c'.lined ls (lr.erase f) = (c.lined ls lr).leaveRecv f
        { c.recvFutures f with status := .dropped } := by
  have h_erase : ∀ q, Parked q (lr.erase f) → Quiet ({ c with recvWaiters := q }.setRecv f
      fun x => { x with status := .dropped }) ls (lr.erase f) := fun q h_q =>
    hc.setRecv h_q (fun h_f => absurd h_f hc.recv.nodup.not_mem_erase)
      fun g h_g _ => List.mem_of_mem_erase h_g
  by_cases h_mem : f ∈ lr
  · obtain ⟨q, h_remove, h_q⟩ := hc.recv.remove_of_mem h_mem
    have h_drop : recvDrop c f = ({ c with recvWaiters := q }.setRecv f
        fun x => { x with status := .dropped }, .dropLenSub f) := by
      simp only [recvDrop, hc.recvRegistered f h_mem, h_remove, if_true, ChannelInner.setRecv]
    rw [h_drop]
    exact ⟨1, _, Nat.le_refl 1, .step rfl rfl (.refl _ _), h_erase _ h_q.lenSub, rfl⟩
  · have h_q : Parked c.recvWaiters (lr.erase f) := by
      rw [List.erase_of_not_mem h_mem]
      exact hc.recv
    have h_drop : recvDrop c f =
        (c.setRecv f fun x => { x with status := .dropped }, .idle (some .dropped)) := by
      cases h_registered : (c.recvFutures f).registered <;>
        simp [recvDrop, h_registered, hc.recv.remove_of_not_mem h_mem, ChannelInner.setRecv]
    rw [h_drop]
    exact ⟨0, _, Nat.zero_le 1, .refl _ _, h_erase _ h_q, rfl⟩

/-- A poll that receives: the value at the front goes out, the first sender is
    woken, and the future leaves the line. -/
theorem pollRecvAlone_received (hc : Quiet c ls lr) (f : RF) (waker : Waker)
    (h_status : (c.recvFutures f).status = .fresh ∨ (c.recvFutures f).status = .pending)
    (h_len : c.len.toNat > 0) :
    Follows (recvAlone c (.poll f waker)) (some ((c.lined ls lr).take.leaveRecv f
      ⟨false, .ready, false⟩, .poll (some (.ok c.front)))) := by
  let c₁ : ChannelInner SF RF Waker V :=
    c.setRecv f fun x => { x with status := .polling, woken := false }
  have h_start : recvStart c (.poll f waker) = some (c₁, .claim (.poll f)) := by
    simp only [recvStart, h_status, h_len, if_true, c₁]
  have hc₁ : Quiet { c₁ with toRing := c₁.toRing.take } ls lr :=
    hc.setRecv hc.recv (fun h_f => hc.recvRegistered f h_f) fun g h_g _ => h_g
  obtain ⟨n, c₂, h_n, h_wake, hc₂, h_c₂⟩ := recv_wake hc₁ (.poll f) c₁.front
  obtain ⟨k, c₃, h_k, h_finish, hc₃, h_c₃⟩ := recv_finish hc₂ f c₁.front
  have h_run := ((recv_take c₁ (.poll f)).trans h_wake).trans h_finish
  have h_futures : c₂.recvFutures = c₁.recvFutures := by
    have h := congrArg LineChannel.recvFutures h_c₂
    cases ls <;> exact h
  refine .intro (RecvSolo.alone h_start h_run (by omega)) hc₃ ?_
  rw [h_c₃, h_c₂, h_futures]
  cases ls <;> simp [LineChannel.leaveRecv, LineChannel.take, LineChannel.wakeSend,
    ChannelInner.lined, ChannelInner.setRecv, c₁]

/-- A poll that parks. -/
theorem pollRecvAlone_parked (hc : Quiet c ls lr) (f : RF) (waker : Waker)
    (h_status : (c.recvFutures f).status = .fresh ∨ (c.recvFutures f).status = .pending)
    (h_empty : ¬ c.len.toNat > 0) :
    Follows (recvAlone c (.poll f waker)) (some ((c.lined ls lr).parkRecv f, .poll none)) := by
  let c₁ : ChannelInner SF RF Waker V :=
    c.setRecv f fun x => { x with status := .polling, woken := false }
  have h_start : recvStart c (.poll f waker) = some (c₁, .pollClosed f waker) := by
    simp only [recvStart, h_status, h_empty, if_true, if_false, c₁]
  have h_open : c₁.closed = false := hc.open_
  have h_park : recvStep c₁ (.pollClosed f waker) .run = some (recvPark c₁ f waker) := by
    simp only [recvStep, recvRun, h_open, Bool.false_eq_true, if_false]
  have hc₁ : Quiet c₁ ls lr :=
    hc.setRecv hc.recv (fun h_f => hc.recvRegistered f h_f) fun g h_g _ => h_g
  obtain ⟨n, c₂, lr', h_n, h_run, hc₂, h_c₂⟩ := recv_park hc₁ f waker h_empty
  refine .intro (RecvSolo.alone h_start (.step rfl h_park h_run) (by omega)) hc₂ ?_
  rw [h_c₂]
  cases h_registered : (c.recvFutures f).registered <;>
    simp [LineChannel.parkRecv, ChannelInner.lined, ChannelInner.setRecv, c₁, h_registered]

theorem tryRecvAlone (hc : Quiet c ls lr) :
    Follows (recvAlone c .tryRecv) ((c.lined ls lr).recv (.tryRecv : RecvAction RF Waker)) := by
  simp only [LineChannel.recv]
  split
  · next h_len =>
      have h_ne : ¬ c.len.toNat = 0 := Nat.pos_iff_ne_zero.mp h_len
      have h_start : recvStart c (.tryRecv : RecvAction RF Waker) = some (c, .claim .tryRecv) := by
        simp only [recvStart, if_neg h_ne]
      have hc₁ : Quiet { c with toRing := c.toRing.take } ls lr := { hc with }
      obtain ⟨n, c₂, h_n, h_wake, hc₂, h_c₂⟩ := recv_wake hc₁ .tryRecv c.front
      have h_run := (recv_take c .tryRecv).trans h_wake
      exact .intro (RecvSolo.alone h_start h_run (by omega)) hc₂ h_c₂
  · next h_len =>
      have h_zero : c.len.toNat = 0 := Nat.eq_zero_of_not_pos h_len
      have h_start : recvStart c (.tryRecv : RecvAction RF Waker) = some (c, .tryClosed) := by
        simp only [recvStart, if_pos h_zero]
      have h_closed : recvStep c .tryClosed .run =
          some (c, .idle (some (.tryRecv (.error .empty)))) := by
        simp only [recvStep, recvRun, hc.open_, Bool.false_eq_true, if_false]
      exact .intro (RecvSolo.alone h_start (.step rfl h_closed (.refl _ _)) (by omega)) hc rfl

/-- Every call of the consumer is what it is on a `LineChannel`. -/
theorem recvAlone_sim (hc : Quiet c ls lr) (a : RecvAction RF Waker) :
    Follows (recvAlone c a) ((c.lined ls lr).recv a) := by
  have h_same : ∀ f, ((c.lined ls lr).recvFutures f).status = (c.recvFutures f).status :=
    fun _ => rfl
  cases a with
  | tryRecv => exact tryRecvAlone hc
  | poll f waker =>
      have h_poll : (c.recvFutures f).status = .fresh ∨ (c.recvFutures f).status = .pending →
          Follows (recvAlone c (.poll f waker)) (some ((c.lined ls lr).pollRecv f)) := by
        intro h_status
        simp only [LineChannel.pollRecv]
        split
        · next h_len => exact pollRecvAlone_received hc f waker h_status h_len
        · next h_len => exact pollRecvAlone_parked hc f waker h_status h_len
      cases h_status : (c.recvFutures f).status with
      | fresh =>
          simp only [LineChannel.recv, h_same, h_status]
          exact h_poll (.inl h_status)
      | pending =>
          simp only [LineChannel.recv, h_same, h_status]
          exact h_poll (.inr h_status)
      | polling | ready | dropped =>
          simp [LineChannel.recv, h_same, h_status, Follows, recvAlone, recvStart]
  | dropFuture f =>
      have h_drop : recvStart c (.dropFuture f) = some (recvDrop c f) →
          Follows (recvAlone c (.dropFuture f)) (some ((c.lined ls lr).leaveRecv f
            { c.recvFutures f with status := .dropped }, .dropped)) := by
        intro h_start
        obtain ⟨n, c', h_n, h_run, hc', h_c'⟩ := recv_drop hc f
        exact .intro (RecvSolo.alone h_start h_run (by omega)) hc' h_c'
      cases h_status : (c.recvFutures f).status with
      | fresh | pending | ready =>
          simp only [LineChannel.recv, h_same, h_status]
          exact h_drop (by simp only [recvStart, h_status])
      | polling | dropped =>
          simp only [LineChannel.recv, h_same, h_status, Follows, recvAlone, recvStart]
  | run => rfl

-- ============================================================================
-- Both sides
-- ============================================================================

/-- Every call is what it is on a `LineChannel`. -/
theorem callAlone_sim (hc : Quiet c ls lr) (a : Call SF RF Waker V) :
    Follows (callAlone c a) ((c.lined ls lr).call a) := by
  cases a with
  | inl a => exact (sendAlone_sim hc a).map Sum.inl
  | inr a => exact (recvAlone_sim hc a).map Sum.inr

/-- The calls that a `LineChannel` answers. -/
inductive CallEffect (v : LineChannel SF RF V) :
    Call SF RF Waker V → LineChannel SF RF V → Outcome V → Prop
  | trySend {value : V} (h_room : v.len.toNat < v.capacity.val) :
      CallEffect v (.inl (.trySend value)) (v.put value) (.inl (.trySend (.ok ())))
  | tryFull {value : V} (h_full : v.capacity.val ≤ v.len.toNat) :
      CallEffect v (.inl (.trySend value)) v (.inl (.trySend (.error (.full value))))
  | send {f : SF} {waker : Waker} {value : V}
      (h_status : (v.sendFutures f).status = .fresh ∨ (v.sendFutures f).status = .pending)
      (h_room : v.len.toNat < v.capacity.val) (h_value : (v.sendFutures f).value = some value) :
      CallEffect v (.inl (.poll f waker))
        ((v.put value).leaveSend f ⟨none, false, .ready, false⟩) (.inl (.poll (some (.ok ()))))
  | sendPark {f : SF} {waker : Waker}
      (h_status : (v.sendFutures f).status = .fresh ∨ (v.sendFutures f).status = .pending)
      (h_full : v.len.toNat < v.capacity.val → (v.sendFutures f).value = none) :
      CallEffect v (.inl (.poll f waker)) (v.parkSend f) (.inl (.poll none))
  | sendDrop {f : SF} :
      CallEffect v (.inl (.dropFuture f))
        (v.leaveSend f { v.sendFutures f with status := .dropped }) (.inl .dropped)
  | tryRecv (h_some : 0 < v.len.toNat) :
      CallEffect v (.inr .tryRecv) v.take (.inr (.tryRecv (.ok v.front)))
  | tryEmpty (h_empty : v.len.toNat = 0) :
      CallEffect v (.inr .tryRecv) v (.inr (.tryRecv (.error .empty)))
  | recv {f : RF} {waker : Waker} (h_some : 0 < v.len.toNat) :
      CallEffect v (.inr (.poll f waker)) (v.take.leaveRecv f ⟨false, .ready, false⟩)
        (.inr (.poll (some (.ok v.front))))
  | recvPark {f : RF} {waker : Waker} (h_empty : v.len.toNat = 0) :
      CallEffect v (.inr (.poll f waker)) (v.parkRecv f) (.inr (.poll none))
  | recvDrop {f : RF} :
      CallEffect v (.inr (.dropFuture f))
        (v.leaveRecv f { v.recvFutures f with status := .dropped }) (.inr .dropped)

theorem sendCall_effect {v v' : LineChannel SF RF V} {a : SendAction SF Waker V}
    {o : SendOutcome V} (h : v.send a = some (v', o)) : CallEffect v (.inl a) v' (.inl o) := by
  cases a with
  | trySend value =>
      simp only [LineChannel.send, Option.some.injEq] at h
      split at h
      · next h_room =>
          cases h
          exact .trySend h_room
      · next h_full =>
          cases h
          exact .tryFull (Nat.not_lt.mp h_full)
  | poll f waker =>
      have h_poll : (v.sendFutures f).status = .fresh ∨ (v.sendFutures f).status = .pending →
          v.pollSend f = (v', o) → CallEffect v (.inl (.poll f waker)) v' (.inl o) := by
        intro h_status h
        simp only [LineChannel.pollSend] at h
        split at h
        · next h_room =>
            split at h
            · next h_value =>
                cases h
                exact .send h_status h_room h_value
            · next h_value =>
                cases h
                exact .sendPark h_status fun _ => h_value
        · next h_full =>
            cases h
            exact .sendPark h_status fun h_room => absurd h_room h_full
      cases h_status : (v.sendFutures f).status with
      | fresh =>
          simp only [LineChannel.send, h_status, Option.some.injEq] at h
          exact h_poll (.inl h_status) h
      | pending =>
          simp only [LineChannel.send, h_status, Option.some.injEq] at h
          exact h_poll (.inr h_status) h
      | polling | ready | dropped => exact absurd h (by simp [LineChannel.send, h_status])
  | dropFuture f =>
      cases h_status : (v.sendFutures f).status with
      | fresh | pending | ready =>
          simp only [LineChannel.send, h_status, Option.some.injEq] at h
          cases h
          exact .sendDrop
      | polling | dropped => exact absurd h (by simp [LineChannel.send, h_status])
  | run => exact absurd h (by simp [LineChannel.send])

theorem recvCall_effect {v v' : LineChannel SF RF V} {a : RecvAction RF Waker}
    {o : RecvOutcome V} (h : v.recv a = some (v', o)) : CallEffect v (.inr a) v' (.inr o) := by
  cases a with
  | tryRecv =>
      simp only [LineChannel.recv, Option.some.injEq] at h
      split at h
      · next h_some =>
          cases h
          exact .tryRecv h_some
      · next h_empty =>
          cases h
          exact .tryEmpty (Nat.eq_zero_of_not_pos h_empty)
  | poll f waker =>
      have h_poll : v.pollRecv f = (v', o) → CallEffect v (.inr (.poll f waker)) v' (.inr o) := by
        intro h
        simp only [LineChannel.pollRecv] at h
        split at h
        · next h_some =>
            cases h
            exact .recv h_some
        · next h_empty =>
            cases h
            exact .recvPark (Nat.eq_zero_of_not_pos h_empty)
      cases h_status : (v.recvFutures f).status with
      | fresh | pending =>
          simp only [LineChannel.recv, h_status, Option.some.injEq] at h
          exact h_poll h
      | polling | ready | dropped => exact absurd h (by simp [LineChannel.recv, h_status])
  | dropFuture f =>
      cases h_status : (v.recvFutures f).status with
      | fresh | pending | ready =>
          simp only [LineChannel.recv, h_status, Option.some.injEq] at h
          cases h
          exact .recvDrop
      | polling | dropped => exact absurd h (by simp [LineChannel.recv, h_status])
  | run => exact absurd h (by simp [LineChannel.recv])

/-- What a call does, if it is answered. -/
theorem call_effect {v v' : LineChannel SF RF V} {a : Call SF RF Waker V} {o : Outcome V}
    (h : v.call a = some (v', o)) : CallEffect v a v' o := by
  cases a with
  | inl a =>
      obtain ⟨⟨v₁, o₁⟩, h_send, h_eq⟩ := Option.map_eq_some_iff.mp h
      cases h_eq
      exact sendCall_effect h_send
  | inr a =>
      obtain ⟨⟨v₁, o₁⟩, h_recv, h_eq⟩ := Option.map_eq_some_iff.mp h
      cases h_eq
      exact recvCall_effect h_recv

/-- A call between calls that returns is one that the `LineChannel` answers, and
    the channel is between calls again. -/
theorem callAlone_effect {c' : ChannelInner SF RF Waker V} {a : Call SF RF Waker V}
    {o : Outcome V} (hc : Quiet c ls lr) (h : callAlone c a = some (c', o)) :
    ∃ ls' lr', Quiet c' ls' lr' ∧ CallEffect (c.lined ls lr) a (c'.lined ls' lr') o := by
  have h_sim := callAlone_sim hc a
  cases h_v : (c.lined ls lr).call a with
  | none =>
      rw [h_v] at h_sim
      have h_none : callAlone c a = none := h_sim
      rw [h_none] at h
      exact absurd h (by simp)
  | some r =>
      obtain ⟨v, result⟩ := r
      rw [h_v] at h_sim
      obtain ⟨c₁, h_c₁, h_quiet, h_eq⟩ := h_sim
      rw [h_c₁] at h
      cases h
      refine ⟨v.sendLine, v.recvLine, h_quiet, ?_⟩
      rw [h_eq]
      exact call_effect h_v

end Channel
end Zydon
