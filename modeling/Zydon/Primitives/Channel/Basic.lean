/-
  Zydon.Primitives.Channel.Basic

  The async channel of `primitives/channel.rs`, one atomic operation, read or
  write of a slot, or critical section of a wait queue at a time.

  Any number of producers call `try_send` and poll or drop send futures; one
  consumer calls `try_recv` and polls or drops receive futures.  A value is
  named by the number of the claim of `send_pos` that took it in; `claimed`
  and `delivered` record the values that have gone in and come out.
-/

import Mathlib.Algebra.Group.Nat.Defs
import Zydon.Lib.Interleaving
import Zydon.Primitives.WaitQueue.Basic

namespace Zydon
namespace Channel

open Lib

-- ============================================================================
-- The channel
-- ============================================================================

/-- `usize`. -/
abbrev Usize := BitVec 64

/-- A capacity that `channel` accepts: it asserts that it is positive, and the
    layout of the `occupied` bitmap is one of at most `isize::MAX` bytes. -/
structure Capacity where
  val : Nat
  pos : 0 < val
  le_max : val ≤ 2 ^ 63 - 1
  deriving DecidableEq

/-- A value, with the number of the claim that took it in. -/
abbrev Elem (V : Type*) := Nat × V

/-- `VecSlot` with the counters of `ChannelInner`.  A slot that has not been
    written holds `none`; one that has been read keeps its bits. -/
structure Ring (V : Type*) where
  capacity : Capacity
  data : Nat → Option (Elem V)
  occupied : Nat → Bool
  sendPos : Usize
  recvPos : Usize
  len : Usize
  claimed : List (Elem V)
  delivered : List (Option (Elem V))

/-- `SendFuture`; `woken` records that the waker in its node has been invoked
    since the start of the last poll. -/
structure SendFuture (V : Type*) where
  value : Option V
  registered : Bool
  status : FutureStatus
  woken : Bool
  deriving DecidableEq

/-- `RecvFuture`. -/
structure RecvFuture where
  registered : Bool
  status : FutureStatus
  woken : Bool
  deriving DecidableEq

/-- `ChannelInner`, with the futures of the channel: `SF` of `send`, `RF` of
    `recv`. -/
structure ChannelInner (SF RF Waker V : Type*) extends Ring V where
  sendWaiters : WaitQueue SF Waker
  recvWaiters : WaitQueue RF Waker
  closed : Bool
  sendFutures : SF → SendFuture V
  recvFutures : RF → RecvFuture

variable {SF RF Waker V : Type*}

/-- The ring of `channel`. -/
def Ring.new (capacity : Capacity) : Ring V where
  capacity := capacity
  data := fun _ => none
  occupied := fun _ => false
  sendPos := 0
  recvPos := 0
  len := 0
  claimed := []
  delivered := []

/-- `Sender::send`. -/
def send (value : V) : SendFuture V where
  value := some value
  registered := false
  status := .fresh
  woken := false

/-- `Receiver::recv`. -/
def recv : RecvFuture where
  registered := false
  status := .fresh
  woken := false

/-- `channel`, with the futures of later calls of `send` and `recv`. -/
def channel (capacity : Capacity) (values : SF → V) : ChannelInner SF RF Waker V where
  toRing := Ring.new capacity
  sendWaiters := WaitQueue.new
  recvWaiters := WaitQueue.new
  closed := false
  sendFutures := fun f => send (values f)
  recvFutures := fun _ => recv

namespace Ring

/-- `pos % capacity`. -/
def idx (r : Ring V) (pos : Usize) : Nat := pos.toNat % r.capacity.val

/-- The `fetch_add` on `send_pos`, for `value`. -/
def claim (r : Ring V) (value : V) : Ring V :=
  { r with sendPos := r.sendPos + 1, claimed := r.claimed ++ [(r.claimed.length, value)] }

/-- The write of a slot. -/
def write (r : Ring V) (pos : Usize) (x : Elem V) : Ring V :=
  { r with data := Function.update r.data (r.idx pos) (some x) }

/-- The write of the `occupied` flag of a slot. -/
def setOccupied (r : Ring V) (pos : Usize) (live : Bool) : Ring V :=
  { r with occupied := Function.update r.occupied (r.idx pos) live }

/-- The `fetch_add` on `recv_pos`. -/
def claimRecv (r : Ring V) : Ring V := { r with recvPos := r.recvPos + 1 }

/-- The read of a slot. -/
def read (r : Ring V) (pos : Usize) : Ring V :=
  { r with delivered := r.delivered ++ [r.data (r.idx pos)] }

/-- The `fetch_add` on `len`. -/
def lenAdd (r : Ring V) : Ring V := { r with len := r.len + 1 }

/-- The `fetch_sub` on `len`. -/
def lenSub (r : Ring V) : Ring V := { r with len := r.len - 1 }

end Ring

namespace ChannelInner

/-- Write to the send future `f`. -/
def setSend [DecidableEq SF] (c : ChannelInner SF RF Waker V) (f : SF)
    (g : SendFuture V → SendFuture V) : ChannelInner SF RF Waker V :=
  { c with sendFutures := Function.update c.sendFutures f (g (c.sendFutures f)) }

/-- Write to the receive future `f`. -/
def setRecv [DecidableEq RF] (c : ChannelInner SF RF Waker V) (f : RF)
    (g : RecvFuture → RecvFuture) : ChannelInner SF RF Waker V :=
  { c with recvFutures := Function.update c.recvFutures f (g (c.recvFutures f)) }

end ChannelInner

/-! ## Results -/

/-- `TrySendError`. -/
inductive TrySendError (V : Type*) where
  | full (value : V)
  | closed (value : V)
  deriving DecidableEq

/-- `SendError`. -/
inductive SendError (V : Type*) where
  | closed (value : V)
  deriving DecidableEq

/-- `TryRecvError`. -/
inductive TryRecvError where
  | empty
  | closed
  deriving DecidableEq

/-- `RecvError`. -/
inductive RecvError where
  | closed
  deriving DecidableEq

/-- What a call of a producer has returned; `none` is `Poll::Pending`. -/
inductive SendOutcome (V : Type*) where
  | trySend (result : Except (TrySendError V) Unit)
  | poll (result : Option (Except (SendError V) Unit))
  | dropped

/-- What a call of the consumer has returned; a value that is not there is
    `none`. -/
inductive RecvOutcome (V : Type*) where
  | tryRecv (result : Except TryRecvError (Option (Elem V)))
  | poll (result : Option (Except RecvError (Option (Elem V))))
  | dropped

-- ============================================================================
-- A producer
-- ============================================================================

/-- The two callers of the sending code. -/
inductive SendCall (SF : Type*) where
  | trySend
  | poll (f : SF)
  deriving DecidableEq

/-- Where a producer is: outside the channel, or before the operation named. -/
inductive SendPc (SF RF Waker V : Type*) where
  /-- With what the last call has returned. -/
  | idle (result : Option (SendOutcome V))
  /-- In `try_send`: the load of `len`. -/
  | tryLoadLen (value : V)
  /-- In `poll`: the load of `len`. -/
  | pollLoadLen (f : SF) (waker : Waker)
  /-- The `fetch_add` on `send_pos`. -/
  | claim (call : SendCall SF) (value : V)
  /-- The write of the slot. -/
  | write (call : SendCall SF) (pos : Usize) (x : Elem V)
  /-- The write of the `occupied` flag. -/
  | setOccupied (call : SendCall SF) (pos : Usize) (x : Elem V)
  /-- The `fetch_add` on `len`. -/
  | lenAdd (call : SendCall SF) (x : Elem V)
  /-- In `recv_waiters.wake_one`: the critical section. -/
  | wakeOne (call : SendCall SF)
  /-- In `recv_waiters.wake_one`, which has dequeued the node of `g`: the `fetch_sub`. -/
  | wakeLenSub (call : SendCall SF) (g : RF) (hasWaker : Bool)
  /-- In `recv_waiters.wake_one`: `wake` of the waker taken from the node of `g`. -/
  | wakeCall (call : SendCall SF) (g : RF)
  /-- In `poll`, which has sent: the critical section of `remove`. -/
  | remove (f : SF)
  /-- In `poll`, which has sent: the `fetch_sub` of `remove`. -/
  | removeLenSub (f : SF)
  /-- In `poll`, which parks: the critical section of `enqueue`. -/
  | enqueue (f : SF)
  /-- In `poll`, which parks: the `fetch_add` of `enqueue`. -/
  | enqueueLenAdd (f : SF)
  /-- In `poll`, which parks again: `set_waker`. -/
  | setWaker (f : SF) (waker : Waker)
  /-- In the drop of `f`: the `fetch_sub` of `remove`. -/
  | dropLenSub (f : SF)

/-- The labels of a producer: the start of a call, together with its first
    operation, and every later operation. -/
inductive SendAction (SF Waker V : Type*) where
  | trySend (value : V)
  | poll (f : SF) (waker : Waker)
  | dropFuture (f : SF)
  | run
  deriving DecidableEq

section Producer

variable [DecidableEq SF] [DecidableEq RF]

/-- `SendFuture::poll` returns `Ready(Ok(()))`. -/
def sendReady (c : ChannelInner SF RF Waker V) (f : SF) :
    ChannelInner SF RF Waker V × SendPc SF RF Waker V :=
  (c.setSend f fun x => { x with registered := false, status := .ready },
    .idle (some (.poll (some (.ok ())))))

/-- What follows `wake_one`: the end of `try_send`, or the unregistering of `poll`. -/
def sendWoken (c : ChannelInner SF RF Waker V) :
    SendCall SF → ChannelInner SF RF Waker V × SendPc SF RF Waker V
  | .trySend => (c, .idle (some (.trySend (.ok ()))))
  | .poll f => if (c.sendFutures f).registered then (c, .remove f) else sendReady c f

/-- `SendFuture::poll` parks.  A node that is not registered is not shared yet,
    and gets its waker at once. -/
def sendPark (c : ChannelInner SF RF Waker V) (f : SF) (waker : Waker) :
    ChannelInner SF RF Waker V × SendPc SF RF Waker V :=
  if (c.sendFutures f).registered then (c, .setWaker f waker)
  else ({ c with sendWaiters := c.sendWaiters.setWaker f waker }, .enqueue f)

/-- `SendFuture::poll` returns `Pending`. -/
def sendPending (c : ChannelInner SF RF Waker V) (f : SF) :
    ChannelInner SF RF Waker V × SendPc SF RF Waker V :=
  (c.setSend f fun x => { x with registered := true, status := .pending },
    .idle (some (.poll none)))

/-- `SendFuture::drop`, up to the critical section of `remove`. -/
def sendDrop (c : ChannelInner SF RF Waker V) (f : SF) :
    ChannelInner SF RF Waker V × SendPc SF RF Waker V :=
  let c' := c.setSend f fun x => { x with status := .dropped }
  if (c.sendFutures f).registered then
    let (unlinked, waiters) := c.sendWaiters.removeSection f
    ({ c' with sendWaiters := waiters }, if unlinked then .dropLenSub f else .idle (some .dropped))
  else (c', .idle (some .dropped))

/-- The start of a call, in the states in which it can be made. -/
def sendStart (c : ChannelInner SF RF Waker V) :
    SendAction SF Waker V → Option (ChannelInner SF RF Waker V × SendPc SF RF Waker V)
  | .trySend value =>
      if c.closed then some (c, .idle (some (.trySend (.error (.closed value)))))
      else some (c, .tryLoadLen value)
  | .poll f waker =>
      if (c.sendFutures f).status = .fresh ∨ (c.sendFutures f).status = .pending then
        if c.closed then
          match (c.sendFutures f).value with
          | some value =>
              some (c.setSend f fun x => { x with value := none, status := .ready, woken := false },
                .idle (some (.poll (some (.error (.closed value))))))
          -- the `unwrap` panics
          | none => none
        else
          some (c.setSend f fun x => { x with status := .polling, woken := false },
            .pollLoadLen f waker)
      else none
  | .dropFuture f =>
      match (c.sendFutures f).status with
      | .fresh | .pending | .ready => some (sendDrop c f)
      | .polling | .dropped => none
  | .run => none

/-- One operation inside a call.  All nodes of the queue have priority `0`, so
    that `enqueue` needs no fuel (`send_enabled`, `recv_enabled`). -/
def sendRun (c : ChannelInner SF RF Waker V) :
    SendPc SF RF Waker V → Option (ChannelInner SF RF Waker V × SendPc SF RF Waker V)
  | .idle _ => none
  | .tryLoadLen value =>
      if c.len.toNat ≥ c.capacity.val then
        some (c, .idle (some (.trySend (.error (.full value)))))
      else some (c, .claim .trySend value)
  | .pollLoadLen f waker =>
      if c.len.toNat < c.capacity.val then
        match (c.sendFutures f).value with
        | some value => some (c.setSend f fun x => { x with value := none }, .claim (.poll f) value)
        | none => some (sendPark c f waker)
      else some (sendPark c f waker)
  | .claim call value =>
      some ({ c with toRing := c.toRing.claim value },
        .write call c.sendPos (c.claimed.length, value))
  | .write call pos x => some ({ c with toRing := c.toRing.write pos x }, .setOccupied call pos x)
  | .setOccupied call pos x =>
      some ({ c with toRing := c.toRing.setOccupied pos true }, .lenAdd call x)
  | .lenAdd call _ => some ({ c with toRing := c.toRing.lenAdd }, .wakeOne call)
  | .wakeOne call =>
      match c.recvWaiters.wakeOneSection with
      | (none, waiters) => some (sendWoken { c with recvWaiters := waiters } call)
      | (some (g, waker), waiters) =>
          some ({ c with recvWaiters := waiters }, .wakeLenSub call g waker.isSome)
  | .wakeLenSub call g hasWaker =>
      let c' := { c with recvWaiters := c.recvWaiters.lenSub }
      some (if hasWaker then (c', .wakeCall call g) else sendWoken c' call)
  | .wakeCall call g => some (sendWoken (c.setRecv g fun x => { x with woken := true }) call)
  | .remove f =>
      let (unlinked, waiters) := c.sendWaiters.removeSection f
      if unlinked then some ({ c with sendWaiters := waiters }, .removeLenSub f)
      else some (sendReady { c with sendWaiters := waiters } f)
  | .removeLenSub f => some (sendReady { c with sendWaiters := c.sendWaiters.lenSub } f)
  | .enqueue f =>
      match c.sendWaiters.enqueueSection 0 f with
      | some waiters => some ({ c with sendWaiters := waiters }, .enqueueLenAdd f)
      | none => none
  | .enqueueLenAdd f => some (sendPending { c with sendWaiters := c.sendWaiters.lenAdd } f)
  | .setWaker f waker =>
      some (sendPending { c with sendWaiters := c.sendWaiters.setWaker f waker } f)
  | .dropLenSub _ =>
      some ({ c with sendWaiters := c.sendWaiters.lenSub }, .idle (some .dropped))

/-- The atomic steps of a producer. -/
def sendStep (c : ChannelInner SF RF Waker V) :
    SendPc SF RF Waker V → SendAction SF Waker V →
      Option (ChannelInner SF RF Waker V × SendPc SF RF Waker V)
  | .idle _, a => sendStart c a
  | p, .run => sendRun c p
  | _, _ => none

/-- A producer. -/
def sender (SF RF Waker V : Type*) [DecidableEq SF] [DecidableEq RF] :
    ThreadProgram (ChannelInner SF RF Waker V) (SendPc SF RF Waker V) (SendAction SF Waker V) where
  start := .idle none
  step := sendStep

end Producer

-- ============================================================================
-- The consumer
-- ============================================================================

/-- The callers of the receiving code.  The second dequeue of `poll`, after its
    re-check, has just unregistered the future, so that what follows `wake_one`
    does nothing there. -/
inductive RecvCall (RF : Type*) where
  | tryRecv
  | poll (f : RF)
  deriving DecidableEq

/-- What `poll` does after its `remove`. -/
inductive AfterRemove (V : Type*) where
  /-- It returns the value it has read. -/
  | ready (value : Option (Elem V))
  /-- It returns `Err(RecvError::Closed)`. -/
  | closed
  /-- It dequeues. -/
  | dequeue

/-- Where the consumer is. -/
inductive RecvPc (SF RF Waker V : Type*) where
  /-- With what the last call has returned. -/
  | idle (result : Option (RecvOutcome V))
  /-- In `try_recv`, which has found no value: the load of `closed`. -/
  | tryClosed
  /-- The `fetch_add` on `recv_pos`. -/
  | claim (call : RecvCall RF)
  /-- The write of the `occupied` flag. -/
  | clear (call : RecvCall RF) (pos : Usize)
  /-- The read of the slot. -/
  | read (call : RecvCall RF) (pos : Usize)
  /-- The `fetch_sub` on `len`. -/
  | lenSub (call : RecvCall RF) (value : Option (Elem V))
  /-- In `send_waiters.wake_one`: the critical section. -/
  | wakeOne (call : RecvCall RF) (value : Option (Elem V))
  /-- In `send_waiters.wake_one`, which has dequeued the node of `g`: the `fetch_sub`. -/
  | wakeLenSub (call : RecvCall RF) (value : Option (Elem V)) (g : SF) (hasWaker : Bool)
  /-- In `send_waiters.wake_one`: `wake` of the waker taken from the node of `g`. -/
  | wakeCall (call : RecvCall RF) (value : Option (Elem V)) (g : SF)
  /-- In `poll`: the critical section of `remove`. -/
  | remove (f : RF) (after : AfterRemove V)
  /-- In `poll`: the `fetch_sub` of `remove`. -/
  | removeLenSub (f : RF) (after : AfterRemove V)
  /-- In `poll`, which has found no value: the load of `closed`. -/
  | pollClosed (f : RF) (waker : Waker)
  /-- In `poll`, which parks: the critical section of `enqueue`. -/
  | enqueue (f : RF)
  /-- In `poll`, which parks: the `fetch_add` of `enqueue`. -/
  | enqueueLenAdd (f : RF)
  /-- In `poll`, which parks again: `set_waker`. -/
  | setWaker (f : RF) (waker : Waker)
  /-- In `poll`, which is registered: the second load of `len`. -/
  | recheckLen (f : RF)
  /-- In `poll`, which is registered: the second load of `closed`. -/
  | recheckClosed (f : RF)
  /-- In the drop of `f`: the `fetch_sub` of `remove`. -/
  | dropLenSub (f : RF)

/-- The labels of the consumer. -/
inductive RecvAction (RF Waker : Type*) where
  | tryRecv
  | poll (f : RF) (waker : Waker)
  | dropFuture (f : RF)
  | run
  deriving DecidableEq

section Consumer

variable [DecidableEq SF] [DecidableEq RF]

/-- `RecvFuture::poll` returns `Ready`. -/
def recvReady (c : ChannelInner SF RF Waker V) (f : RF)
    (result : Except RecvError (Option (Elem V))) :
    ChannelInner SF RF Waker V × RecvPc SF RF Waker V :=
  (c.setRecv f fun x => { x with registered := false, status := .ready },
    .idle (some (.poll (some result))))

/-- What follows `wake_one`: the end of `try_recv`, or the unregistering of `poll`. -/
def recvWoken (c : ChannelInner SF RF Waker V) (value : Option (Elem V)) :
    RecvCall RF → ChannelInner SF RF Waker V × RecvPc SF RF Waker V
  | .tryRecv => (c, .idle (some (.tryRecv (.ok value))))
  | .poll f =>
      if (c.recvFutures f).registered then (c, .remove f (.ready value))
      else recvReady c f (.ok value)

/-- What follows `remove` in `poll`. -/
def recvRemoved (c : ChannelInner SF RF Waker V) (f : RF) :
    AfterRemove V → ChannelInner SF RF Waker V × RecvPc SF RF Waker V
  | .ready value => recvReady c f (.ok value)
  | .closed => recvReady c f (.error .closed)
  | .dequeue => (c.setRecv f fun x => { x with registered := false }, .claim (.poll f))

/-- `RecvFuture::poll` parks.  A node that is not registered is not shared yet,
    and gets its waker at once. -/
def recvPark (c : ChannelInner SF RF Waker V) (f : RF) (waker : Waker) :
    ChannelInner SF RF Waker V × RecvPc SF RF Waker V :=
  if (c.recvFutures f).registered then (c, .setWaker f waker)
  else ({ c with recvWaiters := c.recvWaiters.setWaker f waker }, .enqueue f)

/-- `RecvFuture::drop`, up to the critical section of `remove`. -/
def recvDrop (c : ChannelInner SF RF Waker V) (f : RF) :
    ChannelInner SF RF Waker V × RecvPc SF RF Waker V :=
  let c' := c.setRecv f fun x => { x with status := .dropped }
  if (c.recvFutures f).registered then
    let (unlinked, waiters) := c.recvWaiters.removeSection f
    ({ c' with recvWaiters := waiters }, if unlinked then .dropLenSub f else .idle (some .dropped))
  else (c', .idle (some .dropped))

/-- The start of a call, in the states in which it can be made. -/
def recvStart (c : ChannelInner SF RF Waker V) :
    RecvAction RF Waker → Option (ChannelInner SF RF Waker V × RecvPc SF RF Waker V)
  | .tryRecv => some (c, if c.len.toNat = 0 then .tryClosed else .claim .tryRecv)
  | .poll f waker =>
      if (c.recvFutures f).status = .fresh ∨ (c.recvFutures f).status = .pending then
        some (c.setRecv f fun x => { x with status := .polling, woken := false },
          if c.len.toNat > 0 then .claim (.poll f) else .pollClosed f waker)
      else none
  | .dropFuture f =>
      match (c.recvFutures f).status with
      | .fresh | .pending | .ready => some (recvDrop c f)
      | .polling | .dropped => none
  | .run => none

/-- One operation inside a call. -/
def recvRun (c : ChannelInner SF RF Waker V) :
    RecvPc SF RF Waker V → Option (ChannelInner SF RF Waker V × RecvPc SF RF Waker V)
  | .idle _ => none
  | .tryClosed =>
      some (c, .idle (some (.tryRecv (.error (if c.closed then .closed else .empty)))))
  | .claim call => some ({ c with toRing := c.toRing.claimRecv }, .clear call c.recvPos)
  | .clear call pos => some ({ c with toRing := c.toRing.setOccupied pos false }, .read call pos)
  | .read call pos =>
      some ({ c with toRing := c.toRing.read pos }, .lenSub call (c.data (c.idx pos)))
  | .lenSub call value => some ({ c with toRing := c.toRing.lenSub }, .wakeOne call value)
  | .wakeOne call value =>
      match c.sendWaiters.wakeOneSection with
      | (none, waiters) => some (recvWoken { c with sendWaiters := waiters } value call)
      | (some (g, waker), waiters) =>
          some ({ c with sendWaiters := waiters }, .wakeLenSub call value g waker.isSome)
  | .wakeLenSub call value g hasWaker =>
      let c' := { c with sendWaiters := c.sendWaiters.lenSub }
      some (if hasWaker then (c', .wakeCall call value g) else recvWoken c' value call)
  | .wakeCall call value g =>
      some (recvWoken (c.setSend g fun x => { x with woken := true }) value call)
  | .remove f after =>
      let (unlinked, waiters) := c.recvWaiters.removeSection f
      if unlinked then some ({ c with recvWaiters := waiters }, .removeLenSub f after)
      else some (recvRemoved { c with recvWaiters := waiters } f after)
  | .removeLenSub f after =>
      some (recvRemoved { c with recvWaiters := c.recvWaiters.lenSub } f after)
  | .pollClosed f waker =>
      if c.closed then
        some (if (c.recvFutures f).registered then (c, .remove f .closed)
          else recvReady c f (.error .closed))
      else some (recvPark c f waker)
  | .enqueue f =>
      match c.recvWaiters.enqueueSection 0 f with
      | some waiters => some ({ c with recvWaiters := waiters }, .enqueueLenAdd f)
      | none => none
  | .enqueueLenAdd f =>
      some ({ c with recvWaiters := c.recvWaiters.lenAdd }.setRecv f fun x =>
        { x with registered := true }, .recheckLen f)
  | .setWaker f waker =>
      some ({ c with recvWaiters := c.recvWaiters.setWaker f waker }, .recheckLen f)
  | .recheckLen f =>
      some (c, if c.len.toNat > 0 then .remove f .dequeue else .recheckClosed f)
  | .recheckClosed f =>
      if c.closed then some (c, .remove f .closed)
      else
        some (c.setRecv f fun x => { x with status := .pending }, .idle (some (.poll none)))
  | .dropLenSub _ =>
      some ({ c with recvWaiters := c.recvWaiters.lenSub }, .idle (some .dropped))

/-- The atomic steps of the consumer. -/
def recvStep (c : ChannelInner SF RF Waker V) :
    RecvPc SF RF Waker V → RecvAction RF Waker →
      Option (ChannelInner SF RF Waker V × RecvPc SF RF Waker V)
  | .idle _, a => recvStart c a
  | p, .run => recvRun c p
  | _, _ => none

/-- The consumer. -/
def receiver (SF RF Waker V : Type*) [DecidableEq SF] [DecidableEq RF] :
    ThreadProgram (ChannelInner SF RF Waker V) (RecvPc SF RF Waker V) (RecvAction RF Waker) where
  start := .idle none
  step := recvStep

/-- The channel with its consumer and its producers. -/
abbrev State (Producer SF RF Waker V : Type*) :=
  OwnerAndThreads Producer (ChannelInner SF RF Waker V) (RecvPc SF RF Waker V)
    (SendPc SF RF Waker V)

/-- The labels of the consumer and of the producers. -/
abbrev Action (Producer SF RF Waker V : Type*) :=
  RecvAction RF Waker ⊕ Producer × SendAction SF Waker V

/-- One consumer and any number of producers, interleaved. -/
def machine (Producer RF Waker : Type*) [DecidableEq Producer] [DecidableEq RF]
    (capacity : Capacity) (values : SF → V) :
    Machine (State Producer SF RF Waker V) (Action Producer SF RF Waker V) :=
  ownerAndThreads Producer (receiver SF RF Waker V) (sender SF RF Waker V)
    (channel capacity values)

end Consumer

end Channel
end Zydon
