/-
  Zydon.Primitives.Futex.Basic

  The futex table of `primitives/futex.rs`: its buckets, and the calls `wait`,
  `wake`, and the poll and drop of the future of a `wait`.

  `wake`, the enqueue of a first poll and the remove of a drop hold the `_lock` of
  the bucket from beginning to end, so that a call is one step here.
-/

import Zydon.Lib.Machine
import Zydon.Primitives.WaitQueue.Runs

namespace Zydon
namespace Futex

open Lib

-- ============================================================================
-- The table
-- ============================================================================

/-- `usize`. -/
abbrev Usize := BitVec 64

/-- `FutexResult`. -/
inductive FutexResult where
  | woken
  | wouldBlock
  | timedOut
  | interrupted
  deriving DecidableEq, Repr

/-- `FUTEX_BUCKETS`. -/
def futexBuckets : Nat := 256

/-- The index of a bucket. -/
abbrev Bucket := Fin futexBuckets

/-- `FutexTable`: the wait queue of each bucket. -/
structure FutexTable (ι Waker : Type*) where
  buckets : Bucket → WaitQueue ι Waker

/-- `bucket_for`: the FNV-1a hash of the physical address. -/
def bucketFor (virtToPhys : Usize → Usize) (addr : Usize) : Bucket :=
  let phys := virtToPhys addr
  let hash := 0xcbf29ce484222325#64
  let hash := hash ^^^ phys
  let hash := hash * 0x100000001b3#64
  ⟨hash.toNat % futexBuckets, Nat.mod_lt _ (by decide)⟩

variable {ι Waker : Type*}

namespace FutexTable

/-- `FutexTable::new`. -/
def new : FutexTable ι Waker := ⟨fun _ => WaitQueue.new⟩

/-- The queue of bucket `b` is replaced by `q`. -/
def setBucket (t : FutexTable ι Waker) (b : Bucket) (q : WaitQueue ι Waker) :
    FutexTable ι Waker :=
  ⟨Function.update t.buckets b q⟩

variable [DecidableEq ι]

/-- The loop of `wake` with `count` rounds left: how many more it counts, the
    wakers it invokes, and the queue. -/
def wakeLoop : Nat → WaitQueue ι Waker → Nat × List Waker × WaitQueue ι Waker
  | 0, q => (0, [], q)
  | count + 1, q =>
      match q.wakeOne with
      | (false, wakers, q) => (0, wakers, q)
      | (true, wakers, q) =>
          let (woken, rest, q) := wakeLoop count q
          (woken + 1, wakers ++ rest, q)

/-- `FutexTable::wake`. -/
def wake (virtToPhys : Usize → Usize) (t : FutexTable ι Waker) (addr : Usize) (count : Nat) :
    Nat × List Waker × FutexTable ι Waker :=
  let b := bucketFor virtToPhys addr
  let (woken, wakers, q) := wakeLoop count (t.buckets b)
  (woken, wakers, t.setBucket b q)

end FutexTable

-- ============================================================================
-- Futures
-- ============================================================================

/-- `FutexWaitFuture`; its `wait_node` is the node at its address in the queue of
    its bucket. -/
structure FutexWaitFuture where
  addr : Usize
  expected : BitVec 32
  registered : Bool
  status : FutureStatus
  deriving DecidableEq, Repr

/-- The table, and the futures that `wait` has made. -/
structure System (ι Waker : Type*) where
  table : FutexTable ι Waker
  futures : ι → Option FutexWaitFuture

namespace System

variable [DecidableEq ι]

/-- The future at `i` is replaced by `f`. -/
def setFuture (s : System ι Waker) (i : ι) (f : FutexWaitFuture) : System ι Waker :=
  { s with futures := Function.update s.futures i (some f) }

/-- `FutexTable::wait`: a future at a new address. -/
def wait (s : System ι Waker) (i : ι) (addr : Usize) (expected : BitVec 32) :
    Option (System ι Waker) :=
  match s.futures i with
  | none =>
      some (s.setFuture i
        { addr := addr, expected := expected, registered := false, status := .fresh })
  | some _ => none

/-- `poll`: `none` is `Pending`.  The word at the address is not read. -/
def poll (virtToPhys : Usize → Usize) (fuel : Nat) (s : System ι Waker) (i : ι)
    (f : FutexWaitFuture) (waker : Waker) : Option (Option FutexResult × System ι Waker) :=
  let b := bucketFor virtToPhys f.addr
  let q := s.table.buckets b
  if f.registered = false then
    let q := (q.setWaker i waker).setPriority i 0
    match q.enqueue fuel i with
    | some q =>
        some (none, { s with table := s.table.setBucket b q }.setFuture i
          { f with registered := true, status := .pending })
    | none => none
  else if (q.nodes i).linked = false then
    some (some .woken, s.setFuture i { f with registered := false, status := .ready })
  else some (none, s)

/-- `FutexWaitFuture::drop`. -/
def drop (virtToPhys : Usize → Usize) (s : System ι Waker) (i : ι) (f : FutexWaitFuture) :
    System ι Waker :=
  let s' :=
    if f.registered then
      let b := bucketFor virtToPhys f.addr
      { s with table := s.table.setBucket b ((s.table.buckets b).remove i) }
    else s
  s'.setFuture i { f with status := .dropped }

end System

-- ============================================================================
-- Runs
-- ============================================================================

/-- A call on the table, or on a future. -/
inductive Action (ι Waker : Type*) where
  | wait (i : ι) (addr : Usize) (expected : BitVec 32)
  | poll (i : ι) (waker : Waker)
  | drop (i : ι)
  | wake (addr : Usize) (count : Nat)

/-- The future may be polled: it has not returned `Ready` and is not dropped. -/
def FutexWaitFuture.alive (f : FutexWaitFuture) : Bool :=
  f.status = .fresh ∨ f.status = .pending

variable [DecidableEq ι]

/-- One call. -/
def step (virtToPhys : Usize → Usize) (fuel : Nat) (s : System ι Waker) :
    Action ι Waker → Option (System ι Waker)
  | .wait i addr expected => s.wait i addr expected
  | .poll i waker =>
      match s.futures i with
      | some f => if f.alive then (s.poll virtToPhys fuel i f waker).map Prod.snd else none
      | none => none
  | .drop i =>
      match s.futures i with
      | some f => if f.status ≠ .dropped then some (s.drop virtToPhys i f) else none
      | none => none
  | .wake addr count => some { s with table := (s.table.wake virtToPhys addr count).2.2 }

/-- The runs of an empty table.  `fuel` bounds the insertion loop of `enqueue`. -/
def futex (virtToPhys : Usize → Usize) (fuel : Nat) (ι Waker : Type*) [DecidableEq ι] :
    Machine (System ι Waker) (Action ι Waker) where
  init := { table := .new, futures := fun _ => none }
  step := step virtToPhys fuel

end Futex
end Zydon
