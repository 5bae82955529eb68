/-
  Zydon.Primitives.WaitQueue.Basic

  The intrusive wait queue of `primitives/wait_queue.rs`: a doubly linked list
  of the nodes embedded in futures, in order of priority, and a separate count
  of them.

  A node is named by its address.  The sections that run under the queue's
  spinlock (`enqueueSection`, `removeSection`, `wakeOneSection`) and the updates
  of `len` that follow them are separate functions, since other cores can run
  between the two.
-/

import Mathlib.Logic.Function.Basic

namespace Zydon

-- ============================================================================
-- Nodes and queues
-- ============================================================================

/-- `WaitNode`, at addresses `ι`. -/
structure WaitNode (ι Waker : Type*) where
  waker : Option Waker
  priority : Int
  next : Option ι
  prev : Option ι
  linked : Bool
  deriving DecidableEq

/-- `WaitNode::new`. -/
def WaitNode.new {ι Waker : Type*} : WaitNode ι Waker where
  waker := none
  priority := 0
  next := none
  prev := none
  linked := false

/-- `WaitQueue`, with the memory its nodes live in.  `len` is an `AtomicUsize`
    that dips below zero for a moment when a node is dequeued between its link
    and its count; only whether it is zero is ever used, and the nodes are at
    different addresses, so that an integer does for it. -/
structure WaitQueue (ι Waker : Type*) where
  nodes : ι → WaitNode ι Waker
  head : Option ι
  tail : Option ι
  len : Int

/-- What has become of a future that parks in a wait queue. -/
inductive FutureStatus where
  /-- Not polled yet. -/
  | fresh
  /-- Some task is in `poll`. -/
  | polling
  /-- The last poll returned `Pending`. -/
  | pending
  /-- A poll returned `Ready`. -/
  | ready
  | dropped
  deriving DecidableEq, Repr

namespace WaitQueue

variable {ι Waker : Type*}

/-- `WaitQueue::new`. -/
def new : WaitQueue ι Waker where
  nodes := fun _ => WaitNode.new
  head := none
  tail := none
  len := 0

/-- `WaitQueue::is_empty`. -/
def isEmpty (q : WaitQueue ι Waker) : Bool := q.len == 0

/-- The `fetch_add` on `len` after a section that has linked a node. -/
def lenAdd (q : WaitQueue ι Waker) : WaitQueue ι Waker := { q with len := q.len + 1 }

/-- The `fetch_sub` on `len` after a section that has unlinked a node. -/
def lenSub (q : WaitQueue ι Waker) : WaitQueue ι Waker := { q with len := q.len - 1 }

variable [DecidableEq ι]

/-- Write to the node at `i`. -/
def modify (q : WaitQueue ι Waker) (i : ι) (f : WaitNode ι Waker → WaitNode ι Waker) :
    WaitQueue ι Waker :=
  { q with nodes := Function.update q.nodes i (f (q.nodes i)) }

/-- `WaitNode::set_waker`. -/
def setWaker (q : WaitQueue ι Waker) (i : ι) (waker : Waker) : WaitQueue ι Waker :=
  q.modify i fun n => { n with waker := some waker }

/-- `WaitNode::set_priority`. -/
def setPriority (q : WaitQueue ι Waker) (i : ι) (priority : Int) : WaitQueue ι Waker :=
  q.modify i fun n => { n with priority := priority }

/-! ## `enqueue` -/

/-- The first part of `enqueue`: the node is linked behind the tail. -/
def link (q : WaitQueue ι Waker) (node : ι) : WaitQueue ι Waker :=
  let q₁ := q.modify node fun n => { n with next := none, prev := q.tail, linked := true }
  let q₂ := match q.tail with
    | none => { q₁ with head := some node }
    | some last => q₁.modify last fun c => { c with next := some node }
  { q₂ with tail := some node }

/-- The body of the insertion loop: `node`, just behind `cursor`, moves in
    front of it. -/
def swapBefore (q : WaitQueue ι Waker) (node cursor : ι) : WaitQueue ι Waker :=
  let c := q.nodes cursor
  let n := q.nodes node
  let q₁ := q.modify node fun n => { n with prev := c.prev, next := some cursor }
  let q₂ := q₁.modify cursor fun c => { c with next := n.next, prev := some node }
  let q₃ := match c.prev with
    | some before => q₂.modify before fun b => { b with next := some node }
    | none => { q₂ with head := some node }
  match n.next with
  | some after => q₃.modify after fun a => { a with prev := some cursor }
  | none => { q₃ with tail := some cursor }

/-- The insertion loop of `enqueue`, or `none` if it has not ended after `fuel`
    rounds. -/
def bubble : Nat → WaitQueue ι Waker → ι → Option ι → Option (WaitQueue ι Waker)
  | _, q, _, none => some q
  | fuel, q, node, some cursor =>
      if (q.nodes cursor).priority < (q.nodes node).priority then
        match fuel with
        | 0 => none
        | fuel + 1 =>
            let q' := q.swapBefore node cursor
            bubble fuel q' node (q'.nodes node).prev
      else some q

/-- `enqueue` up to the release of the spinlock. -/
def enqueueSection (fuel : Nat) (q : WaitQueue ι Waker) (node : ι) : Option (WaitQueue ι Waker) :=
  bubble fuel (q.link node) node ((q.link node).nodes node).prev

/-! ## `remove` and `wake_one` -/

/-- The unlinking of `remove`. -/
def unlink (q : WaitQueue ι Waker) (node : ι) : WaitQueue ι Waker :=
  let n := q.nodes node
  let q₁ := match n.prev with
    | some before => q.modify before fun b => { b with next := n.next }
    | none => { q with head := n.next }
  let q₂ := match n.next with
    | some after => q₁.modify after fun a => { a with prev := n.prev }
    | none => { q₁ with tail := n.prev }
  q₂.modify node fun n => { n with next := none, prev := none, linked := false }

/-- `remove` up to the release of the spinlock, and whether it has unlinked the
    node. -/
def removeSection (q : WaitQueue ι Waker) (node : ι) : Bool × WaitQueue ι Waker :=
  if (q.nodes node).linked then (true, q.unlink node) else (false, q)

/-- `wake_one` up to the release of the spinlock: the node it has dequeued, with
    the waker taken from it. -/
def wakeOneSection (q : WaitQueue ι Waker) : Option (ι × Option Waker) × WaitQueue ι Waker :=
  match q.head with
  | none => (none, q)
  | some node =>
      let n := q.nodes node
      let q₁ := { q with head := n.next }
      let q₂ := match n.next with
        | none => { q₁ with tail := none }
        | some after => q₁.modify after fun a => { a with prev := none }
      (some (node, n.waker),
        q₂.modify node fun n => { n with waker := none, next := none, prev := none, linked := false })

end WaitQueue
end Zydon
