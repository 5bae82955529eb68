import Zydon.Lib.Machine
import Zydon.Lib.Interleaving
import Zydon.Lib.PointerList
import Zydon.Lib.Ring
import Zydon.Lib.Tokens
import Zydon.Primitives.Spinlock.Basic
import Zydon.Primitives.Spinlock.Exclusion
import Zydon.Primitives.Spinlock.Progress
import Zydon.Primitives.WaitQueue.Basic
import Zydon.Primitives.WaitQueue.Rep
import Zydon.Primitives.AsyncMutex.Basic
import Zydon.Primitives.AsyncMutex.Exclusion
import Zydon.Object.Rights
import Zydon.Object.HandleTable.Basic
import Zydon.Object.HandleTable.Invariant
import Zydon.Object.HandleTable.Transfer
import Zydon.Object.HandleTable.Family
import Zydon.Object.HandleTable.Integrity
import Zydon.Primitives.AsyncMutex.Stranding
import Zydon.Task.Stealer.Basic
import Zydon.Task.Stealer.Batch
import Zydon.Primitives.Channel.Basic
import Zydon.Primitives.Channel.Phases
import Zydon.Primitives.Channel.Slots
import Zydon.Primitives.Channel.Delivery
import Zydon.Primitives.AsyncMutex.Progress
import Zydon.Primitives.Channel.Progress
import Zydon.Task.Stealer.Single
import Zydon.Lib.PriorityList
import Zydon.Primitives.WaitQueue.Priority
import Zydon.Primitives.WaitQueue.Runs
import Zydon.Ipc.SpscRing.Basic
import Zydon.Ipc.SpscRing.Fifo
import Zydon.Task.RunQueue.Basic
import Zydon.Task.RunQueue.Levels
import Zydon.Task.RunQueue.Occupancy
import Zydon.Task.RunQueue.Dequeue
import Zydon.Task.Executor.Basic
import Zydon.Task.Executor.Exclusive
import Zydon.Task.Executor.Ready
import Zydon.Lib.BoundedFifo
import Zydon.Lib.WaitLine
import Zydon.Primitives.Channel.Alone
import Zydon.Primitives.Channel.Lines
import Zydon.Primitives.Channel.Fifo
import Zydon.Primitives.Channel.Stranding
import Zydon.Lib.Parking
import Zydon.Primitives.Channel.Waking
import Zydon.Primitives.Channel.WakeUps
import Zydon.Object.HandleTable.Confinement
import Zydon.Task.Stealer.Sequential
import Zydon.Lib.RefCount
import Zydon.Object.HandleTable.References
import Zydon.Object.HandleTable.RefCount
import Zydon.Primitives.Oneshot.Basic
import Zydon.Primitives.Oneshot.Delivery
import Zydon.Primitives.Oneshot.Waking
import Zydon.Primitives.Futex.Basic
import Zydon.Primitives.Futex.Sleep
import Zydon.Primitives.Futex.Targets
import Zydon.Primitives.Broadcast.Basic
import Zydon.Primitives.Broadcast.Obtained
import Zydon.Primitives.Broadcast.Allocated
import Zydon.Primitives.Broadcast.Order
import Zydon.Primitives.Broadcast.Calls
import Zydon.Primitives.Broadcast.Lifetime
import Zydon.Primitives.Broadcast.Closing
import Zydon.Ipc.Message.Basic
import Zydon.Ipc.Message.RoundTrip
import Zydon.Lib.PriorityFifo
import Zydon.Task.RunQueue.Sequential
import Zydon.Task.Executor.Order
import Zydon.Lib.LockOrder
import Zydon.Object.HandleTable.Locking
import Zydon.Primitives.WaitQueue.Length
import Zydon.Lib.History
import Zydon.Task.Executor.Lifecycle
import Zydon.Task.Executor.Affinity
import Zydon.Task.Executor.Loop
import Zydon.Task.Executor.Panic
import Zydon.Task.Executor.Victims
import Zydon.Task.Executor.Priority
import Zydon.Ipc.SpscRing.Length
import Zydon.Object.HandleTable.Answers
import Zydon.Primitives.Spinlock.Sequential
import Zydon.Primitives.WaitQueue.WakeEach
import Zydon.Primitives.Oneshot.Answer
import Zydon.Task.Executor.Stealing
import Zydon.Primitives.AsyncMutex.LastWaker
import Zydon.Primitives.Futex.LastWaker
import Zydon.Lib.Checked
import Zydon.Lib.Saturating
import Zydon.Lib.WordBits
import Zydon.Variables.Time
import Zydon.Variables.Bits.Fields
import Zydon.Variables.Bits.Bitmap
import Zydon.Variables.IdleStates
import Zydon.Primitives.WaitQueue.InlineVec
import Zydon.Lib.SharedBox
import Zydon.Primitives.Oneshot.Lifetime
import Zydon.Lib.Raising
import Zydon.Task.Boosting
import Zydon.Primitives.WaitQueue.Anchored
import Zydon.Primitives.AsyncMutex.Anchored
import Zydon.Primitives.AsyncMutex.Order
import Zydon.Primitives.Channel.Anchored
import Zydon.Task.RunQueue.Fifo
import Zydon.Primitives.Futex.Account
import Zydon.Ipc.SpscRing.Lifetime
import Zydon.Task.Executor.Entries
import Zydon.Task.Stealer.Cells
import Zydon.Task.Stealer.Loads
import Zydon.Task.Executor.Quantum
import Zydon.Primitives.Spinlock.Order
import Zydon.Lib.Sections
import Zydon.Object.HandleTable.Serial
import Zydon.Primitives.Spinlock.Data
import Zydon.Ipc.Parcels
