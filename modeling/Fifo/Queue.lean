/-
  QUEUES: what all of them can do, and runs of it.

  `Queue` is the interface: enqueue, dequeue, and the number of elements.  Everything that is
  written against it works on each of the four kinds of queue, and on the plain list that says
  what "first in, first out" means (`Reference`).  A run is a list of operations; its `trace`
  shows after each of them the queue, what was logged, and the answer.
-/
import Fifo.Call
import Fifo.Chained.LinkedQueue
import Fifo.Chained.SegmentedQueue
import Fifo.Circular.FixedQueue
import Fifo.Circular.GrowableQueue

namespace Fifo

/-- Values that elements can be put into, and taken from. -/
class Queue (σ : Type) (p : outParam Placement) where
  /-- Puts an element in. -/
  enqueue : Int32 → Call σ Unit
  /-- Takes an element out, or answers that there is none. -/
  dequeue : Call σ p.Out
  /-- How many elements there are. -/
  size : σ → Nat

instance {p : Placement} {w : IndexRule} : Queue (FixedQueue p w) p where
  enqueue := FixedQueue.enqueue
  dequeue := FixedQueue.dequeue
  size := FixedQueue.size

instance {p : Placement} {w : IndexRule} {s : ShrinkPolicy} : Queue (GrowableQueue p w s) p where
  enqueue := GrowableQueue.enqueue
  dequeue := GrowableQueue.dequeue
  size := GrowableQueue.size

instance {p : Placement} : Queue (LinkedQueue p) p where
  enqueue := LinkedQueue.enqueue
  dequeue := LinkedQueue.dequeue
  size := LinkedQueue.size

instance {p : Placement} : Queue (SegmentedQueue p) p where
  enqueue := SegmentedQueue.enqueue
  dequeue := SegmentedQueue.dequeue
  size := SegmentedQueue.size

namespace Queue

/-- An operation on a queue. -/
inductive Op where
  | enqueue (v : Int32)
  | dequeue
  deriving DecidableEq, Repr

variable {σ : Type} {p : Placement} [Queue σ p]

/-- Whether there is no element, by their number. -/
def isEmpty (q : σ) : Bool := size q == 0

/-- An operation, whose answer is what was dequeued. -/
def perform : Op → Call σ (Option p.Out)
  | .enqueue v => do
    enqueue v
    return none
  | .dequeue => do
    let out ← dequeue
    return some out

/-- The outcomes of a list of operations. -/
def trace (ops : List Op) (q : σ) : List (Outcome σ (Option p.Out)) := Call.trace perform ops q

/-- The queue after a list of operations. -/
def after (ops : List Op) (q : σ) : σ := Call.final perform ops q

/-- What a caller sees of an outcome: what was dequeued, or the fault, and the size and the
    emptiness of the queue after it. -/
def seen (o : Outcome σ (Option p.Out)) : Except Fault (Option p.Out) × Nat × Bool :=
  (o.result, size o.state, isEmpty o.state)

end Queue
end Fifo
