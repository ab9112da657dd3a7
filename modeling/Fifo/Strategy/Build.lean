/-
  BUILDING the queue that a strategy stands for.

  A capacity means something else to each strategy: it is rounded for the two that are made of a
  ring, a hint that is not taken for the linked one, and the size of a segment for the last.  All
  circular queues are stepped by comparison, and a growable one never shrinks.
-/
import Fifo.AnyQueue
import Fifo.Strategy

namespace Fifo.Strategy

/-- The queue of a strategy. -/
def build (p : Placement) (t : Strategy) (capacity : Nat) : Except Fault (AnyQueue p) :=
  match t with
  | .fixed => (FixedQueue.new p .compare capacity).map (.fixed .compare)
  | .growable => (GrowableQueue.new p .compare .never capacity).map (.growable .compare .never)
  | .linked => .ok (.linked (LinkedQueue.withCapacity p capacity))
  | .segmented => .ok (.segmented (SegmentedQueue.new p capacity))

end Fifo.Strategy
