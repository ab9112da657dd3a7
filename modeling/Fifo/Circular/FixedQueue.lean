/-
  FIXED QUEUES: a ring, and nothing that looks whether it is full.

  While no more elements are held than there are slots, a fixed queue hands them out in the order
  in which they came.  An element enqueued beyond that OVERWRITES the slot that is next in turn,
  and is still counted: the size may grow past the capacity, and what a later dequeue finds is
  whatever the slot at the head holds by then.  A queue that was drained to size zero is in order
  again.
-/
import Fifo.Circular.Ring

namespace Fifo

/-- A queue over one ring, whose slots are stepped by the rule `w`. -/
structure FixedQueue (p : Placement) (w : IndexRule) where
  /-- The ring. -/
  ring : Ring p
  deriving DecidableEq

namespace FixedQueue

variable {p : Placement} {w : IndexRule}

/-- A queue with room for the requested number of elements. -/
def new (p : Placement) (w : IndexRule) (requested : Nat) : Except Fault (FixedQueue p w) := do
  return ⟨← Ring.new p requested⟩

/-- A queue with room for the requested number of elements, or a refusal. -/
def new? (a : Allocator) (p : Placement) (w : IndexRule) (requested : Nat) :
    Except Error (FixedQueue p w) := do
  return ⟨← Ring.new? a p requested⟩

/-- The number of slots. -/
def capacity (q : FixedQueue p w) : Nat := q.ring.capacity

/-- How many elements were enqueued and not dequeued: more than the capacity, after an overflow. -/
def size (q : FixedQueue p w) : Nat := q.ring.size

/-- Whether every element enqueued was dequeued. -/
def isEmpty (q : FixedQueue p w) : Bool := q.size == 0

/-- A call on the ring, as a call on the queue. -/
@[inline] def onRing {α : Type} (c : Call (Ring p) α) : Call (FixedQueue p w) α where
  run
    | ⟨ring⟩ => (c.run ring).mapState fun ring => ⟨ring⟩

/-- Enqueues an element, over another one if the queue is full. -/
def enqueue (v : Int32) : Call (FixedQueue p w) Unit := onRing (Ring.write w v)

/-- Dequeues what the slot at the head holds. -/
def dequeue : Call (FixedQueue p w) p.Out := onRing (Ring.read w)

/-- What is shown of a fixed queue. -/
def shown (q : FixedQueue p w) : Shown :=
  .fields "FixedCapacityQueue" [("ring", q.ring.shown w)]

end FixedQueue
end Fifo
