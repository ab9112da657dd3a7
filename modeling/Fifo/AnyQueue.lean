/-
  QUEUES OF ANY KIND, behind one type.

  The interface `Queue` is all that a caller needs who does not know what kind it is; what only
  some kinds have stays within reach of the caller who does.
-/
import Fifo.Queue

namespace Fifo

/-- A queue of one of the four kinds. -/
inductive AnyQueue (p : Placement) where
  | fixed (w : IndexRule) (q : FixedQueue p w)
  | growable (w : IndexRule) (s : ShrinkPolicy) (q : GrowableQueue p w s)
  | linked (q : LinkedQueue p)
  | segmented (q : SegmentedQueue p)

namespace AnyQueue

variable {p : Placement}

instance : Queue (AnyQueue p) p where
  enqueue v := ⟨fun
    | .fixed w q => ((FixedQueue.enqueue v).run q).mapState (.fixed w)
    | .growable w s q => ((GrowableQueue.enqueue v).run q).mapState (.growable w s)
    | .linked q => ((LinkedQueue.enqueue v).run q).mapState .linked
    | .segmented q => ((SegmentedQueue.enqueue v).run q).mapState .segmented⟩
  dequeue := ⟨fun
    | .fixed w q => (FixedQueue.dequeue.run q).mapState (.fixed w)
    | .growable w s q => (GrowableQueue.dequeue.run q).mapState (.growable w s)
    | .linked q => (LinkedQueue.dequeue.run q).mapState .linked
    | .segmented q => (SegmentedQueue.dequeue.run q).mapState .segmented⟩
  size
    | .fixed _ q => q.size
    | .growable _ _ q => q.size
    | .linked q => q.size
    | .segmented q => q.size

/-! ## What a queue of any kind does is what a queue of its kind does -/

section

variable {w : IndexRule} {s : ShrinkPolicy} (v : Int32)

@[simp] theorem run_enqueue_fixed (q : FixedQueue p w) :
    (Queue.enqueue v).run (fixed w q) = ((FixedQueue.enqueue v).run q).mapState (fixed w) := rfl

@[simp] theorem run_enqueue_growable (q : GrowableQueue p w s) :
    (Queue.enqueue v).run (growable w s q) =
      ((GrowableQueue.enqueue v).run q).mapState (growable w s) := rfl

@[simp] theorem run_enqueue_linked (q : LinkedQueue p) :
    (Queue.enqueue v).run (linked q) = ((LinkedQueue.enqueue v).run q).mapState linked := rfl

@[simp] theorem run_enqueue_segmented (q : SegmentedQueue p) :
    (Queue.enqueue v).run (segmented q) =
      ((SegmentedQueue.enqueue v).run q).mapState segmented := rfl

@[simp] theorem run_dequeue_fixed (q : FixedQueue p w) :
    Queue.dequeue.run (fixed w q) = (FixedQueue.dequeue.run q).mapState (fixed w) := rfl

@[simp] theorem run_dequeue_growable (q : GrowableQueue p w s) :
    Queue.dequeue.run (growable w s q) =
      (GrowableQueue.dequeue.run q).mapState (growable w s) := rfl

@[simp] theorem run_dequeue_linked (q : LinkedQueue p) :
    Queue.dequeue.run (linked q) = (LinkedQueue.dequeue.run q).mapState linked := rfl

@[simp] theorem run_dequeue_segmented (q : SegmentedQueue p) :
    Queue.dequeue.run (segmented q) = (SegmentedQueue.dequeue.run q).mapState segmented := rfl

end

/-- Whether there is no element, by the test that the kind of queue has of its own. -/
def isEmpty : AnyQueue p → Bool
  | .fixed _ q => q.isEmpty
  | .growable _ _ q => q.isEmpty
  | .linked q => q.isEmpty
  | .segmented q => q.isEmpty

/-- Enqueues an element unless memory for it is refused.  Only a growable queue has a store whose
    memory can be refused. -/
def enqueue? (a : Allocator) (v : Int32) : Call (AnyQueue p) (Except Error Unit) where
  run
    | .growable w s q => ((GrowableQueue.enqueue? a v).run q).mapState (.growable w s)
    | q => (Except.ok <$> Queue.enqueue v).run q

/-- What is shown of a queue. -/
def shown : AnyQueue p → Shown
  | .fixed _ q => q.shown
  | .growable _ _ q => q.shown
  | .linked q => q.shown
  | .segmented q => q.shown

end AnyQueue
end Fifo
