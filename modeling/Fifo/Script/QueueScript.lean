/-
  SCRIPTS ON ONE QUEUE: single calls, bulk work, and looks at the queue.

  A step is ONE call, bulk steps too: a fault anywhere in it is the answer of the whole step, and
  what the step did and logged before the fault remains.  The steps after it go on with the queue
  as it was left.
-/
import Fifo.AnyQueue
import Fifo.Script.Blueprint

namespace Fifo

/-- A step with a queue. -/
inductive QueueStep where
  | enqueue (v : Int32)
  /-- Enqueues elements in turn. -/
  | enqueueAll (vs : List Int32)
  /-- Enqueues `count` elements, from `first` on in strides, around the ends of their range. -/
  | fill (first stride : Int32) (count : Nat)
  /-- Enqueues an element unless memory for it is refused, by the machine or by a limit. -/
  | tryEnqueue (v : Int32) (limit : Option Nat)
  | dequeue
  /-- Dequeues so many times, whether or not there is anything. -/
  | dequeueMany (count : Nat)
  /-- Dequeues until an answer reads as "nothing there". -/
  | drainMarked
  /-- Dequeues until the queue says that it is empty. -/
  | drainCounted
  /-- Shows the queue on one line. -/
  | line
  /-- Shows the queue with a line for each field. -/
  | tall
  deriving DecidableEq, Repr

/-- Through what a script reaches the queue. -/
inductive Access where
  /-- Through the kind of queue that it is. -/
  | own
  /-- Through what all queues can do. -/
  | interface
  deriving DecidableEq, Repr

/-- What a step is answered with. -/
inductive Answer (p : Placement) where
  /-- The step has no answer. -/
  | done
  /-- What was dequeued. -/
  | out (o : p.Out)
  /-- What was dequeued, in order. -/
  | outs (os : List p.Out)
  /-- The element was enqueued. -/
  | accepted
  /-- The element was not enqueued. -/
  | refused (e : Error)
  /-- The text of the queue, if it was shown. -/
  | shown (text : Option String)

/-- Whether a queue says that it is empty. -/
def Access.isEmpty {p : Placement} : Access → AnyQueue p → Bool
  | .own, q => q.isEmpty
  | .interface, q => Queue.isEmpty q

/-- What is shown of a queue; through the interface, nothing is. -/
def Access.shown? {p : Placement} : Access → AnyQueue p → Option Shown
  | .own, q => some q.shown
  | .interface, _ => none

namespace QueueStep

variable {p : Placement}

open Call (self each iterate collect)

/-- Dequeues, and has no answer if that reads as "nothing there". -/
def dequeueMarked : Call (AnyQueue p) (Option p.Out) := do
  let out ← Queue.dequeue
  return if p.isEmptyMarker out then none else some out

/-- Dequeues, and has no answer if the queue says that it is empty. -/
def dequeueCounted (access : Access) : Call (AnyQueue p) (Option p.Out) := do
  if access.isEmpty (← self) then
    return none
  let out ← Queue.dequeue
  return some out

/-- A step.  A dequeue that finds something lowers the size, so that draining takes no more
    dequeues than there are elements, and one to see that there are no more. -/
def run (access : Access) : QueueStep → Call (AnyQueue p) (Answer p)
  | .enqueue v => do
    Queue.enqueue v
    return .done
  | .enqueueAll vs => do
    each Queue.enqueue vs
    return .done
  | .fill first stride count => do
    iterate Queue.enqueue (· + stride) count first
    return .done
  | .tryEnqueue v limit => do
    match ← AnyQueue.enqueue? (Allocator.ofLimit p limit) v with
    | .ok () => return .accepted
    | .error e => return .refused e
  | .dequeue => do
    let out ← Queue.dequeue
    return .out out
  | .dequeueMany count => do
    let outs ← collect (some <$> Queue.dequeue) count
    return .outs outs
  | .drainMarked => do
    let outs ← collect dequeueMarked (Queue.size (← self) + 1)
    return .outs outs
  | .drainCounted => do
    let outs ← collect (dequeueCounted access) (Queue.size (← self) + 1)
    return .outs outs
  | .line => do
    return .shown ((access.shown? (← self)).map Shown.line)
  | .tall => do
    return .shown ((access.shown? (← self)).map Shown.tall)

/-- The outcomes of a script. -/
def script (access : Access) (steps : List QueueStep) (q : AnyQueue p) :
    List (Outcome (AnyQueue p) (Answer p)) :=
  Call.trace (run access) steps q

/-- A fill goes around the ends of the range of elements. -/
example :
    let q : AnyQueue .inline := .linked (LinkedQueue.new .inline)
    ((script .own [.fill 2147483646 1 3, .dequeueMany 3] q).map (·.result)) =
      [.ok .done, .ok (.outs [(2147483646 : Int32), (2147483647 : Int32), (-2147483648 : Int32)])] :=
  rfl

end QueueStep
end Fifo
