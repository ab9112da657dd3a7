/-
  GROWABLE QUEUES: a ring that moves into another store when its own is full, or too large.

  1. **Up** — an element that finds the ring full makes it move into a store of twice the size,
     before it is written.  `enqueue` is stopped when there is no such store; `enqueue?` answers
     with an error then, and leaves the queue as it was.

  2. **Down** — after an element is taken the shrink policy is asked, and the ring moves into the
     store it names.  The move comes AFTER the element has left: a policy that asks for a store
     that the ring will not move into loses its caller that element, and changes nothing else.

  Each move is counted and then logged, with the size of the new store and of what it holds.  The
  counts are machine words: a move that can not be counted is made all the same, and the call is
  stopped there, before the record, and before the element that a move up was for is written.
-/
import Fifo.Circular.Ring
import Fifo.Circular.ShrinkPolicy

namespace Fifo

/-- A queue over a ring that moves between stores. -/
structure GrowableQueue (p : Placement) (w : IndexRule) (s : ShrinkPolicy) where
  /-- The ring. -/
  ring : Ring p
  /-- How often the ring moved because it was full. -/
  grows : Nat
  /-- How often the ring moved because the policy asked for it. -/
  shrinks : Nat
  deriving DecidableEq

namespace GrowableQueue

variable {p : Placement} {w : IndexRule} {s : ShrinkPolicy}

open Call (self change record)

/-- A queue with room for the requested number of elements. -/
def new (p : Placement) (w : IndexRule) (s : ShrinkPolicy) (requested : Nat) :
    Except Fault (GrowableQueue p w s) := do
  return ⟨← Ring.new p requested, 0, 0⟩

/-- A queue with room for the requested number of elements, or a refusal. -/
def new? (a : Allocator) (p : Placement) (w : IndexRule) (s : ShrinkPolicy) (requested : Nat) :
    Except Error (GrowableQueue p w s) := do
  return ⟨← Ring.new? a p requested, 0, 0⟩

/-- The number of slots of the present store. -/
def capacity (q : GrowableQueue p w s) : Nat := q.ring.capacity

/-- How many elements the queue holds. -/
def size (q : GrowableQueue p w s) : Nat := q.ring.size

/-- Whether the queue holds no element. -/
def isEmpty (q : GrowableQueue p w s) : Bool := q.size == 0

/-- A call on the ring, as a call on the queue. -/
@[inline] def onRing {α : Type} (c : Call (Ring p) α) : Call (GrowableQueue p w s) α where
  run
    | ⟨ring, grows, shrinks⟩ => (c.run ring).mapState fun ring => ⟨ring, grows, shrinks⟩

/-! ## Moving up -/

/-- The size of the store to grow into, if there is one. -/
def doubled (q : GrowableQueue p w s) : Except Error Nat :=
  match Word.double? q.capacity with
  | some capacity => .ok capacity
  | none => .error .capacityOverflow

/-- Counts a move up. -/
def countGrow (q : GrowableQueue p w s) : Except Fault (GrowableQueue p w s) := do
  let grows ← Word.succ q.grows
  return { q with grows }

/-- Counts and logs a move up into a store of `capacity` slots. -/
def grown (capacity : Nat) : Call (GrowableQueue p w s) Unit := do
  change countGrow
  record (.grew capacity (← self).size)

/-- Moves into a store of twice the size. -/
def grow : Call (GrowableQueue p w s) Unit := do
  match (← self).doubled with
  | .error _ => Call.stop .capacityOverflow
  | .ok capacity =>
    onRing (Ring.relocate w capacity)
    grown capacity

/-- Enqueues an element. -/
def enqueue (v : Int32) : Call (GrowableQueue p w s) Unit := do
  if (← self).ring.isFull then
    grow
  onRing (Ring.write w v)

/-- Moves into a store of twice the size, or leaves the queue as it is when there is no such size
    or no memory for it. -/
def grow? (a : Allocator) : Call (GrowableQueue p w s) (Except Error Unit) := do
  match (← self).doubled with
  | .error e => return .error e
  | .ok capacity =>
    match ← onRing (Ring.relocate? w a capacity) with
    | .error e => return .error e
    | .ok () =>
      grown capacity
      return .ok ()

/-- Enqueues an element, or leaves the queue as it is when it would have to grow and cannot. -/
def enqueue? (a : Allocator) (v : Int32) : Call (GrowableQueue p w s) (Except Error Unit) := do
  if (← self).ring.isFull then
    match ← grow? a with
    | .error e => return .error e
    | .ok () =>
      onRing (Ring.write w v)
      return .ok ()
  else
    onRing (Ring.write w v)
    return .ok ()

/-! ## Moving down -/

/-- Counts a move that the policy asked for. -/
def countShrink (q : GrowableQueue p w s) : Except Fault (GrowableQueue p w s) := do
  let shrinks ← Word.succ q.shrinks
  return { q with shrinks }

/-- Moves into the store that the policy asked for, then counts and logs the move. -/
def shrink (capacity : Nat) : Call (GrowableQueue p w s) Unit := do
  onRing (Ring.relocate w capacity)
  change countShrink
  record (.shrank capacity (← self).size)

/-- Asks the policy, and does what it says. -/
def consult : Call (GrowableQueue p w s) Unit := do
  let q ← self
  match s.shrinkTo q.size q.capacity with
  | some capacity => shrink capacity
  | none => return ()

/-- Dequeues the oldest element.  The policy is not asked when there was none. -/
def dequeue : Call (GrowableQueue p w s) p.Out := do
  if (← self).size = 0 then
    onRing (Ring.read w)
  else
    let out ← onRing (Ring.read w)
    consult
    return out

/-! ## Operations -/

/-- An operation on a growable queue. -/
inductive Op where
  | enqueue (v : Int32)
  | tryEnqueue (a : Allocator) (v : Int32)
  | dequeue

/-- What an operation is answered with. -/
inductive Reply (p : Placement) where
  /-- The operation has no answer. -/
  | done
  /-- The element was enqueued. -/
  | accepted
  /-- The element was not enqueued. -/
  | refused (e : Error)
  /-- What was dequeued. -/
  | out (o : p.Out)
  deriving DecidableEq

/-- An operation. -/
def perform : Op → Call (GrowableQueue p w s) (Reply p)
  | .enqueue v => do
    enqueue v
    return .done
  | .tryEnqueue a v => do
    match ← enqueue? a v with
    | .ok () => return .accepted
    | .error e => return .refused e
  | .dequeue => do
    let out ← dequeue
    return .out out

/-- What is shown of a growable queue. -/
def shown (q : GrowableQueue p w s) : Shown :=
  .fields "GrowableQueue"
    [("ring", q.ring.shown w), ("shrink", .quoted s.name), ("grow_count", .number q.grows),
      ("shrink_count", .number q.shrinks)]

end GrowableQueue
end Fifo
