/-
  THE DEMONSTRATION: the same values through every layout, what the layouts cost, and two queues
  at work.
-/
import Fifo.Script.Blueprint

namespace Fifo.Demo

open Call (each collect)

/-! ## The same values through every layout -/

/-- What comes out of the queue of a strategy in four dequeues, when three elements were put in. -/
def roundTrip (p : Placement) (t : Strategy) : Except Fault (List p.Out) := do
  let q ← t.build p Capacity.default
  let dequeue : Call (AnyQueue p) (Option p.Out) := some <$> Queue.dequeue
  ((each Queue.enqueue [10, 20, 30] >>= fun () => collect dequeue 4).run q).result

/-- The elements that came out of a queue, on one line. -/
def outsLine (p : Placement) (outs : List p.Out) : String := (Shown.list (outs.map p.shown)).line

/-- The line of a strategy. -/
def roundTripLine (t : Strategy) : Except Fault String := do
  let inline ← roundTrip .inline t
  let boxed ← roundTrip .boxed t
  let name := t.display { width := 10 }
  return "   " ++ name ++ " inline " ++ outsLine .inline inline ++
    "  boxed " ++ outsLine .boxed boxed

/-! ## What the layouts cost -/

/-- How many machine words the handle of a queue takes: a ring has the address and the size of its
    store, two indices and a number, a growable queue two numbers more, and a chain its two ends
    and the numbers that the queue keeps beside them. -/
def handleWords : Strategy → Nat
  | .fixed => 5
  | .growable => 7
  | .linked => 3
  | .segmented => 5

/-- The line of a handle. -/
def handleLine (t : Strategy) (p : Placement) : String :=
  let name : Text.Layout := { width := 22 }
  let bytes : Text.Layout := { width := 3, side := some (.right, ' ') }
  "   " ++ String.ofList (name.pad (t.label ++ p.label).toList) ++ " " ++
    String.ofList (bytes.pad (toString (8 * handleWords t)).toList)

/-- The line of the elements. -/
def footprintLine : String :=
  "   inline slot " ++ toString Placement.inline.slotBytes ++ ", boxed slot " ++
    toString Placement.boxed.slotBytes ++ " + 4 on the heap"

/-! ## Two queues at work -/

/-- The line of a queue that grows from one slot. -/
def growthLine : Except Fault String := do
  let q ← GrowableQueue.new .inline .compare .never 1
  let o := (each GrowableQueue.enqueue ((List.range 100).map Int32.ofNat)).run q
  o.result
  let capacity := o.state.capacity
  let grows := o.state.grows
  return s!"   100 elements from capacity 1: capacity {capacity}, {grows} doublings"

/-- The line of a queue that is built by name, and holds the element that inline queues show when
    they are empty. -/
def namedLine : Except Failure String := do
  let t ← Failure.ofError (Strategy.parse "segmented")
  let q ← Failure.ofFault (t.build .boxed 4)
  let o := (Queue.enqueue Placement.sentinel >>= fun () => Queue.dequeue).run q
  let out ← Failure.ofFault o.result
  let text := (Placement.boxed.shown out).line
  return "   " ++ t.name ++ " holds the inline sentinel as a payload: " ++ text

/-- All lines of the demonstration. -/
def lines : Except Failure (List String) := do
  let roundTrips ← Failure.ofFault (Strategy.all.mapM roundTripLine)
  let growth ← Failure.ofFault growthLine
  let named ← namedLine
  return ["seqqueue Usage Example", "======================"] ++
    ["", "1. Same values through every layout:"] ++ roundTrips ++
    ["", "2. Handle sizes (bytes):"] ++
    (Strategy.all.flatMap fun t => Placement.all.map (handleLine t)) ++
    ["", "3. Per-element footprint (bytes):", footprintLine] ++
    ["", "4. Growth:", growth] ++
    ["", "5. Strategy by name:", named]

end Fifo.Demo
