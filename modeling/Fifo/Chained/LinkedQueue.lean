/-
  LINKED QUEUES: a chain with one node for each element.

  Nothing is reserved, so nothing can run full: every element brings its node, and takes it along
  when it leaves.  The number of elements is kept beside the chain.  Two tests for emptiness
  therefore exist: whether the chain has a first node (`isEmpty`), and whether the number is zero
  (`Queue.isEmpty`).
-/
import Fifo.Call
import Fifo.Chained.Chain
import Fifo.Slot.Placement
import Fifo.Word

namespace Fifo

/-- A queue over a chain of slots. -/
structure LinkedQueue (p : Placement) where
  /-- A node for each element, oldest first. -/
  chain : Chain p.Slot
  /-- How many elements the queue holds.  Memory runs out of nodes before a word runs out of
      numbers, so that counting up is not checked. -/
  size : Nat
  deriving DecidableEq

namespace LinkedQueue

variable {p : Placement}

open Call (self update change)

/-- The queue that holds nothing. -/
def new (p : Placement) : LinkedQueue p := ⟨Chain.empty, 0⟩

/-- The queue that holds nothing; there is no store for which a capacity could be a hint. -/
def withCapacity (p : Placement) (_capacity : Nat) : LinkedQueue p := new p

/-- Whether there is no first node. -/
def isEmpty (q : LinkedQueue p) : Bool := q.chain.isEmpty

/-- Counts one element less. -/
def countDown (q : LinkedQueue p) : Except Fault (LinkedQueue p) := do
  let size ← Word.pred q.size
  return { q with size }

/-- Enqueues an element. -/
def enqueue (v : Int32) : Call (LinkedQueue p) Unit :=
  update fun ⟨chain, size⟩ => ⟨chain.append (p.pack v), size + 1⟩

/-- Dequeues the oldest element, and gives its node back. -/
def dequeue : Call (LinkedQueue p) p.Out := do
  match (← self).chain.front? with
  | none => return p.empty
  | some slot =>
    update fun ⟨chain, size⟩ => ⟨chain.dropFront, size⟩
    change countDown
    return p.unpack slot

/-- What is shown of a linked queue. -/
def shown (q : LinkedQueue p) : Shown :=
  .fields "LinkedQueue" [("repr", .quoted p.name), ("len", .number q.size)]

end LinkedQueue
end Fifo
