/-
  SCRIPTS ON ONE SLOT: what a placement does with an element, step by step.

  A slot starts vacant.  Some steps put something into it and answer nothing; the others answer
  the way a queue would.
-/
import Fifo.Slot.Placement

namespace Fifo

/-- A step with a slot. -/
inductive SlotStep where
  /-- Makes the slot vacant. -/
  | vacate
  /-- Puts an element into the slot. -/
  | pack (v : Int32)
  /-- Takes the element out of the slot. -/
  | take
  /-- Gives the slot away, and puts a vacant one there. -/
  | unpack
  /-- Asks for the answer of a queue that holds nothing. -/
  | empty
  deriving DecidableEq, Repr

namespace SlotStep

/-- The answer of a step, if it has one, and the slot after it. -/
def run (p : Placement) (slot : p.Slot) : SlotStep → Option p.Out × p.Slot
  | .vacate => (none, p.vacant)
  | .pack v => (none, p.pack v)
  | .take => (some (p.take slot).1, (p.take slot).2)
  | .unpack => (some (p.unpack slot), p.vacant)
  | .empty => (some p.empty, slot)

/-- The answers of a list of steps. -/
def answers (p : Placement) : List SlotStep → p.Slot → List (Option p.Out)
  | [], _ => []
  | step :: rest, slot =>
    let (answer, slot) := run p slot step
    answer :: answers p rest slot

/-- The answers of a list of steps with a slot that starts vacant. -/
def script (p : Placement) (steps : List SlotStep) : List (Option p.Out) :=
  answers p steps p.vacant

/-- Taken twice, an element is still there inline, and gone boxed. -/
example : script .inline [.pack 7, .take, .take] = [none, some (7 : Int32), some (7 : Int32)] ∧
    script .boxed [.pack 7, .take, .take] = [none, some (some (7 : Int32)), some none] :=
  ⟨rfl, rfl⟩

end SlotStep
end Fifo
