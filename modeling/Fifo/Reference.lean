/-
  THE REFERENCE QUEUE: a list.

  An element goes to the end and leaves from the front; nothing can be full, overwritten, moved or
  stopped.  What leaves is shown the way the placement shows an element that went through a slot.
-/
import Fifo.Queue

namespace Fifo

/-- The elements of a queue, oldest first. -/
structure Reference (p : Placement) where
  items : List Int32
  deriving DecidableEq

namespace Reference

variable {p : Placement}

/-- The queue without elements. -/
def empty (p : Placement) : Reference p := ⟨[]⟩

instance : Queue (Reference p) p where
  enqueue v := Call.update fun q => ⟨q.items ++ [v]⟩
  dequeue := do
    match (← Call.self).items with
    | [] => return p.empty
    | v :: rest =>
      Call.update fun _ => ⟨rest⟩
      return p.unpack (p.pack v)
  size q := q.items.length

end Reference
end Fifo
