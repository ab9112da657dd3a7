/-
  THE CATALOGUE: everything that a caller of the library can choose from.
-/
import Fifo.Circular.IndexRule
import Fifo.Circular.ShrinkPolicy
import Fifo.Slot.Placement
import Fifo.Strategy

namespace Fifo.Catalogue

/-- What is shown of the choices: placements, index rules, shrink policies, strategies. -/
def shown : Shown :=
  .tuple <|
    (Placement.all.map fun p => .atom p.label) ++
    (IndexRule.all.map fun w => .atom w.label) ++
    (ShrinkPolicy.standard.map fun (_, label) => .atom label) ++
    [.list (Strategy.all.map fun t => .atom t.label)]

end Fifo.Catalogue
