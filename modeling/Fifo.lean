import Fifo.Catalogue
import Fifo.Main
import Fifo.Circular.Ring.Steps
import Fifo.Reference
import Fifo.Script.QueueScript
import Fifo.Script.SlotScript
import Fifo.Proofs.Runs
import Fifo.Proofs.Refinement
import Fifo.Proofs.Ring.Window
import Fifo.Proofs.Ring.Relocation
import Fifo.Proofs.Ring.Moves
import Fifo.Proofs.Slots
import Fifo.Proofs.Ring.Occupancy
import Fifo.Proofs.Growable.Steps
import Fifo.Proofs.Growable.Outcomes
import Fifo.Proofs.Growable.Counts
import Fifo.Proofs.Growable.Order
import Fifo.Proofs.Growable.Refusal
import Fifo.Proofs.Fixed.Order
import Fifo.Proofs.Fixed.History
import Fifo.Proofs.Fixed.Overflow
import Fifo.Proofs.Chain.Cells
import Fifo.Proofs.Chain.Links
import Fifo.Proofs.Chain.View
import Fifo.Proofs.Chain.Walk
import Fifo.Proofs.Linked.Order
import Fifo.Proofs.Segmented.Segments
import Fifo.Proofs.Segmented.Steps
import Fifo.Proofs.Segmented.Order
import Fifo.Proofs.Segmented.Moves
import Fifo.Proofs.Segmented.Occupancy
import Fifo.Proofs.Interchange
import Fifo.Proofs.Indices
import Fifo.Proofs.Rules
import Fifo.Proofs.Twins.Likeness
import Fifo.Proofs.Twins.Rings
import Fifo.Proofs.Twins.Chains
import Fifo.Proofs.Holding
import Fifo.Proofs.Twins.Runs
import Fifo.Proofs.Growable.Breach
import Fifo.Proofs.Segmented.Count
import Fifo.Proofs.Growable.Gauge
import Fifo.Proofs.Growable.Quarter
import Fifo.Proofs.Growable.Amortized
import Fifo.Proofs.Growable.Peak
import Fifo.Proofs.Occupancy
import Fifo.Proofs.Logs
import Fifo.Proofs.Rounding
import Fifo.Proofs.Strategy.Reading
import Fifo.Proofs.Strategy.Writing
import Fifo.Proofs.Ring.Canonical
import Fifo.Proofs.Turns
