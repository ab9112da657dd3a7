/-
  LOG RECORDS: what the queues report about their storage while they work.

  A record is data.  Its level, its target and its message are read off it only when it is
  written out (`Record.line`), so that a log can be replayed and compared without reading text.
-/

namespace Fifo

/-- One report of a queue. -/
inductive Record where
  /-- A growable queue moved up into a store of `capacity` slots, holding `size` elements. -/
  | grew (capacity size : Nat)
  /-- A growable queue moved down into a store of `capacity` slots, holding `size` elements. -/
  | shrank (capacity size : Nat)
  /-- A segmented queue allocated a segment of `capacity` slots. -/
  | segmentAllocated (capacity : Nat)
  /-- A segmented queue gave back the drained segment at its head. -/
  | segmentReleased
  deriving DecidableEq, Repr

namespace Record

/-- How much a record matters: moves between stores are for debugging, segments for tracing. -/
def level : Record → String
  | .grew .. | .shrank .. => "DEBUG"
  | .segmentAllocated _ | .segmentReleased => "TRACE"

/-- The part of the program a record comes from. -/
def target : Record → String
  | .grew .. | .shrank .. => "seqqueue::queue::growable"
  | .segmentAllocated _ | .segmentReleased => "seqqueue::queue::segmented"

/-- What a record says. -/
def message : Record → String
  | .grew capacity size => s!"growable queue grew to {capacity} slots holding {size} elements"
  | .shrank capacity size => s!"growable queue shrank to {capacity} slots holding {size} elements"
  | .segmentAllocated capacity => s!"allocated queue segment of {capacity} slots"
  | .segmentReleased => "released drained queue segment"

/-- A record as one line of a log. -/
def line (r : Record) : String := r.level ++ " " ++ r.target ++ ": " ++ r.message

end Record
end Fifo
