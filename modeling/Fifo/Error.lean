/-
  ERRORS, the answers of the requests that may be refused.

  An error is handed to the caller, and the request that ends in one changes nothing.
-/

namespace Fifo

/-- Why a request was refused. -/
inductive Error where
  /-- The capacity asked for has no power of two above it within a machine word. -/
  | capacityOverflow
  /-- The memory for a backing store was refused. -/
  | allocationFailed
  /-- A text names none of the strategies. -/
  | unknownStrategy
  deriving DecidableEq, Repr

namespace Error

/-- All errors, in the order in which they are listed to users. -/
def all : List Error := [.capacityOverflow, .allocationFailed, .unknownStrategy]

/-- The text an error is reported with. -/
def message : Error → String
  | .capacityOverflow => "Capacity overflow"
  | .allocationFailed => "Backing store allocation failed"
  | .unknownStrategy => "Unknown queue strategy"

end Error
end Fifo
