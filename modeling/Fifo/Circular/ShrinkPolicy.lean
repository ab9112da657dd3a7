/-
  SHRINK POLICIES: when a growable queue moves down into a smaller store.

  A policy is asked after every element taken, with the number of elements left and the capacity
  of the store, and answers with the capacity to move to, or not at all.  It is a name and an
  arbitrary function: the queue checks what it asks for (`Ring.relocate`), not the policy.
-/

namespace Fifo

/-- When to move into another store, and into which. -/
structure ShrinkPolicy where
  /-- The name the policy is reported under. -/
  name : String
  /-- The capacity to move to, with `size` elements left in a store of `capacity` slots. -/
  shrinkTo : (size capacity : Nat) → Option Nat

namespace ShrinkPolicy

/-- Stays in the store. -/
def never : ShrinkPolicy where
  name := "never-shrink"
  shrinkTo _ _ := none

/-- With this many elements or fewer the quarter policy stays in the store. -/
def floor : Nat := 16

/-- Halves the store when just a quarter of it is used. -/
def quarter : ShrinkPolicy where
  name := "quarter-shrink"
  shrinkTo size capacity :=
    if size > floor ∧ size = capacity / 4 then some (capacity / 2) else none

/-- A row of a table policy: at `size` elements in `capacity` slots, move to `target` slots. -/
structure Row where
  size : Nat
  capacity : Nat
  target : Nat
  deriving DecidableEq, Repr

/-- Looks the answer up in a table, in which the first row that fits counts. -/
def table (rows : List Row) : ShrinkPolicy where
  name := "table"
  shrinkTo size capacity :=
    (rows.find? fun row => row.size == size && row.capacity == capacity).map (·.target)

/-- The policies that come with the library, and what is shown of each. -/
def standard : List (ShrinkPolicy × String) := [(never, "NeverShrink"), (quarter, "QuarterShrink")]

/-- A quarter of 64 slots is not above the floor, and 33 elements are more than a quarter of 128. -/
example :
    [(16, 64), (32, 128), (33, 128)].map (fun (size, capacity) => quarter.shrinkTo size capacity) =
      [none, some 64, none] := by decide

end ShrinkPolicy
end Fifo
