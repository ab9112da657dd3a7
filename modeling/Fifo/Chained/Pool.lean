/-
  POOLS: cells that are handed out by place, given back, and handed out again.

  Chains keep their nodes in a pool and link them by place.  A place that was given back is the
  first to be handed out again, so a link that was kept too long would lead to SOME node and not
  to nothing: it takes an invariant (`Chain.Sound`) to see that none is.
-/

namespace Fifo

/-- Cells by place; a place without a value is free. -/
structure Pool (α : Type) where
  /-- The cells of all places ever handed out. -/
  cells : Array (Option α)
  /-- The places given back and not handed out since, the latest first. -/
  free : List Nat
  deriving DecidableEq

namespace Pool

variable {α : Type}

/-- The pool that has handed out no place. -/
def empty : Pool α := ⟨#[], []⟩

/-- The value at a place, unless the place is free or was never handed out. -/
def get? (pool : Pool α) (place : Nat) : Option α := (pool.cells[place]?).join

/-- Hands out a place for a value: one given back if there is any, else a new one. -/
def insert (v : α) : Pool α → Nat × Pool α
  | ⟨cells, place :: free⟩ => (place, ⟨cells.setIfInBounds place (some v), free⟩)
  | ⟨cells, []⟩ => (cells.size, ⟨cells.push (some v), []⟩)

/-- Changes the value at a place, if there is one. -/
def modify (place : Nat) (f : α → α) (pool : Pool α) : Pool α :=
  { pool with cells := pool.cells.modify place (Option.map f) }

/-- Takes a place back, if it was handed out. -/
def erase (place : Nat) (pool : Pool α) : Pool α :=
  match pool.get? place with
  | none => pool
  | some _ => ⟨pool.cells.setIfInBounds place none, place :: pool.free⟩

/-- Every free place is listed once, and no value lies at one. -/
structure Sound (pool : Pool α) : Prop where
  nodup : pool.free.Nodup
  vacant : ∀ place ∈ pool.free, place < pool.cells.size ∧ pool.get? place = none

theorem sound_empty : Sound (empty : Pool α) :=
  { nodup := List.nodup_nil
    vacant := fun _ h => absurd h List.not_mem_nil }

end Pool
end Fifo
