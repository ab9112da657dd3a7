/-
  CHAINS: nodes linked from the oldest to the newest, with a link to either end.

  1. **Program** — `append` puts a node behind the last one, through the link to the tail alone;
     `dropFront` gives the first node back to the pool.  The tail is CUT when the last node goes,
     and only then.  Nothing but the two ends is ever touched, so every operation is O(1).

  2. **Invariant** — `Sound`: following the links from the head meets distinct nodes, the last of
     which is the one that the tail leads to.

  3. **View** — `toList`: the values met on the way.
-/
import Fifo.Chained.Pool

namespace Fifo

/-- A value and the place of the node after it. -/
structure Node (α : Type) where
  value : α
  next : Option Nat
  deriving DecidableEq

/-- Linked nodes in a pool. -/
structure Chain (α : Type) where
  /-- The nodes. -/
  pool : Pool (Node α)
  /-- The place of the first node. -/
  head : Option Nat
  /-- The place of the last node. -/
  tail : Option Nat
  deriving DecidableEq

namespace Chain

variable {α : Type}

/-- The chain without nodes. -/
def empty : Chain α := ⟨Pool.empty, none, none⟩

/-- Whether there is no first node. -/
def isEmpty (c : Chain α) : Bool := c.head.isNone

/-- The node that a link leads to. -/
def node? (c : Chain α) (link : Option Nat) : Option (Node α) := link.bind c.pool.get?

/-- The first value. -/
def front? (c : Chain α) : Option α := (c.node? c.head).map (·.value)

/-- The last value. -/
def back? (c : Chain α) : Option α := (c.node? c.tail).map (·.value)

/-- Whether another node follows the first. -/
def hasSecond (c : Chain α) : Bool := ((c.node? c.head).bind (·.next)).isSome

/-- Puts a value behind the last one. -/
def append (v : α) : Chain α → Chain α
  | ⟨pool, head, tail⟩ =>
    let (place, pool) := pool.insert ⟨v, none⟩
    match tail with
    | some last =>
      ⟨pool.modify last fun node => { node with next := some place }, head, some place⟩
    | none => ⟨pool, some place, some place⟩

/-- Gives the first node back. -/
def dropFront : Chain α → Chain α
  | ⟨pool, none, tail⟩ => ⟨pool, none, tail⟩
  | ⟨pool, some first, tail⟩ =>
    let next := (pool.get? first).bind (·.next)
    ⟨pool.erase first, next, if next.isNone then none else tail⟩

/-- Changes the value of the node that a link leads to. -/
def modifyAt (link : Option Nat) (f : α → α) (c : Chain α) : Chain α :=
  match link with
  | none => c
  | some place =>
    { c with pool := c.pool.modify place fun node => { node with value := f node.value } }

/-- Changes the first value. -/
def modifyFront (f : α → α) (c : Chain α) : Chain α := c.modifyAt c.head f

/-- Changes the last value. -/
def modifyBack (f : α → α) (c : Chain α) : Chain α := c.modifyAt c.tail f

/-! ## Following the links -/

/-- The places met from a link on, with at most `fuel` steps. -/
def follow (pool : Pool (Node α)) : (fuel : Nat) → Option Nat → List Nat
  | 0, _ => []
  | _ + 1, none => []
  | fuel + 1, some place =>
    match pool.get? place with
    | none => []
    | some node => place :: follow pool fuel node.next

/-- The places of the nodes, first to last.  No chain has more nodes than its pool has cells. -/
def places (c : Chain α) : List Nat := follow c.pool c.pool.cells.size c.head

/-- The values, first to last. -/
def toList (c : Chain α) : List α :=
  c.places.filterMap fun place => (c.pool.get? place).map (·.value)

/-- Following the links from `link` meets exactly the nodes at `places`, in that order, and ends
    at one without a successor. -/
inductive Linked (pool : Pool (Node α)) : (link : Option Nat) → (places : List Nat) → Prop where
  | nil : Linked pool none []
  | cons {place : Nat} {node : Node α} {rest : List Nat} (here : pool.get? place = some node)
      (after : Linked pool node.next rest) : Linked pool (some place) (place :: rest)

/-- What holds of every chain built by appending and dropping. -/
structure Sound (c : Chain α) : Prop where
  /-- The pool lists its free places. -/
  pool : c.pool.Sound
  /-- The links from the head meet distinct nodes, and the tail leads to the last of them. -/
  linked : ∃ places, Linked c.pool c.head places ∧ places.Nodup ∧ c.tail = places.getLast?

theorem sound_empty : Sound (empty : Chain α) :=
  { pool := Pool.sound_empty
    linked := ⟨[], .nil, List.nodup_nil, rfl⟩ }

/-- Enough fuel follows the links to their end. -/
theorem follow_of_linked {pool : Pool (Node α)} {link : Option Nat} {places : List Nat}
    (h : Linked pool link places) :
    ∀ fuel, places.length ≤ fuel → follow pool fuel link = places := by
  induction h with
  | nil =>
    intro fuel _
    cases fuel <;> rfl
  | cons here _ ih =>
    intro fuel hfuel
    cases fuel with
    | zero => exact absurd hfuel (Nat.not_succ_le_zero _)
    | succ fuel =>
      show (match pool.get? _ with
        | none => []
        | some node => _ :: follow pool fuel node.next) = _
      rw [here]
      exact congrArg _ (ih fuel (Nat.le_of_succ_le_succ hfuel))

/-- A place that was given back is the next to be handed out, with new links. -/
example :
    let c := (((empty : Chain Nat).append 1).append 2).dropFront.append 3
    c.places = [1, 0] ∧ c.toList = [2, 3] ∧ c.tail = some 0 := by decide

end Chain
end Fifo
