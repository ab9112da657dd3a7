/-
  RINGS: circular stores of slots, which fixed and growable queues are made of.

           0   1   2   3        four slots, of which three hold a, b and c:
         | c |   | a | b |      the head is 2, the size is 3, and so the tail is
               T   H            (2 + 3) mod 4 = 1

  1. **Program** — `write` puts an element at the tail and `read` takes one from the head, each
     then steps its index by an `IndexRule`.  `write` NEVER looks whether the ring is full:
     whether that is a hazard or cannot happen is the business of the queue around the ring.
     `relocate` moves the elements into another store, first in front.

  2. **Invariant** — `Sound`: the capacity is a power of two, head and tail are places of the
     store, and the tail is `size` steps after the head.  It survives a write into a full ring.
     `Fitting` adds that no more elements are counted than there are slots.

  3. **View** — `window`: the `size` slots from the head on, around the end of the store.
-/
import Fifo.Call
import Fifo.Circular.Capacity
import Fifo.Circular.IndexRule
import Fifo.Slot.Store

namespace Fifo

/-- A circular store and the window of it that is in use. -/
structure Ring (p : Placement) where
  /-- The slots. -/
  store : Array p.Slot
  /-- The place of the oldest element. -/
  head : Nat
  /-- The place for the next element. -/
  tail : Nat
  /-- How many elements were written and not read. -/
  size : Nat
  deriving DecidableEq

namespace Ring

variable {p : Placement}

open Call (self stop lift update change)

/-- The number of slots. -/
def capacity (r : Ring p) : Nat := r.store.size

/-- Whether as many elements are counted as there are slots. -/
def isFull (r : Ring p) : Bool := r.size == r.capacity

/-! ## New rings -/

/-- The ring over a vacant store. -/
def vacant (p : Placement) (capacity : Nat) : Ring p := ⟨Store.vacant p capacity, 0, 0, 0⟩

/-- A ring with room for the requested number of elements. -/
def new (p : Placement) (requested : Nat) : Except Fault (Ring p) := do
  let capacity ← Capacity.round requested
  Store.allocate p capacity
  return vacant p capacity

/-- A ring with room for the requested number of elements, or a refusal: of the request, if it is
    too large to be rounded, and only then of the memory. -/
def new? (a : Allocator) (p : Placement) (requested : Nat) : Except Error (Ring p) := do
  let capacity ← Capacity.round? requested
  Store.reserve p a capacity
  return vacant p capacity

/-! ## Writing and reading -/

/-- Changes the slot at a place, and answers with the slot as it was. -/
def exchange (place : Nat) (f : p.Slot → p.Slot) : Call (Ring p) p.Slot where
  run r :=
    if h : place < r.store.size then
      ⟨{ r with store := r.store.set place (f r.store[place]) }, [], .ok r.store[place]⟩
    else
      ⟨r, [], .error (.outOfBounds place r.store.size)⟩

/-- Steps the tail. -/
def advanceTail (w : IndexRule) (r : Ring p) : Except Fault (Ring p) := do
  let tail ← w.next r.tail r.capacity
  return { r with tail }

/-- Steps the head. -/
def advanceHead (w : IndexRule) (r : Ring p) : Except Fault (Ring p) := do
  let head ← w.next r.head r.capacity
  return { r with head }

/-- Counts one element more. -/
def countUp (r : Ring p) : Except Fault (Ring p) := do
  let size ← Word.succ r.size
  return { r with size }

/-- Counts one element less. -/
def countDown (r : Ring p) : Except Fault (Ring p) := do
  let size ← Word.pred r.size
  return { r with size }

/-- Puts an element at the tail, over whatever the slot there holds. -/
def write (w : IndexRule) (v : Int32) : Call (Ring p) Unit := do
  let _ ← exchange (← self).tail fun _ => p.pack v
  change (advanceTail w)
  change countUp

/-- Takes what the slot at the head holds, if any element is counted. -/
def read (w : IndexRule) : Call (Ring p) p.Out := do
  if (← self).size = 0 then
    return p.empty
  let slot ← exchange (← self).head p.taken
  change (advanceHead w)
  change countDown
  return p.unpack slot

/-! ## Moving into another store -/

/-- The loop of `carry`, with the slots moved already. -/
def carryFrom (w : IndexRule) :
    (count place : Nat) → (moved : Array p.Slot) → Ring p → Outcome (Ring p) (Array p.Slot)
  | 0, _, moved, r => ⟨r, [], .ok moved⟩
  | count + 1, place, moved, r =>
    match (exchange place fun _ => p.vacant).run r with
    | ⟨r, _, .error fault⟩ => ⟨r, [], .error fault⟩
    | ⟨r, _, .ok slot⟩ =>
      match w.next place r.capacity with
      | .error fault => ⟨r, [], .error fault⟩
      | .ok place => carryFrom w count place (moved.push slot) r

/-- Takes `count` slots out of the store, in the order of the index rule from `place` on, and
    leaves vacant ones behind. -/
def carry (w : IndexRule) (count place : Nat) : Call (Ring p) (Array p.Slot) :=
  ⟨carryFrom w count place #[]⟩

/-- Moves into a store of `capacity` slots whose memory is granted.  That capacity is checked
    FIRST to be a power of two, and then to be enough. -/
def moveInto (w : IndexRule) (capacity : Nat) : Call (Ring p) Unit := do
  let r ← self
  if Capacity.isPower capacity = false then
    stop .unroundedStore
  if capacity < r.size then
    stop .crampedStore
  let moved ← carry w r.size r.head
  update fun r =>
    { store := moved ++ Store.vacant p (capacity - moved.size)
      head := 0
      tail := r.size &&& (capacity - 1)
      size := r.size }

/-- Moves into a store of `capacity` slots. -/
def relocate (w : IndexRule) (capacity : Nat) : Call (Ring p) Unit := do
  lift (Store.allocate p capacity)
  moveInto w capacity

/-- Moves into a store of `capacity` slots, or leaves the ring as it is when the memory for that
    store is refused. -/
def relocate? (w : IndexRule) (a : Allocator) (capacity : Nat) :
    Call (Ring p) (Except Error Unit) := do
  match Store.reserve p a capacity with
  | .error e => return .error e
  | .ok () =>
    moveInto w capacity
    return .ok ()

/-! ## Invariants and the view -/

/-- The place `steps` steps after the head. -/
def place (r : Ring p) (steps : Nat) : Nat := (r.head + steps) % r.capacity

/-- What holds of every ring that began vacant, however far it was written beyond its capacity. -/
structure Sound (r : Ring p) : Prop where
  /-- The capacity is a power of two. -/
  power : Capacity.isPower r.capacity = true
  /-- The capacity is a word, so that every step is one. -/
  word : r.capacity < Word.limit
  /-- The head is a place of the store. -/
  head_lt : r.head < r.capacity
  /-- The tail is as many steps after the head as there are elements. -/
  tail_eq : r.tail = r.place r.size

/-- What holds of a ring that is never written when it is full. -/
structure Fitting (r : Ring p) : Prop extends Sound r where
  /-- Every element has a slot. -/
  size_le : r.size ≤ r.capacity

/-- The slots of the elements, oldest first. -/
def window (r : Ring p) : List p.Slot :=
  (List.range r.size).map fun i => r.store.getD (r.place i) p.vacant

/-- What is shown of a ring. -/
def shown (w : IndexRule) (r : Ring p) : Shown :=
  .fields "Ring"
    [("repr", .quoted p.name), ("wrap", .quoted w.name), ("capacity", .number r.capacity),
      ("head", .number r.head), ("tail", .number r.tail), ("size", .number r.size)]

/-- The ring of the picture above, with a fourth element. -/
example :
    let r : Ring .inline := ⟨#[(12 : Int32), (0 : Int32), (10 : Int32), (11 : Int32)], 2, 1, 3⟩
    let o := (write .mask 13).run r
    o.state.window = [(10 : Int32), (11 : Int32), (12 : Int32), (13 : Int32)] ∧ o.state.tail = 2 :=
  ⟨rfl, rfl⟩

/-- A vacant ring is sound, if its capacity was rounded. -/
theorem sound_vacant {capacity : Nat} (hp : Capacity.isPower capacity = true)
    (hw : capacity < Word.limit) : Sound (vacant p capacity) := by
  have hsize : (vacant p capacity).capacity = capacity := Store.size_vacant p capacity
  exact
    { power := by rw [hsize]; exact hp
      word := by rw [hsize]; exact hw
      head_lt := by rw [hsize]; exact Capacity.pos_of_isPower hp
      tail_eq := (Nat.zero_mod _).symm }

end Ring
end Fifo
