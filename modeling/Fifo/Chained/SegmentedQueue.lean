/-
  SEGMENTED QUEUES: a chain whose nodes are small stores, written once from front to back.

        head                                            tail
      [ . . c d ]  ->  [ e f g h ]  ->  [ i j k l ]  ->  [ m . . . ]
            ^read                                          ^write

  1. **Enqueue** — an element goes behind the last one written in the segment at the tail.  If
     that segment is full (or there is none) another is allocated and linked FIRST; when its
     memory cannot be had the call is stopped there, and nothing has changed.

  2. **Dequeue** — the next slot of the segment at the head is read.  A segment that was drained
     is given back when its SUCCESSOR is wanted; the last segment has none, and is rewound as soon
     as it is drained, so that one segment serves a queue that never holds many elements.
-/
import Fifo.Call
import Fifo.Chained.Chain
import Fifo.Slot.Store
import Fifo.Word

namespace Fifo

/-- A store that is written once from front to back, and read behind. -/
structure Segment (p : Placement) where
  /-- The slots. -/
  slots : Array p.Slot
  /-- The place of the next slot to read. -/
  read : Nat
  /-- The place of the next slot to write. -/
  write : Nat
  deriving DecidableEq

namespace Segment

variable {p : Placement}

/-- A segment of vacant slots. -/
def vacant (p : Placement) (capacity : Nat) : Segment p := ⟨Store.vacant p capacity, 0, 0⟩

/-- How many slots were written and not read. -/
def size (s : Segment p) : Nat := s.write - s.read

/-- Whether every slot was written. -/
def isFull (s : Segment p) : Bool := s.write == s.slots.size

/-- Whether every slot written was read. -/
def isDrained (s : Segment p) : Bool := s.read == s.write

/-- Writes an element into the next slot. -/
def put (v : Int32) (s : Segment p) : Segment p :=
  { s with slots := s.slots.setIfInBounds s.write (p.pack v), write := s.write + 1 }

/-- Takes the element out of the next slot. -/
def skip (s : Segment p) : Segment p :=
  { s with slots := s.slots.modify s.read p.taken, read := s.read + 1 }

/-- Starts anew, with the slots as they are. -/
def rewind (s : Segment p) : Segment p := { s with read := 0, write := 0 }

/-- The slots of the elements in the segment, oldest first. -/
def window (s : Segment p) : List p.Slot := (s.slots.toList.take s.write).drop s.read

/-- How many elements there are in segments. -/
def held : List (Segment p) → Nat
  | [] => 0
  | s :: rest => s.size + held rest

end Segment

/-- A queue over a chain of segments. -/
structure SegmentedQueue (p : Placement) where
  /-- The segments, oldest first. -/
  chain : Chain (Segment p)
  /-- The number of slots of each segment. -/
  segmentCapacity : Nat
  /-- How many segments the chain has. -/
  segments : Nat
  /-- How many elements the queue holds.  Memory runs out of slots before a word runs out of
      numbers, so that counting up is not checked. -/
  size : Nat
  deriving DecidableEq

namespace SegmentedQueue

variable {p : Placement}

open Call (self stop lift update change record)

/-- A queue without segments, whose segments will have the capacity given, and at least one
    slot. -/
def new (p : Placement) (segmentCapacity : Nat) : SegmentedQueue p :=
  ⟨Chain.empty, max segmentCapacity 1, 0, 0⟩

/-- Whether the queue holds no element. -/
def isEmpty (q : SegmentedQueue p) : Bool := q.size == 0

/-- A change of the chain, as a change of the queue. -/
@[inline] def onChain (f : Chain (Segment p) → Chain (Segment p)) :
    SegmentedQueue p → SegmentedQueue p
  | ⟨chain, segmentCapacity, segments, size⟩ => ⟨f chain, segmentCapacity, segments, size⟩

/-- Counts one element less. -/
def countDown (q : SegmentedQueue p) : Except Fault (SegmentedQueue p) := do
  let size ← Word.pred q.size
  return { q with size }

/-- Counts one segment less. -/
def countSegmentDown (q : SegmentedQueue p) : Except Fault (SegmentedQueue p) := do
  let segments ← Word.pred q.segments
  return { q with segments }

/-! ## Enqueueing -/

/-- Whether there is no segment with a slot to write. -/
def needsSegment (q : SegmentedQueue p) : Bool :=
  match q.chain.back? with
  | some s => s.isFull
  | none => true

/-- Allocates a segment, and links it behind the last one. -/
def linkSegment : Call (SegmentedQueue p) Unit := do
  let capacity := (← self).segmentCapacity
  lift (Store.allocate p capacity)
  record (.segmentAllocated capacity)
  update (onChain (Chain.append (Segment.vacant p capacity)))
  update fun q => { q with segments := q.segments + 1 }

/-- The place of the next slot to write in the last segment, with the size of that segment. -/
def writePlace (q : SegmentedQueue p) : Nat × Nat :=
  match q.chain.back? with
  | some s => (s.write, s.slots.size)
  | none => (0, 0)

/-- Writes an element into the last segment. -/
def put (v : Int32) : Call (SegmentedQueue p) Unit := do
  let (place, slots) := (← self).writePlace
  if slots ≤ place then
    stop (.outOfBounds place slots)
  update (onChain (Chain.modifyBack (Segment.put v)))

/-- Enqueues an element. -/
def enqueue (v : Int32) : Call (SegmentedQueue p) Unit := do
  if (← self).needsSegment then
    linkSegment
  put v
  update fun q => { q with size := q.size + 1 }

/-! ## Dequeueing -/

/-- Gives back the segment at the head. -/
def releaseSegment : Call (SegmentedQueue p) Unit := do
  update (onChain Chain.dropFront)
  change countSegmentDown
  record .segmentReleased

/-- The next slot to read in the first segment, unless that segment has no such slot. -/
def nextSlot (q : SegmentedQueue p) : Except Fault p.Slot :=
  match q.chain.front? with
  | some s =>
    match s.slots[s.read]? with
    | some slot => .ok slot
    | none => .error (.outOfBounds s.read s.slots.size)
  | none => .error (.outOfBounds 0 0)

/-- Whether the first segment is drained, and the last. -/
def needsRewind (q : SegmentedQueue p) : Bool :=
  match q.chain.front? with
  | some s => s.isDrained && !q.chain.hasSecond
  | none => false

/-- Takes the next element out of the first segment. -/
def take : Call (SegmentedQueue p) p.Out := do
  let slot ← lift (← self).nextSlot
  update (onChain (Chain.modifyFront Segment.skip))
  if (← self).needsRewind then
    update (onChain (Chain.modifyFront Segment.rewind))
  change countDown
  return p.unpack slot

/-- Dequeues the oldest element. -/
def dequeue : Call (SegmentedQueue p) p.Out := do
  let q ← self
  match q.chain.front? with
  | none => return p.empty
  | some s =>
    if s.isDrained then
      if q.chain.hasSecond then
        releaseSegment
        take
      else
        return p.empty
    else
      take

/-! ## Invariant and view -/

/-- What holds of the segments of a queue, oldest first. -/
structure SoundSegments (capacity : Nat) (segments : List (Segment p)) : Prop where
  /-- All have the same number of slots. -/
  slots_eq : ∀ s ∈ segments, s.slots.size = capacity
  /-- None is read beyond what was written, or written beyond its end. -/
  le_le : ∀ s ∈ segments, s.read ≤ s.write ∧ s.write ≤ capacity
  /-- All but the last are full. -/
  full : ∀ s ∈ segments.dropLast, s.write = capacity
  /-- All but the first hold an element, and were not read yet. -/
  unread : ∀ s ∈ segments.tail, s.read = 0 ∧ 0 < s.write
  /-- One that is alone is rewound when it is drained. -/
  rewound : ∀ s, segments = [s] → s.read = s.write → s.write = 0

/-- What holds of every segmented queue: its chain is one, its segments are in order, and the two
    numbers are those of its segments and of their elements. -/
structure Sound (q : SegmentedQueue p) : Prop where
  chain : q.chain.Sound
  inOrder : SoundSegments q.segmentCapacity q.chain.toList
  segments_eq : q.segments = q.chain.toList.length
  size_eq : q.size = Segment.held q.chain.toList

/-- The slots of the elements, oldest first. -/
def window (q : SegmentedQueue p) : List p.Slot := q.chain.toList.flatMap Segment.window

theorem sound_new (segmentCapacity : Nat) : Sound (new p segmentCapacity) :=
  { chain := Chain.sound_empty
    inOrder :=
      { slots_eq := fun _ h => nomatch h
        le_le := fun _ h => nomatch h
        full := fun _ h => nomatch h
        unread := fun _ h => nomatch h
        rewound := fun _ h => nomatch h }
    segments_eq := rfl
    size_eq := rfl }

/-- What is shown of a segmented queue. -/
def shown (q : SegmentedQueue p) : Shown :=
  .fields "SegmentedQueue"
    [("repr", .quoted p.name), ("segment_capacity", .number q.segmentCapacity),
      ("segments", .number q.segments), ("len", .number q.size)]

end SegmentedQueue
end Fifo
