/-
  TWIN CHAINS: calls on linked and segmented queues, side by side.

  Two pools are alike if the same places are free, and the values at the others are alike; two chains
  are if their nodes are linked in the SAME way.  Links are followed, cut and handed out by place, so
  that values which are alike stay where values which are alike are.  Of a segment, what is the same is
  how far it was written and how far it was read; a slot that was read may hold an element in one of
  two segments, and none in the other.
-/
import Fifo.Chained.LinkedQueue
import Fifo.Chained.SegmentedQueue
import Fifo.Proofs.Twins.Likeness

namespace Fifo

variable {α β : Type} {A : α → β → Prop} {p p' : Placement} {L : p.Likeness p'} {v v' : Int32}

/-! ## Pools -/

namespace Pool

/-- `Alike A pool pool'` — the same places are free, and the values at the others are alike. -/
structure Alike (A : α → β → Prop) (pool : Pool α) (pool' : Pool β) : Prop where
  cells : AlikeArrays (Option.Rel A) pool.cells pool'.cells
  free_eq : pool.free = pool'.free

namespace Alike

variable {pool : Pool α} {pool' : Pool β}

theorem empty : Alike A (empty : Pool α) (empty : Pool β) := ⟨.empty, rfl⟩

theorem get? (h : pool.Alike A pool') (place : Nat) :
    Option.Rel A (pool.get? place) (pool'.get? place) :=
  AlikeOptions.bind id (h.cells.getElem? place)

/-- The same place is handed out. -/
theorem insert (h : pool.Alike A pool') {a : α} {b : β} (hab : A a b) :
    (pool.insert a).1 = (pool'.insert b).1 ∧ (pool.insert a).2.Alike A (pool'.insert b).2 := by
  obtain ⟨cells, free⟩ := pool
  obtain ⟨cells', free'⟩ := pool'
  obtain ⟨hcells, hfree⟩ := h
  obtain rfl : free = free' := hfree
  cases free with
  | nil => exact ⟨hcells.size_eq, hcells.push (.some hab), rfl⟩
  | cons place free => exact ⟨rfl, hcells.setIfInBounds place (.some hab), rfl⟩

theorem modify (h : pool.Alike A pool') (place : Nat) {f : α → α} {f' : β → β}
    (hf : ∀ {a b}, A a b → A (f a) (f' b)) :
    (pool.modify place f).Alike A (pool'.modify place f') :=
  ⟨h.cells.modify place (AlikeOptions.map hf), h.free_eq⟩

theorem erase (h : pool.Alike A pool') (place : Nat) :
    (pool.erase place).Alike A (pool'.erase place) := by
  have hget := h.get? place
  unfold Pool.erase
  generalize pool.get? place = x at *
  generalize pool'.get? place = y at *
  cases hget with
  | none => exact h
  | some _ => exact ⟨h.cells.setIfInBounds place .none, congrArg (place :: ·) h.free_eq⟩

end Alike
end Pool

/-! ## Chains -/

/-- The values are alike, and the next node is the same. -/
structure Node.Alike (A : α → β → Prop) (node : Node α) (node' : Node β) : Prop where
  value : A node.value node'.value
  next_eq : node.next = node'.next

namespace Chain

/-- `Alike A c c'` — the values are alike, and linked in the same way. -/
structure Alike (A : α → β → Prop) (c : Chain α) (c' : Chain β) : Prop where
  pool : c.pool.Alike (Node.Alike A) c'.pool
  head_eq : c.head = c'.head
  tail_eq : c.tail = c'.tail

namespace Alike

variable {c : Chain α} {c' : Chain β}

theorem empty : Alike A (empty : Chain α) (empty : Chain β) := ⟨.empty, rfl, rfl⟩

theorem node? (h : c.Alike A c') (link : Option Nat) :
    Option.Rel (Node.Alike A) (c.node? link) (c'.node? link) := by
  unfold Chain.node?
  cases link with
  | none => exact .none
  | some place => exact h.pool.get? place

theorem front? (h : c.Alike A c') : Option.Rel A c.front? c'.front? := by
  unfold Chain.front?
  rw [h.head_eq]
  exact AlikeOptions.map Node.Alike.value (h.node? c'.head)

theorem back? (h : c.Alike A c') : Option.Rel A c.back? c'.back? := by
  unfold Chain.back?
  rw [h.tail_eq]
  exact AlikeOptions.map Node.Alike.value (h.node? c'.tail)

theorem hasSecond_eq (h : c.Alike A c') : c.hasSecond = c'.hasSecond := by
  have hnext : (c.node? c.head).bind (·.next) = (c'.node? c'.head).bind (·.next) := by
    rw [h.head_eq]
    exact AlikeOptions.bind_eq Node.Alike.next_eq (h.node? c'.head)
  unfold Chain.hasSecond
  rw [hnext]

theorem append (h : c.Alike A c') {a : α} {b : β} (hab : A a b) :
    (c.append a).Alike A (c'.append b) := by
  obtain ⟨pool, head, tail⟩ := c
  obtain ⟨pool', head', tail'⟩ := c'
  obtain ⟨hpool, hhead, htail⟩ := h
  obtain rfl : head = head' := hhead
  obtain rfl : tail = tail' := htail
  obtain ⟨hplace, hpool⟩ := hpool.insert (a := ⟨a, none⟩) (b := ⟨b, none⟩) ⟨hab, rfl⟩
  unfold Chain.append
  dsimp only
  cases tail with
  | none => exact ⟨hpool, congrArg some hplace, congrArg some hplace⟩
  | some last =>
    exact ⟨hpool.modify last fun hnode => ⟨hnode.value, congrArg some hplace⟩, rfl,
      congrArg some hplace⟩

theorem dropFront (h : c.Alike A c') : c.dropFront.Alike A c'.dropFront := by
  obtain ⟨pool, head, tail⟩ := c
  obtain ⟨pool', head', tail'⟩ := c'
  obtain ⟨hpool, hhead, htail⟩ := h
  obtain rfl : head = head' := hhead
  obtain rfl : tail = tail' := htail
  cases head with
  | none => exact ⟨hpool, rfl, rfl⟩
  | some first =>
    -- the link is read before the node is given back
    have hnext : (pool.get? first).bind (·.next) = (pool'.get? first).bind (·.next) :=
      AlikeOptions.bind_eq Node.Alike.next_eq (hpool.get? first)
    unfold Chain.dropFront
    dsimp only
    rw [hnext]
    exact ⟨hpool.erase first, rfl, rfl⟩

theorem modifyAt (h : c.Alike A c') (link : Option Nat) {f : α → α} {f' : β → β}
    (hf : ∀ {a b}, A a b → A (f a) (f' b)) : (c.modifyAt link f).Alike A (c'.modifyAt link f') := by
  cases link with
  | none => exact h
  | some place =>
    exact ⟨h.pool.modify place fun hnode => ⟨hf hnode.value, hnode.next_eq⟩, h.head_eq, h.tail_eq⟩

theorem modifyFront (h : c.Alike A c') {f : α → α} {f' : β → β}
    (hf : ∀ {a b}, A a b → A (f a) (f' b)) : (c.modifyFront f).Alike A (c'.modifyFront f') := by
  unfold Chain.modifyFront
  rw [h.head_eq]
  exact h.modifyAt c'.head hf

theorem modifyBack (h : c.Alike A c') {f : α → α} {f' : β → β}
    (hf : ∀ {a b}, A a b → A (f a) (f' b)) : (c.modifyBack f).Alike A (c'.modifyBack f') := by
  unfold Chain.modifyBack
  rw [h.tail_eq]
  exact h.modifyAt c'.tail hf

end Alike
end Chain

/-! ## Linked queues -/

namespace LinkedQueue

/-- `Alike L q q'` — the slots of the nodes are alike, and so many of them are linked in the same
    way. -/
structure Alike (L : p.Likeness p') (q : LinkedQueue p) (q' : LinkedQueue p') : Prop where
  chain : q.chain.Alike L.slot q'.chain
  size_eq : q.size = q'.size

theorem Alike.new : (new p).Alike L (new p') := ⟨.empty, rfl⟩

theorem alike_enqueue (hv : L.element v v') : Call.Alike (Alike L) Eq (enqueue v) (enqueue v') :=
  .update fun h => ⟨h.chain.append (L.pack hv), congrArg (· + 1) h.size_eq⟩

theorem alike_countDown : Call.Alike (Alike L) Eq (.change countDown) (.change countDown) := by
  refine .change fun {q q'} h => ?_
  unfold countDown
  rw [h.size_eq]
  exact .bind_same _ fun size => .ok ⟨h.chain, rfl⟩

theorem alike_dequeue : Call.Alike (Alike L) L.out dequeue dequeue := by
  refine .bind .self fun {q q'} h => ?_
  have hfront := h.chain.front?
  generalize q.chain.front? = x at *
  generalize q'.chain.front? = y at *
  cases hfront with
  | none => exact .pure L.empty
  | some hslot =>
    exact .bind (.update fun h => ⟨h.chain.dropFront, h.size_eq⟩) fun _ =>
      .bind alike_countDown fun _ => .pure (L.unpack hslot)

end LinkedQueue

/-! ## Segments -/

namespace Segment

/-- `Alike L s s'` — the slots are alike, and as many were written and read. -/
structure Alike (L : p.Likeness p') (s : Segment p) (s' : Segment p') : Prop where
  slots : AlikeArrays L.slot s.slots s'.slots
  read_eq : s.read = s'.read
  write_eq : s.write = s'.write

namespace Alike

variable {s : Segment p} {s' : Segment p'}

theorem vacant (capacity : Nat) : (vacant p capacity).Alike L (vacant p' capacity) :=
  ⟨.vacant L capacity, rfl, rfl⟩

theorem isFull_eq (h : s.Alike L s') : s.isFull = s'.isFull := by
  unfold isFull
  rw [h.write_eq, h.slots.size_eq]

theorem isDrained_eq (h : s.Alike L s') : s.isDrained = s'.isDrained := by
  unfold isDrained
  rw [h.read_eq, h.write_eq]

theorem put (h : s.Alike L s') (hv : L.element v v') : (s.put v).Alike L (s'.put v') := by
  refine ⟨?_, h.read_eq, congrArg (· + 1) h.write_eq⟩
  unfold Segment.put
  rw [h.write_eq]
  exact h.slots.setIfInBounds s'.write (L.pack hv)

theorem skip (h : s.Alike L s') : s.skip.Alike L s'.skip := by
  refine ⟨?_, congrArg (· + 1) h.read_eq, h.write_eq⟩
  unfold Segment.skip
  rw [h.read_eq]
  exact h.slots.modify s'.read L.taken

theorem rewind (h : s.Alike L s') : s.rewind.Alike L s'.rewind := ⟨h.slots, rfl, rfl⟩

end Alike
end Segment

/-! ## Segmented queues -/

namespace SegmentedQueue

open Call (update change)

/-- `Alike L q q'` — the segments are alike, and everything else is the same. -/
structure Alike (L : p.Likeness p') (q : SegmentedQueue p) (q' : SegmentedQueue p') : Prop where
  chain : q.chain.Alike (Segment.Alike L) q'.chain
  segmentCapacity_eq : q.segmentCapacity = q'.segmentCapacity
  segments_eq : q.segments = q'.segments
  size_eq : q.size = q'.size

namespace Alike

variable {q : SegmentedQueue p} {q' : SegmentedQueue p'}

theorem new (segmentCapacity : Nat) : (new p segmentCapacity).Alike L (new p' segmentCapacity) :=
  ⟨.empty, rfl, rfl, rfl⟩

theorem onChain (h : q.Alike L q') {f : Chain (Segment p) → Chain (Segment p)}
    {f' : Chain (Segment p') → Chain (Segment p')}
    (hf : (f q.chain).Alike (Segment.Alike L) (f' q'.chain)) :
    (onChain f q).Alike L (SegmentedQueue.onChain f' q') :=
  ⟨hf, h.segmentCapacity_eq, h.segments_eq, h.size_eq⟩

theorem needsSegment_eq (h : q.Alike L q') : q.needsSegment = q'.needsSegment := by
  have hback := h.chain.back?
  unfold needsSegment
  generalize q.chain.back? = x at *
  generalize q'.chain.back? = y at *
  cases hback with
  | none => rfl
  | some hsegment => exact hsegment.isFull_eq

theorem writePlace_eq (h : q.Alike L q') : q.writePlace = q'.writePlace := by
  have hback := h.chain.back?
  unfold writePlace
  generalize q.chain.back? = x at *
  generalize q'.chain.back? = y at *
  cases hback with
  | none => rfl
  | some hsegment => exact Prod.ext hsegment.write_eq hsegment.slots.size_eq

theorem nextSlot (h : q.Alike L q') : AlikeResults L.slot q.nextSlot q'.nextSlot := by
  have hfront := h.chain.front?
  unfold SegmentedQueue.nextSlot
  generalize q.chain.front? = x at *
  generalize q'.chain.front? = y at *
  cases hfront with
  | none => exact .error _
  | @some segment segment' hsegment =>
    have hslot := hsegment.slots.getElem? segment'.read
    dsimp only
    rw [hsegment.read_eq, hsegment.slots.size_eq]
    generalize segment.slots[segment'.read]? = x at *
    generalize segment'.slots[segment'.read]? = y at *
    cases hslot with
    | none => exact .error _
    | some hslot => exact .ok hslot

theorem needsRewind_eq (h : q.Alike L q') : q.needsRewind = q'.needsRewind := by
  have hfront := h.chain.front?
  unfold needsRewind
  rw [h.chain.hasSecond_eq]
  generalize q.chain.front? = x at *
  generalize q'.chain.front? = y at *
  cases hfront with
  | none => rfl
  | some hsegment =>
    dsimp only
    rw [hsegment.isDrained_eq]

end Alike

/-! ### Enqueueing -/

theorem alike_linkSegment : Call.Alike (Alike L) Eq linkSegment linkSegment := by
  refine .bind .self fun {q q'} h => ?_
  dsimp only
  rw [h.segmentCapacity_eq]
  refine .bind (.allocate _) fun _ => .bind (.record _) fun _ => ?_
  refine .bind (.update fun h => h.onChain (h.chain.append (.vacant _))) fun _ => ?_
  exact .update fun h => ⟨h.chain, h.segmentCapacity_eq, congrArg (· + 1) h.segments_eq, h.size_eq⟩

theorem alike_put (hv : L.element v v') : Call.Alike (Alike L) Eq (put v) (put v') := by
  refine .bind .self fun {q q'} h => ?_
  rw [h.writePlace_eq]
  dsimp only
  refine .ite Iff.rfl (.stop_bind ..) ?_
  exact .update fun h => h.onChain (h.chain.modifyBack fun hsegment => hsegment.put hv)

theorem alike_enqueue (hv : L.element v v') : Call.Alike (Alike L) Eq (enqueue v) (enqueue v') := by
  have hput : Call.Alike (Alike L) Eq
      (do put v; update fun q => { q with size := q.size + 1 })
      (do put v'; update fun q => { q with size := q.size + 1 }) :=
    .bind (alike_put hv) fun _ => .update fun h =>
      ⟨h.chain, h.segmentCapacity_eq, h.segments_eq, congrArg (· + 1) h.size_eq⟩
  refine .bind .self fun {q q'} h => ?_
  exact .ite (by rw [h.needsSegment_eq]) (.bind alike_linkSegment fun _ => hput) hput

/-! ### Dequeueing -/

theorem alike_countDown : Call.Alike (Alike L) Eq (.change countDown) (.change countDown) := by
  refine .change fun {q q'} h => ?_
  unfold countDown
  rw [h.size_eq]
  exact .bind_same _ fun size => .ok ⟨h.chain, h.segmentCapacity_eq, h.segments_eq, rfl⟩

theorem alike_releaseSegment : Call.Alike (Alike L) Eq releaseSegment releaseSegment := by
  refine .bind (.update fun h => h.onChain h.chain.dropFront) fun _ => ?_
  refine .bind (.change fun {q q'} h => ?_) fun _ => .record _
  unfold countSegmentDown
  rw [h.segments_eq]
  exact .bind_same _ fun segments => .ok ⟨h.chain, h.segmentCapacity_eq, rfl, h.size_eq⟩

theorem alike_take : Call.Alike (Alike L) L.out take take := by
  refine .bind .self fun {q q'} h => .bind (.lift h.nextSlot) fun {slot slot'} hslot => ?_
  have hdone : Call.Alike (Alike L) L.out
      (do change countDown; return p.unpack slot) (do change countDown; return p'.unpack slot') :=
    .bind alike_countDown fun _ => .pure (L.unpack hslot)
  refine .bind (.update fun h => h.onChain (h.chain.modifyFront Segment.Alike.skip)) fun _ => ?_
  refine .bind .self fun {q q'} h => ?_
  refine .ite (by rw [h.needsRewind_eq]) (.bind (.update fun h => ?_) fun _ => hdone) hdone
  exact h.onChain (h.chain.modifyFront Segment.Alike.rewind)

theorem alike_dequeue : Call.Alike (Alike L) L.out dequeue dequeue := by
  refine .bind .self fun {q q'} h => ?_
  have hfront := h.chain.front?
  generalize q.chain.front? = x at *
  generalize q'.chain.front? = y at *
  cases hfront with
  | none => exact .pure L.empty
  | some hsegment =>
    refine .ite (by rw [hsegment.isDrained_eq]) ?_ alike_take
    exact .ite (by rw [h.chain.hasSecond_eq]) (.bind alike_releaseSegment fun _ => alike_take)
      (.pure L.empty)

end SegmentedQueue
end Fifo
