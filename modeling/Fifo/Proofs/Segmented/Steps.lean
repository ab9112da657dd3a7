/-
  STEPS of a segmented queue: what each call leaves behind, one equation each.

  The equations say what is DONE, path by path, of a chain whose ends are known; that it keeps the
  segments in order is the subject of `Fifo.Proofs.Segmented.Segments`, and of the modules that put
  the two together.
-/
import Fifo.Chained.SegmentedQueue
import Fifo.Proofs.Ring.Relocation

namespace Fifo.SegmentedQueue

variable {p : Placement}

/-! ## Enqueueing -/

/-- A queue with one more segment, all of its slots vacant. -/
def linked (q : SegmentedQueue p) : SegmentedQueue p :=
  { chain := q.chain.append (Segment.vacant p q.segmentCapacity)
    segmentCapacity := q.segmentCapacity
    segments := q.segments + 1
    size := q.size }

/-- A queue with one more element in the last segment. -/
def extended (q : SegmentedQueue p) (v : Int32) : SegmentedQueue p :=
  { chain := q.chain.modifyBack (Segment.put v)
    segmentCapacity := q.segmentCapacity
    segments := q.segments
    size := q.size + 1 }

theorem run_linkSegment {q : SegmentedQueue p}
    (hm : Store.addressable p q.segmentCapacity = true) :
    linkSegment.run q = ⟨q.linked, [.segmentAllocated q.segmentCapacity], .ok ()⟩ := by
  simp [linkSegment, Store.allocate_eq_ok hm, onChain, linked]

/-- A segment that no memory could hold is not linked: the call stops before. -/
theorem run_linkSegment_of_error {q : SegmentedQueue p}
    (hm : Store.addressable p q.segmentCapacity = false) :
    linkSegment.run q = ⟨q, [], .error .capacityOverflow⟩ := by
  simp [linkSegment, Store.allocate_eq_error hm]

theorem run_put {q : SegmentedQueue p} {t : Segment p} (hback : q.chain.back? = some t)
    (hlt : t.write < t.slots.size) (v : Int32) :
    (put v).run q = ⟨onChain (Chain.modifyBack (Segment.put v)) q, [], .ok ()⟩ := by
  have hplace : q.writePlace = (t.write, t.slots.size) := by simp [writePlace, hback]
  have hle : ¬ t.slots.size ≤ t.write := Nat.not_le.mpr hlt
  simp [put, hplace, hle]

/-- An enqueue that finds a slot in the last segment. -/
theorem run_enqueue_of_lt {q : SegmentedQueue p} {t : Segment p} (hback : q.chain.back? = some t)
    (hlt : t.write < t.slots.size) (v : Int32) :
    (enqueue v).run q = ⟨q.extended v, [], .ok ()⟩ := by
  have hneeds : q.needsSegment = false := by
    simp [needsSegment, hback, Segment.isFull, Nat.ne_of_lt hlt]
  simp [enqueue, hneeds, run_put hback hlt, onChain, extended]

/-- An enqueue that finds none, links a segment first. -/
theorem run_enqueue_of_needs {q : SegmentedQueue p} (hneeds : q.needsSegment = true)
    (hm : Store.addressable p q.segmentCapacity = true)
    (hback : q.linked.chain.back? = some (Segment.vacant p q.segmentCapacity))
    (hpos : 0 < q.segmentCapacity) (v : Int32) :
    (enqueue v).run q =
      ⟨q.linked.extended v, [.segmentAllocated q.segmentCapacity], .ok ()⟩ := by
  have hlt : (Segment.vacant p q.segmentCapacity).write <
      (Segment.vacant p q.segmentCapacity).slots.size := by
    show 0 < (Store.vacant p q.segmentCapacity).size
    rwa [Store.size_vacant]
  simp [enqueue, hneeds, run_linkSegment hm, run_put hback hlt, onChain, extended]

/-- An enqueue whose segment no memory could hold **changes nothing**. -/
theorem run_enqueue_of_error {q : SegmentedQueue p} (hneeds : q.needsSegment = true)
    (hm : Store.addressable p q.segmentCapacity = false) (v : Int32) :
    (enqueue v).run q = ⟨q, [], .error .capacityOverflow⟩ := by
  simp [enqueue, hneeds, run_linkSegment_of_error hm]

/-! ## Dequeueing -/

/-- A queue without its first segment. -/
def released (q : SegmentedQueue p) : SegmentedQueue p :=
  { chain := q.chain.dropFront
    segmentCapacity := q.segmentCapacity
    segments := q.segments - 1
    size := q.size }

theorem countSegmentDown_eq_ok {q : SegmentedQueue p} (hs : 0 < q.segments) :
    countSegmentDown q = .ok { q with segments := q.segments - 1 } := by
  unfold countSegmentDown
  rw [Word.pred_eq_ok hs]
  rfl

theorem run_releaseSegment {q : SegmentedQueue p} (hs : 0 < q.segments) :
    releaseSegment.run q = ⟨q.released, [.segmentReleased], .ok ()⟩ := by
  have hdown : countSegmentDown (onChain Chain.dropFront q) = .ok q.released :=
    countSegmentDown_eq_ok hs
  simp only [releaseSegment, Call.run_bind, Call.run_update, Outcome.andThen_ok]
  rw [Call.run_change_of_ok hdown]
  simp

/-- A queue whose next slot was read. -/
def skipped (q : SegmentedQueue p) : SegmentedQueue p := onChain (Chain.modifyFront Segment.skip) q

/-- A queue whose first segment is rewound, if that is due. -/
def rewound (q : SegmentedQueue p) : SegmentedQueue p :=
  if q.needsRewind then onChain (Chain.modifyFront Segment.rewind) q else q

/-- A queue with an element less. -/
def taken (q : SegmentedQueue p) : SegmentedQueue p :=
  { q.skipped.rewound with size := q.size - 1 }

theorem size_rewound (q : SegmentedQueue p) : q.rewound.size = q.size := by
  unfold rewound
  split <;> rfl

theorem segments_rewound (q : SegmentedQueue p) : q.rewound.segments = q.segments := by
  unfold rewound
  split <;> rfl

theorem segmentCapacity_rewound (q : SegmentedQueue p) :
    q.rewound.segmentCapacity = q.segmentCapacity := by
  unfold rewound
  split <;> rfl

theorem countDown_eq_ok {q : SegmentedQueue p} (hs : 0 < q.size) :
    countDown q = .ok { q with size := q.size - 1 } := by
  unfold countDown
  rw [Word.pred_eq_ok hs]
  rfl

theorem run_take {q : SegmentedQueue p} {slot : p.Slot} (hslot : q.nextSlot = .ok slot)
    (hs : 0 < q.size) : take.run q = ⟨q.taken, [], .ok (p.unpack slot)⟩ := by
  have hsize : q.skipped.rewound.size = q.size := size_rewound q.skipped
  have hdown : countDown q.skipped.rewound = .ok q.taken := by
    rw [countDown_eq_ok (by omega), hsize]
    rfl
  have hchange := Call.run_change_of_ok hdown
  have hskip : onChain (Chain.modifyFront Segment.skip) q = q.skipped := rfl
  simp only [take, Call.run_bind, Call.run_self, Outcome.andThen_ok, Call.run_lift, hslot,
    Call.run_update, hskip]
  -- The two branches join before the count: `rewound` is the queue at that point.
  by_cases hrewind : q.skipped.needsRewind = true
  · rw [rewound, if_pos hrewind] at hchange
    rw [if_pos hrewind]
    simp only [Call.run_bind, Call.run_update, Outcome.andThen_ok, hchange]
    simp
  · rw [rewound, if_neg hrewind] at hchange
    rw [if_neg hrewind]
    simp only [Call.run_bind, hchange]
    simp

theorem run_dequeue_of_front?_none {q : SegmentedQueue p} (h : q.chain.front? = none) :
    dequeue.run q = ⟨q, [], .ok p.empty⟩ := by
  simp [dequeue, h]

/-- A drained segment without a successor has nothing to give. -/
theorem run_dequeue_of_alone {q : SegmentedQueue p} {s : Segment p}
    (hfront : q.chain.front? = some s) (hdrained : s.isDrained = true)
    (hsecond : q.chain.hasSecond = false) : dequeue.run q = ⟨q, [], .ok p.empty⟩ := by
  simp [dequeue, hfront, hdrained, hsecond]

theorem run_dequeue_of_lt {q : SegmentedQueue p} {s : Segment p} {slot : p.Slot}
    (hfront : q.chain.front? = some s) (hlt : s.read < s.write) (hslot : s.slots[s.read]? = some slot)
    (hs : 0 < q.size) : dequeue.run q = ⟨q.taken, [], .ok (p.unpack slot)⟩ := by
  have hdrained : s.isDrained = false := beq_false_of_ne (Nat.ne_of_lt hlt)
  have hnext : q.nextSlot = .ok slot := by simp [nextSlot, hfront, hslot]
  simp [dequeue, hfront, hdrained, run_take hnext hs]

/-- A drained segment with a successor is given back, and the successor read. -/
theorem run_dequeue_of_drained {q : SegmentedQueue p} {s t : Segment p} {slot : p.Slot}
    (hfront : q.chain.front? = some s) (hdrained : s.isDrained = true)
    (hsecond : q.chain.hasSecond = true) (hsegments : 0 < q.segments)
    (hnext : q.released.chain.front? = some t) (hslot : t.slots[t.read]? = some slot)
    (hs : 0 < q.size) :
    dequeue.run q = ⟨q.released.taken, [.segmentReleased], .ok (p.unpack slot)⟩ := by
  have hslot' : q.released.nextSlot = .ok slot := by simp [nextSlot, hnext, hslot]
  have htake : take.run q.released = ⟨q.released.taken, [], .ok (p.unpack slot)⟩ :=
    run_take hslot' hs
  simp [dequeue, hfront, hdrained, hsecond, run_releaseSegment hsegments, htake]

end Fifo.SegmentedQueue
