/-
  MOVES of the segments of a queue: what an operation does to the list of them, and what it logs.

        idle       nothing: no element to take, or no memory for a segment that is needed
        put        a slot more in the last segment
        link       another segment behind full ones, with its first slot
        read       a slot less in the first segment, which is rewound if it is drained and alone
        release    a drained segment less at the front, and a slot less in the one behind it

  Which elements there are is not seen, only whether one was put in.  Whatever is said of segments
  after a run is proved of a list of them in order, one case for each of the ways (`Move`), and
  carried over by `segments_after`.
-/
import Fifo.Proofs.Runs
import Fifo.Proofs.Segmented.Order

namespace Fifo.SegmentedQueue

variable {p : Placement} {capacity : Nat}

/-- How many elements were put into a queue, by the answers: only an enqueue is answered without an
    element. -/
def puts (outcomes : List (Outcome (SegmentedQueue p) (Option p.Out))) : Nat :=
  outcomes.countP fun o =>
    match o.result with
    | .ok none => true
    | _ => false

/-- `Move capacity segments n log segments'` — an operation that puts in `n` elements, one or none,
    logs `log`, and makes `segments'` of the segments. -/
inductive Move (capacity : Nat) :
    List (Segment p) → Nat → List Record → List (Segment p) → Prop
  | idle {segments : List (Segment p)} : Move capacity segments 0 [] segments
  | put {init : List (Segment p)} {t : Segment p} (hlt : t.write < capacity) (v : Int32) :
    Move capacity (init ++ [t]) 1 [] (init ++ [t.put v])
  | link {segments : List (Segment p)} (hfull : ∀ s ∈ segments, s.write = capacity) (v : Int32) :
    Move capacity segments 1 [.segmentAllocated capacity]
      (segments ++ [(Segment.vacant p capacity).put v])
  | read {segments segments' : List (Segment p)} (h : Read segments segments') :
    Move capacity segments 0 [] segments'
  | release {s : Segment p} {rest segments' : List (Segment p)} (hdrained : s.read = s.write)
    (h : Read rest segments') : Move capacity (s :: rest) 0 [.segmentReleased] segments'

namespace Holds

variable {q : SegmentedQueue p} {items : List Int32}

/-- An enqueue puts, or links a segment, or is stopped for want of memory. -/
theorem move_enqueue (h : Holds capacity q items) (hpos : 0 < capacity) (v : Int32) :
    let o := (Queue.perform (.enqueue v)).run q
    Move capacity q.chain.toList (puts [o]) o.log o.state.chain.toList ∧
      ∃ items', Holds capacity o.state items' := by
  have hpath := h.enqueued hpos v
  rw [Queue.run_perform_enqueue_eq]
  generalize (SegmentedQueue.enqueue v).run q = o at hpath
  cases hpath with
  | @extended init t hc hlt =>
    have hextended : (q.extended v).chain.toList = init ++ [t.put v] :=
      (hc.modifyBack (Segment.put v)).toList_eq
    refine ⟨?_, _, h.extended hc hlt v⟩
    show Move capacity _ 1 [] (q.extended v).chain.toList
    rw [hc.toList_eq, hextended]
    exact .put hlt v
  | @linked segments hc hfull =>
    have hlinked : (q.linked.extended v).chain.toList =
        segments ++ [(Segment.vacant p q.segmentCapacity).put v] :=
      ((hc.append _).modifyBack (Segment.put v)).toList_eq
    refine ⟨?_, _, h.linked_extended hc hpos hfull v⟩
    show Move capacity _ 1 [.segmentAllocated capacity] (q.linked.extended v).chain.toList
    rw [hc.toList_eq, hlinked, h.capacity_eq]
    exact .link hfull v
  | stopped => exact ⟨.idle, _, h⟩

/-- A dequeue reads, in the first segment or in the one behind it, or finds nothing. -/
theorem move_dequeue (h : Holds capacity q items) :
    let o := (Queue.perform .dequeue).run q
    Move capacity q.chain.toList (puts [o]) o.log o.state.chain.toList ∧
      ∃ items', Holds capacity o.state items' := by
  rw [Queue.run_perform_dequeue_eq]
  cases items with
  | nil =>
    have hrun : (Queue.dequeue : Call (SegmentedQueue p) p.Out).run q = ⟨q, [], .ok p.empty⟩ :=
      h.dequeue_nil
    rw [hrun]
    exact ⟨.idle, _, h⟩
  | cons v items =>
    have hpath : Dequeued q v (Queue.dequeue.run q) := h.dequeued
    generalize (Queue.dequeue : Call (SegmentedQueue p) p.Out).run q = o at hpath
    cases hpath with
    | taken hc hlt =>
      obtain ⟨segments, htaken, hread⟩ := chain_taken hc hlt
      refine ⟨?_, _, h.taken hc hlt⟩
      show Move capacity _ 0 [] q.taken.chain.toList
      rw [hc.toList_eq, htaken.toList_eq]
      exact .read hread
    | @released s t rest hc hdrained =>
      have hreleased : Holds capacity q.released (v :: items) := h.released hc hdrained
      have hc' : q.released.chain.Holds (t :: rest) := hc.dropFront
      have hsuccessor := (h.inOrder hc).successor
      obtain ⟨segments, htaken, hread⟩ := chain_taken hc' hsuccessor
      refine ⟨?_, _, hreleased.taken hc' hsuccessor⟩
      show Move capacity _ 0 [.segmentReleased] q.released.taken.chain.toList
      rw [hc.toList_eq, htaken.toList_eq]
      exact .release hdrained hread

/-- **An operation is a move** of the segments. -/
theorem move_perform (h : Holds capacity q items) (hpos : 0 < capacity) (op : Queue.Op) :
    let o := (Queue.perform op).run q
    Move capacity q.chain.toList (puts [o]) o.log o.state.chain.toList ∧
      ∃ items', Holds capacity o.state items' := by
  cases op with
  | enqueue v => exact h.move_enqueue hpos v
  | dequeue => exact h.move_dequeue

end Holds

/-! ## Runs -/

theorem kept_holds (hpos : 0 < capacity) :
    Call.Kept (Queue.perform (σ := SegmentedQueue p)) fun q => ∃ items, Holds capacity q items := by
  rintro op q ⟨items, h⟩
  exact (h.move_perform hpos op).2

/-- **What is true of segments after every move**, from segments in order, is true after every run. -/
theorem segments_after (Inv : List (Segment p) → Prop) (hpos : 0 < capacity)
    (hmove : ∀ {segments n log segments'}, SoundSegments capacity segments →
      Move capacity segments n log segments' → Inv segments → Inv segments')
    (ops : List Queue.Op) {q : SegmentedQueue p} {items : List Int32} (hq : Holds capacity q items)
    (hinv : Inv q.chain.toList) : Inv (Queue.after ops q).chain.toList := by
  have hkept : Call.Kept (Queue.perform (σ := SegmentedQueue p))
      fun q => (∃ items, Holds capacity q items) ∧ Inv q.chain.toList := by
    rintro op q ⟨⟨items, h⟩, hinv⟩
    obtain ⟨hmoved, hheld⟩ := h.move_perform hpos op
    exact ⟨hheld, hmove (h.inOrder h.chain) hmoved hinv⟩
  exact (hkept.final ops ⟨⟨items, hq⟩, hinv⟩).2

end Fifo.SegmentedQueue
