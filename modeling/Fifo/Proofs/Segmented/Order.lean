/-
  ORDER in segmented queues: first in, first out, across the borders of segments.

  1. **Holds** — the elements of a segmented queue are what the windows of its segments hold, one
     window after the other, and its segments are in order (`SegmentedQueue.Sound`).

  2. **Enqueue** — a slot more in the last segment, or in a new one behind it: the windows grow by
     one slot at the very end.

  3. **Dequeue** — giving back a drained segment changes no window but an empty one; the slot that
     is read then is the first of all windows.  Rewinding happens to a drained segment without a
     successor, so there is no element for it to lose or to replay.

  The queue refines the list if memory could hold a segment.  If it could not, there never is one,
  and every enqueue is stopped at a queue as it was made.
-/
import Fifo.Proofs.Chain.View
import Fifo.Proofs.Refinement
import Fifo.Proofs.Segmented.Segments
import Fifo.Proofs.Segmented.Steps

namespace Fifo.SegmentedQueue

variable {p : Placement} {capacity : Nat}

/-- `Holds capacity q items` — the segments have that capacity, and the elements are `items`. -/
structure Holds (capacity : Nat) (q : SegmentedQueue p) (items : List Int32) : Prop where
  sound : q.Sound
  capacity_eq : q.segmentCapacity = capacity
  window_eq : q.window = items.map p.pack

/-- Every segment has a slot, whatever was requested. -/
theorem requested_pos (requested : Nat) : 0 < max requested 1 :=
  Nat.lt_of_lt_of_le Nat.one_pos (Nat.le_max_right _ _)

theorem holds_new (requested : Nat) : Holds (max requested 1) (new p requested) [] :=
  ⟨sound_new requested, rfl, rfl⟩

/-! ## What a call can do -/

/-- `Enqueued capacity q v o` — what comes of enqueueing an element, which is one of three things. -/
inductive Enqueued (capacity : Nat) (q : SegmentedQueue p) (v : Int32) :
    Outcome (SegmentedQueue p) Unit → Prop
  /-- The last segment has a slot for it. -/
  | extended {init : List (Segment p)} {t : Segment p} (hc : q.chain.Holds (init ++ [t]))
    (hlt : t.write < capacity) : Enqueued capacity q v ⟨q.extended v, [], .ok ()⟩
  /-- All segments are full, and another is linked. -/
  | linked {segments : List (Segment p)} (hc : q.chain.Holds segments)
    (hfull : ∀ s ∈ segments, s.write = capacity) :
    Enqueued capacity q v ⟨q.linked.extended v, [.segmentAllocated capacity], .ok ()⟩
  /-- A segment is needed that no memory could hold. -/
  | stopped (hneeds : q.needsSegment = true) (hm : Store.addressable p capacity = false) :
    Enqueued capacity q v ⟨q, [], .error .capacityOverflow⟩

/-- `Dequeued q v o` — what comes of dequeueing an element that is there. -/
inductive Dequeued (q : SegmentedQueue p) (v : Int32) : Outcome (SegmentedQueue p) p.Out → Prop
  /-- The first segment has a slot to read. -/
  | taken {s : Segment p} {rest : List (Segment p)} (hc : q.chain.Holds (s :: rest))
    (hlt : s.read < s.write) : Dequeued q v ⟨q.taken, [], .ok (p.unpack (p.pack v))⟩
  /-- The first segment is drained, and given back. -/
  | released {s t : Segment p} {rest : List (Segment p)} (hc : q.chain.Holds (s :: t :: rest))
    (hdrained : s.read = s.write) :
    Dequeued q v ⟨q.released.taken, [.segmentReleased], .ok (p.unpack (p.pack v))⟩

/-! ## Queues that hold a list -/

/-- A queue holds what the windows of its segments do. -/
theorem holds_of_segments {q : SegmentedQueue p} {segments : List (Segment p)} {items : List Int32}
    (hc : q.chain.Holds segments) (hs : SoundSegments capacity segments)
    (hcapacity : q.segmentCapacity = capacity) (hsegments : q.segments = segments.length)
    (hsize : q.size = items.length) (hw : segments.flatMap Segment.window = items.map p.pack) :
    Holds capacity q items := by
  have hlist : q.chain.toList = segments := hc.toList_eq
  refine ⟨⟨hc.sound, ?_, ?_, ?_⟩, hcapacity, ?_⟩
  · rw [hlist, hcapacity]
    exact hs
  · rw [hlist]
    exact hsegments
  · rw [hlist, held_eq hs.write_le, hw, List.length_map]
    exact hsize
  · unfold window
    rw [hlist]
    exact hw

namespace Holds

variable {q : SegmentedQueue p} {items : List Int32}

theorem chain (h : Holds capacity q items) : q.chain.Holds q.chain.toList := ⟨h.sound.chain, rfl⟩

theorem inOrder (h : Holds capacity q items) {segments : List (Segment p)}
    (hc : q.chain.Holds segments) : SoundSegments capacity segments := by
  rw [← hc.toList_eq, ← h.capacity_eq]
  exact h.sound.inOrder

theorem segments_eq (h : Holds capacity q items) {segments : List (Segment p)}
    (hc : q.chain.Holds segments) : q.segments = segments.length := by
  rw [← hc.toList_eq]
  exact h.sound.segments_eq

theorem windows_eq (h : Holds capacity q items) {segments : List (Segment p)}
    (hc : q.chain.Holds segments) : segments.flatMap Segment.window = items.map p.pack := by
  rw [← hc.toList_eq]
  exact h.window_eq

theorem size_eq (h : Holds capacity q items) : q.size = items.length := by
  have hw : q.chain.toList.flatMap Segment.window = items.map p.pack := h.window_eq
  rw [h.sound.size_eq, held_eq (h.inOrder h.chain).write_le, hw, List.length_map]

/-! ## Enqueueing -/

/-- An element more in the last segment. -/
theorem extended (h : Holds capacity q items) {init : List (Segment p)} {t : Segment p}
    (hc : q.chain.Holds (init ++ [t])) (hlt : t.write < capacity) (v : Int32) :
    Holds capacity (q.extended v) (items ++ [v]) := by
  have hs := h.inOrder hc
  have hmem : t ∈ init ++ [t] := List.mem_append_right _ List.mem_cons_self
  have hput : (t.put v).window = t.window ++ [p.pack v] := by
    refine Segment.window_put (hs.le_le t hmem).1 ?_ v
    rw [hs.slots_eq t hmem]
    exact hlt
  refine holds_of_segments (hc.modifyBack (Segment.put v)) (hs.put hlt v) h.capacity_eq ?_ ?_ ?_
  · show q.segments = (init ++ [t.put v]).length
    rw [h.segments_eq hc, List.length_append, List.length_append]
    rfl
  · show q.size + 1 = (items ++ [v]).length
    rw [h.size_eq, List.length_append]
    rfl
  · rw [List.map_append, ← h.windows_eq hc, List.flatMap_append, List.flatMap_append,
      List.flatMap_singleton, List.flatMap_singleton, hput, List.append_assoc]
    rfl

/-- An element in a new segment, behind full ones. -/
theorem linked_extended (h : Holds capacity q items) {segments : List (Segment p)}
    (hc : q.chain.Holds segments) (hpos : 0 < capacity)
    (hfull : ∀ s ∈ segments, s.write = capacity) (v : Int32) :
    Holds capacity (q.linked.extended v) (items ++ [v]) := by
  have hvacant : q.linked.chain.Holds (segments ++ [Segment.vacant p capacity]) := by
    rw [← h.capacity_eq]
    exact hc.append _
  have hput : ((Segment.vacant p capacity).put v).window = [p.pack v] := by
    refine Segment.window_put (Nat.le_refl 0) ?_ v
    show 0 < (Store.vacant p capacity).size
    rwa [Store.size_vacant]
  refine holds_of_segments (hvacant.modifyBack (Segment.put v))
    ((h.inOrder hc).link hpos hfull v) h.capacity_eq ?_ ?_ ?_
  · show q.segments + 1 = (segments ++ [(Segment.vacant p capacity).put v]).length
    rw [h.segments_eq hc, List.length_append]
    rfl
  · show q.size + 1 = (items ++ [v]).length
    rw [h.size_eq, List.length_append]
    rfl
  · rw [List.map_append, ← h.windows_eq hc, List.flatMap_append, List.flatMap_singleton, hput]
    rfl

/-- **The paths of an enqueue.** -/
theorem enqueued (h : Holds capacity q items) (hpos : 0 < capacity) (v : Int32) :
    Enqueued capacity q v ((SegmentedQueue.enqueue v).run q) := by
  have hpos' : 0 < q.segmentCapacity := by rwa [h.capacity_eq]
  -- where no slot is left to write, there is memory for a segment or there is not
  have hneeded {segments : List (Segment p)} (hc : q.chain.Holds segments)
      (hneeds : q.needsSegment = true) (hfull : ∀ s ∈ segments, s.write = capacity) :
      Enqueued capacity q v ((SegmentedQueue.enqueue v).run q) := by
    have hlinked : q.linked.chain.back? = some (Segment.vacant p q.segmentCapacity) :=
      (hc.append _).back?_concat
    cases hm : Store.addressable p q.segmentCapacity with
    | true =>
      rw [run_enqueue_of_needs hneeds hm hlinked hpos', h.capacity_eq]
      exact .linked hc hfull
    | false =>
      rw [run_enqueue_of_error hneeds hm]
      exact .stopped hneeds (h.capacity_eq ▸ hm)
  rcases List.eq_nil_or_concat' q.chain.toList with hnil | ⟨init, t, hconcat⟩
  · -- no segment yet
    have hc : q.chain.Holds [] := hnil ▸ h.chain
    refine hneeded hc ?_ fun s hmem => absurd hmem List.not_mem_nil
    simp [needsSegment, hc.back?_nil]
  · have hc : q.chain.Holds (init ++ [t]) := hconcat ▸ h.chain
    have hs := h.inOrder hc
    have hmem : t ∈ init ++ [t] := List.mem_append_right _ List.mem_cons_self
    have hslots : t.slots.size = capacity := hs.slots_eq t hmem
    by_cases hlt : t.write < capacity
    · rw [run_enqueue_of_lt hc.back?_concat (by rwa [hslots])]
      exact .extended hc hlt
    · -- the last segment is full, and so are those before it
      have hfull : t.write = capacity :=
        Nat.le_antisymm (hs.le_le t hmem).2 (Nat.le_of_not_lt hlt)
      refine hneeded hc ?_ (hs.all_full hfull)
      simp [needsSegment, hc.back?_concat, Segment.isFull, hslots, hfull]

/-- **An enqueue appends**, in place or in a new segment, if memory could hold one that it needs. -/
theorem enqueue (h : Holds capacity q items) (hpos : 0 < capacity)
    (hm : q.needsSegment = true → Store.addressable p capacity = true) (v : Int32) :
    ∃ q' log, (SegmentedQueue.enqueue v).run q = ⟨q', log, .ok ()⟩ ∧
      Holds capacity q' (items ++ [v]) := by
  have hpath := h.enqueued hpos v
  generalize hrun : (SegmentedQueue.enqueue v).run q = o at hpath
  cases hpath with
  | extended hc hlt => exact ⟨_, _, rfl, h.extended hc hlt v⟩
  | linked hc hfull => exact ⟨_, _, rfl, h.linked_extended hc hpos hfull v⟩
  | stopped hneeds hnot =>
    rw [hm hneeds] at hnot
    nomatch hnot

/-! ## Dequeueing -/

/-- The first segment with something to read has the first element in its next slot. -/
theorem front_eq {v : Int32} (h : Holds capacity q (v :: items)) {s : Segment p}
    {rest : List (Segment p)} (hc : q.chain.Holds (s :: rest)) (hlt : s.read < s.write) :
    s.slots[s.read]? = some (p.pack v) ∧
      s.skip.window ++ rest.flatMap Segment.window = items.map p.pack := by
  have hle := (h.inOrder hc).write_le s List.mem_cons_self
  have hw := h.windows_eq hc
  obtain ⟨slot, hslot, hwindow⟩ := Segment.window_eq_cons hlt hle
  rw [List.flatMap_cons, hwindow, List.cons_append, List.map_cons] at hw
  obtain ⟨hfirst, hrest⟩ := List.cons.inj hw
  exact ⟨hfirst ▸ hslot, hrest⟩

/-- A segment is rewound when it is drained, and no other follows. -/
theorem chain_rewound {s : Segment p} {rest : List (Segment p)} (hc : q.chain.Holds (s :: rest)) :
    q.rewound.chain.Holds (if s.isDrained && rest.isEmpty then s.rewind :: rest else s :: rest) := by
  have hneeds : q.needsRewind = (s.isDrained && rest.isEmpty) := by
    simp [needsRewind, hc.front?_cons, hc.hasSecond_eq]
  unfold rewound
  rw [hneeds]
  split
  · exact hc.modifyFront Segment.rewind
  · exact hc

/-- A queue whose next slot was read has segments that were read. -/
theorem chain_taken {s : Segment p} {rest : List (Segment p)} (hc : q.chain.Holds (s :: rest))
    (hlt : s.read < s.write) :
    ∃ segments, q.taken.chain.Holds segments ∧ Read (s :: rest) segments := by
  have hskipped : q.skipped.chain.Holds (s.skip :: rest) := hc.modifyFront Segment.skip
  have hrewound := chain_rewound hskipped
  refine ⟨_, hrewound, ?_⟩
  by_cases hmore : s.read + 1 < s.write ∨ rest ≠ []
  · have hkept : ¬ (s.skip.isDrained && rest.isEmpty) = true := by
      rw [Bool.and_eq_true, List.isEmpty_iff]
      rintro ⟨hdrained, rfl⟩
      have hlast : s.read + 1 = s.write := beq_iff_eq.mp hdrained
      rcases hmore with hless | hne
      · exact absurd hlast (Nat.ne_of_lt hless)
      · exact hne rfl
    rw [if_neg hkept]
    exact .skip hlt hmore
  · obtain ⟨hnot, hnil⟩ := not_or.mp hmore
    obtain rfl : rest = [] := Decidable.not_not.mp hnil
    have hlast : s.read + 1 = s.write := by omega
    have hdrained : (s.skip.isDrained && ([] : List (Segment p)).isEmpty) = true := by
      rw [List.isEmpty_nil, Bool.and_true]
      exact beq_iff_eq.mpr hlast
    rw [if_pos hdrained]
    exact .rewind hlast

/-- An element less in the first segment, rewound or not. -/
theorem taken {v : Int32} (h : Holds capacity q (v :: items)) {s : Segment p}
    {rest : List (Segment p)} (hc : q.chain.Holds (s :: rest)) (hlt : s.read < s.write) :
    Holds capacity q.taken items := by
  have hs := h.inOrder hc
  obtain ⟨_, hw⟩ := h.front_eq hc hlt
  have hsize : q.size - 1 = items.length := by
    rw [h.size_eq]
    rfl
  have hcapacity : q.taken.segmentCapacity = capacity :=
    (segmentCapacity_rewound q.skipped).trans h.capacity_eq
  obtain ⟨segments, htaken, hread⟩ := chain_taken hc hlt
  have hcount : q.taken.segments = segments.length := by
    rw [hread.length_eq, ← h.segments_eq hc]
    exact segments_rewound q.skipped
  cases hread with
  | skip _ hmore => exact holds_of_segments htaken (hs.skip hlt hmore) hcapacity hcount hsize hw
  | rewind hlast =>
    -- drained and alone: nothing is left, and rewinding loses nothing
    refine holds_of_segments htaken hs.skip_rewind hcapacity hcount hsize ?_
    rw [← hw, Segment.window_of_drained hlast]
    rfl

/-- Giving back a drained segment loses no element. -/
theorem released (h : Holds capacity q items) {s t : Segment p} {rest : List (Segment p)}
    (hc : q.chain.Holds (s :: t :: rest)) (hdrained : s.read = s.write) :
    Holds capacity q.released items := by
  have hs := h.inOrder hc
  refine holds_of_segments hc.dropFront hs.release h.capacity_eq ?_ h.size_eq ?_
  · show q.segments - 1 = (t :: rest).length
    rw [h.segments_eq hc]
    rfl
  · rw [← h.windows_eq hc, List.flatMap_cons, List.flatMap_cons, List.flatMap_cons,
      Segment.window_of_drained hdrained, List.nil_append]

/-- A queue without elements has no segment, or a drained one that is alone. -/
theorem dequeue_nil (h : Holds capacity q []) :
    SegmentedQueue.dequeue.run q = ⟨q, [], .ok p.empty⟩ := by
  cases hlist : q.chain.toList with
  | nil =>
    have hc : q.chain.Holds [] := hlist ▸ h.chain
    exact run_dequeue_of_front?_none hc.front?_nil
  | cons s rest =>
    have hc : q.chain.Holds (s :: rest) := hlist ▸ h.chain
    have hs := h.inOrder hc
    have hw := h.windows_eq hc
    rw [List.flatMap_cons, List.map_nil, List.append_eq_nil_iff] at hw
    have hempty : ∀ t ∈ s :: rest, t.window = [] → ¬ t.read < t.write := by
      intro t hmem hnil hlt
      obtain ⟨slot, _, hcons⟩ := Segment.window_eq_cons hlt (hs.write_le t hmem)
      rw [hnil] at hcons
      nomatch hcons
    have hdrained : s.read = s.write := by
      have hnot := hempty s List.mem_cons_self hw.1
      have hle := (hs.le_le s List.mem_cons_self).1
      omega
    cases rest with
    | nil =>
      exact run_dequeue_of_alone hc.front?_cons (beq_iff_eq.mpr hdrained) hc.hasSecond_eq
    | cons t rest =>
      -- A successor would hold an element.
      have ht := List.append_eq_nil_iff.mp hw.2
      have hmem : t ∈ s :: t :: rest := List.mem_cons_of_mem _ List.mem_cons_self
      exact absurd hs.successor (hempty t hmem ht.1)

/-- **The paths of a dequeue** that finds an element. -/
theorem dequeued {v : Int32} (h : Holds capacity q (v :: items)) :
    Dequeued q v (SegmentedQueue.dequeue.run q) := by
  have hpos : 0 < q.size := by
    rw [h.size_eq]
    exact Nat.succ_pos _
  cases hlist : q.chain.toList with
  | nil =>
    have hc : q.chain.Holds [] := hlist ▸ h.chain
    nomatch h.windows_eq hc
  | cons s rest =>
    have hc : q.chain.Holds (s :: rest) := hlist ▸ h.chain
    have hs := h.inOrder hc
    rcases Nat.lt_or_eq_of_le (hs.le_le s List.mem_cons_self).1 with hlt | hdrained
    · obtain ⟨hslot, _⟩ := h.front_eq hc hlt
      rw [run_dequeue_of_lt hc.front?_cons hlt hslot hpos]
      exact .taken hc hlt
    · cases rest with
      | nil =>
        have hw := h.windows_eq hc
        rw [List.flatMap_singleton, Segment.window_of_drained hdrained] at hw
        nomatch hw
      | cons t rest =>
        -- the successor is read without another look: the invariant says that it holds something
        have hreleased : Holds capacity q.released (v :: items) := h.released hc hdrained
        have hc' : q.released.chain.Holds (t :: rest) := hc.dropFront
        have hsegments : 0 < q.segments := by
          rw [h.segments_eq hc]
          exact Nat.succ_pos _
        obtain ⟨hslot, _⟩ := hreleased.front_eq hc' hs.successor
        rw [run_dequeue_of_drained hc.front?_cons (beq_iff_eq.mpr hdrained) hc.hasSecond_eq
          hsegments hc'.front?_cons hslot hpos]
        exact .released hc hdrained

/-- **A dequeue removes the first element**, from the first segment or, when that is drained, from
    its successor. -/
theorem dequeue_cons {v : Int32} (h : Holds capacity q (v :: items)) :
    ∃ q' log, SegmentedQueue.dequeue.run q = ⟨q', log, .ok (p.unpack (p.pack v))⟩ ∧
      Holds capacity q' items := by
  have hpath := h.dequeued
  generalize hrun : SegmentedQueue.dequeue.run q = o at hpath
  cases hpath with
  | taken hc hlt => exact ⟨_, _, rfl, h.taken hc hlt⟩
  | released hc hdrained =>
    have hsuccessor := (h.inOrder hc).successor
    exact ⟨_, _, rfl, (h.released hc hdrained).taken hc.dropFront hsuccessor⟩

end Holds

/-! ## Refinement -/

theorem refines (hpos : 0 < capacity) (hm : Store.addressable p capacity = true) :
    Queue.Refines (σ := SegmentedQueue p) (Holds capacity) (fun _ _ => True) := by
  apply Queue.Refines.of_outcomes
  · intro q items h
    exact h.size_eq
  · intro q items v h _
    exact h.enqueue hpos (fun _ => hm) v
  · intro q h
    exact ⟨q, [], h.dequeue_nil, h⟩
  · intro q v items h _
    exact h.dequeue_cons

/-! ## Runs -/

/-- What an operation leaves behind that finds no segment and cannot have one: the queue as it
    was. -/
def stopped (q : SegmentedQueue p) : Queue.Op → Outcome (SegmentedQueue p) (Option p.Out)
  | .enqueue _ => ⟨q, [], .error .capacityOverflow⟩
  | .dequeue => ⟨q, [], .ok (some p.empty)⟩

/-- Without memory for a segment, every operation finds the queue as it was made. -/
theorem trace_eq_stopped {requested : Nat}
    (hm : Store.addressable p (max requested 1) = false) (ops : List Queue.Op) :
    Queue.trace ops (new p requested) = ops.map (stopped (new p requested)) := by
  induction ops with
  | nil => rfl
  | cons op rest ih =>
    have hop : (Queue.perform op).run (new p requested) = stopped (new p requested) op := by
      cases op with
      | enqueue v =>
        exact Queue.run_perform_enqueue_of_error (run_enqueue_of_error rfl hm v)
      | dequeue =>
        exact Queue.run_perform_dequeue (run_dequeue_of_front?_none rfl)
    show (Queue.perform op).run (new p requested) ::
        Queue.trace rest ((Queue.perform op).run (new p requested)).state = _
    rw [hop, List.map_cons, ← ih]
    cases op <;> rfl

/-- **A segmented queue is first in, first out**, whatever the placement and the capacity of its
    segments, of which zero counts as one: call by call, its runs are seen to be those of the list, if
    memory could hold a segment.  If not, each enqueue is stopped, and leaves the queue EXACTLY as it
    was. -/
theorem seen_segmented_run (p : Placement) (requested : Nat) (ops : List Queue.Op) :
    (Store.addressable p (max requested 1) = true →
      (Queue.trace ops (new p requested)).map Queue.seen =
        (Queue.trace ops (Reference.empty p)).map Queue.seen) ∧
    (Store.addressable p (max requested 1) = false →
      Queue.trace ops (new p requested) = ops.map (stopped (new p requested))) := by
  constructor
  · intro hm
    exact (refines (requested_pos requested) hm).seen_trace ops (holds_new requested)
      (Queue.throughout_true ops _)
  · intro hm
    exact trace_eq_stopped hm ops

/-- A run through three segments, with a release and a rewind; and one that never gets a segment. -/
theorem seen_segmented_run_of_two_slots :
    let ops : List Queue.Op :=
      [.enqueue 1, .enqueue 2, .enqueue 3, .enqueue 4, .enqueue 5, .dequeue, .dequeue, .dequeue,
        .dequeue, .dequeue, .dequeue, .enqueue 6, .dequeue]
    Store.addressable .boxed (max 2 1) = true ∧
    (Queue.trace ops (new .boxed 2)).map Queue.seen =
      (Queue.trace ops (Reference.empty .boxed)).map Queue.seen ∧
    Store.addressable .inline (max 0x2000000000000000 1) = false ∧
    Queue.trace ops (new .inline 0x2000000000000000) =
      ops.map (stopped (new .inline 0x2000000000000000)) := by
  intro ops
  have htwo : Store.addressable .boxed (max 2 1) = true := by decide
  have hhuge : Store.addressable .inline (max 0x2000000000000000 1) = false := by decide
  exact ⟨htwo, (seen_segmented_run .boxed 2 ops).1 htwo, hhuge,
    (seen_segmented_run .inline 0x2000000000000000 ops).2 hhuge⟩

end Fifo.SegmentedQueue
