/-
  COUNTING segments: how many there are, and how many there ever were.

  1. **A list in order** — all segments but the first and the last are full and unread, and the last
     has something in it.  So `n + 2` segments hold more than `n` times the capacity, and any number
     at most that many times.

  2. **A call** — the slots of a segment are PAID FOR by enqueues.  Between two allocations the last
     segment is filled, slot by slot, and each slot is an enqueue; rewinding only makes it take longer.
     `filled` is how far that has come.  A rewound segment counts as one with a slot filled, because
     that was paid for when it was linked; where there is no segment all slots count, because the next
     enqueue links one.

  3. **A run** — `Tally`, from one queue to another, adds up over a run.
-/
import Mathlib.Algebra.Order.Floor.Div
import Fifo.Proofs.Segmented.Moves

namespace Fifo.SegmentedQueue

variable {p : Placement} {capacity : Nat}

open Segment (held)

/-! ## A list in order -/

namespace SoundSegments

theorem held_le {segments : List (Segment p)} (h : SoundSegments capacity segments) :
    held segments ≤ capacity * segments.length := by
  induction segments with
  | nil => exact Nat.zero_le _
  | cons s rest ih =>
    have hsize : s.size ≤ capacity :=
      Nat.le_trans (Nat.sub_le _ _) (h.le_le s List.mem_cons_self).2
    cases rest with
    | nil => simpa [held] using hsize
    | cons t rest =>
      have hrest : held (t :: rest) ≤ capacity * (t :: rest).length := ih h.release
      show s.size + held (t :: rest) ≤ capacity * ((t :: rest).length + 1)
      rw [Nat.mul_add_one]
      omega

/-- Behind the first segment all are full but the last, which holds an element. -/
theorem lt_held {s t : Segment p} {rest : List (Segment p)}
    (h : SoundSegments capacity (s :: t :: rest)) :
    capacity * rest.length < held (t :: rest) := by
  induction rest generalizing s t with
  | nil =>
    have hlt : 0 < t.size := Nat.sub_pos_of_lt h.successor
    show capacity * 0 < t.size + 0
    omega
  | cons u rest ih =>
    have hrest : capacity * rest.length < held (u :: rest) := ih h.release
    have hsize : t.size = capacity := by
      have hfull : t.write = capacity :=
        h.full t (List.mem_cons_of_mem _ List.mem_cons_self)
      have hunread : t.read = 0 := (h.unread t List.mem_cons_self).1
      unfold Segment.size
      omega
    show capacity * (rest.length + 1) < t.size + held (u :: rest)
    rw [Nat.mul_add_one]
    omega

/-- **As many segments as the elements need**, and at most one more. -/
theorem length_bounds {segments : List (Segment p)} (h : SoundSegments capacity segments)
    (hpos : 0 < capacity) :
    held segments ⌈/⌉ capacity ≤ segments.length ∧
      segments.length ≤ held segments ⌈/⌉ capacity + 1 := by
  constructor
  · exact (ceilDiv_le_iff_le_mul hpos).mpr h.held_le
  · match segments, h with
    | [], _ => exact Nat.zero_le _
    | [s], _ => exact Nat.le_add_left _ _
    | s :: t :: rest, h =>
      have hlt : capacity * rest.length < held (s :: t :: rest) :=
        Nat.lt_of_lt_of_le h.lt_held (Nat.le_add_left _ _)
      have hnot : ¬ held (s :: t :: rest) ⌈/⌉ capacity ≤ rest.length := by
        rw [ceilDiv_le_iff_le_mul hpos]
        exact Nat.not_le.mpr hlt
      show rest.length + 1 + 1 ≤ _
      omega

end SoundSegments

/-! ## A call -/

/-- How many segments were allocated, by what was logged. -/
def allocations (log : List Record) : Nat :=
  log.countP fun
    | .segmentAllocated _ => true
    | _ => false

theorem puts_trace_cons (op : Queue.Op) (rest : List Queue.Op) (q : SegmentedQueue p) :
    puts (Queue.trace (op :: rest) q) =
      puts [(Queue.perform op).run q] +
        puts (Queue.trace rest ((Queue.perform op).run q).state) := by
  show puts ([(Queue.perform op).run q] ++ Queue.trace rest ((Queue.perform op).run q).state) = _
  exact List.countP_append

/-- An enqueue puts one element in, or is stopped. -/
theorem puts_trace_le (ops : List Queue.Op) (q : SegmentedQueue p) :
    puts (Queue.trace ops q) ≤ ops.countP (· ≠ .dequeue) := by
  induction ops generalizing q with
  | nil => exact Nat.le_refl 0
  | cons op rest ih =>
    have hrest := ih ((Queue.perform op).run q).state
    have hop : puts [(Queue.perform op).run q] ≤ [op].countP (· ≠ .dequeue) := by
      cases op with
      | enqueue v => exact List.countP_le_length
      | dequeue =>
        rw [Queue.run_perform_dequeue_eq]
        rcases (Queue.dequeue : Call (SegmentedQueue p) p.Out).run q with ⟨q', log, _ | out⟩ <;>
          exact Nat.le_refl 0
    show _ ≤ ([op] ++ rest).countP (· ≠ .dequeue)
    rw [puts_trace_cons, List.countP_append]
    exact Nat.add_le_add hop hrest

/-- How many slots of the last segment are paid for. -/
def filled (capacity : Nat) (segments : List (Segment p)) : Nat :=
  match segments.getLast? with
  | some t => max 1 t.write
  | none => capacity

theorem filled_concat (init : List (Segment p)) (t : Segment p) :
    filled capacity (init ++ [t]) = max 1 t.write := by
  unfold filled
  rw [List.getLast?_concat]

theorem filled_cons_cons (s t : Segment p) (rest : List (Segment p)) :
    filled capacity (s :: t :: rest) = filled capacity (t :: rest) := by
  unfold filled
  rw [List.getLast?_cons_cons]

/-- Full segments are paid for. -/
theorem filled_of_full {segments : List (Segment p)} (hpos : 0 < capacity)
    (hfull : ∀ s ∈ segments, s.write = capacity) : filled capacity segments = capacity := by
  rcases List.eq_nil_or_concat' segments with rfl | ⟨init, t, rfl⟩
  · rfl
  · rw [filled_concat, hfull t (List.mem_append_right _ List.mem_cons_self)]
    exact Nat.max_eq_right hpos

theorem filled_pos (hpos : 0 < capacity) (segments : List (Segment p)) :
    0 < filled capacity segments := by
  rcases List.eq_nil_or_concat' segments with rfl | ⟨init, t, rfl⟩
  · exact hpos
  · rw [filled_concat]
    exact Nat.le_max_left _ _

theorem filled_read (capacity : Nat) {segments segments' : List (Segment p)}
    (h : Read segments segments') :
    filled capacity segments' ≤ filled capacity segments := by
  cases h with
  | @skip s rest =>
    cases rest with
    | nil => exact Nat.le_refl _
    | cons t rest => rw [filled_cons_cons, filled_cons_cons]
  | @rewind s => exact Nat.le_max_left 1 s.write

/-- **A move is paid for by what it puts in**: what is put in pays for a slot, and reading pays for
    nothing. -/
theorem Move.paid {segments segments' : List (Segment p)} {n : Nat} {log : List Record}
    (hpos : 0 < capacity) (h : Move capacity segments n log segments') :
    capacity * allocations log + filled capacity segments' ≤ n + filled capacity segments := by
  cases h with
  | idle => exact Nat.le_refl _
  | @put init t hlt v =>
    -- the slot that is written is the one that is paid for
    rw [filled_concat, filled_concat]
    show capacity * 0 + max 1 (t.write + 1) ≤ 1 + max 1 t.write
    omega
  | link hfull v =>
    -- all slots of the full segments are paid for, and one of the new segment is
    rw [filled_concat, filled_of_full hpos hfull]
    show capacity * 1 + max 1 (0 + 1) ≤ 1 + capacity
    omega
  | read hread =>
    have hle := filled_read capacity hread
    show capacity * 0 + _ ≤ 0 + _
    omega
  | @release s rest segments' _ hread =>
    have hle := filled_read capacity hread
    show capacity * 0 + _ ≤ 0 + _
    cases rest with
    | nil => nomatch hread
    | cons t rest =>
      rw [filled_cons_cons]
      omega

/-- The first element to be put in brings a segment, and the last one stays. -/
theorem Move.length_eq_zero_iff {segments segments' : List (Segment p)} {n : Nat} {log : List Record}
    (h : Move capacity segments n log segments') :
    segments'.length = 0 ↔ segments.length = 0 ∧ n = 0 := by
  cases h with
  | idle => simp
  | put => simp
  | link => simp
  | read hread => simp [hread.length_eq]
  | @release s rest _ _ hread =>
    have hlength := hread.length_eq
    cases rest with
    | nil => nomatch hread
    | cons t rest => simp [hlength]

/-- `Tally capacity q q' puts allocations` — on the way from `q` to `q'` so many elements were put
    in, and so many segments allocated. -/
structure Tally (capacity : Nat) (q q' : SegmentedQueue p) (puts allocations : Nat) : Prop where
  /-- The segments allocated were paid for. -/
  paid : capacity * allocations + filled capacity q'.chain.toList ≤
    puts + filled capacity q.chain.toList
  /-- The first element to be put in brings a segment, and the last one stays. -/
  segments_eq_zero_iff : q'.segments = 0 ↔ q.segments = 0 ∧ puts = 0

namespace Tally

theorem refl (q : SegmentedQueue p) : Tally capacity q q 0 0 :=
  ⟨by simp, by simp⟩

theorem trans {q q' q'' : SegmentedQueue p} {m n a b : Nat} (h : Tally capacity q q' m a)
    (h' : Tally capacity q' q'' n b) : Tally capacity q q'' (m + n) (a + b) := by
  obtain ⟨hpaid, hiff⟩ := h
  obtain ⟨hpaid', hiff'⟩ := h'
  constructor
  · rw [Nat.mul_add]
    omega
  · rw [hiff', hiff]
    omega

end Tally

namespace Holds

variable {q : SegmentedQueue p} {items : List Int32}

/-- **A call pays for the segment that it brings.** -/
theorem tally_perform (h : Holds capacity q items) (hpos : 0 < capacity) (op : Queue.Op) :
    let o := (Queue.perform op).run q
    Tally capacity q o.state (puts [o]) (allocations o.log) ∧
      ∃ items', Holds capacity o.state items' := by
  obtain ⟨hmove, items', hheld⟩ := h.move_perform hpos op
  refine ⟨⟨hmove.paid hpos, ?_⟩, items', hheld⟩
  rw [h.segments_eq h.chain, hheld.segments_eq hheld.chain]
  exact hmove.length_eq_zero_iff

/-! ## A run -/

/-- **A run adds up**, call by call, and leaves a queue that holds a list. -/
theorem tally_run (ops : List Queue.Op) (h : Holds capacity q items) (hpos : 0 < capacity) :
    Tally capacity q (Queue.after ops q) (puts (Queue.trace ops q))
        (allocations (Call.logged Queue.perform ops q)) ∧
      ∃ items', Holds capacity (Queue.after ops q) items' := by
  induction ops generalizing q items with
  | nil => exact ⟨Tally.refl q, _, h⟩
  | cons op rest ih =>
    obtain ⟨hstep, items', hheld⟩ := h.tally_perform hpos op
    obtain ⟨hrest, hafter⟩ := ih hheld
    refine ⟨?_, hafter⟩
    have hlogged : allocations (Call.logged Queue.perform (op :: rest) q) =
        allocations ((Queue.perform op).run q).log +
          allocations (Call.logged Queue.perform rest ((Queue.perform op).run q).state) := by
      rw [Call.logged_cons]
      exact List.countP_append
    rw [puts_trace_cons, hlogged]
    exact hstep.trans hrest

end Holds

/-- **Segments are in order, and there are no more of them than elements need.**  After every run the
    chain is in order, and the two numbers of the queue count it.  There is a segment as soon as there
    was an element; then there are as many as the elements need, or one more, and at least one.  A
    queue without elements keeps at most one, and a dequeue does not change it.  No more segments were
    ever allocated than all the elements would need that were ever put in. -/
theorem segments_in_runs (p : Placement) (requested : Nat) (ops : List Queue.Op) :
    let k := max requested 1
    let made := new p requested
    let q := Queue.after ops made
    let n := puts (Queue.trace ops made)
    q.chain.Sound ∧ SoundSegments k q.chain.toList ∧ q.segmentCapacity = k ∧
    q.segments = q.chain.toList.length ∧ q.size = held q.chain.toList ∧
    (q.segments = 0 ↔ n = 0) ∧
    (q.segments ≠ 0 →
      max 1 (q.size ⌈/⌉ k) ≤ q.segments ∧ q.segments ≤ q.size ⌈/⌉ k + 1) ∧
    (q.size = 0 → q.segments ≤ 1 ∧ dequeue.run q = ⟨q, [], .ok p.empty⟩) ∧
    allocations (Call.logged Queue.perform ops made) ≤ n ⌈/⌉ k ∧
    n ≤ ops.countP (· ≠ .dequeue) := by
  intro k made q n
  have hpos : 0 < k := requested_pos requested
  obtain ⟨⟨hpaid, hiff⟩, items, hq⟩ := (holds_new requested).tally_run ops hpos
  have hsound : SoundSegments k q.chain.toList := hq.inOrder hq.chain
  have hsegments : q.segments = q.chain.toList.length := hq.segments_eq hq.chain
  have hsize : q.size = held q.chain.toList := hq.sound.size_eq
  obtain ⟨hlower, hupper⟩ := hsound.length_bounds hpos
  rw [← hsegments, ← hsize] at hlower hupper
  refine ⟨hq.sound.chain, hsound, hq.capacity_eq, hsegments, hsize, ?_, ?_, ?_, ?_, ?_⟩
  · rw [hiff]
    exact and_iff_right rfl
  · intro hne
    exact ⟨Nat.max_le.mpr ⟨Nat.pos_of_ne_zero hne, hlower⟩, hupper⟩
  · intro hzero
    have hnil : items = [] := List.eq_nil_of_length_eq_zero (hq.size_eq ▸ hzero)
    subst hnil
    rw [hzero, zero_ceilDiv] at hupper
    exact ⟨hupper, hq.dequeue_nil⟩
  · have hfilled := filled_pos hpos q.chain.toList
    have hpaid' : k * allocations (Call.logged Queue.perform ops made) +
        filled k q.chain.toList ≤ n + k := hpaid
    rw [Nat.ceilDiv_eq_add_pred_div, Nat.le_div_iff_mul_le hpos, Nat.mul_comm]
    omega
  · exact puts_trace_le ops made

/-- Two elements in two segments of two slots each, which is one segment more than they need; and the
    same queue when it is empty again. -/
theorem segments_in_runs_of_two_slots :
    let made := new .boxed 2
    let ops : List Queue.Op := [.enqueue 1, .enqueue 2, .enqueue 3, .dequeue]
    let q := Queue.after ops made
    let drained := Queue.after (ops ++ [.dequeue, .dequeue]) made
    q.segments ≠ 0 ∧ (max 1 (q.size ⌈/⌉ 2) ≤ q.segments ∧ q.segments ≤ q.size ⌈/⌉ 2 + 1) ∧
    q.size = 2 ∧ q.segments = 2 ∧
    drained.size = 0 ∧ drained.segments ≤ 1 ∧ dequeue.run drained = ⟨drained, [], .ok none⟩ := by
  intro made ops q drained
  obtain ⟨_, _, _, _, _, _, hbounds, _⟩ := segments_in_runs .boxed 2 ops
  obtain ⟨_, _, _, _, _, _, _, hempty, _⟩ := segments_in_runs .boxed 2 (ops ++ [.dequeue, .dequeue])
  have hsome : q.segments ≠ 0 := by decide +kernel
  have hnone : drained.size = 0 := by decide +kernel
  exact ⟨hsome, hbounds hsome, by decide +kernel, by decide +kernel, hnone, hempty hnone⟩

end Fifo.SegmentedQueue
