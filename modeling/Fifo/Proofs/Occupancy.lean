/-
  OCCUPANCY of the stores of boxed queues: no element is kept longer than it is in the queue.

  1. **Growable queues** — the ring holds a list and nothing else (`Ring.Snug`), which lasts through
     every move, through every refusal, and through a policy that stops a dequeue when the element
     has left.

  2. **Fixed queues** — beyond the capacity the window names slots more than once, and says nothing
     about what lies in them.  What remains is how far the tail is ahead of the head (`Ring.Swept`):
     as many steps as elements are counted, and one more for each enqueue that was stopped because
     the size was the last word.  Such an enqueue has put its element in before it is stopped.

  3. **Segmented queues** — every segment is tidy (`Segment.Tidy`).
-/
import Fifo.Proofs.Indices
import Fifo.Proofs.Ring.Occupancy
import Fifo.Proofs.Segmented.Occupancy

namespace Fifo

open Store (Occupied)
open Fifo.Ring (Swept Snug)
open Call (stops)

/-! ## Rings -/

namespace Ring.Swept

variable {r : Ring .boxed} {n : Nat}

/-- A write goes one step further, whether or not the element can be counted. -/
theorem write (h : Swept (r.size + n) r) (w : IndexRule) (v : Int32) :
    let o := (Ring.write w v).run r
    Swept (o.state.size + (n + stops [o])) o.state := by
  rw [h.toIndexed.run_write]
  have hplaced : Swept (r.size + n + 1) (r.placed v) := h.placed v
  by_cases hword : (r.placed v).size + 1 < Word.limit
  · rw [Call.run_change_of_ok (countUp_eq_ok hword)]
    have hahead : r.size + 1 + (n + 0) = r.size + n + 1 := by omega
    show Swept (r.size + 1 + (n + 0)) _
    rw [hahead]
    exact hplaced.counted _
  · rw [Call.run_change_of_error (countUp_eq_error hword)]
    exact hplaced

/-- A read goes one step back, if an element is counted. -/
theorem read (h : Swept (r.size + n) r) (w : IndexRule) :
    let o := (Ring.read w).run r
    Swept (o.state.size + (n + stops [o])) o.state := by
  rcases Nat.eq_zero_or_pos r.size with hzero | hpos
  · rw [run_read_of_size_eq_zero hzero]
    exact h
  · rw [h.toIndexed.run_read hpos]
    have hahead : r.size - 1 + (n + 0) + 1 = r.size + n := by omega
    refine Swept.taken ?_
    show Swept (r.size - 1 + (n + 0) + 1) r
    rw [hahead]
    exact h

end Ring.Swept

/-! ## Fixed queues -/

namespace FixedQueue

variable {w : IndexRule} {q : FixedQueue .boxed w} {n : Nat}

theorem swept_perform (h : Swept (q.size + n) q.ring) (op : Queue.Op) :
    let o := (Queue.perform op).run q
    Swept (o.state.size + (n + stops [o])) o.state.ring := by
  cases op with
  | enqueue v =>
    simp only [Queue.run_perform_enqueue_eq, Call.stops_mapAnswer]
    exact h.write w v
  | dequeue =>
    simp only [Queue.run_perform_dequeue_eq, Call.stops_mapAnswer]
    exact h.read w

/-- **The tail is ahead of the head** by the elements that are counted and by those that could not be,
    after every run. -/
theorem swept_after (ops : List Queue.Op) (h : Swept (q.size + n) q.ring) :
    Swept ((Queue.after ops q).size + (n + stops (Queue.trace ops q))) (Queue.after ops q).ring := by
  induction ops generalizing q n with
  | nil => exact h
  | cons op rest ih =>
    have hrest := ih (swept_perform h op)
    rw [Nat.add_assoc n, ← Call.stops_cons] at hrest
    exact hrest

theorem Made.swept (h : q.Made) : Swept (q.size + 0) q.ring := by
  obtain ⟨requested, hnew⟩ := h.exists_new
  obtain ⟨rfl, hw, _⟩ := new_eq_ok hnew
  exact Ring.swept_vacant (Capacity.isPower_leastPower requested) hw

/-- In a run that never overflows, the ring holds a list and nothing else. -/
theorem Made.snug_after (h : q.Made) {ops : List Queue.Op}
    (hroom : Queue.Throughout (Queue.Room q.capacity) ops q) : Snug (Queue.after ops q).ring := by
  have hholds : Holds q.capacity q [] := by
    obtain ⟨requested, hnew⟩ := h.exists_new
    have hnil := holds_new hnew
    rwa [← hnil.capacity_eq] at hnil
  have hanswered := Queue.answered_of_seen_eq ((refines q.capacity).seen_trace ops hholds hroom)
  have hswept := swept_after ops h.swept
  rw [Call.stops_eq_zero hanswered] at hswept
  exact ⟨⟨_, ((refines q.capacity).holds_after ops hholds hroom).ring⟩, hswept⟩

/-- An enqueue is stopped only if there were more enqueues than a word can count. -/
theorem Made.stops_eq_zero (h : q.Made) {ops : List Queue.Op}
    (hn : ops.countP (· ≠ .dequeue) < Word.limit) : stops (Queue.trace ops q) = 0 := by
  have hcount : (History.empty.after ops).writes.length < Word.limit := by
    rw [History.length_writes_after]
    exact Nat.lt_of_le_of_lt (Nat.le_of_eq (Nat.zero_add _)) hn
  exact Call.stops_eq_zero (Follows.run ops h.follows hcount).1

end FixedQueue

/-! ## Growable queues -/

theorem GrowableQueue.Made.snug {w : IndexRule} {s : ShrinkPolicy} {q : GrowableQueue .boxed w s}
    (h : q.Made) : Snug q.ring := by
  obtain ⟨requested, hnew⟩ := h.exists_new
  obtain ⟨rfl, hw, _⟩ := new_eq_ok hnew
  have hp := Capacity.isPower_leastPower requested
  exact ⟨⟨[], Ring.holds_vacant hp hw⟩, Ring.swept_vacant hp hw⟩

/-! ## Runs -/

/-- **No element stays in a store once it has left the queue, and none lies there twice.**  After
    every run of a boxed growable queue, whichever calls were refused, or stopped by the policy, and
    of a fixed queue that has never overflowed, the slot at a place is occupied if that place is
    less than `size` steps after the head, and only then; after every run of a segmented queue, if
    it was written and not read.  Whatever overflow there was in a fixed queue, no more slots are
    occupied than elements are counted, so that none is when their number is zero; an enqueue that
    was stopped counts here too, but for that the enqueues must be more than a word can count. -/
theorem occupancy_in_runs (w : IndexRule) :
    (∀ (s : ShrinkPolicy) (q : GrowableQueue .boxed w s), q.Made →
      ∀ ops : List GrowableQueue.Op,
        let r := (Call.final GrowableQueue.perform ops q).ring
        ∀ i < r.capacity, Occupied r.store i ↔ (i + r.capacity - r.head) % r.capacity < r.size) ∧
    (∀ q : FixedQueue .boxed w, q.Made →
      ∀ ops : List Queue.Op,
        let r := (Queue.after ops q).ring
        let stopped := stops (Queue.trace ops q)
        (Queue.Throughout (Queue.Room q.capacity) ops q →
          ∀ i < r.capacity, Occupied r.store i ↔ (i + r.capacity - r.head) % r.capacity < r.size) ∧
        Nat.count (Occupied r.store) r.capacity ≤ min (r.size + stopped) r.capacity ∧
        (r.size + stopped = 0 → ∀ i, ¬ Occupied r.store i) ∧
        (ops.countP (· ≠ .dequeue) < Word.limit → stopped = 0)) ∧
    (∀ (requested : Nat) (ops : List Queue.Op),
      ∀ s ∈ (Queue.after ops (SegmentedQueue.new .boxed requested)).chain.toList,
        ∀ i, Occupied s.slots i ↔ s.read ≤ i ∧ i < s.write) := by
  refine ⟨?_, ?_, SegmentedQueue.tidy_after⟩
  · intro s q hq ops r i hi
    have hr : Snug r := (GrowableQueue.kept_of_lasting Ring.lasting_snug).final ops hq.snug
    exact hr.occupied_iff hi
  · intro q hq ops r stopped
    have hr : Swept (r.size + (0 + stopped)) r := FixedQueue.swept_after ops hq.swept
    rw [Nat.zero_add] at hr
    refine ⟨?_, hr.count_le, ?_, hq.stops_eq_zero⟩
    · intro hroom i hi
      exact (hq.snug_after hroom).occupied_iff hi
    · intro hzero i hocc
      have hlt := hr.stepsTo_lt_ahead hocc
      omega

/-- A queue that loses its first element to a policy that asks for three slots, with the other one in
    the second slot; a queue of two slots that is filled twice, and one in which the third element
    overwrote the first, and nothing is left when it has been drained; and two segments, of which the
    first was read once. -/
theorem occupancy_in_runs_of_mask :
    let s := ShrinkPolicy.table [⟨1, 2, 3⟩]
    let growable : GrowableQueue .boxed .mask s := ⟨Ring.vacant .boxed 2, 0, 0⟩
    let stopped : List GrowableQueue.Op :=
      [.enqueue 1, .enqueue 2, .tryEnqueue (fun _ => false) 3, .dequeue]
    let r := (Call.final GrowableQueue.perform stopped growable).ring
    let fixed : FixedQueue .boxed .mask := ⟨Ring.vacant .boxed 2⟩
    let within : List Queue.Op := [.enqueue 1, .enqueue 2, .dequeue, .enqueue 3]
    let beyond : List Queue.Op :=
      [.enqueue 1, .enqueue 2, .enqueue 3, .dequeue, .dequeue, .dequeue]
    let full := (Queue.after within fixed).ring
    let drained := (Queue.after beyond fixed).ring
    let segmented := Queue.after [.enqueue 1, .enqueue 2, .enqueue 3, .dequeue]
      (SegmentedQueue.new .boxed 2)
    growable.Made ∧
      (∀ i < r.capacity, Occupied r.store i ↔ (i + r.capacity - r.head) % r.capacity < r.size) ∧
      ¬ Occupied r.store 0 ∧ Occupied r.store 1 ∧
    fixed.Made ∧ Queue.Throughout (Queue.Room fixed.capacity) within fixed ∧
      (∀ i < full.capacity,
        Occupied full.store i ↔ (i + full.capacity - full.head) % full.capacity < full.size) ∧
      beyond.countP (· ≠ .dequeue) < Word.limit ∧ drained.size = 0 ∧
      (∀ i, ¬ Occupied drained.store i) ∧
    (∀ s ∈ segmented.chain.toList, ∀ i, Occupied s.slots i ↔ s.read ≤ i ∧ i < s.write) ∧
      segmented.chain.toList.length = 2 := by
  intro s growable stopped r fixed within beyond full drained segmented
  obtain ⟨hgrowables, hfixeds, hsegmenteds⟩ := occupancy_in_runs .mask
  have hgrowable : growable.Made := ⟨2, .inl rfl⟩
  have hfixed : fixed.Made := ⟨2, .inl rfl⟩
  have hroom : Queue.Throughout (Queue.Room fixed.capacity) within fixed := by decide +kernel
  have hn : beyond.countP (· ≠ .dequeue) < Word.limit := by decide
  have hsize : drained.size = 0 := by decide +kernel
  obtain ⟨hwithin, _⟩ := hfixeds fixed hfixed within
  obtain ⟨_, _, hvacant, hstops⟩ := hfixeds fixed hfixed beyond
  have hnone : drained.size + stops (Queue.trace beyond fixed) = 0 := by
    rw [hsize, hstops hn]
  exact ⟨hgrowable, hgrowables s growable hgrowable stopped, by decide +kernel, by decide +kernel,
    hfixed, hroom, hwithin hroom, hn, hsize, hvacant hnone, hsegmenteds 2 _, by decide +kernel⟩

end Fifo
