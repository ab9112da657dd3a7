/-
  ORDER in fixed queues: first in, first out, while there is room.

  Nothing looks whether a fixed queue is full.  It refines the list only in runs whose enqueues find
  fewer elements than there are slots (`Queue.Room`); what happens beyond is the subject of
  `Fifo.Proofs.Fixed.Overflow`.
-/
import Fifo.Proofs.Refinement
import Fifo.Proofs.Ring.Window

namespace Fifo.FixedQueue

variable {p : Placement} {w : IndexRule}

/-! ## Steps -/

theorem run_onRing {α : Type} (c : Call (Ring p) α) (q : FixedQueue p w) :
    (onRing c).run q = (c.run q.ring).mapState fun ring => ⟨ring⟩ := rfl

theorem run_enqueue {q : FixedQueue p w} (h : Ring.Sound q.ring) (hs : q.size + 1 < Word.limit)
    (v : Int32) : (enqueue v).run q = ⟨⟨q.ring.written v⟩, [], .ok ()⟩ := by
  rw [enqueue, run_onRing, Ring.run_write h hs]
  rfl

theorem run_dequeue_of_size_eq_zero {q : FixedQueue p w} (hs : q.size = 0) :
    dequeue.run q = ⟨q, [], .ok p.empty⟩ := by
  rw [dequeue, run_onRing, Ring.run_read_of_size_eq_zero hs]
  rfl

theorem run_dequeue {q : FixedQueue p w} (h : Ring.Sound q.ring) (hs : 0 < q.size) :
    dequeue.run q = ⟨⟨q.ring.taken⟩, [], .ok (p.unpack q.ring.front)⟩ := by
  rw [dequeue, run_onRing, Ring.run_read h hs]
  rfl

/-- A queue that was made for a request is vacant, and its capacity is the request rounded up. -/
theorem new_eq_ok {requested : Nat} {q : FixedQueue p w} (h : new p w requested = .ok q) :
    q = ⟨Ring.vacant p (Capacity.leastPower requested)⟩ ∧
      Capacity.leastPower requested < Word.limit ∧
      Store.addressable p (Capacity.leastPower requested) = true := by
  have hmap : (Ring.new p requested).map (fun ring => (⟨ring⟩ : FixedQueue p w)) = .ok q := h
  obtain ⟨ring, hring, rfl⟩ := exists_of_map_eq_ok hmap
  obtain ⟨rfl, hw, hm⟩ := Ring.new_eq_ok hring
  exact ⟨rfl, hw, hm⟩

/-- What was reserved could have been asked for. -/
theorem new_of_new? {a : Allocator} {requested : Nat} {q : FixedQueue p w}
    (h : new? a p w requested = .ok q) : new p w requested = .ok q := by
  have hmap : (Ring.new? a p requested).map (fun ring => (⟨ring⟩ : FixedQueue p w)) = .ok q := h
  obtain ⟨ring, hring, rfl⟩ := exists_of_map_eq_ok hmap
  rw [new, Ring.new_of_new? hring]
  rfl

/-- `Made q` — the queue is a new one: for some request it was asked for, or reserved. -/
def Made (q : FixedQueue p w) : Prop :=
  ∃ requested, new p w requested = .ok q ∨ ∃ a, new? a p w requested = .ok q

theorem Made.exists_new {q : FixedQueue p w} (h : q.Made) :
    ∃ requested, new p w requested = .ok q := by
  obtain ⟨requested, hnew | ⟨a, hreserved⟩⟩ := h
  · exact ⟨requested, hnew⟩
  · exact ⟨requested, new_of_new? hreserved⟩

/-! ## Refinement -/

/-- `Holds capacity q items` — the queue has that capacity, and its elements are `items`. -/
structure Holds (capacity : Nat) (q : FixedQueue p w) (items : List Int32) : Prop where
  capacity_eq : q.capacity = capacity
  ring : q.ring.Holds items

theorem holds_new {requested : Nat} {q : FixedQueue p w} (h : new p w requested = .ok q) :
    Holds (Capacity.leastPower requested) q [] := by
  obtain ⟨rfl, hw, _⟩ := new_eq_ok h
  exact
    { capacity_eq := Store.size_vacant p _
      ring := Ring.holds_vacant (Capacity.isPower_leastPower requested) hw }

theorem Made.fitting {q : FixedQueue p w} (h : q.Made) : Ring.Fitting q.ring := by
  obtain ⟨requested, hnew⟩ := h.exists_new
  exact (holds_new hnew).ring.fitting

theorem refines (capacity : Nat) :
    Queue.Refines (σ := FixedQueue p w) (Holds capacity) (Queue.Room capacity) := by
  apply Queue.Refines.of_outcomes
  · intro q items h
    exact h.ring.size_eq
  · intro q items v h hroom
    have hlt : q.ring.size < q.ring.capacity := by
      have hsize : q.ring.size < capacity := hroom (by simp)
      rw [show q.ring.capacity = capacity from h.capacity_eq]
      exact hsize
    have hword : q.size + 1 < Word.limit := h.ring.fitting.succ_lt hlt
    refine ⟨_, _, run_enqueue h.ring.fitting.toSound hword v, ?_, h.ring.written hlt v⟩
    exact (Ring.capacity_written q.ring v).trans h.capacity_eq
  · intro q h
    exact ⟨q, [], run_dequeue_of_size_eq_zero h.ring.size_eq, h⟩
  · intro q v items h _
    rw [← h.ring.front_eq]
    refine ⟨_, _, run_dequeue h.ring.fitting.toSound h.ring.size_pos, ?_, h.ring.taken⟩
    exact (Ring.capacity_taken q.ring).trans h.capacity_eq

end Fifo.FixedQueue
