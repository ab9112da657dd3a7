/-
  ORDER in linked queues: first in, first out, whatever happens.

  A linked queue holds a list of elements if its chain holds their slots, one node each, and its
  number is theirs.  Nothing runs full and nothing is asked for that could be refused, so the queue
  refines the list in EVERY run (`LinkedQueue.refines`).
-/
import Fifo.Proofs.Chain.Walk
import Fifo.Proofs.Refinement

namespace Fifo.LinkedQueue

variable {p : Placement}

/-! ## Steps -/

theorem run_enqueue (q : LinkedQueue p) (v : Int32) :
    (enqueue v).run q = ⟨⟨q.chain.append (p.pack v), q.size + 1⟩, [], .ok ()⟩ := rfl

theorem run_dequeue_of_front?_none {q : LinkedQueue p} (h : q.chain.front? = none) :
    dequeue.run q = ⟨q, [], .ok p.empty⟩ := by
  simp [dequeue, h]

theorem countDown_eq_ok {q : LinkedQueue p} (hs : 0 < q.size) :
    countDown q = .ok { q with size := q.size - 1 } := by
  unfold countDown
  rw [Word.pred_eq_ok hs]
  rfl

theorem run_dequeue_of_front?_some {q : LinkedQueue p} {slot : p.Slot}
    (h : q.chain.front? = some slot) (hs : 0 < q.size) :
    dequeue.run q = ⟨⟨q.chain.dropFront, q.size - 1⟩, [], .ok (p.unpack slot)⟩ := by
  have hdown : countDown (⟨q.chain.dropFront, q.size⟩ : LinkedQueue p) =
      .ok ⟨q.chain.dropFront, q.size - 1⟩ := countDown_eq_ok hs
  simp only [dequeue, Call.run_bind, Call.run_self, Outcome.andThen_ok, h, Call.run_update]
  rw [Call.run_change_of_ok hdown]
  simp

/-! ## Refinement -/

/-- `Holds q items` — the elements of the queue are `items`. -/
structure Holds (q : LinkedQueue p) (items : List Int32) : Prop where
  chain : q.chain.Holds (items.map p.pack)
  size_eq : q.size = items.length

theorem holds_new : Holds (new p) [] := ⟨Chain.holds_empty, rfl⟩

namespace Holds

variable {q : LinkedQueue p} {items : List Int32}

theorem enqueue (h : q.Holds items) (v : Int32) :
    ((LinkedQueue.enqueue v).run q).state.Holds (items ++ [v]) := by
  refine ⟨?_, ?_⟩
  · rw [List.map_append]
    exact h.chain.append (p.pack v)
  · rw [List.length_append, ← h.size_eq]
    rfl

theorem dequeue_nil (h : q.Holds []) : LinkedQueue.dequeue.run q = ⟨q, [], .ok p.empty⟩ :=
  run_dequeue_of_front?_none h.chain.front?_nil

theorem dequeue_cons {v : Int32} (h : q.Holds (v :: items)) :
    ∃ q', LinkedQueue.dequeue.run q = ⟨q', [], .ok (p.unpack (p.pack v))⟩ ∧ q'.Holds items := by
  have hsize : q.size = items.length + 1 := h.size_eq
  have hpos : 0 < q.size := by omega
  refine ⟨_, run_dequeue_of_front?_some h.chain.front?_cons hpos, h.chain.dropFront, ?_⟩
  show q.size - 1 = items.length
  omega

end Holds

theorem refines : Queue.Refines (σ := LinkedQueue p) Holds (fun _ _ => True) := by
  apply Queue.Refines.of_outcomes
  · intro q items h
    exact h.size_eq
  · intro q items v h _
    exact ⟨_, _, run_enqueue q v, h.enqueue v⟩
  · intro q h
    exact ⟨q, [], h.dequeue_nil, h⟩
  · intro q v items h _
    obtain ⟨q', hrun, hq'⟩ := h.dequeue_cons
    exact ⟨q', [], hrun, hq'⟩

/-! ## Runs -/

/-- **A linked queue is first in, first out, over a chain that is walked from end to end**, whatever
    the placement and after every run: as many distinct nodes as the queue has elements, each with the
    element whose turn it is.  Head and tail are cut when the number of elements is zero, and only
    then, so that the two tests for emptiness agree. -/
theorem order_along_links (p : Placement) (ops : List Queue.Op) :
    let q := Queue.after ops (new p)
    let reference := Queue.after ops (Reference.empty p)
    (Queue.trace ops (new p)).map Queue.seen =
      (Queue.trace ops (Reference.empty p)).map Queue.seen ∧
    q.chain.Walked (reference.items.map p.pack) ∧
    q.size = reference.items.length ∧ q.chain.places.length = q.size ∧
    (q.chain.head = none ↔ q.size = 0) ∧ (q.chain.tail = none ↔ q.size = 0) ∧
    q.isEmpty = Queue.isEmpty q := by
  intro q reference
  have hall : Queue.Throughout (fun _ _ => True) ops (new p) := Queue.throughout_true ops (new p)
  have hq : q.Holds reference.items := refines.holds_after ops holds_new hall
  have hwalked := hq.chain.walked
  have hnil : reference.items.map p.pack = [] ↔ q.size = 0 := by
    rw [List.map_eq_nil_iff, hq.size_eq, List.length_eq_zero_iff]
  have hhead : q.chain.head = none ↔ q.size = 0 := hwalked.head_eq_none_iff.trans hnil
  refine ⟨refines.seen_trace ops holds_new hall, hwalked, hq.size_eq, ?_, hhead,
    hwalked.tail_eq_none_iff.trans hnil, ?_⟩
  · rw [hwalked.length_places, List.length_map, hq.size_eq]
  · show q.chain.head.isNone = (q.size == 0)
    rw [Bool.eq_iff_iff, Option.isNone_iff_eq_none, beq_iff_eq]
    exact hhead

/-- A queue that was drained, and filled again from the place given back last. -/
example :
    let q := Queue.after [.enqueue 1, .enqueue 2, .dequeue, .dequeue, .enqueue 3, .enqueue 4]
      (new .boxed)
    q.chain.places = [1, 0] ∧ q.chain.tail = some 0 ∧ q.size = 2 := by decide +kernel

end Fifo.LinkedQueue
