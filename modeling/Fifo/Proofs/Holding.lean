/-
  HOLDING: what a queue of any kind has in it, through runs in which anything may happen.

  1. **View** — `Holds q items`: the elements of the queue are `items`, oldest first.  This is true of
     every new queue, and there is ONE way in which it is lost: a fixed queue is written beyond its
     capacity (`Overfull`).

  2. **A call** — an enqueue puts its element behind the others, or is stopped and leaves them as they
     were; a dequeue takes the first one out, and answers with it if it answers.

  3. **A run** — so a queue holds a list unless it is, or once was, an overfull fixed one
     (`holds_or_overfull`); that calls were refused or stopped before makes no difference.
-/
import Fifo.AnyQueue
import Fifo.Proofs.Fixed.Order
import Fifo.Proofs.Growable.Order
import Fifo.Proofs.Linked.Order
import Fifo.Proofs.Segmented.Order
import Fifo.Script.Blueprint

namespace Fifo.AnyQueue

variable {p : Placement}

/-! ## View -/

/-- `Holds q items` — the elements of the queue are `items`. -/
def Holds : AnyQueue p → List Int32 → Prop
  | .fixed _ q, items => q.ring.Holds items
  | .growable _ _ q, items => q.ring.Holds items
  | .linked q, items => q.Holds items
  | .segmented q, items => 0 < q.segmentCapacity ∧ q.Holds q.segmentCapacity items

/-- The queue is a fixed one that counts more elements than it has slots. -/
def Overfull : AnyQueue p → Prop
  | .fixed _ q => q.capacity < q.size
  | _ => False

/-- Whether the queue is a fixed one. -/
def isFixed : AnyQueue p → Bool
  | .fixed _ _ => true
  | _ => false

theorem Overfull.isFixed {q : AnyQueue p} (h : q.Overfull) : q.isFixed = true := by
  cases q with
  | fixed w q => rfl
  | growable w s q => exact h.elim
  | linked q => exact h.elim
  | segmented q => exact h.elim

theorem Holds.size_eq {q : AnyQueue p} {items : List Int32} (h : q.Holds items) :
    Queue.size q = items.length :=
  match q, h with
  | .fixed _ _, h => Ring.Holds.size_eq h
  | .growable _ _ _, h => Ring.Holds.size_eq h
  | .linked _, h => LinkedQueue.Holds.size_eq h
  | .segmented _, h => SegmentedQueue.Holds.size_eq h.2

/-! ## Calls -/

/-- An enqueue appends, or leaves the elements as they were, or takes over a slot of a fixed queue that
    is full. -/
theorem Holds.enqueue {q : AnyQueue p} {items : List Int32} (h : q.Holds items) (v : Int32) :
    ((Queue.enqueue v).run q).state.Overfull ∨
      ((Queue.enqueue v).run q).state.Holds (items ++ [v]) ∨
      ((Queue.enqueue v).run q).state.Holds items := by
  cases q with
  | fixed w q =>
    have hring : q.ring.Holds items := h
    have hf := hring.fitting
    have hword : q.size + 1 < Word.limit :=
      Nat.lt_of_le_of_lt (Nat.succ_le_succ hf.size_le) (Capacity.succ_lt_limit hf.power hf.word)
    rw [run_enqueue_fixed, FixedQueue.run_enqueue hf.toSound hword]
    rcases Nat.lt_or_eq_of_le hf.size_le with hlt | hfull
    · exact .inr (.inl (hring.written hlt v))
    · -- nothing looks whether the ring is full: the element is counted all the same
      left
      show (q.ring.written v).capacity < q.ring.size + 1
      rw [Ring.capacity_written, hfull]
      exact Nat.lt_succ_self _
  | growable w s q =>
    have hring : q.ring.Holds items := h
    rw [run_enqueue_growable, GrowableQueue.run_enqueue hring.fitting]
    rcases GrowableQueue.holds_enqueued hring v with ⟨_, hheld⟩ | ⟨_, _, hstopped⟩ | ⟨_, hkept⟩
    · exact .inr (.inl hheld)
    · rw [hstopped]
      exact .inr (.inr h)
    · exact .inr (.inr hkept)
  | linked q => exact .inr (.inl (LinkedQueue.Holds.enqueue h v))
  | segmented q =>
    obtain ⟨hpos, hq⟩ := h
    rw [run_enqueue_segmented]
    by_cases hm : q.needsSegment = true → Store.addressable p q.segmentCapacity = true
    · obtain ⟨q', log, hrun, hq'⟩ := hq.enqueue hpos hm v
      rw [hrun]
      have hcapacity : q'.segmentCapacity = q.segmentCapacity := hq'.capacity_eq
      exact .inr (.inl ⟨hcapacity ▸ hpos, hcapacity ▸ hq'⟩)
    · obtain ⟨hneeds, hm⟩ := Classical.not_imp.mp hm
      rw [SegmentedQueue.run_enqueue_of_error hneeds (Bool.eq_false_iff.mpr hm)]
      exact .inr (.inr ⟨hpos, hq⟩)

/-- A fixed queue without elements says so, whatever lies in its slots. -/
theorem run_dequeue_of_isFixed {q : AnyQueue p} (h : q.isFixed = true) (hs : Queue.size q = 0) :
    Queue.dequeue.run q = ⟨q, [], .ok p.empty⟩ := by
  cases q with
  | fixed w q =>
    rw [run_dequeue_fixed, FixedQueue.run_dequeue_of_size_eq_zero hs]
    rfl
  | growable w s q => nomatch h
  | linked q => nomatch h
  | segmented q => nomatch h

/-- A queue without elements answers that there is none. -/
theorem Holds.dequeue_nil {q : AnyQueue p} (h : q.Holds []) :
    Queue.dequeue.run q = ⟨q, [], .ok p.empty⟩ := by
  have hsize : Queue.size q = 0 := h.size_eq
  cases q with
  | fixed w q => exact run_dequeue_of_isFixed rfl hsize
  | growable w s q =>
    rw [run_dequeue_growable, GrowableQueue.run_dequeue_of_size_eq_zero hsize]
    rfl
  | linked q =>
    rw [run_dequeue_linked, LinkedQueue.Holds.dequeue_nil h]
    rfl
  | segmented q =>
    rw [run_dequeue_segmented, h.2.dequeue_nil]
    rfl

/-- A dequeue takes the first element out, and if it is answered, that is the answer. -/
theorem Holds.dequeue_cons {q : AnyQueue p} {v : Int32} {items : List Int32}
    (h : q.Holds (v :: items)) :
    (Queue.dequeue.run q).state.Holds items ∧
      ∀ out, (Queue.dequeue.run q).result = .ok out → out = p.unpack (p.pack v) := by
  cases q with
  | fixed w q =>
    have hring : q.ring.Holds (v :: items) := h
    rw [run_dequeue_fixed, FixedQueue.run_dequeue hring.fitting.toSound hring.size_pos,
      hring.front_eq]
    exact ⟨hring.taken, fun out hout => (Except.ok.inj hout).symm⟩
  | growable w s q =>
    have hring : q.ring.Holds (v :: items) := h
    rw [run_dequeue_growable, GrowableQueue.run_dequeue hring.fitting]
    exact GrowableQueue.holds_dequeued hring
  | linked q =>
    obtain ⟨q', hrun, hq'⟩ := LinkedQueue.Holds.dequeue_cons h
    rw [run_dequeue_linked, hrun]
    exact ⟨hq', fun out hout => (Except.ok.inj hout).symm⟩
  | segmented q =>
    obtain ⟨hpos, hq⟩ := h
    obtain ⟨q', log, hrun, hq'⟩ := hq.dequeue_cons
    have hcapacity : q'.segmentCapacity = q.segmentCapacity := hq'.capacity_eq
    rw [run_dequeue_segmented, hrun]
    exact ⟨⟨hcapacity ▸ hpos, hcapacity ▸ hq'⟩, fun out hout => (Except.ok.inj hout).symm⟩

/-! ## Queues that were built -/

theorem holds_of_strategy {t : Strategy} {capacity : Nat} {q : AnyQueue p}
    (h : t.build p capacity = .ok q) : q.Holds [] := by
  cases t with
  | fixed =>
    obtain ⟨q', hnew, rfl⟩ := exists_of_map_eq_ok h
    exact (FixedQueue.holds_new hnew).ring
  | growable =>
    obtain ⟨q', hnew, rfl⟩ := exists_of_map_eq_ok h
    exact GrowableQueue.holds_new hnew
  | linked =>
    cases h
    exact LinkedQueue.holds_new
  | segmented =>
    cases h
    exact ⟨SegmentedQueue.requested_pos capacity, SegmentedQueue.holds_new capacity⟩

/-- A queue that was built holds nothing. -/
theorem holds_of_build {b : Blueprint} {q : AnyQueue p} (h : b.build p = .ok q) : q.Holds [] := by
  cases b with
  | fixed w origin =>
    obtain ⟨q', hmade, rfl⟩ := exists_of_map_eq_ok h
    have hnew := Blueprint.new_of_circular hmade fun _ _ => FixedQueue.new_of_new?
    exact (FixedQueue.holds_new hnew).ring
  | growable w s origin =>
    obtain ⟨q', hmade, rfl⟩ := exists_of_map_eq_ok h
    have hnew := Blueprint.new_of_circular hmade fun _ _ => GrowableQueue.new_of_new?
    exact GrowableQueue.holds_new hnew
  | linked hint =>
    cases h
    cases hint <;> exact LinkedQueue.holds_new
  | segmented capacity =>
    cases h
    exact ⟨SegmentedQueue.requested_pos _, SegmentedQueue.holds_new _⟩
  | named text capacity =>
    obtain ⟨t, _, hbuild⟩ := Blueprint.exists_of_build_named h
    exact holds_of_strategy hbuild

/-! ## Runs -/

/-- An operation, of which a queue that can not refuse an element knows two kinds. -/
def perform : GrowableQueue.Op → Call (AnyQueue p) (GrowableQueue.Reply p)
  | .enqueue v => do
    Queue.enqueue v
    return .done
  | .tryEnqueue a v => do
    match ← enqueue? a v with
    | .ok () => return .accepted
    | .error e => return .refused e
  | .dequeue => do
    let out ← Queue.dequeue
    return .out out

theorem run_perform_enqueue (q : AnyQueue p) (v : Int32) :
    (perform (.enqueue v)).run q = ((Queue.enqueue v).run q).mapAnswer fun () => .done :=
  Call.andThen_pure _ _

theorem run_perform_dequeue (q : AnyQueue p) :
    (perform .dequeue).run q = (Queue.dequeue.run q).mapAnswer .out :=
  Call.andThen_pure _ _

/-- Why an element would be refused, if it would: a queue that does not grow refuses none. -/
def refusal (a : Allocator) : AnyQueue p → Option Error
  | .growable _ _ q => q.refusal a
  | _ => none

/-- What is refused changes nothing. -/
theorem run_perform_tryEnqueue_of_refusal {a : Allocator} {q : AnyQueue p} {e : Error}
    (h : q.refusal a = some e) (v : Int32) :
    (perform (.tryEnqueue a v)).run q = ⟨q, [], .ok (.refused e)⟩ := by
  cases q with
  | growable w s q =>
    have hgrowable : q.refusal a = some e := h
    show ((((GrowableQueue.enqueue? a v).run q).mapState (growable w s)).andThen _) = _
    rw [GrowableQueue.run_enqueue?_of_refusal hgrowable]
    rfl
  | fixed w q => nomatch h
  | linked q => nomatch h
  | segmented q => nomatch h

/-- What is not refused is enqueued. -/
theorem run_perform_tryEnqueue_of_none {a : Allocator} {q : AnyQueue p} (h : q.refusal a = none)
    (v : Int32) : (perform (.tryEnqueue a v)).run q =
      ((Queue.enqueue v).run q).mapAnswer fun () => .accepted := by
  have henqueue : (enqueue? a v).run q = (Except.ok <$> Queue.enqueue v).run q := by
    cases q with
    | growable w s q =>
      have hgrowable : q.refusal a = none := h
      show ((GrowableQueue.enqueue? a v).run q).mapState (growable w s) = _
      rw [GrowableQueue.run_enqueue?_of_none hgrowable, Call.run_map, Call.run_map]
      rfl
    | fixed w q => rfl
    | linked q => rfl
    | segmented q => rfl
  simp only [perform, Call.run_bind, henqueue, Call.run_map, Outcome.mapAnswer_andThen]
  exact Call.andThen_pure _ _

/-- An operation on a queue that holds a list leaves one that does, or an overfull one. -/
theorem Holds.perform {q : AnyQueue p} {items : List Int32} (h : q.Holds items)
    (op : GrowableQueue.Op) :
    ((perform op).run q).state.Overfull ∨ ∃ items', ((perform op).run q).state.Holds items' := by
  have henqueue (v : Int32) : ((Queue.enqueue v).run q).state.Overfull ∨
      ∃ items', ((Queue.enqueue v).run q).state.Holds items' := by
    rcases h.enqueue v with hover | hheld | hkept
    · exact .inl hover
    · exact .inr ⟨_, hheld⟩
    · exact .inr ⟨items, hkept⟩
  cases op with
  | enqueue v =>
    rw [run_perform_enqueue]
    exact henqueue v
  | tryEnqueue a v =>
    cases hrefusal : q.refusal a with
    | some e =>
      rw [run_perform_tryEnqueue_of_refusal hrefusal]
      exact .inr ⟨items, h⟩
    | none =>
      rw [run_perform_tryEnqueue_of_none hrefusal]
      exact henqueue v
  | dequeue =>
    right
    rw [run_perform_dequeue]
    cases items with
    | nil =>
      rw [h.dequeue_nil]
      exact ⟨[], h⟩
    | cons v rest => exact ⟨rest, h.dequeue_cons.1⟩

/-- A queue stays of its kind. -/
theorem isFixed_perform (q : AnyQueue p) (op : GrowableQueue.Op) :
    ((AnyQueue.perform op).run q).state.isFixed = q.isFixed := by
  have henqueue (v : Int32) : ((Queue.enqueue v).run q).state.isFixed = q.isFixed := by
    cases q <;> rfl
  cases op with
  | enqueue v =>
    rw [run_perform_enqueue]
    exact henqueue v
  | tryEnqueue a v =>
    cases hrefusal : q.refusal a with
    | some e => rw [run_perform_tryEnqueue_of_refusal hrefusal]
    | none =>
      rw [run_perform_tryEnqueue_of_none hrefusal]
      exact henqueue v
  | dequeue =>
    rw [run_perform_dequeue]
    cases q <;> rfl

/-- Every queue but a fixed one holds a list, always. -/
theorem kept_isFixed_or_holds :
    Call.Kept (AnyQueue.perform (p := p)) fun q => q.isFixed = true ∨ ∃ items, q.Holds items := by
  rintro op q (hfixed | ⟨items, h⟩)
  · exact .inl ((isFixed_perform q op).trans hfixed)
  · exact (h.perform op).imp Overfull.isFixed id

/-- **A queue without elements answers that there is none**, after every run. -/
theorem run_dequeue_of_size_eq_zero {q : AnyQueue p} (hq : q.Holds []) (ops : List GrowableQueue.Op)
    (hs : Queue.size (Call.final AnyQueue.perform ops q) = 0) :
    Queue.dequeue.run (Call.final AnyQueue.perform ops q) =
      ⟨Call.final AnyQueue.perform ops q, [], .ok p.empty⟩ := by
  rcases kept_isFixed_or_holds.final ops (.inr ⟨[], hq⟩) with hfixed | ⟨items, h⟩
  · exact run_dequeue_of_isFixed hfixed hs
  · obtain rfl : items = [] := List.eq_nil_of_length_eq_zero (h.size_eq.symm.trans hs)
    exact h.dequeue_nil

/-- **A queue holds a list, unless it is or was overfull**, after every run. -/
theorem holds_or_overfull (ops : List GrowableQueue.Op) :
    ∀ {q : AnyQueue p} {items : List Int32}, q.Holds items →
      (∃ before, before <+: ops ∧ (Call.final AnyQueue.perform before q).Overfull) ∨
        ∃ items', (Call.final AnyQueue.perform ops q).Holds items' := by
  induction ops with
  | nil =>
    intro q items h
    exact .inr ⟨items, h⟩
  | cons op rest ih =>
    intro q items h
    rcases h.perform op with hover | ⟨items', h'⟩
    · exact .inl ⟨[op], List.prefix_append [op] rest, hover⟩
    · rcases ih h' with ⟨before, hbefore, hover⟩ | hheld
      · exact .inl ⟨op :: before, List.cons_prefix_cons.mpr ⟨rfl, hbefore⟩, hover⟩
      · exact .inr hheld

end Fifo.AnyQueue
