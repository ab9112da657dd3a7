/-
  OUTCOMES of a growable queue, every one of them.

  `Fifo.Proofs.Growable.Steps` has the outcomes of the calls that are granted their memory.  Here is,
  for each operation, what it does to a queue whose ring is fitting WHATEVER happens, without the
  index rule:

  * `enqueued` — an element is written, at once or after a move up, or the queue stays as it is;
  * `dequeued` — an element leaves, and then the queue does what the policy says; if it can not, the
    element has left all the same;
  * `refusal` — why `enqueue?` is refused, if it is.  Otherwise it is `enqueue`, in every state.

  A move that can not be counted is an outcome of its own, up and down: the ring has moved, the call is
  stopped, and nothing else has changed.
-/
import Fifo.Proofs.Growable.Steps
import Fifo.Proofs.Ring.Moves
import Fifo.Proofs.Runs

namespace Fifo.GrowableQueue

variable {p : Placement} {w : IndexRule} {s : ShrinkPolicy}

open Fifo.Ring (Fitting)

/-! ## Enqueueing -/

/-- What comes of enqueueing an element. -/
def enqueued (q : GrowableQueue p w s) (v : Int32) : Outcome (GrowableQueue p w s) Unit :=
  if q.size < q.capacity then
    ⟨q.written v, [], .ok ()⟩
  else if Store.addressable p (2 * q.capacity) then
    if q.grows + 1 < Word.limit then
      ⟨q.movedUp.written v, [.grew (2 * q.capacity) q.size], .ok ()⟩
    else
      ⟨q.inStore (2 * q.capacity), [], .error .addOverflow⟩
  else
    ⟨q, [], .error .capacityOverflow⟩

/-- An element is written, at once or after a move up; or the move is made and can not be counted; or
    memory could not hold twice the store. -/
theorem enqueued_cases {q : GrowableQueue p w s} (hf : Fitting q.ring) (v : Int32) :
    (q.size < q.capacity ∧ q.enqueued v = ⟨q.written v, [], .ok ()⟩) ∨
    (q.size = q.capacity ∧ Store.addressable p (2 * q.capacity) = true ∧
      q.grows + 1 < Word.limit ∧
      q.enqueued v = ⟨q.movedUp.written v, [.grew (2 * q.capacity) q.size], .ok ()⟩) ∨
    (q.size = q.capacity ∧ Store.addressable p (2 * q.capacity) = true ∧
      ¬ q.grows + 1 < Word.limit ∧
      q.enqueued v = ⟨q.inStore (2 * q.capacity), [], .error .addOverflow⟩) ∨
    (q.size = q.capacity ∧ Store.addressable p (2 * q.capacity) = false ∧
      q.enqueued v = ⟨q, [], .error .capacityOverflow⟩) := by
  unfold enqueued
  rcases Nat.lt_or_eq_of_le hf.size_le with hlt | hfull
  · exact .inl ⟨hlt, if_pos hlt⟩
  have hnot : ¬ q.size < q.capacity := Nat.not_lt.mpr (Nat.le_of_eq hfull.symm)
  right
  rw [if_neg hnot]
  cases hm : Store.addressable p (2 * q.capacity) with
  | false => exact .inr (.inr ⟨hfull, rfl, if_neg Bool.false_ne_true⟩)
  | true =>
    rw [if_pos rfl]
    by_cases hn : q.grows + 1 < Word.limit
    · exact .inl ⟨hfull, rfl, hn, if_pos hn⟩
    · exact .inr (.inl ⟨hfull, rfl, hn, if_neg hn⟩)

/-- A full queue that memory could not hold twice is left alone. -/
theorem run_enqueue_of_not_addressable {q : GrowableQueue p w s} (hfull : q.size = q.capacity)
    (hm : Store.addressable p (2 * q.capacity) = false) (v : Int32) :
    (enqueue v).run q = ⟨q, [], .error .capacityOverflow⟩ := by
  have hfull' : q.ring.isFull = true := (isFull_iff q).mpr hfull
  have hgrow : grow.run q = ⟨q, [], .error .capacityOverflow⟩ := by
    simp only [grow, Call.run_bind, Call.run_self, Outcome.andThen_ok, doubled, Word.double?]
    by_cases hword : 2 * q.capacity < Word.limit
    · simp [hword, run_onRing, Ring.relocate, Store.allocate_eq_error hm]
    · simp [hword]
  simp [enqueue, hfull', hgrow]

theorem run_enqueue {q : GrowableQueue p w s} (hf : Fitting q.ring) (v : Int32) :
    (enqueue v).run q = q.enqueued v := by
  rcases enqueued_cases hf v with
    ⟨hlt, h⟩ | ⟨hfull, hm, hn, h⟩ | ⟨hfull, hm, hn, h⟩ | ⟨hfull, hm, h⟩
  · rw [h, run_enqueue_of_lt hf hlt]
  · rw [h, run_enqueue_of_full hf hfull hm hn]
  · rw [h, run_enqueue_of_uncounted hf hfull hm hn]
  · rw [h, run_enqueue_of_not_addressable hfull hm]

/-- Where memory holds twice the store, the ring of a full queue moves there. -/
theorem moved_double {q : GrowableQueue p w s} (hf : Fitting q.ring)
    (hm : Store.addressable p (2 * q.capacity) = true) :
    q.ring.moved (2 * q.capacity) = .ok (q.ring.relocated (2 * q.capacity)) :=
  Ring.moved_eq_ok.mpr ⟨⟨hm, Capacity.isPower_double hf.power, hf.size_le_double⟩, rfl⟩

/-- What lasts, an enqueue keeps. -/
theorem enqueued_of_lasting {I : Ring p → Prop} (hI : Ring.Lasting I) {q : GrowableQueue p w s}
    (hq : I q.ring) (v : Int32) : I (q.enqueued v).state.ring := by
  have hf := hI.fitting hq
  rcases enqueued_cases hf v with
    ⟨hlt, h⟩ | ⟨_, hm, _, h⟩ | ⟨_, hm, _, h⟩ | ⟨_, _, h⟩ <;> rw [h]
  · exact hI.written hq hlt v
  · exact hI.written (hI.moved hq (moved_double hf hm)) (size_movedUp_lt hf) v
  · exact hI.moved hq (moved_double hf hm)
  · exact hq

/-- An element is held behind the others; or the queue is full and holds what it held, because memory
    could not hold twice the store, or because the move can not be counted. -/
theorem holds_enqueued {q : GrowableQueue p w s} {items : List Int32} (h : q.ring.Holds items)
    (v : Int32) :
    ((q.enqueued v).result = .ok () ∧ (q.enqueued v).state.ring.Holds (items ++ [v])) ∨
      (q.size = q.capacity ∧ Store.addressable p (2 * q.capacity) = false ∧
        q.enqueued v = ⟨q, [], .error .capacityOverflow⟩) ∨
      (¬ q.grows + 1 < Word.limit ∧ (q.enqueued v).state.ring.Holds items) := by
  have hf := h.fitting
  rcases enqueued_cases hf v with
    ⟨hlt, he⟩ | ⟨_, hm, _, he⟩ | ⟨_, hm, hn, he⟩ | ⟨hfull, hm, he⟩ <;> rw [he]
  · exact .inl ⟨rfl, h.written hlt v⟩
  · have hmoved : q.movedUp.ring.Holds items := h.moved (moved_double hf hm)
    exact .inl ⟨rfl, hmoved.written (size_movedUp_lt hf) v⟩
  · exact .inr (.inr ⟨hn, h.moved (moved_double hf hm)⟩)
  · exact .inr (.inl ⟨hfull, hm, rfl⟩)

/-! ## Dequeueing -/

/-- What comes of moving down: when the ring does not move, the queue is left alone. -/
def shrunk (q : GrowableQueue p w s) (target : Nat) : Outcome (GrowableQueue p w s) Unit :=
  match q.ring.moved target with
  | .ok ring =>
    if q.shrinks + 1 < Word.limit then
      ⟨⟨ring, q.grows, q.shrinks + 1⟩, [.shrank target q.size], .ok ()⟩
    else
      ⟨⟨ring, q.grows, q.shrinks⟩, [], .error .addOverflow⟩
  | .error fault => ⟨q, [], .error fault⟩

/-- What comes of asking the policy. -/
def consulted (q : GrowableQueue p w s) : Outcome (GrowableQueue p w s) Unit :=
  match s.shrinkTo q.size q.capacity with
  | some target => q.shrunk target
  | none => ⟨q, [], .ok ()⟩

/-- What comes of dequeueing: an element that was there is gone, whatever comes of asking. -/
def dequeued (q : GrowableQueue p w s) : Outcome (GrowableQueue p w s) p.Out :=
  if q.size = 0 then
    ⟨q, [], .ok p.empty⟩
  else
    q.taken.consulted.mapAnswer fun () => p.unpack q.ring.front

theorem consulted_of_none {q : GrowableQueue p w s} (h : s.shrinkTo q.size q.capacity = none) :
    q.consulted = ⟨q, [], .ok ()⟩ := by
  rw [consulted, h]

/-- The ring moves, and that is counted or can not be counted; or it does not move. -/
theorem consulted_of_some {q : GrowableQueue p w s} {target : Nat}
    (h : s.shrinkTo q.size q.capacity = some target) :
    (∃ ring, q.ring.moved target = .ok ring ∧ q.shrinks + 1 < Word.limit ∧
      q.consulted = ⟨⟨ring, q.grows, q.shrinks + 1⟩, [.shrank target q.size], .ok ()⟩) ∨
    (∃ ring, q.ring.moved target = .ok ring ∧ ¬ q.shrinks + 1 < Word.limit ∧
      q.consulted = ⟨⟨ring, q.grows, q.shrinks⟩, [], .error .addOverflow⟩) ∨
    ∃ fault, q.ring.moved target = .error fault ∧ q.consulted = ⟨q, [], .error fault⟩ := by
  have hconsulted : q.consulted = q.shrunk target := by rw [consulted, h]
  rw [hconsulted, shrunk]
  cases q.ring.moved target with
  | error fault => exact .inr (.inr ⟨fault, rfl, rfl⟩)
  | ok ring =>
    by_cases hn : q.shrinks + 1 < Word.limit
    · exact .inl ⟨ring, rfl, hn, if_pos hn⟩
    · exact .inr (.inl ⟨ring, rfl, hn, if_neg hn⟩)

theorem run_shrink_eq_shrunk {q : GrowableQueue p w s} (hf : Fitting q.ring) (target : Nat) :
    (shrink target).run q = q.shrunk target := by
  unfold shrunk
  simp only [shrink, Call.run_bind, run_onRing, Ring.run_relocate_eq_moved hf]
  cases hmoved : q.ring.moved target with
  | error fault => rfl
  | ok ring =>
    have hsize : ring.size = q.ring.size := Ring.size_of_moved hmoved
    let moved : GrowableQueue p w s := ⟨ring, q.grows, q.shrinks⟩
    by_cases hn : q.shrinks + 1 < Word.limit
    · have hcount := countShrink_eq_ok (q := moved) hn
      simp [hn, moved, Call.run_change_of_ok hcount, size, hsize]
    · have hcount := countShrink_eq_error (q := moved) hn
      simp [hn, moved, Call.run_change_of_error hcount]

theorem run_consult {q : GrowableQueue p w s} (hf : Fitting q.ring) :
    consult.run q = q.consulted := by
  unfold consulted
  simp only [consult, Call.run_bind, Call.run_self, Outcome.andThen_ok]
  cases s.shrinkTo q.size q.capacity with
  | none => rfl
  | some target => simp [run_shrink_eq_shrunk hf]

theorem run_dequeue {q : GrowableQueue p w s} (hf : Fitting q.ring) :
    dequeue.run q = q.dequeued := by
  unfold dequeued
  by_cases hzero : q.size = 0
  · rw [if_pos hzero, run_dequeue_of_size_eq_zero hzero]
  · have hs : 0 < q.size := Nat.pos_of_ne_zero hzero
    have htaken : Fitting q.taken.ring := hf.taken hs
    rw [if_neg hzero, run_dequeue_eq_consult hf hs, run_consult htaken, Call.andThen_pure]

/-- Asking the policy moves the ring, or leaves it where it is. -/
theorem consulted_of_moved {I : Ring p → Prop}
    (hI : ∀ {r r' : Ring p} {capacity : Nat}, I r → r.moved capacity = .ok r' → I r')
    {q : GrowableQueue p w s} (hq : I q.ring) : I q.consulted.state.ring := by
  cases hasked : s.shrinkTo q.size q.capacity with
  | none =>
    rw [consulted_of_none hasked]
    exact hq
  | some target =>
    rcases consulted_of_some hasked with
      ⟨ring, hmoved, _, h⟩ | ⟨ring, hmoved, _, h⟩ | ⟨fault, _, h⟩ <;> rw [h]
    · exact hI hq hmoved
    · exact hI hq hmoved
    · exact hq

/-- What lasts, a dequeue keeps, whether or not the policy can be obeyed. -/
theorem dequeued_of_lasting {I : Ring p → Prop} (hI : Ring.Lasting I) {q : GrowableQueue p w s}
    (hq : I q.ring) : I q.dequeued.state.ring := by
  unfold dequeued
  by_cases hzero : q.size = 0
  · rw [if_pos hzero]
    exact hq
  · have htaken : I q.taken.ring := hI.taken hq (Nat.pos_of_ne_zero hzero)
    rw [if_neg hzero]
    exact consulted_of_moved hI.moved htaken

/-- Whatever the policy says, the queue holds what it held. -/
theorem holds_consulted {q : GrowableQueue p w s} {items : List Int32} (h : q.ring.Holds items) :
    q.consulted.state.ring.Holds items :=
  consulted_of_moved (I := fun ring => ring.Holds items) (fun held => held.moved) h

/-- The oldest element is gone, and if the call is answered, it is the answer. -/
theorem holds_dequeued {q : GrowableQueue p w s} {v : Int32} {items : List Int32}
    (h : q.ring.Holds (v :: items)) :
    q.dequeued.state.ring.Holds items ∧
      ∀ out, q.dequeued.result = .ok out → out = p.unpack (p.pack v) := by
  have hne : ¬ q.size = 0 := Nat.ne_of_gt h.size_pos
  have htaken : q.taken.ring.Holds items := h.taken
  unfold dequeued
  rw [if_neg hne, h.front_eq]
  refine ⟨holds_consulted htaken, fun out hout => ?_⟩
  obtain ⟨_, _, rfl⟩ := exists_of_map_eq_ok hout
  rfl

/-! ## Enqueueing if there is memory -/

/-- Why an element would be refused, if it would: the queue is full, and there is no store of twice
    the size. -/
def refusal (a : Allocator) (q : GrowableQueue p w s) : Option Error :=
  if q.ring.isFull then
    match q.doubled with
    | .error e => some e
    | .ok capacity =>
      match Store.reserve p a capacity with
      | .error e => some e
      | .ok () => none
  else none

/-- What is refused leaves the queue as it was. -/
theorem run_enqueue?_of_refusal {a : Allocator} {q : GrowableQueue p w s} {e : Error}
    (h : q.refusal a = some e) (v : Int32) :
    (enqueue? a v).run q = ⟨q, [], .ok (.error e)⟩ := by
  unfold refusal at h
  cases hfull : q.ring.isFull with
  | false =>
    rw [hfull] at h
    nomatch h
  | true =>
    cases hdoubled : q.doubled with
    | error e' =>
      rw [hfull, hdoubled] at h
      cases h
      simp [enqueue?, hfull, grow?, hdoubled]
    | ok capacity =>
      cases hreserve : Store.reserve p a capacity with
      | error e' =>
        simp only [hfull, hdoubled, hreserve] at h
        cases h
        simp [enqueue?, hfull, grow?, hdoubled, run_onRing, Ring.run_relocate?_of_error hreserve]
      | ok _ => simp [hfull, hdoubled, hreserve] at h

/-- What is not refused is enqueued, whatever comes of that. -/
theorem run_enqueue?_of_none {a : Allocator} {q : GrowableQueue p w s} (h : q.refusal a = none)
    (v : Int32) : (enqueue? a v).run q = (Except.ok <$> enqueue v).run q := by
  unfold refusal at h
  cases hfull : q.ring.isFull with
  | false => simp [enqueue?, enqueue, hfull]
  | true =>
    cases hdoubled : q.doubled with
    | error e => simp [hfull, hdoubled] at h
    | ok capacity =>
      cases hreserve : Store.reserve p a capacity with
      | error e => simp [hfull, hdoubled, hreserve] at h
      | ok _ =>
        have hgrow : (grow? a).run q = (Except.ok <$> grow).run q := by
          simp [grow?, grow, hdoubled, run_onRing, Ring.run_relocate?_of_ok hreserve]
        simp [enqueue?, enqueue, hfull, hgrow]

/-! ## Operations -/

/-- What comes of an operation. -/
def performed (q : GrowableQueue p w s) : Op → Outcome (GrowableQueue p w s) (Reply p)
  | .enqueue v => (q.enqueued v).mapAnswer fun () => .done
  | .tryEnqueue a v =>
    match q.refusal a with
    | some e => ⟨q, [], .ok (.refused e)⟩
    | none => (q.enqueued v).mapAnswer fun () => .accepted
  | .dequeue => q.dequeued.mapAnswer .out

theorem run_perform_enqueue (q : GrowableQueue p w s) (v : Int32) :
    (perform (.enqueue v)).run q = ((enqueue v).run q).mapAnswer fun () => .done :=
  Call.andThen_pure _ _

theorem run_perform_dequeue (q : GrowableQueue p w s) :
    (perform .dequeue).run q = (dequeue.run q).mapAnswer .out :=
  Call.andThen_pure _ _

/-- What is refused changes nothing. -/
theorem run_perform_tryEnqueue_of_refusal {a : Allocator} {q : GrowableQueue p w s} {e : Error}
    (h : q.refusal a = some e) (v : Int32) :
    (perform (.tryEnqueue a v)).run q = ⟨q, [], .ok (.refused e)⟩ := by
  simp only [perform, Call.run_bind, run_enqueue?_of_refusal h]
  rfl

/-- What is not refused is enqueued. -/
theorem run_perform_tryEnqueue_of_none {a : Allocator} {q : GrowableQueue p w s}
    (h : q.refusal a = none) (v : Int32) :
    (perform (.tryEnqueue a v)).run q = ((enqueue v).run q).mapAnswer fun () => .accepted := by
  simp only [perform, Call.run_bind, run_enqueue?_of_none h, Call.run_map]
  rcases (enqueue v).run q with ⟨q', log, fault | _⟩ <;> simp

/-- **An operation on a fitting ring has one outcome**, in which the index rule does not occur. -/
theorem run_perform {q : GrowableQueue p w s} (hf : Fitting q.ring) (op : Op) :
    (perform op).run q = q.performed op := by
  cases op with
  | enqueue v => rw [run_perform_enqueue, run_enqueue hf, performed]
  | tryEnqueue a v =>
    rw [performed]
    cases h : q.refusal a with
    | some e => exact run_perform_tryEnqueue_of_refusal h v
    | none => rw [run_perform_tryEnqueue_of_none h, run_enqueue hf]
  | dequeue => rw [run_perform_dequeue, run_dequeue hf, performed]

theorem performed_of_lasting {I : Ring p → Prop} (hI : Ring.Lasting I) {q : GrowableQueue p w s}
    (hq : I q.ring) (op : Op) : I (q.performed op).state.ring := by
  cases op with
  | enqueue v => exact enqueued_of_lasting hI hq v
  | tryEnqueue a v =>
    rw [performed]
    cases q.refusal a with
    | some e => exact hq
    | none => exact enqueued_of_lasting hI hq v
  | dequeue => exact dequeued_of_lasting hI hq

/-- **What lasts, a growable queue keeps**, through every operation and every fault. -/
theorem kept_of_lasting {I : Ring p → Prop} (hI : Ring.Lasting I) :
    Call.Kept (perform (p := p) (w := w) (s := s)) fun q => I q.ring := by
  intro op q hq
  rw [run_perform (hI.fitting hq)]
  exact performed_of_lasting hI hq op

/-- A fitting ring stays fitting. -/
theorem kept_fitting : Call.Kept (perform (p := p) (w := w) (s := s)) fun q => Fitting q.ring :=
  kept_of_lasting Ring.lasting_fitting

end Fifo.GrowableQueue
