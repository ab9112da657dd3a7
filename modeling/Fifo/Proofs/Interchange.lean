/-
  INTERCHANGE: the queues of all strategies do the same.

  1. **Program** — four layouts behind one interface: a ring that nobody looks after, a ring that
     doubles, a chain of nodes, a chain of segments.  The capacity that all are built with is rounded
     by the first two, hidden by the third, and the size of a segment for the fourth.

  2. **Within the capacity** — each of the four refines the list in runs whose enqueues find fewer
     elements than the rounded capacity (`Within`).  The list also tells all of them the SAME number
     of elements, so a run that finds room in one queue finds it in the others.

  3. **Beyond** — the last three refine it in every run, as long as memory could hold the stores that
     a growable queue asks for (`GrowthGranted`).

  Two queues that both are seen to be the list are seen to be the same.
-/
import Fifo.Proofs.Fixed.Order
import Fifo.Proofs.Growable.Order
import Fifo.Proofs.Linked.Order
import Fifo.Proofs.Segmented.Order
import Fifo.Strategy.Build

namespace Fifo

namespace Queue

variable {σ τ : Type} {p : Placement} [Queue σ p] [Queue τ p]

/-- `Within room q` — as long as enqueues find fewer than `room` elements, runs are seen to be those
    of the list, and the list can tell whether they find that. -/
structure Within (room : Nat) (q : σ) : Prop where
  throughout_iff : ∀ ops, Throughout (Room room) ops q ↔
    Throughout (Room room) ops (Reference.empty p)
  seen_trace : ∀ ops, Throughout (Room room) ops q →
    (trace ops q).map seen = (trace ops (Reference.empty p)).map seen

theorem Refines.within {Holds : σ → List Int32 → Prop} {room : Nat}
    (h : Refines Holds (Room room)) {q : σ} (hq : Holds q []) : Within room q :=
  { throughout_iff := fun ops => h.throughout_room_iff ops hq
    seen_trace := fun ops hroom => h.seen_trace ops hq hroom }

theorem Embeds.within {f : τ → σ} (h : Embeds f) {room : Nat} {q : τ} (hq : Within room q) :
    Within room (f q) := by
  have hroom (ops : List Op) : Throughout (Room room) ops (f q) ↔ Throughout (Room room) ops q := by
    apply h.throughout_iff
    intro q op
    unfold Room
    rw [h.size_eq]
  constructor
  · intro ops
    rw [hroom, hq.throughout_iff]
  · intro ops hops
    rw [h.seen_trace]
    exact hq.seen_trace ops ((hroom ops).mp hops)

end Queue

open Queue (Embeds Room Throughout Within)

/-! ## Queues of any kind -/

namespace AnyQueue

variable {p : Placement}

theorem embeds_fixed (w : IndexRule) : Embeds (fixed w : FixedQueue p w → AnyQueue p) :=
  .of_calls (fun _ => rfl) (fun _ _ => rfl) (fun _ => rfl)

theorem embeds_growable (w : IndexRule) (s : ShrinkPolicy) :
    Embeds (growable w s : GrowableQueue p w s → AnyQueue p) :=
  .of_calls (fun _ => rfl) (fun _ _ => rfl) (fun _ => rfl)

theorem embeds_linked : Embeds (linked : LinkedQueue p → AnyQueue p) :=
  .of_calls (fun _ => rfl) (fun _ _ => rfl) (fun _ => rfl)

theorem embeds_segmented : Embeds (segmented : SegmentedQueue p → AnyQueue p) :=
  .of_calls (fun _ => rfl) (fun _ _ => rfl) (fun _ => rfl)

/-- `GrowthGranted q op` — memory could hold the store that a growable queue asks for. -/
def GrowthGranted : AnyQueue p → Queue.Op → Prop
  | .growable _ _ q, op => q.Granted op
  | _, _ => True

instance (q : AnyQueue p) (op : Queue.Op) : Decidable (GrowthGranted q op) :=
  match q with
  | .growable _ _ q => inferInstanceAs (Decidable (q.Granted op))
  | .fixed _ _ => .isTrue trivial
  | .linked _ => .isTrue trivial
  | .segmented _ => .isTrue trivial

end AnyQueue

/-! ## Queues that were built -/

namespace Strategy

variable {p : Placement} {capacity : Nat}

/-- If memory could hold a store of the capacity, it could hold a segment. -/
theorem addressable_segment {q : AnyQueue p} (h : build p .fixed capacity = .ok q) :
    Store.addressable p (max capacity 1) = true := by
  obtain ⟨q', hnew, _⟩ := exists_of_map_eq_ok h
  obtain ⟨_, _, hstore⟩ := FixedQueue.new_eq_ok hnew
  have hpos : 0 < Capacity.leastPower capacity :=
    Capacity.pos_of_isPower (Capacity.isPower_leastPower capacity)
  exact Store.addressable_of_le (Nat.max_le.mpr ⟨Capacity.le_leastPower capacity, hpos⟩) hstore

/-- **Within the rounded capacity, every queue that was built is a list.** -/
theorem within_of_build (hm : Store.addressable p (max capacity 1) = true) {t : Strategy}
    {q : AnyQueue p} (h : t.build p capacity = .ok q) :
    Within (Capacity.leastPower capacity) q := by
  cases t with
  | fixed =>
    obtain ⟨q', hnew, rfl⟩ := exists_of_map_eq_ok h
    exact (AnyQueue.embeds_fixed .compare).within
      ((FixedQueue.refines _).within (FixedQueue.holds_new hnew))
  | growable =>
    obtain ⟨q', hnew, rfl⟩ := exists_of_map_eq_ok h
    have hcapacity : Capacity.leastPower capacity ≤ q'.capacity := by
      obtain ⟨rfl, _⟩ := GrowableQueue.new_eq_ok hnew
      exact Nat.le_of_eq (Store.size_vacant p _).symm
    exact (AnyQueue.embeds_growable .compare .never).within
      ((GrowableQueue.refines_within _).within ⟨hcapacity, GrowableQueue.holds_new hnew⟩)
  | linked =>
    cases h
    exact AnyQueue.embeds_linked.within
      ((LinkedQueue.refines.mono fun _ _ => trivial).within LinkedQueue.holds_new)
  | segmented =>
    cases h
    have hrefines := SegmentedQueue.refines (SegmentedQueue.requested_pos capacity) hm
    exact AnyQueue.embeds_segmented.within
      ((hrefines.mono fun _ _ => trivial).within (SegmentedQueue.holds_new capacity))

/-- **Beyond it, so is every one but the fixed.** -/
theorem seen_trace_of_build (hm : Store.addressable p (max capacity 1) = true) {t : Strategy}
    (ht : t ≠ .fixed) {q : AnyQueue p} (h : t.build p capacity = .ok q) (ops : List Queue.Op)
    (hgrowth : Throughout AnyQueue.GrowthGranted ops q) :
    (Queue.trace ops q).map Queue.seen =
      (Queue.trace ops (Reference.empty p)).map Queue.seen := by
  cases t with
  | fixed => exact absurd rfl ht
  | growable =>
    obtain ⟨q', hnew, rfl⟩ := exists_of_map_eq_ok h
    have hembeds := AnyQueue.embeds_growable (p := p) .compare .never
    have hgranted : Throughout GrowableQueue.Granted ops q' :=
      (hembeds.throughout_iff (fun _ _ => Iff.rfl) ops q').mp hgrowth
    rw [hembeds.seen_trace]
    exact (GrowableQueue.holds_new hnew).seen_trace ShrinkPolicy.honest_never.usable
      (GrowableQueue.spare_new hnew (.inl rfl)) hgranted
  | linked =>
    cases h
    rw [AnyQueue.embeds_linked.seen_trace]
    exact LinkedQueue.refines.seen_trace ops LinkedQueue.holds_new (Queue.throughout_true ops _)
  | segmented =>
    cases h
    have hrefines := SegmentedQueue.refines (SegmentedQueue.requested_pos capacity) hm
    rw [AnyQueue.embeds_segmented.seen_trace]
    exact hrefines.seen_trace ops (SegmentedQueue.holds_new capacity) (Queue.throughout_true ops _)

/-- **Strategies are interchangeable.**  Queues built by any two of them, for a capacity that all can
    be built for, answer every call and are seen to do the same, in every run whose enqueues find
    fewer elements than the capacity, rounded up; and if neither is the fixed one, in every run for
    which memory could hold the stores that a growable queue asks for. -/
theorem seen_built_runs {room : Nat} (hroom : Capacity.round capacity = .ok room)
    (hbuild : ∀ t : Strategy, ∃ q, t.build p capacity = .ok q) {t t' : Strategy}
    {q q' : AnyQueue p} (h : t.build p capacity = .ok q) (h' : t'.build p capacity = .ok q')
    (ops : List Queue.Op) :
    (Throughout (Room room) ops q →
      (∀ o ∈ Queue.trace ops q, ∃ out, o.result = .ok out) ∧
      (Queue.trace ops q).map Queue.seen = (Queue.trace ops q').map Queue.seen) ∧
    (t ≠ .fixed → t' ≠ .fixed → Throughout AnyQueue.GrowthGranted ops q →
      Throughout AnyQueue.GrowthGranted ops q' →
      (∀ o ∈ Queue.trace ops q, ∃ out, o.result = .ok out) ∧
      (Queue.trace ops q).map Queue.seen = (Queue.trace ops q').map Queue.seen) := by
  obtain ⟨_, hfixed⟩ := hbuild .fixed
  have hm := addressable_segment hfixed
  obtain rfl := Capacity.round_eq_ok hroom
  constructor
  · intro hops
    have hwithin := within_of_build hm h
    have hwithin' := within_of_build hm h'
    -- room in one queue is room in the list, and so room in the other
    have hops' := (hwithin'.throughout_iff ops).mpr ((hwithin.throughout_iff ops).mp hops)
    have hseen := hwithin.seen_trace ops hops
    exact ⟨Queue.answered_of_seen_eq hseen, hseen.trans (hwithin'.seen_trace ops hops').symm⟩
  · intro ht ht' hgrowth hgrowth'
    have hseen := seen_trace_of_build hm ht h ops hgrowth
    have hseen' := seen_trace_of_build hm ht' h' ops hgrowth'
    exact ⟨Queue.answered_of_seen_eq hseen, hseen.trans hseen'.symm⟩

/-- A ring of four against segments of three: a run that stays below four elements, and one for which
    the ring has to grow. -/
theorem seen_built_runs_of_three :
    let q : AnyQueue .boxed := .growable .compare .never ⟨Ring.vacant .boxed 4, 0, 0⟩
    let q' : AnyQueue .boxed := .segmented (SegmentedQueue.new .boxed 3)
    let few : List Queue.Op :=
      [.enqueue 1, .enqueue 2, .dequeue, .enqueue 3, .enqueue 4, .enqueue 5, .dequeue, .dequeue]
    let many : List Queue.Op :=
      [.dequeue, .enqueue 1, .enqueue 2, .enqueue 3, .enqueue 4, .enqueue 5, .dequeue, .enqueue 6,
        .enqueue 7, .dequeue, .dequeue, .dequeue, .dequeue]
    Capacity.round 3 = .ok 4 ∧ (∀ t : Strategy, ∃ q, t.build .boxed 3 = .ok q) ∧
    growable.build .boxed 3 = .ok q ∧ segmented.build .boxed 3 = .ok q' ∧
    Throughout (Room 4) few q ∧
    (Queue.trace few q).map Queue.seen = (Queue.trace few q').map Queue.seen ∧
    Throughout AnyQueue.GrowthGranted many q ∧ Throughout AnyQueue.GrowthGranted many q' ∧
    (Queue.trace many q).map Queue.seen = (Queue.trace many q').map Queue.seen := by
  intro q q' few many
  have hroom : Capacity.round 3 = .ok 4 := rfl
  have hbuild : ∀ t : Strategy, ∃ q, t.build .boxed 3 = .ok q := by
    intro t
    cases t <;> exact ⟨_, rfl⟩
  have h : growable.build .boxed 3 = .ok q := rfl
  have h' : segmented.build .boxed 3 = .ok q' := rfl
  have hfew : Throughout (Room 4) few q := by decide +kernel
  have hmany : Throughout AnyQueue.GrowthGranted many q := by decide +kernel
  have hmany' : Throughout AnyQueue.GrowthGranted many q' := by decide +kernel
  obtain ⟨_, hsame⟩ := (seen_built_runs hroom hbuild h h' few).1 hfew
  obtain ⟨_, hsame'⟩ :=
    (seen_built_runs hroom hbuild h h' many).2 (by decide) (by decide) hmany hmany'
  exact ⟨hroom, hbuild, h, h', hfew, hsame, hmany, hmany', hsame'⟩

end Strategy
end Fifo
