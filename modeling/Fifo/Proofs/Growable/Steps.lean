/-
  STEPS OF A GROWABLE QUEUE, as equations.

  A queue whose ring is fitting has ONE outcome for each call, as long as memory could hold the store
  that the call asks for (`asked`, `Granted`) and a word has room for one move more in the count:

  * an enqueue writes (`run_enqueue_of_lt`), after a move up if the ring is full
    (`run_enqueue_of_full`);
  * a dequeue finds nothing (`run_dequeue_of_size_eq_zero`), or reads, and then stays
    (`run_dequeue_of_none`) or moves into the store of the policy (`run_dequeue_of_some`).

  The index rule occurs in none of them.  A policy is `Usable` if a queue can do what it says: every
  policy is that whose answers all are powers of two and large enough (`Honest.usable`), and so is
  one that asks for nothing but half of a store, and only when a quarter of it is left
  (`Halves.usable`).  Of the quarter policy this is true where a queue asks, and not everywhere.
-/
import Fifo.Proofs.Ring.Relocation
import Fifo.Queue

namespace Fifo

/-! ## Policies -/

namespace ShrinkPolicy

/-- Every answer is a power of two that has room for the elements. -/
def Honest (s : ShrinkPolicy) : Prop :=
  ∀ size capacity target, s.shrinkTo size capacity = some target →
    Capacity.isPower target = true ∧ size ≤ target

/-- The same, of the answers to questions about a store that a queue could have. -/
def Usable (s : ShrinkPolicy) : Prop :=
  ∀ size capacity target, Capacity.isPower capacity = true → s.shrinkTo size capacity = some target →
    Capacity.isPower target = true ∧ size ≤ target

theorem Honest.usable {s : ShrinkPolicy} (h : s.Honest) : s.Usable :=
  fun size capacity target _ hs => h size capacity target hs

theorem honest_never : never.Honest := by
  intro size capacity target h
  nomatch h

/-- A table is as good as its rows. -/
theorem honest_table {rows : List Row}
    (h : ∀ row ∈ rows, Capacity.isPower row.target = true ∧ row.size ≤ row.target) :
    (table rows).Honest := by
  intro size capacity target hs
  obtain ⟨row, hfind, rfl⟩ := Option.map_eq_some_iff.mp hs
  have hfits := List.find?_some hfind
  have hsize : row.size = size := beq_iff_eq.mp (Bool.and_eq_true_iff.mp hfits).1
  rw [← hsize]
  exact h row (List.mem_of_find?_eq_some hfind)

/-- `Halves s` — of a store that a queue could have, nothing is asked but its half, and that only when
    a quarter of it is left and the quarter is above the floor. -/
def Halves (s : ShrinkPolicy) : Prop :=
  ∀ size capacity target, Capacity.isPower capacity = true → s.shrinkTo size capacity = some target →
    2 * floor ≤ size ∧ capacity = 4 * size ∧ target = 2 * size

theorem halves_never : never.Halves := by
  intro size capacity target _ h
  nomatch h

theorem quarter_eq_some_iff {size capacity target : Nat} :
    quarter.shrinkTo size capacity = some target ↔
      floor < size ∧ size = capacity / 4 ∧ target = capacity / 2 := by
  show (if floor < size ∧ size = capacity / 4 then some (capacity / 2) else none) = some target ↔ _
  by_cases h : floor < size ∧ size = capacity / 4
  · rw [if_pos h, Option.some.injEq]
    constructor
    · intro htarget
      exact ⟨h.1, h.2, htarget.symm⟩
    · rintro ⟨_, _, htarget⟩
      exact htarget.symm
  · rw [if_neg h]
    constructor
    · intro hnone
      nomatch hnone
    · rintro ⟨hfloor, hquarter, _⟩
      exact absurd ⟨hfloor, hquarter⟩ h

theorem double_floor : 2 * floor = 32 := rfl

/-- The powers of two above the floor start at twice the floor, which is a power of two as well. -/
theorem double_floor_le {n : Nat} (hp : Capacity.isPower n = true) (h : floor < n) :
    2 * floor ≤ n := Capacity.double_le_of_lt (by decide) hp h

theorem halves_quarter : quarter.Halves := by
  intro size capacity target hp h
  obtain ⟨hfloor, hquarter, htarget⟩ := quarter_eq_some_iff.mp h
  have hcapacity : capacity = 4 * size := by
    have hfour := Capacity.eq_four_mul hp (by omega)
    omega
  have hsize : Capacity.isPower size = true := by
    apply Capacity.isPower_of_double
    apply Capacity.isPower_of_double
    rwa [hcapacity, show 4 * size = 2 * (2 * size) from by omega] at hp
  exact ⟨double_floor_le hsize hfloor, hcapacity, by omega⟩

/-- Half of a power of two is one, and has room for a quarter. -/
theorem Halves.usable {s : ShrinkPolicy} (h : s.Halves) : s.Usable := by
  intro size capacity target hp hs
  obtain ⟨_, hcapacity, rfl⟩ := h size capacity target hp hs
  refine ⟨Capacity.isPower_of_double ?_, by omega⟩
  rwa [hcapacity, show 4 * size = 2 * (2 * size) from by omega] at hp

theorem usable_quarter : quarter.Usable := halves_quarter.usable

/-- So do both standard policies: one by halving, and one by never asking. -/
theorem halves_of_standard {s : ShrinkPolicy} (hs : s = never ∨ s = quarter) : s.Halves := by
  rcases hs with rfl | rfl
  · exact halves_never
  · exact halves_quarter

end ShrinkPolicy

namespace GrowableQueue

variable {p : Placement} {w : IndexRule} {s : ShrinkPolicy}

open Fifo.Ring (Fitting)

/-! ## The memory that an operation asks for -/

/-- The size of the store that an operation asks for, if it asks for one. -/
def asked (q : GrowableQueue p w s) : Queue.Op → Option Nat
  | .enqueue _ => if q.ring.isFull then some (2 * q.capacity) else none
  | .dequeue => if q.size = 0 then none else s.shrinkTo (q.size - 1) q.capacity

/-- `Granted q op` — memory could hold the store that the operation asks for. -/
def Granted (q : GrowableQueue p w s) (op : Queue.Op) : Prop :=
  ∀ capacity ∈ q.asked op, Store.addressable p capacity = true

instance (q : GrowableQueue p w s) (op : Queue.Op) : Decidable (Granted q op) :=
  inferInstanceAs (Decidable (∀ capacity ∈ q.asked op, Store.addressable p capacity = true))

/-! ## Moves -/

/-- The queue in another store, before that is counted. -/
def inStore (q : GrowableQueue p w s) (capacity : Nat) : GrowableQueue p w s :=
  { q with ring := q.ring.relocated capacity }

/-- The queue in a store of twice the size. -/
def movedUp (q : GrowableQueue p w s) : GrowableQueue p w s :=
  ⟨q.ring.relocated (2 * q.capacity), q.grows + 1, q.shrinks⟩

/-- The queue in the store that the policy named. -/
def movedDown (q : GrowableQueue p w s) (capacity : Nat) : GrowableQueue p w s :=
  ⟨q.ring.relocated capacity, q.grows, q.shrinks + 1⟩

theorem isFull_iff (q : GrowableQueue p w s) : q.ring.isFull = true ↔ q.size = q.capacity :=
  beq_iff_eq

theorem run_onRing {α : Type} (c : Call (Ring p) α) (q : GrowableQueue p w s) :
    (onRing c).run q = (c.run q.ring).mapState fun ring => { q with ring } := rfl

theorem doubled_eq_ok {q : GrowableQueue p w s}
    (hm : Store.addressable p (2 * q.capacity) = true) : q.doubled = .ok (2 * q.capacity) := by
  unfold doubled Word.double?
  rw [if_pos (Store.lt_limit_of_addressable hm)]

theorem countGrow_eq_ok {q : GrowableQueue p w s} (h : q.grows + 1 < Word.limit) :
    q.countGrow = .ok { q with grows := q.grows + 1 } := by
  rw [countGrow, Word.succ_eq_ok h]
  rfl

theorem countGrow_eq_error {q : GrowableQueue p w s} (h : ¬ q.grows + 1 < Word.limit) :
    q.countGrow = .error .addOverflow := by
  rw [countGrow, Word.succ_eq_error h]
  rfl

theorem countShrink_eq_ok {q : GrowableQueue p w s} (h : q.shrinks + 1 < Word.limit) :
    q.countShrink = .ok { q with shrinks := q.shrinks + 1 } := by
  rw [countShrink, Word.succ_eq_ok h]
  rfl

theorem countShrink_eq_error {q : GrowableQueue p w s} (h : ¬ q.shrinks + 1 < Word.limit) :
    q.countShrink = .error .addOverflow := by
  rw [countShrink, Word.succ_eq_error h]
  rfl

/-- A full queue moves up, and then the move is counted. -/
theorem run_grow_eq_grown {q : GrowableQueue p w s} (hf : Fitting q.ring)
    (hm : Store.addressable p (2 * q.capacity) = true) :
    grow.run q = (grown (2 * q.capacity)).run (q.inStore (2 * q.capacity)) := by
  have hs : q.ring.size ≤ 2 * q.capacity := hf.size_le_double
  have hp : Capacity.isPower (2 * q.capacity) = true := Capacity.isPower_double hf.power
  simp only [grow, Call.run_bind, Call.run_self, Outcome.andThen_ok, doubled_eq_ok hm, run_onRing]
  rw [Ring.run_relocate hf hp hs hm w]
  rfl

/-- A full queue moves up. -/
theorem run_grow {q : GrowableQueue p w s} (hf : Fitting q.ring)
    (hm : Store.addressable p (2 * q.capacity) = true) (hn : q.grows + 1 < Word.limit) :
    grow.run q = ⟨q.movedUp, [.grew (2 * q.capacity) q.size], .ok ()⟩ := by
  have hcount : (q.inStore (2 * q.capacity)).countGrow = .ok q.movedUp := countGrow_eq_ok hn
  rw [run_grow_eq_grown hf hm, grown, Call.run_bind, Call.run_change_of_ok hcount]
  rfl

/-- A move up that can not be counted stops the call. -/
theorem run_grow_of_uncounted {q : GrowableQueue p w s} (hf : Fitting q.ring)
    (hm : Store.addressable p (2 * q.capacity) = true) (hn : ¬ q.grows + 1 < Word.limit) :
    grow.run q = ⟨q.inStore (2 * q.capacity), [], .error .addOverflow⟩ := by
  have hcount : (q.inStore (2 * q.capacity)).countGrow = .error .addOverflow :=
    countGrow_eq_error hn
  rw [run_grow_eq_grown hf hm, grown, Call.run_bind, Call.run_change_of_error hcount]
  rfl

/-- A queue moves down into a store with room for what it holds. -/
theorem run_shrink {q : GrowableQueue p w s} (hf : Fitting q.ring) {capacity : Nat}
    (hp : Capacity.isPower capacity = true) (hs : q.size ≤ capacity)
    (hm : Store.addressable p capacity = true) (hn : q.shrinks + 1 < Word.limit) :
    (shrink capacity).run q = ⟨q.movedDown capacity, [.shrank capacity q.size], .ok ()⟩ := by
  have hcount : (q.inStore capacity).countShrink = .ok (q.movedDown capacity) :=
    countShrink_eq_ok hn
  rw [shrink, Call.run_bind, run_onRing, Ring.run_relocate hf hp hs hm w]
  show (Outcome.mk (q.inStore capacity) [] (.ok ())).andThen _ = _
  rw [Outcome.andThen_ok, Call.run_bind, Call.run_change_of_ok hcount]
  rfl

/-! ## Enqueueing -/

/-- The queue with an element more, in the store it is in. -/
def written (q : GrowableQueue p w s) (v : Int32) : GrowableQueue p w s :=
  { q with ring := q.ring.written v }

theorem capacity_written (q : GrowableQueue p w s) (v : Int32) :
    (q.written v).capacity = q.capacity := Ring.capacity_written q.ring v

theorem run_write {q : GrowableQueue p w s} (hf : Fitting q.ring) (hs : q.size < q.capacity)
    (v : Int32) : (onRing (Ring.write w v)).run q = ⟨q.written v, [], .ok ()⟩ := by
  rw [run_onRing, Ring.run_write hf.toSound (hf.succ_lt hs)]
  rfl

theorem run_enqueue_of_lt {q : GrowableQueue p w s} (hf : Fitting q.ring)
    (hs : q.size < q.capacity) (v : Int32) :
    (enqueue v).run q = ⟨q.written v, [], .ok ()⟩ := by
  have hnot : q.ring.isFull = false :=
    Bool.eq_false_iff.mpr fun h => Nat.ne_of_lt hs ((isFull_iff q).mp h)
  simp only [enqueue, Call.run_bind, Call.run_self, Outcome.andThen_ok, hnot, Bool.false_eq_true,
    if_false, run_write hf hs, List.nil_append]

theorem fitting_movedUp {q : GrowableQueue p w s} (hf : Fitting q.ring)
    (hm : Store.addressable p (2 * q.capacity) = true) : Fitting q.movedUp.ring :=
  Ring.fitting_relocated (Capacity.isPower_double hf.power) (Store.lt_limit_of_addressable hm)
    hf.size_le_double

theorem capacity_inStore {q : GrowableQueue p w s} {capacity : Nat} (hs : q.size ≤ capacity) :
    (q.inStore capacity).capacity = capacity := Ring.capacity_relocated hs

theorem capacity_movedUp {q : GrowableQueue p w s} (hf : Fitting q.ring) :
    q.movedUp.capacity = 2 * q.capacity := Ring.capacity_relocated hf.size_le_double

/-- There is room after a move up. -/
theorem size_movedUp_lt {q : GrowableQueue p w s} (hf : Fitting q.ring) :
    q.movedUp.size < q.movedUp.capacity := by
  have hpos := hf.capacity_pos
  have hle := hf.size_le
  rw [capacity_movedUp hf]
  show q.ring.size < 2 * q.ring.capacity
  omega

theorem run_enqueue_of_full {q : GrowableQueue p w s} (hf : Fitting q.ring)
    (hs : q.size = q.capacity) (hm : Store.addressable p (2 * q.capacity) = true)
    (hn : q.grows + 1 < Word.limit) (v : Int32) :
    (enqueue v).run q = ⟨q.movedUp.written v, [.grew (2 * q.capacity) q.size], .ok ()⟩ := by
  have hfull : q.ring.isFull = true := (isFull_iff q).mpr hs
  simp only [enqueue, Call.run_bind, Call.run_self, Outcome.andThen_ok, hfull, if_true,
    run_grow hf hm hn, run_write (fitting_movedUp hf hm) (size_movedUp_lt hf)]
  rfl

/-- Nothing is written after a move up that can not be counted. -/
theorem run_enqueue_of_uncounted {q : GrowableQueue p w s} (hf : Fitting q.ring)
    (hs : q.size = q.capacity) (hm : Store.addressable p (2 * q.capacity) = true)
    (hn : ¬ q.grows + 1 < Word.limit) (v : Int32) :
    (enqueue v).run q = ⟨q.inStore (2 * q.capacity), [], .error .addOverflow⟩ := by
  have hfull : q.ring.isFull = true := (isFull_iff q).mpr hs
  simp only [enqueue, Call.run_bind, Call.run_self, Outcome.andThen_ok, hfull, if_true,
    run_grow_of_uncounted hf hm hn, Outcome.andThen_error]
  rfl

/-! ## Dequeueing -/

/-- The queue with an element less, in the store it is in. -/
def taken (q : GrowableQueue p w s) : GrowableQueue p w s := { q with ring := q.ring.taken }

theorem capacity_taken (q : GrowableQueue p w s) : q.taken.capacity = q.capacity :=
  Ring.capacity_taken q.ring

theorem run_dequeue_of_size_eq_zero {q : GrowableQueue p w s} (hs : q.size = 0) :
    dequeue.run q = ⟨q, [], .ok p.empty⟩ := by
  simp only [dequeue, Call.run_bind, Call.run_self, Outcome.andThen_ok, hs, if_true, run_onRing]
  rw [Ring.run_read_of_size_eq_zero hs w]
  rfl

/-- An element is taken, and then the policy is asked. -/
theorem run_dequeue_eq_consult {q : GrowableQueue p w s} (hf : Fitting q.ring) (hs : 0 < q.size) :
    dequeue.run q = (consult.run q.taken).andThen fun () => pure (p.unpack q.ring.front) := by
  have hne : ¬ q.size = 0 := Nat.ne_of_gt hs
  simp only [dequeue, Call.run_bind, Call.run_self, Outcome.andThen_ok, hne, if_false, run_onRing]
  rw [Ring.run_read hf.toSound hs w]
  simp only [Outcome.mapState_mk, Outcome.andThen_ok, Call.run_bind, List.nil_append]
  rfl

/-- The policy is told what is left, in the store as it is. -/
theorem shrinkTo_taken (q : GrowableQueue p w s) :
    s.shrinkTo q.taken.size q.taken.capacity = s.shrinkTo (q.size - 1) q.capacity :=
  congrArg (s.shrinkTo (q.size - 1)) q.capacity_taken

theorem run_dequeue_of_none {q : GrowableQueue p w s} (hf : Fitting q.ring) (hs : 0 < q.size)
    (hpolicy : s.shrinkTo (q.size - 1) q.capacity = none) :
    dequeue.run q = ⟨q.taken, [], .ok (p.unpack q.ring.front)⟩ := by
  have hasked : s.shrinkTo q.taken.size q.taken.capacity = none := q.shrinkTo_taken.trans hpolicy
  have hconsult : consult.run q.taken = ⟨q.taken, [], .ok ()⟩ := by
    simp only [consult, Call.run_bind, Call.run_self, Outcome.andThen_ok, hasked]
    rfl
  rw [run_dequeue_eq_consult hf hs, hconsult]
  rfl

theorem run_dequeue_of_some {q : GrowableQueue p w s} (hf : Fitting q.ring) (hs : 0 < q.size)
    {target : Nat} (hpolicy : s.shrinkTo (q.size - 1) q.capacity = some target)
    (hp : Capacity.isPower target = true) (hle : q.size - 1 ≤ target)
    (hm : Store.addressable p target = true) (hn : q.shrinks + 1 < Word.limit) :
    dequeue.run q =
      ⟨q.taken.movedDown target, [.shrank target (q.size - 1)], .ok (p.unpack q.ring.front)⟩ := by
  have hasked : s.shrinkTo q.taken.size q.taken.capacity = some target :=
    q.shrinkTo_taken.trans hpolicy
  have hshrink := run_shrink (q := q.taken) (hf.taken hs) hp hle hm hn
  have hconsult : consult.run q.taken =
      ⟨q.taken.movedDown target, [.shrank target (q.size - 1)], .ok ()⟩ := by
    simp only [consult, Call.run_bind, Call.run_self, Outcome.andThen_ok, hasked]
    rw [hshrink]
    rfl
  rw [run_dequeue_eq_consult hf hs, hconsult]
  rfl

end GrowableQueue
end Fifo
