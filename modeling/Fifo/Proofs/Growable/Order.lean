/-
  ORDER in growable queues: first in, first out, through every move.

  A growable queue holds a list of elements if its ring does (`Ring.Holds`).  Writing appends to the
  list, reading removes its first element, and a move changes neither the window nor the invariant,
  wherever the head was before and however full the new store is.  So the queue refines the list
  (`GrowableQueue.refines`), as long as memory could hold the stores that it asks for and its moves can
  be counted.
-/
import Fifo.Proofs.Growable.Counts

namespace Fifo.GrowableQueue

variable {p : Placement} {w : IndexRule} {s : ShrinkPolicy}

/-- `Holds q items` — the elements of the queue are `items`. -/
def Holds (q : GrowableQueue p w s) (items : List Int32) : Prop := q.ring.Holds items

/-- A queue that was made for a request is vacant, and its capacity is the request rounded up. -/
theorem new_eq_ok {requested : Nat} {q : GrowableQueue p w s} (h : new p w s requested = .ok q) :
    q = ⟨Ring.vacant p (Capacity.leastPower requested), 0, 0⟩ ∧
      Capacity.leastPower requested < Word.limit ∧
      Store.addressable p (Capacity.leastPower requested) = true := by
  have hmap : (Ring.new p requested).map (fun ring => (⟨ring, 0, 0⟩ : GrowableQueue p w s)) = .ok q :=
    h
  obtain ⟨ring, hring, rfl⟩ := exists_of_map_eq_ok hmap
  obtain ⟨rfl, hw, hm⟩ := Ring.new_eq_ok hring
  exact ⟨rfl, hw, hm⟩

/-- What was reserved could have been asked for. -/
theorem new_of_new? {a : Allocator} {requested : Nat} {q : GrowableQueue p w s}
    (h : new? a p w s requested = .ok q) : new p w s requested = .ok q := by
  have hmap : (Ring.new? a p requested).map
      (fun ring => (⟨ring, 0, 0⟩ : GrowableQueue p w s)) = .ok q := h
  obtain ⟨ring, hring, rfl⟩ := exists_of_map_eq_ok hmap
  rw [new, Ring.new_of_new? hring]
  rfl

/-- `Made q` — the queue is a new one: for some request it was asked for, or reserved. -/
def Made (q : GrowableQueue p w s) : Prop :=
  ∃ requested, new p w s requested = .ok q ∨ ∃ a, new? a p w s requested = .ok q

theorem Made.exists_new {q : GrowableQueue p w s} (h : q.Made) :
    ∃ requested, new p w s requested = .ok q := by
  obtain ⟨requested, hnew | ⟨a, hreserved⟩⟩ := h
  · exact ⟨requested, hnew⟩
  · exact ⟨requested, new_of_new? hreserved⟩

theorem holds_new {requested : Nat} {q : GrowableQueue p w s}
    (h : new p w s requested = .ok q) : q.Holds [] := by
  obtain ⟨rfl, hw, _⟩ := new_eq_ok h
  exact Ring.holds_vacant (Capacity.isPower_leastPower requested) hw

/-- Nothing has been counted yet: a word has room for any number of calls below `2 ^ 64`. -/
theorem spare_new {requested n : Nat} {q : GrowableQueue p w s} (h : new p w s requested = .ok q)
    (hn : s = .never ∨ n < Word.limit) : q.Spare n := by
  obtain ⟨rfl, _⟩ := new_eq_ok h
  rcases hn with hs | hn
  · refine .inl ⟨hs, ?_⟩
    exact Nat.lt_of_lt_of_eq (Capacity.pos_of_isPower (Capacity.isPower_leastPower requested))
      (Store.size_vacant p _).symm
  · have hzero : 0 + n < Word.limit := Nat.lt_of_le_of_lt (Nat.le_of_eq (Nat.zero_add n)) hn
    exact .inr ⟨hzero, hzero⟩

theorem Made.spare {q : GrowableQueue p w s} (h : q.Made) {n : Nat}
    (hn : s = .never ∨ n < Word.limit) : q.Spare n := by
  obtain ⟨requested, hnew⟩ := h.exists_new
  exact spare_new hnew hn

theorem Made.fitting {q : GrowableQueue p w s} (h : q.Made) : Ring.Fitting q.ring := by
  obtain ⟨requested, hnew⟩ := h.exists_new
  exact (holds_new hnew).fitting

/-- An enqueue appends, before or after a move up. -/
theorem Holds.enqueue {q : GrowableQueue p w s} {items : List Int32} (h : q.Holds items) (v : Int32)
    (hm : Granted q (.enqueue v)) (hn : q.Spare 1) :
    ∃ q' log, (enqueue v).run q = ⟨q', log, .ok ()⟩ ∧ q'.Holds (items ++ [v]) := by
  have hf := Ring.Holds.fitting h
  rcases Nat.lt_or_eq_of_le hf.size_le with hlt | hfull
  · exact ⟨_, _, run_enqueue_of_lt hf hlt v, Ring.Holds.written h hlt v⟩
  · -- the ring is full, so that a store is asked for: the one that was granted
    have hasked : q.asked (.enqueue v) = some (2 * q.capacity) := if_pos ((isFull_iff q).mpr hfull)
    have hstore : Store.addressable p (2 * q.capacity) = true := hm _ hasked
    have hmoved : q.movedUp.Holds items :=
      Ring.Holds.relocated h (Capacity.isPower_double hf.power)
        (Store.lt_limit_of_addressable hstore) hf.size_le_double
    exact ⟨_, _, run_enqueue_of_full hf hfull hstore (hn.grows_lt hf) v,
      Ring.Holds.written hmoved (size_movedUp_lt hf) v⟩

/-- A dequeue removes the first element, and a move down after it changes nothing. -/
theorem Holds.dequeue (hs : s.Usable) {q : GrowableQueue p w s} {v : Int32} {items : List Int32}
    (h : q.Holds (v :: items)) (hm : Granted q .dequeue) (hn : q.Spare 1) :
    ∃ q' log, dequeue.run q = ⟨q', log, .ok (p.unpack (p.pack v))⟩ ∧ q'.Holds items := by
  have hf := Ring.Holds.fitting h
  have hpos : 0 < q.size := Ring.Holds.size_pos h
  have htaken : q.taken.Holds items := Ring.Holds.taken h
  rw [← Ring.Holds.front_eq h]
  cases hpolicy : s.shrinkTo (q.size - 1) q.capacity with
  | none => exact ⟨_, _, run_dequeue_of_none hf hpos hpolicy, htaken⟩
  | some target =>
    obtain ⟨hp, hle⟩ := hs _ _ _ hf.power hpolicy
    have hasked : q.asked .dequeue = some target := (if_neg (Nat.ne_of_gt hpos)).trans hpolicy
    have hstore : Store.addressable p target = true := hm _ hasked
    exact ⟨_, _, run_dequeue_of_some hf hpos hpolicy hp hle hstore (hn.shrinks_lt hpolicy),
      Ring.Holds.relocated htaken hp (Store.lt_limit_of_addressable hstore) hle⟩

theorem refines (hs : s.Usable) :
    Queue.Refines (σ := GrowableQueue p w s) Holds fun q op => Granted q op ∧ q.Spare 1 := by
  apply Queue.Refines.of_outcomes
  · intro q items h
    exact Ring.Holds.size_eq h
  · rintro q items v h ⟨hm, hn⟩
    exact h.enqueue v hm hn
  · intro q h
    exact ⟨q, [], run_dequeue_of_size_eq_zero (Ring.Holds.size_eq h), h⟩
  · rintro q v items h ⟨hm, hn⟩
    exact h.dequeue hs hm hn

/-- **Runs are seen to be those of the list**, from every queue that holds one and has counts to
    spare. -/
theorem Holds.seen_trace (hs : s.Usable) {q : GrowableQueue p w s} {items : List Int32}
    (h : q.Holds items) {ops : List Queue.Op} (hn : q.Spare ops.length)
    (hm : Queue.Throughout Granted ops q) :
    (Queue.trace ops q).map Queue.seen =
      (Queue.trace ops (Reference.mk items : Reference p)).map Queue.seen :=
  (refines hs).seen_trace ops h (throughout_spare hm (Ring.Holds.fitting h) hn)

/-- A queue that never shrinks stays in its store as long as there is room in it. -/
theorem refines_within (room : Nat) :
    Queue.Refines (σ := GrowableQueue p w .never) (fun q items => room ≤ q.capacity ∧ q.Holds items)
      (Queue.Room room) := by
  apply Queue.Refines.of_outcomes
  · rintro q items ⟨_, h⟩
    exact Ring.Holds.size_eq h
  · rintro q items v ⟨hle, h⟩ hroom
    have hsize : q.size < room := hroom (by simp)
    have hlt : q.size < q.capacity := Nat.lt_of_lt_of_le hsize hle
    refine ⟨_, _, run_enqueue_of_lt (Ring.Holds.fitting h) hlt v, ?_, Ring.Holds.written h hlt v⟩
    exact Nat.le_trans hle (Nat.le_of_eq (Ring.capacity_written q.ring v).symm)
  · rintro q ⟨hle, h⟩
    exact ⟨q, [], run_dequeue_of_size_eq_zero (Ring.Holds.size_eq h), hle, h⟩
  · rintro q v items ⟨hle, h⟩ _
    rw [← Ring.Holds.front_eq h]
    refine ⟨_, _, run_dequeue_of_none (Ring.Holds.fitting h) (Ring.Holds.size_pos h) rfl, ?_,
      Ring.Holds.taken h⟩
    exact Nat.le_trans hle (Nat.le_of_eq (Ring.capacity_taken q.ring).symm)

/-- **A growable queue is first in, first out**, whatever the placement, the index rule and the
    request, under each of the two standard policies and every honest one: call by call, its runs are
    seen to be those of the list, as long as memory could hold the stores that they ask for.  Under the
    policy `never` this is true of every run, and under the others of fewer than `2 ^ 64` calls. -/
theorem seen_growable_run (hs : s = .never ∨ s = .quarter ∨ s.Honest) {requested : Nat}
    {q : GrowableQueue p w s} (hq : new p w s requested = .ok q) (ops : List Queue.Op)
    (hn : s = .never ∨ ops.length < Word.limit) (hm : Queue.Throughout Granted ops q) :
    (Queue.trace ops q).map Queue.seen =
      (Queue.trace ops (Reference.empty p)).map Queue.seen := by
  have husable : s.Usable := by
    rcases hs with rfl | rfl | hs
    · exact ShrinkPolicy.honest_never.usable
    · exact ShrinkPolicy.usable_quarter
    · exact hs.usable
  exact (holds_new hq).seen_trace husable (spare_new hq hn) hm

/-- A run that moves down into a store that is just full, up again, and down to a larger one. -/
theorem seen_growable_run_of_table :
    let s := ShrinkPolicy.table [⟨2, 4, 2⟩, ⟨1, 2, 8⟩]
    let q : GrowableQueue .boxed .mask s := ⟨Ring.vacant .boxed 2, 0, 0⟩
    let ops : List Queue.Op :=
      [.enqueue 1, .enqueue 2, .enqueue 3, .dequeue, .enqueue 4, .dequeue, .dequeue, .enqueue 5,
        .dequeue, .dequeue, .dequeue]
    s.Honest ∧ new .boxed .mask s 2 = .ok q ∧ ops.length < Word.limit ∧
      Queue.Throughout Granted ops q ∧
      (Queue.trace ops q).map Queue.seen =
        (Queue.trace ops (Reference.empty .boxed)).map Queue.seen := by
  intro s q ops
  have hs : s.Honest := ShrinkPolicy.honest_table (by decide)
  have hq : new .boxed .mask s 2 = .ok q := rfl
  have hn : ops.length < Word.limit := by decide
  have hm : Queue.Throughout Granted ops q := by decide +kernel
  exact ⟨hs, hq, hn, hm, seen_growable_run (.inr (.inr hs)) hq ops (.inr hn) hm⟩

end Fifo.GrowableQueue
