/-
  HISTORIES of runs, in which nothing is ever overwritten.

  1. **History** — every element ever enqueued, each with the number of elements dequeued before it,
     and the number of dequeues so far that found an element counted.  Enqueues and such dequeues are
     numbered from zero.

  2. **Slots** — in a store of `capacity` slots, dequeue number `j` looks where enqueue number `w`
     wrote if the two numbers leave the same remainder.  `Latest` is the last such enqueue among the
     first `n`; there is one as soon as `j < n` (`exists_latest`), and while fewer than `capacity`
     enqueues lie in between it is enqueue number `j` itself (`Latest.eq_self`).

  3. **Contents** — `left`: what is left in that slot by the time of dequeue number `j`.  If enqueue
     and dequeue are less than a turn apart the element is still in it; if the slot was dequeued from
     in between, the element was taken.
-/
import Fifo.Proofs.Ring.Window
import Fifo.Queue

namespace Fifo

/-- Everything that was done to a queue. -/
structure History where
  /-- The elements enqueued, in order, each with the number of elements dequeued before. -/
  writes : List (Int32 × Nat)
  /-- How many dequeues found an element counted. -/
  reads : Nat

namespace History

/-- The history of a queue to which nothing was done. -/
def empty : History := ⟨[], 0⟩

/-- The history after another operation; a dequeue counts if there is an enqueue that it answers. -/
def record (h : History) : Queue.Op → History
  | .enqueue v => { h with writes := h.writes ++ [(v, h.reads)] }
  | .dequeue => if h.reads < h.writes.length then { h with reads := h.reads + 1 } else h

/-- The history after a list of operations. -/
def after (h : History) (ops : List Queue.Op) : History := ops.foldl record h

/-- The history of a list of operations. -/
def of (ops : List Queue.Op) : History := empty.after ops

/-- A dequeue is no enqueue. -/
theorem writes_record_dequeue (h : History) : (h.record .dequeue).writes = h.writes := by
  show (if h.reads < h.writes.length then { h with reads := h.reads + 1 } else h).writes = _
  split <;> rfl

/-- Every enqueue is in the history, and nothing else is. -/
theorem length_writes_after (h : History) (ops : List Queue.Op) :
    (h.after ops).writes.length = h.writes.length + ops.countP (· ≠ .dequeue) := by
  induction ops generalizing h with
  | nil => rfl
  | cons op rest ih =>
    show ((h.record op).after rest).writes.length = _
    rw [ih, List.countP_cons]
    cases op with
    | enqueue v => simp [record]; omega
    | dequeue => simp [writes_record_dequeue]

/-- No enqueue is ever forgotten. -/
theorem length_le_after (h : History) (ops : List Queue.Op) :
    h.writes.length ≤ (h.after ops).writes.length := by
  rw [length_writes_after]
  exact Nat.le_add_right _ _

theorem length_le_record (h : History) (op : Queue.Op) :
    h.writes.length ≤ (h.record op).writes.length := h.length_le_after [op]

/-! ## The latest enqueue that reached a slot -/

/-- `Latest capacity n j w` — of the first `n` enqueues, number `w` is the last that wrote into the
    slot from which dequeue number `j` takes. -/
structure Latest (capacity n j w : Nat) : Prop where
  lt : w < n
  slot : w % capacity = j % capacity
  last : ∀ u, u < n → u % capacity = j % capacity → u ≤ w

/-- A dequeue of an element that is counted looks into a slot that was written. -/
theorem exists_latest {capacity n j : Nat} (hc : 0 < capacity) (hj : j < n) :
    ∃ w, Latest capacity n j w := by
  -- as many whole turns after number `j` as there have been
  have hslot : (j + capacity * ((n - 1 - j) / capacity)) % capacity = j % capacity :=
    Nat.add_mul_mod_self_left j capacity _
  have hdiv := Nat.div_add_mod (n - 1 - j) capacity
  have hmod := Nat.mod_lt (n - 1 - j) hc
  refine ⟨j + capacity * ((n - 1 - j) / capacity), ?_, hslot, ?_⟩
  · omega
  · intro u hu huslot
    rcases Nat.lt_or_ge (j + capacity * ((n - 1 - j) / capacity)) u with hlt | hle
    · have hsame := Ring.eq_of_mod_eq (Nat.le_of_lt hlt) (by omega) (hslot.trans huslot.symm)
      omega
    · exact hle

/-- While no enqueue after number `j` has come round to its slot, that slot is the one of enqueue
    number `j`. -/
theorem Latest.eq_self {capacity n j w : Nat} (h : Latest capacity n j w) (hj : j < n)
    (hn : n ≤ j + capacity) : w = j := by
  have hle : j ≤ w := h.last j hj rfl
  have hlt := h.lt
  exact (Ring.eq_of_mod_eq hle (by omega) h.slot.symm).symm

/-- A turn later the slot is the same. -/
theorem Latest.of_turn {capacity n j w : Nat} (h : Latest capacity n (j + capacity) w) :
    Latest capacity n j w := by
  have hturn : (j + capacity) % capacity = j % capacity := Nat.add_mod_right j capacity
  exact ⟨h.lt, h.slot.trans hturn, fun u hu hs => h.last u hu (hs.trans hturn.symm)⟩

/-- An enqueue takes over its slot. -/
theorem Latest.eq_of_slot {capacity n j w : Nat} (h : Latest capacity (n + 1) j w)
    (hn : n % capacity = j % capacity) : w = n := by
  have hle : n ≤ w := h.last n (Nat.lt_succ_self n) hn
  have hlt := h.lt
  omega

/-- An enqueue leaves the other slots alone. -/
theorem Latest.of_other_slot {capacity n j w : Nat} (h : Latest capacity (n + 1) j w)
    (hn : n % capacity ≠ j % capacity) : Latest capacity n j w := by
  have hne : w ≠ n := by
    rintro rfl
    exact hn h.slot
  have hlt := h.lt
  exact ⟨by omega, h.slot, fun u hu hs => h.last u (Nat.lt_succ_of_lt hu) hs⟩

/-! ## What is left in a slot -/

/-- `left p capacity j entry` — the slot written by an enqueue, as dequeue number `j` finds it when
    no other enqueue wrote into it since. -/
def left (p : Placement) (capacity j : Nat) (entry : Int32 × Nat) : p.Slot :=
  if j < entry.2 + capacity then p.pack entry.1 else p.taken (p.pack entry.1)

/-- `found p capacity k entry` — what dequeue number `k` answers when it finds the slot written by
    that enqueue: inline the element; boxed the element, unless dequeue number `k - capacity`, the one
    before it in that slot, came after the enqueue. -/
def found (p : Placement) (capacity k : Nat) (entry : Int32 × Nat) : p.Out :=
  match p with
  | .inline => entry.1
  | .boxed => if k < capacity ∨ k - capacity < entry.2 then some entry.1 else none

theorem unpack_left (p : Placement) (capacity k : Nat) (entry : Int32 × Nat) :
    p.unpack (left p capacity k entry) = found p capacity k entry := by
  unfold left
  by_cases hk : k < entry.2 + capacity
  · rw [if_pos hk]
    cases p with
    | inline => rfl
    | boxed => exact (if_pos (by omega)).symm
  · rw [if_neg hk]
    cases p with
    | inline => rfl
    | boxed => exact (if_neg (by omega)).symm

/-- Taken once or twice is the same. -/
theorem taken_left (p : Placement) (capacity j : Nat) (entry : Int32 × Nat) :
    p.taken (left p capacity j entry) = p.taken (p.pack entry.1) := by
  unfold left
  split
  · rfl
  · cases p <;> rfl

end History
end Fifo
