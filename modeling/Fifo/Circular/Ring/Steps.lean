/-
  STEPS OF A RING, as equations.

  1. **Indices** — `Indexed`: the capacity is a power of two, and head and tail are places of the
     store.  On such a ring no access is outside the store, no index is stopped, and the index rule
     occurs in no outcome.  A write may still be stopped, by a size that is the last word.

  2. **Sound rings** — a write and a read each have ONE outcome, as long as the size can be counted:

  * `run_write` — the slot at the tail is overwritten, and the tail is one step further;
  * `run_read` — the slot at the head is taken from, and the head is one step further.

  Both keep the ring sound (`Sound.written`, `Sound.taken`), a write beyond the capacity too.
-/
import Fifo.Circular.Ring

namespace Fifo.Ring

variable {p : Placement}

open Call (change)

/-! ## Places -/

theorem Sound.capacity_pos {r : Ring p} (h : Sound r) : 0 < r.capacity :=
  Nat.zero_lt_of_lt h.head_lt

theorem Sound.place_lt {r : Ring p} (h : Sound r) (steps : Nat) : r.place steps < r.capacity :=
  Nat.mod_lt _ h.capacity_pos

theorem Sound.tail_lt {r : Ring p} (h : Sound r) : r.tail < r.capacity := by
  rw [h.tail_eq]
  exact h.place_lt _

theorem Sound.head_eq {r : Ring p} (h : Sound r) : r.place 0 = r.head := Nat.mod_eq_of_lt h.head_lt

/-- The place after a place is one step further. -/
theorem place_succ (r : Ring p) (steps : Nat) :
    (r.place steps + 1) % r.capacity = r.place (steps + 1) := by
  unfold place
  rw [Nat.mod_add_mod, Nat.add_assoc]

/-! ## The invariant of the indices -/

/-- What holds of the indices of a ring that began vacant, whatever its size says. -/
structure Indexed (r : Ring p) : Prop where
  power : Capacity.isPower r.capacity = true
  word : r.capacity < Word.limit
  head_lt : r.head < r.capacity
  tail_lt : r.tail < r.capacity

theorem Sound.indexed {r : Ring p} (h : Sound r) : Indexed r :=
  { power := h.power
    word := h.word
    head_lt := h.head_lt
    tail_lt := h.tail_lt }

/-! ## The parts of a step -/

/-- Changing the slot at a place of a store sets it to what it is changed to. -/
theorem modify_eq_set {α : Type} {store : Array α} {place : Nat} (h : place < store.size)
    (f : α → α) : store.modify place f = store.set place (f store[place]) := by
  apply Array.ext
  · simp
  · intro i hi hi'
    rw [Array.getElem_modify, Array.getElem_set]
    split <;> simp_all

theorem run_exchange {r : Ring p} {place : Nat} (h : place < r.store.size)
    (f : p.Slot → p.Slot) :
    (exchange place f).run r =
      ⟨{ r with store := r.store.set place (f r.store[place]) }, [], .ok r.store[place]⟩ :=
  dif_pos h

theorem advanceTail_eq_ok {r : Ring p} {w : IndexRule} {tail : Nat}
    (h : w.next r.tail r.capacity = .ok tail) : advanceTail w r = .ok { r with tail } := by
  unfold advanceTail
  rw [h]
  rfl

theorem advanceHead_eq_ok {r : Ring p} {w : IndexRule} {head : Nat}
    (h : w.next r.head r.capacity = .ok head) : advanceHead w r = .ok { r with head } := by
  unfold advanceHead
  rw [h]
  rfl

theorem countUp_eq_ok {r : Ring p} (h : r.size + 1 < Word.limit) :
    countUp r = .ok { r with size := r.size + 1 } := by
  unfold countUp
  rw [Word.succ_eq_ok h]
  rfl

theorem countUp_eq_error {r : Ring p} (h : ¬ r.size + 1 < Word.limit) :
    countUp r = .error .addOverflow := by
  unfold countUp
  rw [Word.succ_eq_error h]
  rfl

theorem countDown_eq_ok {r : Ring p} (h : 0 < r.size) :
    countDown r = .ok { r with size := r.size - 1 } := by
  unfold countDown
  rw [Word.pred_eq_ok h]
  rfl

/-! ## Writing -/

/-- A ring with an element more. -/
def written (r : Ring p) (v : Int32) : Ring p :=
  { store := r.store.setIfInBounds r.tail (p.pack v)
    head := r.head
    tail := r.place (r.size + 1)
    size := r.size + 1 }

@[simp] theorem capacity_written (r : Ring p) (v : Int32) :
    (r.written v).capacity = r.capacity := Array.size_setIfInBounds

/-- A ring with an element at the tail that is not counted yet. -/
def placed (r : Ring p) (v : Int32) : Ring p :=
  { r with
    store := r.store.setIfInBounds r.tail (p.pack v)
    tail := (r.tail + 1) % r.capacity }

@[simp] theorem capacity_placed (r : Ring p) (v : Int32) : (r.placed v).capacity = r.capacity :=
  Array.size_setIfInBounds

/-- A write places the element, and then counts it if it can. -/
theorem Indexed.run_write {r : Ring p} (h : Indexed r) (w : IndexRule) (v : Int32) :
    (write w v).run r = (change countUp).run (r.placed v) := by
  have hlt : r.tail < r.store.size := h.tail_lt
  have hnext : w.next r.tail r.capacity = .ok ((r.tail + 1) % r.capacity) :=
    w.next_eq_mod h.power h.word hlt
  have hplaced : r.placed v =
      { r with store := r.store.set r.tail (p.pack v), tail := (r.tail + 1) % r.capacity } := by
    simp [placed, Array.setIfInBounds_def, hlt]
  simp only [write, Call.run_bind, Call.run_self, Outcome.andThen_ok, run_exchange hlt]
  rw [Call.run_change_of_ok (advanceTail_eq_ok (by simpa [capacity] using hnext)), hplaced]
  rfl

theorem Indexed.placed {r : Ring p} (h : Indexed r) (v : Int32) : Indexed (r.placed v) :=
  { power := by rw [capacity_placed]; exact h.power
    word := by rw [capacity_placed]; exact h.word
    head_lt := by rw [capacity_placed]; exact h.head_lt
    tail_lt := by rw [capacity_placed]; exact Nat.mod_lt _ (Nat.zero_lt_of_lt h.tail_lt) }

/-- An element that is placed and counted is written. -/
theorem Sound.written_eq {r : Ring p} (h : Sound r) (v : Int32) :
    r.written v = { r.placed v with size := r.size + 1 } := by
  have htail : (r.tail + 1) % r.capacity = r.place (r.size + 1) := by
    rw [h.tail_eq, place_succ]
  simp only [placed, written, htail]

theorem run_write {r : Ring p} (h : Sound r) (hs : r.size + 1 < Word.limit) (w : IndexRule)
    (v : Int32) : (write w v).run r = ⟨r.written v, [], .ok ()⟩ := by
  have hcount : (r.placed v).size + 1 < Word.limit := hs
  rw [h.indexed.run_write, Call.run_change_of_ok (countUp_eq_ok hcount), h.written_eq]
  rfl

theorem Sound.written {r : Ring p} (h : Sound r) (v : Int32) : Sound (r.written v) :=
  { power := by rw [capacity_written]; exact h.power
    word := by rw [capacity_written]; exact h.word
    head_lt := by rw [capacity_written]; exact h.head_lt
    tail_eq := by
      show r.place (r.size + 1) = (r.head + (r.size + 1)) % (r.written v).capacity
      rw [capacity_written]
      rfl }

/-! ## Reading -/

/-- A ring with an element less. -/
def taken (r : Ring p) : Ring p :=
  { store := r.store.modify r.head p.taken
    head := r.place 1
    tail := r.tail
    size := r.size - 1 }

@[simp] theorem capacity_taken (r : Ring p) : r.taken.capacity = r.capacity := Array.size_modify

/-- The slot at the head. -/
def front (r : Ring p) : p.Slot := r.store.getD r.head p.vacant

/-- A ring without elements is left as it is. -/
theorem run_read_of_size_eq_zero {r : Ring p} (hs : r.size = 0) (w : IndexRule) :
    (read w).run r = ⟨r, [], .ok p.empty⟩ := by
  simp [read, hs]

theorem Indexed.run_read {r : Ring p} (h : Indexed r) (hs : 0 < r.size) (w : IndexRule) :
    (read w).run r = ⟨r.taken, [], .ok (p.unpack r.front)⟩ := by
  have hlt : r.head < r.store.size := h.head_lt
  have hne : r.size ≠ 0 := Nat.ne_of_gt hs
  have hnext : w.next r.head r.capacity = .ok (r.place 1) :=
    w.next_eq_mod h.power h.word hlt
  simp only [read, Call.run_bind, Call.run_self, Outcome.andThen_ok, hne, if_false,
    run_exchange hlt]
  rw [Call.run_change_of_ok (advanceHead_eq_ok (by simpa [capacity] using hnext))]
  simp only [Outcome.andThen_ok]
  simp only [Call.run_bind]
  rw [Call.run_change_of_ok (countDown_eq_ok (by exact hs))]
  simp [taken, front, hlt, modify_eq_set hlt]

theorem Indexed.taken {r : Ring p} (h : Indexed r) : Indexed r.taken :=
  { power := by rw [capacity_taken]; exact h.power
    word := by rw [capacity_taken]; exact h.word
    head_lt := by rw [capacity_taken]; exact Nat.mod_lt _ (Nat.zero_lt_of_lt h.head_lt)
    tail_lt := by rw [capacity_taken]; exact h.tail_lt }

theorem run_read {r : Ring p} (h : Sound r) (hs : 0 < r.size) (w : IndexRule) :
    (read w).run r = ⟨r.taken, [], .ok (p.unpack r.front)⟩ := h.indexed.run_read hs w

theorem Sound.taken {r : Ring p} (h : Sound r) (hs : 0 < r.size) : Sound r.taken :=
  { power := by rw [capacity_taken]; exact h.power
    word := by rw [capacity_taken]; exact h.word
    head_lt := by rw [capacity_taken]; exact h.place_lt 1
    tail_eq := by
      show r.tail = (r.place 1 + (r.size - 1)) % r.taken.capacity
      rw [capacity_taken, h.tail_eq]
      unfold place
      rw [Nat.mod_add_mod]
      congr 1
      omega }

end Fifo.Ring
