/-
  RELOCATION of a ring into another store.

  1. **Target** — `relocated r capacity`: the window in front, vacant slots behind it, the head at
     zero.  It depends on the old ring through its window ALONE, so that where the old head was, and
     how large the old store, is forgotten.

  2. **Loop invariant** — while slots are swapped out one by one, those not reached yet are as they
     were (`run_carryFrom`): fewer steps than a full turn never come back to a place.

  3. **Outcome** — `run_relocate`: a fitting ring moves into every store that is a power of two, large
     enough and addressable, whether smaller, equal or larger; `window_relocated` and
     `fitting_relocated` say that it holds the same there and may go on.
-/
import Fifo.Proofs.Ring.Window

namespace Fifo

/-! ## Stores that memory could hold -/

namespace Store

variable {p : Placement}

theorem allocate_eq_ok {slots : Nat} (h : addressable p slots = true) :
    allocate p slots = .ok () := if_pos h

theorem allocate_eq_error {slots : Nat} (h : addressable p slots = false) :
    allocate p slots = .error .capacityOverflow := if_neg (Bool.eq_false_iff.mp h)

/-- A store that was granted is one that memory could hold. -/
theorem addressable_of_reserve {a : Allocator} {slots : Nat} (h : reserve p a slots = .ok ()) :
    addressable p slots = true := by
  obtain ⟨hcheck, _⟩ := ite_eq_ok_iff.mp h
  exact (Bool.and_eq_true_iff.mp hcheck).1

/-- The slots of an addressable store can be counted in a word. -/
theorem lt_limit_of_addressable {slots : Nat} (h : addressable p slots = true) :
    slots < Word.limit := by
  have hbytes : slots * p.slotBytes ≤ maxBytes := of_decide_eq_true h
  have hmax : maxBytes < Word.limit := by decide
  have hpos : 1 ≤ p.slotBytes := by cases p <;> decide
  have hle : slots * 1 ≤ slots * p.slotBytes := Nat.mul_le_mul_left slots hpos
  omega

/-- A smaller store is easier to hold. -/
theorem addressable_of_le {m n : Nat} (hmn : m ≤ n) (h : addressable p n = true) :
    addressable p m = true := by
  have hbytes : n * p.slotBytes ≤ maxBytes := of_decide_eq_true h
  exact decide_eq_true (Nat.le_trans (Nat.mul_le_mul_right p.slotBytes hmn) hbytes)

end Store

namespace Ring

variable {p : Placement}

/-! ## Where a ring moves to -/

/-- A ring in a store of `capacity` slots that holds the same, first in front. -/
def relocated (r : Ring p) (capacity : Nat) : Ring p :=
  { store := r.window.toArray ++ Store.vacant p (capacity - r.size)
    head := 0
    tail := r.size % capacity
    size := r.size }

theorem capacity_relocated {r : Ring p} {capacity : Nat} (hs : r.size ≤ capacity) :
    (r.relocated capacity).capacity = capacity := by
  show (r.window.toArray ++ Store.vacant p (capacity - r.size)).size = capacity
  rw [Array.size_append, List.size_toArray, length_window, Store.size_vacant]
  omega

theorem slotAt_relocated {r : Ring p} {capacity i : Nat} (hs : r.size ≤ capacity)
    (hi : i < r.size) : (r.relocated capacity).slotAt i = r.slotAt i := by
  -- from a head at zero, steps are places
  have hplace : (r.relocated capacity).place i = i := by
    unfold place
    rw [capacity_relocated hs]
    show (0 + i) % capacity = i
    rw [Nat.zero_add, Nat.mod_eq_of_lt (by omega)]
  have hin : i < r.window.toArray.size := by
    rw [List.size_toArray, length_window]
    exact hi
  unfold slotAt
  rw [hplace]
  simp only [relocated, Array.getD_eq_getD_getElem?]
  rw [Array.getElem?_append_left hin, window_eq]
  simp [hi, slotAt, Array.getD_eq_getD_getElem?]

/-- What a ring holds moves along. -/
theorem window_relocated {r : Ring p} {capacity : Nat} (hs : r.size ≤ capacity) :
    (r.relocated capacity).window = r.window := by
  refine List.map_congr_left fun i hi => ?_
  exact slotAt_relocated hs (List.mem_range.mp hi)

theorem fitting_relocated {r : Ring p} {capacity : Nat} (hp : Capacity.isPower capacity = true)
    (hw : capacity < Word.limit) (hs : r.size ≤ capacity) : Fitting (r.relocated capacity) :=
  { power := by rw [capacity_relocated hs]; exact hp
    word := by rw [capacity_relocated hs]; exact hw
    head_lt := by rw [capacity_relocated hs]; exact Capacity.pos_of_isPower hp
    tail_eq := by
      show r.size % capacity = (0 + r.size) % (r.relocated capacity).capacity
      rw [capacity_relocated hs, Nat.zero_add]
    size_le := by rw [capacity_relocated hs]; exact hs }

theorem Holds.relocated {r : Ring p} {items : List Int32} (h : r.Holds items) {capacity : Nat}
    (hp : Capacity.isPower capacity = true) (hw : capacity < Word.limit) (hs : r.size ≤ capacity) :
    (r.relocated capacity).Holds items :=
  ⟨fitting_relocated hp hw hs, (window_relocated hs).trans h.window_eq⟩

/-! ## The loop -/

/-- A ring out of which the slot so many steps after the head was swapped. -/
def vacated (r : Ring p) (steps : Nat) : Ring p :=
  { r with store := r.store.setIfInBounds (r.place steps) p.vacant }

theorem capacity_vacated (r : Ring p) (steps : Nat) : (r.vacated steps).capacity = r.capacity :=
  Array.size_setIfInBounds

theorem place_vacated (r : Ring p) (steps i : Nat) : (r.vacated steps).place i = r.place i := by
  unfold place
  rw [capacity_vacated]
  rfl

theorem Sound.vacated {r : Ring p} (h : Sound r) (steps : Nat) : Sound (r.vacated steps) :=
  { power := by rw [capacity_vacated]; exact h.power
    word := by rw [capacity_vacated]; exact h.word
    head_lt := by rw [capacity_vacated]; exact h.head_lt
    tail_eq := h.tail_eq.trans (place_vacated r steps r.size).symm }

theorem slotAt_vacated_of_ne {r : Ring p} {steps i : Nat} (hne : r.place steps ≠ r.place i) :
    (r.vacated steps).slotAt i = r.slotAt i := by
  unfold slotAt
  rw [place_vacated]
  simp only [vacated, Array.getD_eq_getD_getElem?]
  rw [Array.getElem?_setIfInBounds_ne hne]

/-- One turn of the loop swaps one slot out and steps on. -/
theorem carryFrom_succ {r : Ring p} (h : Sound r) (w : IndexRule) (count first : Nat)
    (moved : Array p.Slot) :
    carryFrom w (count + 1) (r.place first) moved r =
      carryFrom w count ((r.vacated first).place (first + 1)) (moved.push (r.slotAt first))
        (r.vacated first) := by
  have hlt : r.place first < r.store.size := h.place_lt first
  have hnext : w.next (r.place first) (r.vacated first).capacity =
      .ok ((r.vacated first).place (first + 1)) := by
    rw [capacity_vacated, place_vacated, w.next_eq_mod h.power h.word hlt, place_succ]
  have hslot : r.slotAt first = r.store[r.place first] := by
    simp [slotAt, Array.getD_eq_getD_getElem?, hlt]
  have hring : { r with store := r.store.set (r.place first) p.vacant } = r.vacated first := by
    simp [vacated, Array.setIfInBounds_def, hlt]
  simp only [carryFrom, run_exchange hlt, hring, hnext, hslot]

/-- **The loop of a relocation**: it takes the slots from `first` steps on out of the ring, and
    changes nothing but the store. -/
theorem run_carryFrom (w : IndexRule) (count : Nat) :
    ∀ (first : Nat) (moved : Array p.Slot) (r : Ring p), Sound r → count ≤ r.capacity →
      ∃ store, carryFrom w count (r.place first) moved r =
        ⟨{ r with store }, [], .ok (moved ++ ((List.range' first count).map r.slotAt).toArray)⟩ := by
  induction count with
  | zero =>
    intro first moved r _ _
    exact ⟨r.store, by simp [carryFrom]⟩
  | succ count ih =>
    intro first moved r h hcount
    -- the slots still to come are as before: the one swapped out is less than a turn away
    have hslots : ∀ i ∈ List.range' (first + 1) count, (r.vacated first).slotAt i = r.slotAt i := by
      intro i hi
      obtain ⟨hfirst, hlast⟩ := List.mem_range'_1.mp hi
      refine slotAt_vacated_of_ne fun heq => ?_
      have hsame : first = i := place_inj (by omega) (by omega) heq
      omega
    have hcount' : count ≤ (r.vacated first).capacity := by
      rw [capacity_vacated]
      exact Nat.le_of_succ_le hcount
    obtain ⟨store, hrest⟩ :=
      ih (first + 1) (moved.push (r.slotAt first)) (r.vacated first) (h.vacated first) hcount'
    refine ⟨store, ?_⟩
    rw [carryFrom_succ h, hrest, List.map_congr_left hslots, List.range'_succ, List.map_cons]
    simp [vacated]

theorem run_carry {r : Ring p} (h : Fitting r) (w : IndexRule) :
    ∃ store, (carry w r.size r.head).run r = ⟨{ r with store }, [], .ok r.window.toArray⟩ := by
  obtain ⟨store, hrun⟩ := run_carryFrom w r.size 0 #[] r h.toSound h.size_le
  refine ⟨store, ?_⟩
  show carryFrom w r.size r.head #[] r = _
  rw [h.head_eq] at hrun
  rw [hrun, window_eq, List.range_eq_range']
  simp

/-! ## The outcome -/

theorem run_moveInto {r : Ring p} (h : Fitting r) {capacity : Nat}
    (hp : Capacity.isPower capacity = true) (hs : r.size ≤ capacity) (w : IndexRule) :
    (moveInto w capacity).run r = ⟨r.relocated capacity, [], .ok ()⟩ := by
  obtain ⟨store, hcarry⟩ := run_carry h w
  have hnot : ¬ capacity < r.size := Nat.not_lt.mpr hs
  simp only [moveInto, Call.run_bind, Call.run_self, Outcome.andThen_ok, hp, Bool.true_eq_false,
    if_false, hnot, hcarry, Call.run_update]
  simp [relocated, Capacity.and_pred_of_isPower hp]

/-- **A fitting ring moves** into every store that is a power of two, large enough and
    addressable. -/
theorem run_relocate {r : Ring p} (h : Fitting r) {capacity : Nat}
    (hp : Capacity.isPower capacity = true) (hs : r.size ≤ capacity)
    (hm : Store.addressable p capacity = true) (w : IndexRule) :
    (relocate w capacity).run r = ⟨r.relocated capacity, [], .ok ()⟩ := by
  simp [relocate, Store.allocate_eq_ok hm, run_moveInto h hp hs w]

end Ring
end Fifo
