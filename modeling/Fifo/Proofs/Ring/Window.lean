/-
  THE WINDOW of a ring under a write and a read.

        . . a b c . . .   write d   . . a b c d . .   read   . . . b c d . .
            H     T                     H       T                H     T

  1. **Slots by steps** — `slotAt r steps` is the slot so many steps after the head.  Fewer steps
     than there are slots never lead to the same place twice (`place_inj`).

  2. **The window** — `window_written`: a write into a ring that is not full appends to the window;
     `window_taken`: a read removes its first slot.  In between nothing else is touched.

  3. **Invariant** — a ring that is never written when it is full stays `Fitting`.  `Holds` joins the
     invariant and the view: a fitting ring whose window is the slots of a list of elements.
-/
import Fifo.Circular.Ring.Steps

namespace Fifo.Ring

variable {p : Placement}

/-! ## Places that differ -/

/-- Numbers less than `c` apart that leave the same remainder are equal. -/
theorem eq_of_mod_eq {a b c : Nat} (hab : a ≤ b) (hlt : b < a + c) (h : a % c = b % c) : a = b := by
  have hdiff : (b - a) % c = 0 := Nat.sub_mod_eq_zero_of_mod_eq h.symm
  have hzero : b - a = 0 := by
    rw [← hdiff, Nat.mod_eq_of_lt (by omega)]
  omega

/-- Different numbers of steps, less than a turn apart, lead to different places. -/
theorem place_inj {r : Ring p} {i j : Nat} (hij : i ≤ j) (hlt : j < i + r.capacity)
    (h : r.place i = r.place j) : i = j := by
  have heq : r.head + i = r.head + j := eq_of_mod_eq (by omega) (by omega) h
  omega

/-- A write leaves the places where they are. -/
theorem place_placed (r : Ring p) (v : Int32) (steps : Nat) :
    (r.placed v).place steps = r.place steps := by
  unfold place
  rw [capacity_placed]
  rfl

theorem place_written (r : Ring p) (v : Int32) (steps : Nat) :
    (r.written v).place steps = r.place steps := place_placed r v steps

/-- A read counts the steps from the next place on. -/
theorem place_taken (r : Ring p) (steps : Nat) : r.taken.place steps = r.place (steps + 1) := by
  show (r.place 1 + steps) % r.taken.capacity = _
  rw [capacity_taken]
  unfold place
  rw [Nat.mod_add_mod]
  congr 1
  omega

/-! ## Slots by steps -/

/-- The slot so many steps after the head. -/
def slotAt (r : Ring p) (steps : Nat) : p.Slot := r.store.getD (r.place steps) p.vacant

theorem window_eq (r : Ring p) : r.window = (List.range r.size).map r.slotAt := rfl

@[simp] theorem length_window (r : Ring p) : r.window.length = r.size := by
  rw [window_eq, List.length_map, List.length_range]

theorem slotAt_congr {r : Ring p} {i j : Nat} (h : r.place i = r.place j) :
    r.slotAt i = r.slotAt j := by
  unfold slotAt
  rw [h]

theorem slotAt_zero {r : Ring p} (h : Sound r) : r.slotAt 0 = r.front := by
  unfold slotAt front
  rw [h.head_eq]

/-- A write reaches the slot behind the window. -/
theorem slotAt_written_self {r : Ring p} (h : Sound r) (v : Int32) :
    (r.written v).slotAt r.size = p.pack v := by
  have hplace : (r.written v).place r.size = r.tail := (place_written r v r.size).trans h.tail_eq.symm
  have hlt : r.tail < r.store.size := h.tail_lt
  unfold slotAt
  rw [hplace]
  simp [written, Array.getD_eq_getD_getElem?, hlt]

/-- A write reaches no other slot. -/
theorem slotAt_placed_of_ne {r : Ring p} (v : Int32) {i : Nat} (hne : r.place i ≠ r.tail) :
    (r.placed v).slotAt i = r.slotAt i := by
  unfold slotAt
  rw [place_placed]
  simp only [placed, Array.getD_eq_getD_getElem?]
  rw [Array.getElem?_setIfInBounds_ne (Ne.symm hne)]

theorem slotAt_written_of_ne {r : Ring p} (h : Sound r) (v : Int32) {i : Nat}
    (hne : r.place i ≠ r.place r.size) : (r.written v).slotAt i = r.slotAt i :=
  slotAt_placed_of_ne v (by rwa [h.tail_eq])

/-- A read reaches no slot but the one at the head. -/
theorem slotAt_taken_of_ne {r : Ring p} {i : Nat}
    (hne : r.place (i + 1) ≠ r.head) : r.taken.slotAt i = r.slotAt (i + 1) := by
  unfold slotAt
  rw [place_taken]
  simp only [taken, Array.getD_eq_getD_getElem?, Array.getElem?_modify]
  rw [if_neg (Ne.symm hne)]

/-- A read takes the element out of the slot at the head, which is a turn away afterwards. -/
theorem slotAt_taken_of_eq {r : Ring p} (h : Indexed r) {i : Nat} (heq : r.place (i + 1) = r.head) :
    r.taken.slotAt i = p.taken r.front := by
  have hlt : r.head < r.store.size := h.head_lt
  unfold slotAt front
  rw [place_taken, heq]
  simp [taken, Array.getD_eq_getD_getElem?, Array.getElem_modify, hlt]

/-! ## The window -/

/-- A write into a ring that is not full appends to the window. -/
theorem window_written {r : Ring p} (h : Sound r) (hs : r.size < r.capacity) (v : Int32) :
    (r.written v).window = r.window ++ [p.pack v] := by
  -- the tail is no place of the window, being less than a turn away from all of them
  have hold : ∀ i ∈ List.range r.size, (r.written v).slotAt i = r.slotAt i := by
    intro i hi
    have hi' : i < r.size := List.mem_range.mp hi
    refine slotAt_written_of_ne h v fun heq => ?_
    have hsame : i = r.size := place_inj (by omega) (by omega) heq
    omega
  show (List.range (r.size + 1)).map (r.written v).slotAt = _
  rw [List.range_succ, List.map_append, List.map_cons, List.map_nil, slotAt_written_self h,
    List.map_congr_left hold]
  rfl

/-- A read removes the first slot of the window. -/
theorem window_eq_cons {r : Ring p} (h : Fitting r) (hs : 0 < r.size) :
    r.window = r.front :: r.taken.window := by
  obtain ⟨n, hn⟩ : ∃ n, r.size = n + 1 := ⟨r.size - 1, by omega⟩
  -- the places behind the head are not the head again
  have hrest : ∀ i ∈ List.range n, r.slotAt (i + 1) = r.taken.slotAt i := by
    intro i hi
    have hi' : i < n := List.mem_range.mp hi
    have hle := h.size_le
    refine (slotAt_taken_of_ne fun heq => ?_).symm
    have hzero : 0 = i + 1 := place_inj (by omega) (by omega) (h.head_eq.trans heq.symm)
    omega
  have hsize : r.taken.size = n := by
    show r.size - 1 = n
    omega
  rw [window_eq, window_eq, hsize, hn, List.range_succ_eq_map, List.map_cons, List.map_map,
    slotAt_zero h.toSound]
  exact congrArg _ (List.map_congr_left hrest)

/-! ## The invariant of rings that are not written when they are full -/

theorem fitting_vacant {capacity : Nat} (hp : Capacity.isPower capacity = true)
    (hw : capacity < Word.limit) : Fitting (vacant p capacity) :=
  { toSound := sound_vacant hp hw
    size_le := Nat.zero_le _ }

theorem Fitting.written {r : Ring p} (h : Fitting r) (hs : r.size < r.capacity) (v : Int32) :
    Fitting (r.written v) :=
  { toSound := h.toSound.written v
    size_le := by
      show r.size + 1 ≤ (r.store.setIfInBounds r.tail (p.pack v)).size
      rw [Array.size_setIfInBounds]
      exact hs }

theorem Fitting.taken {r : Ring p} (h : Fitting r) (hs : 0 < r.size) : Fitting r.taken :=
  { toSound := h.toSound.taken hs
    size_le := by
      have hle := h.size_le
      show r.size - 1 ≤ r.taken.capacity
      rw [capacity_taken]
      omega }

/-- What a ring holds has room in twice the store. -/
theorem Fitting.size_le_double {r : Ring p} (h : Fitting r) : r.size ≤ 2 * r.capacity := by
  have hle := h.size_le
  omega

/-- Counting one more element is possible where there is a slot for it. -/
theorem Fitting.succ_lt {r : Ring p} (h : Fitting r) (hs : r.size < r.capacity) :
    r.size + 1 < Word.limit := Nat.lt_of_le_of_lt hs h.word

/-! ## Rings that hold a list -/

/-- `Holds r items` — the ring is fitting, and the elements in its window are `items`. -/
structure Holds (r : Ring p) (items : List Int32) : Prop where
  fitting : Fitting r
  window_eq : r.window = items.map p.pack

namespace Holds

variable {r : Ring p} {items : List Int32} {v : Int32}

theorem size_eq (h : r.Holds items) : r.size = items.length := by
  rw [← length_window, h.window_eq, List.length_map]

theorem size_pos (h : r.Holds (v :: items)) : 0 < r.size := by
  rw [h.size_eq]
  exact Nat.zero_lt_succ _

/-- A ring that holds nothing is one without elements. -/
theorem nil_iff (hf : Fitting r) : r.Holds [] ↔ r.size = 0 := by
  constructor
  · intro h
    exact h.size_eq
  · intro hs
    exact ⟨hf, List.eq_nil_of_length_eq_zero ((length_window r).trans hs)⟩

/-- The head of a ring is the slot of the oldest element. -/
theorem front_eq (h : r.Holds (v :: items)) : r.front = p.pack v := by
  have hcons := h.window_eq
  rw [window_eq_cons h.fitting h.size_pos] at hcons
  exact (List.cons.inj hcons).1

theorem taken (h : r.Holds (v :: items)) : r.taken.Holds items := by
  have hcons := h.window_eq
  rw [window_eq_cons h.fitting h.size_pos] at hcons
  exact ⟨h.fitting.taken h.size_pos, (List.cons.inj hcons).2⟩

theorem written (h : r.Holds items) (hs : r.size < r.capacity) (v : Int32) :
    (r.written v).Holds (items ++ [v]) := by
  refine ⟨h.fitting.written hs v, ?_⟩
  rw [window_written h.fitting.toSound hs, h.window_eq, List.map_append]
  rfl

end Holds

theorem holds_vacant {capacity : Nat} (hp : Capacity.isPower capacity = true)
    (hw : capacity < Word.limit) : (vacant p capacity).Holds [] :=
  (Holds.nil_iff (fitting_vacant hp hw)).mpr rfl

/-! ## What the constructor makes -/

/-- A ring that was made for a request is vacant, and its capacity is the request rounded up. -/
theorem new_eq_ok {requested : Nat} {r : Ring p} (h : new p requested = .ok r) :
    r = vacant p (Capacity.leastPower requested) ∧
      Capacity.leastPower requested < Word.limit ∧
      Store.addressable p (Capacity.leastPower requested) = true := by
  unfold new Capacity.round Capacity.round? at h
  by_cases hw : Capacity.leastPower requested < Word.limit
  · rw [if_pos hw] at h
    by_cases hm : Store.addressable p (Capacity.leastPower requested) = true
    · have hok : Store.allocate p (Capacity.leastPower requested) = .ok () := if_pos hm
      simp only [bind, Except.bind, hok] at h
      cases h
      exact ⟨rfl, hw, hm⟩
    · have herror : Store.allocate p (Capacity.leastPower requested) = .error .capacityOverflow :=
        if_neg hm
      simp only [bind, Except.bind, herror] at h
      nomatch h
  · rw [if_neg hw] at h
    nomatch h

/-- What is made when it is reserved is made when it is just asked for. -/
theorem new_of_new? {a : Allocator} {requested : Nat} {r : Ring p}
    (h : new? a p requested = .ok r) : new p requested = .ok r := by
  unfold new? at h
  cases hround : Capacity.round? requested with
  | error e =>
    rw [hround] at h
    nomatch h
  | ok capacity =>
    cases hreserve : Store.reserve p a capacity with
    | error e =>
      simp only [bind, Except.bind, hround, hreserve] at h
      nomatch h
    | ok _ =>
      simp only [bind, Except.bind, hround, hreserve] at h
      cases h
      simp only [new, Capacity.round, hround, bind, Except.bind, Store.allocate_of_reserve hreserve]
      rfl

end Fifo.Ring
