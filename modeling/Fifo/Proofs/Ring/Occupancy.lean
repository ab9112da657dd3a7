/-
  OCCUPANCY of a boxed ring, slot by slot.

         ahead = 3             write d               read                 ahead = 3
      . . a b c . . .      . . a b c d . .      . . . b c d . .
          H     T              H       T              H     T

  1. **Invariant** — `Swept ahead r`: the tail is `ahead` steps after the head, and the slots from there
     on, up to a full turn, are vacant.  A write goes one step further and a read one step back; what
     lies in the slots before the tail is not said, nor whether their number is the size.  So the
     invariant survives a write over a full ring: `ahead` is more than a turn then, and promises
     nothing until as many reads have come round.

  2. **Count** — every occupied slot is less than `ahead` steps after the head (`count_le`).

  3. **Rings that hold a list** — `Snug`: the ring is swept as far as its size, so that the occupied
     slots are those of the window (`occupied_iff`).  This lasts: a ring moves into a vacant store, and
     takes only its window along.
-/
import Mathlib.Data.Finset.Card
import Mathlib.Data.Nat.Count
import Fifo.Proofs.Ring.Moves
import Fifo.Proofs.Slots

namespace Fifo.Ring

open Store (Occupied)

/-! ## Steps from the head to a place -/

section Steps

variable {p : Placement} {r : Ring p}

/-- How many steps after the head a place is: `(place - head) mod capacity`. -/
def stepsTo (r : Ring p) (place : Nat) : Nat := (place + r.capacity - r.head) % r.capacity

theorem stepsTo_lt (h : r.head < r.capacity) (place : Nat) : r.stepsTo place < r.capacity :=
  Nat.mod_lt _ (Nat.zero_lt_of_lt h)

theorem place_stepsTo (h : r.head < r.capacity) {place : Nat} (hplace : place < r.capacity) :
    r.place (r.stepsTo place) = place := by
  have hturn : r.head + (place + r.capacity - r.head) = place + r.capacity := by omega
  show (r.head + (place + r.capacity - r.head) % r.capacity) % r.capacity = place
  rw [Nat.add_mod_mod, hturn, Nat.add_mod_right, Nat.mod_eq_of_lt hplace]

end Steps

/-! ## Swept rings -/

variable {r : Ring .boxed} {ahead : Nat}

/-- `Swept ahead r` — the tail is so many steps after the head, and from there on the slots are
    vacant. -/
structure Swept (ahead : Nat) (r : Ring .boxed) : Prop extends Indexed r where
  tail_eq : r.tail = r.place ahead
  vacant : ∀ i, ahead ≤ i → i < r.capacity → ¬ Occupied r.store (r.place i)

theorem swept_vacant {capacity : Nat} (hp : Capacity.isPower capacity = true)
    (hw : capacity < Word.limit) : Swept 0 (vacant .boxed capacity) :=
  { toIndexed := (sound_vacant hp hw).indexed
    tail_eq := (sound_vacant hp hw).tail_eq
    vacant := fun _ _ _ => Store.not_occupied_vacant _ _ }

/-- **A move** leaves everything behind but the window. -/
theorem swept_relocated {capacity : Nat} (hf : Fitting (r.relocated capacity)) :
    Swept r.size (r.relocated capacity) where
  toIndexed := hf.indexed
  tail_eq := hf.tail_eq
  vacant := by
    intro i hi hlt
    have hplace : (r.relocated capacity).place i = i := by
      show (0 + i) % (r.relocated capacity).capacity = i
      rw [Nat.zero_add, Nat.mod_eq_of_lt hlt]
    rw [hplace]
    show ¬ Occupied (r.window.toArray ++ _) _
    rw [Store.occupied_append_vacant_iff]
    intro hocc
    have hsize := hocc.lt_size
    rw [List.size_toArray, length_window] at hsize
    omega

namespace Swept

/-- How many elements are counted is not looked at. -/
theorem counted (h : Swept ahead r) (size : Nat) : Swept ahead { r with size } :=
  { power := h.power
    word := h.word
    head_lt := h.head_lt
    tail_lt := h.tail_lt
    tail_eq := h.tail_eq
    vacant := h.vacant }

/-- **A write** occupies the slot at the tail, and the tail goes on. -/
theorem placed (h : Swept ahead r) (v : Int32) : Swept (ahead + 1) (r.placed v) where
  toIndexed := h.toIndexed.placed v
  tail_eq := by
    rw [place_placed, ← place_succ, ← h.tail_eq]
    rfl
  vacant := by
    intro i hi hlt
    rw [capacity_placed] at hlt
    rw [place_placed]
    show ¬ Occupied (r.store.setIfInBounds r.tail _) _
    rw [Store.occupied_set_iff h.tail_lt]
    rintro (heq | hocc)
    · -- the tail is less than a turn away from the slots behind it
      rw [h.tail_eq] at heq
      have hsame : ahead = i := place_inj (by omega) (by omega) heq.symm
      omega
    · exact h.vacant i (by omega) hlt hocc

/-- **A read** leaves a vacant slot, a turn behind. -/
theorem taken (h : Swept (ahead + 1) r) : Swept ahead r.taken where
  toIndexed := h.toIndexed.taken
  tail_eq := by
    rw [place_taken]
    exact h.tail_eq
  vacant := by
    intro i hi hlt
    rw [capacity_taken] at hlt
    rw [place_taken]
    show ¬ Occupied (r.store.modify r.head _) _
    rw [Store.occupied_taken_iff]
    rintro ⟨hne, hocc⟩
    rcases Nat.lt_or_eq_of_le (Nat.succ_le_of_lt hlt) with hnext | hturn
    · exact h.vacant (i + 1) (by omega) hnext hocc
    · refine hne ?_
      show (r.head + (i + 1)) % r.capacity = r.head
      rw [show i + 1 = r.capacity from hturn, Nat.add_mod_right, Nat.mod_eq_of_lt h.head_lt]

theorem written (h : Swept ahead r) (hr : Sound r) (v : Int32) : Swept (ahead + 1) (r.written v) := by
  rw [hr.written_eq]
  exact (h.placed v).counted _

/-! ### Counting -/

/-- An occupied slot is less than so many steps after the head. -/
theorem stepsTo_lt_ahead (h : Swept ahead r) {place : Nat} (hocc : Occupied r.store place) :
    r.stepsTo place < ahead := by
  have hplace : place < r.capacity := hocc.lt_size
  rcases Nat.lt_or_ge (r.stepsTo place) ahead with hlt | hge
  · exact hlt
  · rw [← place_stepsTo h.head_lt hplace] at hocc
    exact absurd hocc (h.vacant _ hge (stepsTo_lt h.head_lt place))

/-- **No more slots are occupied** than there are steps from the head to the tail, or slots. -/
theorem count_le (h : Swept ahead r) :
    Nat.count (Occupied r.store) r.capacity ≤ min ahead r.capacity := by
  have hplaces : {place ∈ Finset.range r.capacity | Occupied r.store place} ⊆
      (Finset.range ahead).image r.place := by
    intro place hmem
    obtain ⟨hplace, hocc⟩ := Finset.mem_filter.mp hmem
    refine Finset.mem_image.mpr ⟨r.stepsTo place, ?_, ?_⟩
    · exact Finset.mem_range.mpr (h.stepsTo_lt_ahead hocc)
    · exact place_stepsTo h.head_lt (Finset.mem_range.mp hplace)
  refine Nat.le_min.mpr ⟨?_, Nat.count_le _⟩
  calc Nat.count (Occupied r.store) r.capacity
      = {place ∈ Finset.range r.capacity | Occupied r.store place}.card :=
        Nat.count_eq_card_filter_range _ _
    _ ≤ ((Finset.range ahead).image r.place).card := Finset.card_le_card hplaces
    _ ≤ (Finset.range ahead).card := Finset.card_image_le
    _ = ahead := Finset.card_range ahead

end Swept

/-! ## Rings that hold a list -/

/-- The slots of the window are occupied. -/
theorem Holds.occupied {items : List Int32} (h : r.Holds items) {i : Nat} (hi : i < r.size) :
    Occupied r.store (r.place i) := by
  have hmem : r.slotAt i ∈ r.window := List.mem_map_of_mem (List.mem_range.mpr hi)
  rw [h.window_eq] at hmem
  obtain ⟨v, _, hv⟩ := List.mem_map.mp hmem
  show r.slotAt i ≠ Placement.vacant .boxed
  rw [← hv]
  exact Option.some_ne_none v

/-- `Snug r` — the ring holds a list, and nothing else. -/
structure Snug (r : Ring .boxed) : Prop where
  holds : ∃ items, r.Holds items
  swept : Swept r.size r

/-- **A slot is occupied if it is one of the window**, and only then. -/
theorem Snug.occupied_iff (h : Snug r) {place : Nat} (hplace : place < r.capacity) :
    Occupied r.store place ↔ r.stepsTo place < r.size := by
  obtain ⟨items, hitems⟩ := h.holds
  constructor
  · exact h.swept.stepsTo_lt_ahead
  · intro hlt
    have hocc := hitems.occupied hlt
    rwa [place_stepsTo h.swept.head_lt hplace] at hocc

/-- Snug rings last. -/
theorem lasting_snug : Lasting Snug where
  fitting := fun h => lasting_holds.fitting h.holds
  written := by
    intro r h hs v
    have hf := lasting_holds.fitting h.holds
    exact ⟨lasting_holds.written h.holds hs v, h.swept.written hf.toSound v⟩
  taken := by
    intro r h hs
    refine ⟨lasting_holds.taken h.holds hs, Swept.taken ?_⟩
    have hsize : r.taken.size + 1 = r.size := Nat.sub_add_cancel hs
    rw [hsize]
    exact h.swept
  moved := by
    intro r r' capacity h hmoved
    refine ⟨lasting_holds.moved h.holds hmoved, ?_⟩
    have hf := fitting_of_moved hmoved
    obtain ⟨_, rfl⟩ := moved_eq_ok.mp hmoved
    exact swept_relocated hf

end Fifo.Ring
