/-
  OCCUPIED SLOTS of a boxed store.

  A boxed slot refers to an element, and then it is OCCUPIED, or to none.  Three things are done to the
  slots of a store, and each is seen in `Occupied` alone: an element is put into one slot, the element
  is taken out of one slot, and vacant slots are added behind the others.
-/
import Fifo.Slot.Store

namespace Fifo.Store

open Placement (pack taken)

/-- `Occupied store place` — the slot at that place refers to an element. -/
def Occupied (store : Array (Placement.Slot .boxed)) (place : Nat) : Prop :=
  store.getD place (Placement.vacant .boxed) ≠ Placement.vacant .boxed

instance (store : Array (Placement.Slot .boxed)) : DecidablePred (Occupied store) :=
  fun _ => inferInstanceAs (Decidable (_ ≠ _))

variable {store : Array (Placement.Slot .boxed)} {place other : Nat}

/-- There is nothing beyond the end of a store. -/
theorem Occupied.lt_size (h : Occupied store place) : place < store.size := by
  rcases Nat.lt_or_ge place store.size with hlt | hge
  · exact hlt
  · refine absurd ?_ h
    simp [Array.getD_eq_getD_getElem?, hge]

theorem not_occupied_vacant (slots place : Nat) : ¬ Occupied (vacant .boxed slots) place := by
  intro h
  refine absurd ?_ h
  rw [Array.getD_eq_getD_getElem?, vacant, Array.getElem?_replicate]
  split <;> rfl

/-- An element occupies the slot that it is put into, and leaves the others. -/
theorem occupied_set_iff (hlt : place < store.size) (v : Int32) :
    Occupied (store.setIfInBounds place (pack .boxed v)) other ↔
      other = place ∨ Occupied store other := by
  simp only [Occupied, Array.getD_eq_getD_getElem?]
  by_cases h : other = place
  · subst h
    rw [Array.getElem?_setIfInBounds_self_of_lt hlt]
    exact iff_of_true (Option.some_ne_none v) (.inl rfl)
  · simp [Array.getElem?_setIfInBounds_ne (Ne.symm h), h]

/-- A slot is not occupied once its element has been taken out. -/
theorem occupied_taken_iff :
    Occupied (store.modify place (taken .boxed)) other ↔ other ≠ place ∧ Occupied store other := by
  simp only [Occupied, Array.getD_eq_getD_getElem?, Array.getElem?_modify]
  by_cases h : other = place
  · subst h
    have hnone : ((store[other]?).map (taken .boxed)).getD (Placement.vacant .boxed) =
        Placement.vacant .boxed := by
      cases store[other]? <;> rfl
    simp [hnone]
  · simp [h, Ne.symm h]

/-- Vacant slots behind a store do not show. -/
theorem occupied_append_vacant_iff (slots : Nat) :
    Occupied (store ++ vacant .boxed slots) place ↔ Occupied store place := by
  rcases Nat.lt_or_ge place store.size with hlt | hge
  · simp only [Occupied, Array.getD_eq_getD_getElem?, Array.getElem?_append_left hlt]
  · have hadded : ¬ Occupied (vacant .boxed slots) (place - store.size) := not_occupied_vacant _ _
    have hbeyond : ¬ Occupied store place := fun h => absurd h.lt_size (Nat.not_lt.mpr hge)
    rw [iff_false_right hbeyond]
    simpa only [Occupied, Array.getD_eq_getD_getElem?, Array.getElem?_append_right hge] using hadded

end Fifo.Store
