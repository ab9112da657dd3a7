/-
  MOVES of a ring, the stopped ones too.

  1. **Outcome** — `moved r capacity`: the ring in a store of that size, or the fault that keeps it
     where it is.  Three things are looked at, in this order: could memory hold the store, is its size
     a power of two, is there room for the elements.  The index rule does not occur.

  2. **A stopped move changes nothing.**  Its fault is about the store that was asked for
     (`Fault.OfStore`), never about an index, a size or a place: `ofStore_of_moved`.

  3. **Reserving** — `relocate?` looks at the memory through the allocator, and is `relocate` once
     that grants it (`run_relocate?_of_ok`), whatever the state of the ring.
-/
import Fifo.Proofs.Ring.Relocation

namespace Fifo

/-- A fault about a store that was asked for. -/
inductive Fault.OfStore : Fault → Prop
  | capacityOverflow : OfStore .capacityOverflow
  | unroundedStore : OfStore .unroundedStore
  | crampedStore : OfStore .crampedStore

namespace Ring

variable {p : Placement}

/-- The ring in a store of `capacity` slots, or what keeps it from moving there. -/
def moved (r : Ring p) (capacity : Nat) : Except Fault (Ring p) :=
  if Store.addressable p capacity = false then
    .error .capacityOverflow
  else if Capacity.isPower capacity = false then
    .error .unroundedStore
  else if capacity < r.size then
    .error .crampedStore
  else
    .ok (r.relocated capacity)

theorem moved_eq_ok {r r' : Ring p} {capacity : Nat} :
    r.moved capacity = .ok r' ↔
      (Store.addressable p capacity = true ∧ Capacity.isPower capacity = true ∧
        r.size ≤ capacity) ∧ r' = r.relocated capacity := by
  unfold moved
  cases hm : Store.addressable p capacity with
  | false => simp
  | true =>
    cases hp : Capacity.isPower capacity with
    | false => simp
    | true =>
      by_cases hs : capacity < r.size
      · simp [hs, Nat.not_le.mpr hs]
      · simp [hs, Nat.not_lt.mp hs, eq_comm]

/-- Into a store that memory could hold, a ring is kept from moving by one of two rules, of which the
    one about powers of two comes first. -/
theorem moved_eq_error_iff {r : Ring p} {capacity : Nat} {fault : Fault}
    (hm : Store.addressable p capacity = true) :
    r.moved capacity = .error fault ↔
      fault = .unroundedStore ∧ Capacity.isPower capacity = false ∨
        fault = .crampedStore ∧ Capacity.isPower capacity = true ∧ capacity < r.size := by
  unfold moved
  cases hp : Capacity.isPower capacity with
  | false => simp [hm, eq_comm]
  | true =>
    by_cases hs : capacity < r.size
    · simp [hm, hs, eq_comm]
    · simp [hm, hs]

theorem ofStore_of_moved {r : Ring p} {capacity : Nat} {fault : Fault}
    (h : r.moved capacity = .error fault) : fault.OfStore := by
  unfold moved at h
  split at h
  · cases h
    exact .capacityOverflow
  split at h
  · cases h
    exact .unroundedStore
  split at h
  · cases h
    exact .crampedStore
  · nomatch h

/-- What was moved may go on. -/
theorem fitting_of_moved {r r' : Ring p} {capacity : Nat} (h : r.moved capacity = .ok r') :
    Fitting r' := by
  obtain ⟨⟨hm, hp, hs⟩, rfl⟩ := moved_eq_ok.mp h
  exact fitting_relocated hp (Store.lt_limit_of_addressable hm) hs

theorem Holds.moved {r r' : Ring p} {items : List Int32} (h : r.Holds items) {capacity : Nat}
    (hmoved : r.moved capacity = .ok r') : r'.Holds items := by
  obtain ⟨⟨hm, hp, hs⟩, rfl⟩ := moved_eq_ok.mp hmoved
  exact h.relocated hp (Store.lt_limit_of_addressable hm) hs

/-- `Lasting I` — `I` is true of fitting rings only, and stays true when a ring with room is written,
    when an element is taken, and when the ring moves. -/
structure Lasting (I : Ring p → Prop) : Prop where
  fitting : ∀ {r}, I r → Fitting r
  written : ∀ {r}, I r → r.size < r.capacity → ∀ v, I (r.written v)
  taken : ∀ {r}, I r → 0 < r.size → I r.taken
  moved : ∀ {r r' capacity}, I r → r.moved capacity = .ok r' → I r'

theorem lasting_fitting : Lasting (Fitting (p := p)) :=
  { fitting := id
    written := Fitting.written
    taken := Fitting.taken
    moved := fun _ => fitting_of_moved }

/-- To hold some list lasts. -/
theorem lasting_holds : Lasting fun r : Ring p => ∃ items, r.Holds items where
  fitting := fun ⟨_, h⟩ => h.fitting
  written := fun ⟨_, h⟩ hs v => ⟨_, h.written hs v⟩
  taken := by
    rintro r ⟨items, h⟩ hs
    cases items with
    | nil => exact absurd h.size_eq (Nat.ne_of_gt hs)
    | cons v items => exact ⟨items, h.taken⟩
  moved := fun ⟨_, h⟩ hmoved => ⟨_, h.moved hmoved⟩

theorem size_of_moved {r r' : Ring p} {capacity : Nat} (h : r.moved capacity = .ok r') :
    r'.size = r.size := by
  obtain ⟨_, rfl⟩ := moved_eq_ok.mp h
  rfl

/-- **A fitting ring moves, or stays as it is**, and the index rule does not show. -/
theorem run_relocate_eq_moved {r : Ring p} (h : Fitting r) (capacity : Nat) (w : IndexRule) :
    (relocate w capacity).run r =
      match r.moved capacity with
      | .ok r' => ⟨r', [], .ok ()⟩
      | .error fault => ⟨r, [], .error fault⟩ := by
  cases hm : Store.addressable p capacity with
  | false => simp [relocate, Store.allocate_eq_error hm, moved, hm]
  | true =>
    cases hp : Capacity.isPower capacity with
    | false => simp [relocate, Store.allocate_eq_ok hm, moveInto, moved, hm, hp]
    | true =>
      by_cases hs : capacity < r.size
      · simp [relocate, Store.allocate_eq_ok hm, moveInto, moved, hm, hp, hs]
      · have hs' : r.size ≤ capacity := Nat.not_lt.mp hs
        rw [moved_eq_ok.mpr ⟨⟨hm, hp, hs'⟩, rfl⟩, run_relocate h hp hs' hm w]

/-! ## Reserving -/

/-- Without the memory the ring is left alone. -/
theorem run_relocate?_of_error {a : Allocator} {capacity : Nat} {e : Error}
    (h : Store.reserve p a capacity = .error e) (w : IndexRule) (r : Ring p) :
    (relocate? w a capacity).run r = ⟨r, [], .ok (.error e)⟩ := by
  simp [relocate?, h]

/-- With the memory the ring moves as if it had only asked for it. -/
theorem run_relocate?_of_ok {a : Allocator} {capacity : Nat}
    (h : Store.reserve p a capacity = .ok ()) (w : IndexRule) (r : Ring p) :
    (relocate? w a capacity).run r = (Except.ok <$> relocate w capacity).run r := by
  have hmove : (relocate w capacity).run r = (moveInto w capacity).run r := by
    simp [relocate, Store.allocate_of_reserve h]
  rw [map_eq_pure_bind, Call.run_bind, hmove]
  simp only [relocate?, h]
  rfl

end Ring
end Fifo
