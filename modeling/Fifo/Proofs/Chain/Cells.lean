/-
  CELLS: what each change of a pool does to the place it is made at, and to every other place.

  A place is FRESH for a sound pool when it is the one that `insert` hands out next: no value lies
  there, whether it was given back before or never handed out.  Every change touches ONE place, so
  a chain only has to know whether the place is one of its own.
-/
import Fifo.Chained.Pool

namespace Fifo.Pool

variable {α : Type}

/-- A value lies only where a place was handed out. -/
theorem lt_of_get?_eq_some {pool : Pool α} {place : Nat} {v : α} (h : pool.get? place = some v) :
    place < pool.cells.size := by
  have hcell : pool.cells[place]? = some (some v) := Option.join_eq_some_iff.mp h
  exact (Array.getElem?_eq_some_iff.mp hcell).1

/-! ## Handing out -/

/-- The place handed out next. -/
def fresh (pool : Pool α) : Nat :=
  match pool.free with
  | place :: _ => place
  | [] => pool.cells.size

/-- The pool after a value was put at the fresh place. -/
def inserted (pool : Pool α) (v : α) : Pool α := (pool.insert v).2

theorem insert_eq (pool : Pool α) (v : α) : pool.insert v = (pool.fresh, pool.inserted v) := by
  obtain ⟨cells, _ | ⟨place, free⟩⟩ := pool <;> rfl

theorem get?_fresh {pool : Pool α} (h : pool.Sound) : pool.get? pool.fresh = none := by
  obtain ⟨cells, _ | ⟨place, free⟩⟩ := pool
  · simp [get?, fresh]
  · exact (h.vacant place List.mem_cons_self).2

theorem get?_inserted_self {pool : Pool α} (h : pool.Sound) (v : α) :
    (pool.inserted v).get? pool.fresh = some v := by
  obtain ⟨cells, _ | ⟨place, free⟩⟩ := pool
  · simp [get?, fresh, inserted, insert]
  · have hlt : place < cells.size := (h.vacant place List.mem_cons_self).1
    simp [get?, fresh, inserted, insert, hlt]

theorem get?_inserted_of_ne {pool : Pool α} {place : Nat} (h : place ≠ pool.fresh) (v : α) :
    (pool.inserted v).get? place = pool.get? place := by
  obtain ⟨cells, _ | ⟨first, free⟩⟩ := pool
  · have hne : place ≠ cells.size := h
    simp [get?, inserted, insert, Array.getElem?_push, hne]
  · have hne : first ≠ place := fun heq => h heq.symm
    simp [get?, inserted, insert, hne]

theorem Sound.inserted {pool : Pool α} (h : pool.Sound) (v : α) : (pool.inserted v).Sound := by
  obtain ⟨cells, _ | ⟨first, free⟩⟩ := pool
  · exact ⟨List.nodup_nil, fun _ hmem => absurd hmem List.not_mem_nil⟩
  · have hnodup : first ∉ free ∧ free.Nodup := List.nodup_cons.mp h.nodup
    refine ⟨hnodup.2, ?_⟩
    intro place hmem
    have hne : place ≠ first := by
      rintro rfl
      exact hnodup.1 hmem
    obtain ⟨hlt, hnone⟩ := h.vacant place (List.mem_cons_of_mem _ hmem)
    constructor
    · show place < (cells.setIfInBounds first (some v)).size
      rwa [Array.size_setIfInBounds]
    · have hkept : (Pool.inserted ⟨cells, first :: free⟩ v).get? place =
          Pool.get? ⟨cells, first :: free⟩ place := get?_inserted_of_ne hne v
      rw [hkept, hnone]

/-! ## Changing -/

theorem get?_modify_self (pool : Pool α) (place : Nat) (f : α → α) :
    (pool.modify place f).get? place = (pool.get? place).map f := by
  simp only [get?, modify, Array.getElem?_modify, if_pos]
  cases pool.cells[place]? <;> rfl

theorem get?_modify_of_ne {place other : Nat} (h : other ≠ place) (pool : Pool α) (f : α → α) :
    (pool.modify place f).get? other = pool.get? other := by
  simp only [get?, modify, Array.getElem?_modify, if_neg (Ne.symm h)]

theorem Sound.modify {pool : Pool α} (h : pool.Sound) (place : Nat) (f : α → α) :
    (pool.modify place f).Sound := by
  refine ⟨h.nodup, ?_⟩
  intro other hmem
  obtain ⟨hlt, hnone⟩ := h.vacant other hmem
  constructor
  · show other < (pool.cells.modify place (Option.map f)).size
    rwa [Array.size_modify]
  · by_cases heq : other = place
    · subst heq
      rw [get?_modify_self, hnone]
      rfl
    · rw [get?_modify_of_ne heq, hnone]

/-! ## Giving back -/

theorem erase_eq {pool : Pool α} {place : Nat} {v : α} (h : pool.get? place = some v) :
    pool.erase place = ⟨pool.cells.setIfInBounds place none, place :: pool.free⟩ := by
  simp only [erase, h]

theorem get?_erase_self (pool : Pool α) (place : Nat) : (pool.erase place).get? place = none := by
  cases h : pool.get? place with
  | none => simp only [erase, h]
  | some v =>
    rw [erase_eq h]
    by_cases hlt : place < pool.cells.size <;> simp [get?, hlt]

theorem get?_erase_of_ne {place other : Nat} (h : other ≠ place) (pool : Pool α) :
    (pool.erase place).get? other = pool.get? other := by
  cases hget : pool.get? place with
  | none => simp only [erase, hget]
  | some v =>
    rw [erase_eq hget]
    simp [get?, Ne.symm h]

theorem Sound.erase {pool : Pool α} (h : pool.Sound) (place : Nat) : (pool.erase place).Sound := by
  cases hget : pool.get? place with
  | none =>
    rw [show pool.erase place = pool by simp only [Pool.erase, hget]]
    exact h
  | some v =>
    have hself : (pool.erase place).get? place = none := get?_erase_self pool place
    have hother {other : Nat} (hne : other ≠ place) := get?_erase_of_ne hne pool
    rw [erase_eq hget] at hself hother ⊢
    -- The place was not free before: a value lay there.
    have hnotFree : place ∉ pool.free := by
      intro hmem
      rw [(h.vacant place hmem).2] at hget
      nomatch hget
    refine ⟨List.nodup_cons.mpr ⟨hnotFree, h.nodup⟩, ?_⟩
    intro other hmem
    rcases List.mem_cons.mp hmem with rfl | hbefore
    · refine ⟨?_, hself⟩
      show other < (pool.cells.setIfInBounds other none).size
      rw [Array.size_setIfInBounds]
      exact lt_of_get?_eq_some hget
    · have hne : other ≠ place := by
        rintro rfl
        exact hnotFree hbefore
      obtain ⟨hlt, hnone⟩ := h.vacant other hbefore
      refine ⟨?_, (hother hne).trans hnone⟩
      show other < (pool.cells.setIfInBounds place none).size
      rwa [Array.size_setIfInBounds]

end Fifo.Pool
