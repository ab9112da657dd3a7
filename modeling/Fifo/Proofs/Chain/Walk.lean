/-
  WALKS along the links of a chain, from the head to the tail.

  A chain is reached by its two ends only, and its places are handed out again as soon as they are
  given back: a link that is kept too long would not lead to nothing, but to SOME node.  `Walked c
  items` says that none is.  The walk from the head meets distinct nodes, each of them there, with the
  values `items` in order; it ends at a node without a successor, and that is the node to which the
  tail leads.  Every chain that holds a list is one (`Holds.walked`).
-/
import Fifo.Proofs.Chain.View

namespace Fifo.Chain

variable {α : Type}

/-! ## The nodes of a walk -/

/-- The last node that links meet has no successor. -/
theorem Linked.next_eq_none {pool : Pool (Node α)} {last : Nat} :
    ∀ {init : List Nat} {link : Option Nat}, Linked pool link (init ++ [last]) →
      ∃ node, pool.get? last = some node ∧ node.next = none := by
  intro init
  induction init with
  | nil =>
    intro link h
    cases h with
    | @cons _ node _ here after =>
      refine ⟨node, here, ?_⟩
      generalize node.next = next at after
      cases after
      rfl
  | cons first init ih =>
    intro link h
    cases h with
    | cons _ after => exact ih after

/-- There is a node at every place that links meet. -/
theorem Linked.map_value {pool : Pool (Node α)} {link : Option Nat} {places : List Nat}
    (h : Linked pool link places) :
    places.map (fun place => (pool.get? place).map (·.value)) = (values pool places).map some := by
  induction h with
  | nil => rfl
  | cons here _ ih =>
    rw [values_cons here, List.map_cons, List.map_cons, ih, here]
    rfl

/-! ## The walk from the head -/

/-- `Walked c items` — what the links of the chain lead to are the nodes of `items`. -/
structure Walked (c : Chain α) (items : List α) : Prop where
  /-- The links lead from the head over the places, and end there. -/
  linked : Linked c.pool c.head c.places
  /-- No node is met twice. -/
  nodup : c.places.Nodup
  /-- There is a node at each place, with the value whose turn it is. -/
  values_eq : c.places.map (fun place => (c.pool.get? place).map (·.value)) = items.map some
  /-- The tail leads to the last node, which has no successor. -/
  last : items ≠ [] → ∃ place node, c.places.getLast? = some place ∧ c.tail = some place ∧
    c.pool.get? place = some node ∧ node.next = none
  /-- The head is cut when there is no node, and only then. -/
  head_eq_none_iff : c.head = none ↔ items = []
  /-- So is the tail. -/
  tail_eq_none_iff : c.tail = none ↔ items = []
  /-- The tail leads to no place that was given back. -/
  live : ∀ place, c.tail = some place → place ∉ c.pool.free ∧ (c.pool.get? place).isSome

theorem Walked.length_places {c : Chain α} {items : List α} (h : c.Walked items) :
    c.places.length = items.length := by
  have hlength := congrArg List.length h.values_eq
  rwa [List.length_map, List.length_map] at hlength

namespace Holds

variable {c : Chain α} {items : List α}

/-- A chain without values has no ends, and one with values has both. -/
theorem ends_eq_none_iff (h : c.Holds items) :
    (c.head = none ↔ items = []) ∧ (c.tail = none ↔ items = []) := by
  cases items with
  | nil =>
    obtain ⟨hhead, htail⟩ := h.ends_nil
    exact ⟨iff_of_true hhead rfl, iff_of_true htail rfl⟩
  | cons x rest =>
    obtain ⟨first, _, places, hhead, _, _, _, _, _, htail, _⟩ := h.linked_cons
    constructor
    · rw [hhead]
      exact iff_of_false (Option.some_ne_none _) (List.cons_ne_nil _ _)
    · rw [htail, List.getLast?_eq_none_iff]
      exact iff_of_false (List.cons_ne_nil _ _) (List.cons_ne_nil _ _)

/-- **The links of a chain lead to what it holds.** -/
theorem walked (h : c.Holds items) : c.Walked items := by
  obtain ⟨places, hlinked, hnodup, htail, hvalues⟩ := h.linked
  have hplaces : c.places = places := follow_of_linked hlinked _ (hlinked.length_le hnodup)
  obtain ⟨hhead, htail'⟩ := h.ends_eq_none_iff
  refine
    { linked := hplaces ▸ hlinked
      nodup := hplaces ▸ hnodup
      values_eq := ?_
      last := ?_
      head_eq_none_iff := hhead
      tail_eq_none_iff := htail'
      live := ?_ }
  · rw [hplaces, hlinked.map_value, hvalues]
  · intro hne
    rcases List.eq_nil_or_concat' places with rfl | ⟨init, last, rfl⟩
    · exact absurd hvalues.symm hne
    · obtain ⟨node, hget, hnext⟩ := hlinked.next_eq_none
      rw [hplaces, htail, List.getLast?_concat]
      exact ⟨last, node, rfl, rfl, hget, hnext⟩
  · intro place hplace
    have hmem : place ∈ places := List.mem_of_getLast? (htail.symm.trans hplace)
    have hthere := hlinked.get?_isSome place hmem
    refine ⟨?_, hthere⟩
    -- a place that was given back is vacant until it is handed out
    intro hfree
    rw [(h.sound.pool.vacant place hfree).2] at hthere
    nomatch hthere

end Holds
end Fifo.Chain
