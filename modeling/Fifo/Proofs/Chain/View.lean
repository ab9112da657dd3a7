/-
  THE VIEW of a chain: a list of values, changed at its two ends.

  `Holds c items` says that a chain is sound and that `toList` gives `items`.  Each operation has
  one lemma here, about the list alone; whoever uses chains never meets a place or a link again.
-/
import Mathlib.Data.List.Nodup
import Fifo.Proofs.Chain.Links

namespace Fifo.Chain

variable {α : Type}

/-- `Holds c items` — the values of the chain, first to last, are `items`. -/
structure Holds (c : Chain α) (items : List α) : Prop where
  sound : c.Sound
  toList_eq : c.toList = items

theorem holds_empty : Holds (empty : Chain α) [] := ⟨sound_empty, rfl⟩

/-- A chain holds the values at the places that its links meet: there is fuel for all of them. -/
theorem holds_of_linked {c : Chain α} {places : List Nat} (hpool : c.pool.Sound)
    (h : Linked c.pool c.head places) (hnodup : places.Nodup)
    (htail : c.tail = places.getLast?) : c.Holds (values c.pool places) := by
  have hplaces : c.places = places := follow_of_linked h _ (h.length_le hnodup)
  refine ⟨⟨hpool, places, h, hnodup, htail⟩, ?_⟩
  show values c.pool c.places = _
  rw [hplaces]

namespace Holds

variable {c : Chain α} {items : List α}

/-- The places of the values that a chain holds. -/
theorem linked (h : c.Holds items) :
    ∃ places, Linked c.pool c.head places ∧ places.Nodup ∧ c.tail = places.getLast? ∧
      values c.pool places = items := by
  obtain ⟨places, hlinked, hnodup, htail⟩ := h.sound.linked
  refine ⟨places, hlinked, hnodup, htail, ?_⟩
  rw [← (holds_of_linked h.sound.pool hlinked hnodup htail).toList_eq, h.toList_eq]

/-- A chain without values has no ends. -/
theorem ends_nil (h : c.Holds []) : c.head = none ∧ c.tail = none := by
  obtain ⟨places, hlinked, _, htail, hvalues⟩ := h.linked
  generalize c.head = head at hlinked
  cases hlinked with
  | nil => exact ⟨rfl, htail⟩
  | cons here _ =>
    rw [values_cons here] at hvalues
    nomatch hvalues

/-- The places of a chain that has a first value. -/
theorem linked_cons {x : α} {rest : List α} (h : c.Holds (x :: rest)) :
    ∃ first node places, c.head = some first ∧ c.pool.get? first = some node ∧ node.value = x ∧
      Linked c.pool node.next places ∧ first ∉ places ∧ places.Nodup ∧
      c.tail = (first :: places).getLast? ∧ values c.pool places = rest := by
  obtain ⟨places, hlinked, hnodup, htail, hvalues⟩ := h.linked
  generalize hhead : c.head = head at hlinked
  cases hlinked with
  | nil => nomatch hvalues
  | @cons first node places here after =>
    rw [values_cons here] at hvalues
    obtain ⟨hx, hrest⟩ := List.cons.inj hvalues
    obtain ⟨hnotIn, hnodup⟩ := List.nodup_cons.mp hnodup
    exact ⟨first, node, places, rfl, here, hx, after, hnotIn, hnodup, htail, hrest⟩

/-- The places of a chain that has a last value. -/
theorem linked_concat {x : α} {init : List α} (h : c.Holds (init ++ [x])) :
    ∃ places last node, Linked c.pool c.head (places ++ [last]) ∧ (places ++ [last]).Nodup ∧
      c.tail = some last ∧ c.pool.get? last = some node ∧ node.value = x ∧
      values c.pool places = init := by
  obtain ⟨places, hlinked, hnodup, htail, hvalues⟩ := h.linked
  rcases List.eq_nil_or_concat' places with rfl | ⟨before, last, rfl⟩
  · exact absurd hvalues.symm (List.append_ne_nil_of_right_ne_nil _ (List.cons_ne_nil _ _))
  · have hmem : last ∈ before ++ [last] := List.mem_append_right _ List.mem_cons_self
    obtain ⟨node, hget⟩ := Option.isSome_iff_exists.mp (hlinked.get?_isSome last hmem)
    rw [values_append, values_cons hget] at hvalues
    obtain ⟨hinit, hx⟩ := List.append_inj' hvalues rfl
    rw [List.getLast?_concat] at htail
    exact ⟨before, last, node, hlinked, hnodup, htail, hget, (List.cons.inj hx).1, hinit⟩

/-! ## Looking at the ends -/

theorem front?_nil (h : c.Holds []) : c.front? = none := by
  simp [front?, node?, h.ends_nil.1]

theorem front?_cons {x : α} {rest : List α} (h : c.Holds (x :: rest)) : c.front? = some x := by
  obtain ⟨first, node, _, hhead, hget, rfl, _⟩ := h.linked_cons
  simp [front?, node?, hhead, hget]

theorem back?_nil (h : c.Holds []) : c.back? = none := by
  simp [back?, node?, h.ends_nil.2]

theorem back?_concat {x : α} {init : List α} (h : c.Holds (init ++ [x])) : c.back? = some x := by
  obtain ⟨_, last, node, _, _, htail, hget, rfl, _⟩ := h.linked_concat
  simp [back?, node?, htail, hget]

/-- A second node follows the first if there are values behind the first one. -/
theorem hasSecond_eq {x : α} {rest : List α} (h : c.Holds (x :: rest)) :
    c.hasSecond = !rest.isEmpty := by
  obtain ⟨first, node, places, hhead, hget, _, hafter, _, _, _, rfl⟩ := h.linked_cons
  have hsecond : c.hasSecond = node.next.isSome := by simp [hasSecond, node?, hhead, hget]
  rw [hsecond]
  generalize node.next = next at hafter
  cases hafter with
  | nil => rfl
  | cons here _ =>
    rw [values_cons here]
    rfl

/-! ## Appending -/

/-- The first value gets the fresh place, which both ends lead to. -/
theorem append_nil (h : c.Holds []) (v : α) : (c.append v).Holds [v] := by
  have hpool := h.sound.pool
  obtain ⟨hhead, htail⟩ := h.ends_nil
  obtain ⟨pool, head, tail⟩ := c
  dsimp only at hpool hhead htail
  subst hhead htail
  have heq : Chain.append v ⟨pool, none, none⟩ =
      ⟨pool.inserted ⟨v, none⟩, some pool.fresh, some pool.fresh⟩ := by
    simp only [Chain.append, Pool.insert_eq]
  have hself := Pool.get?_inserted_self hpool ⟨v, none⟩
  have hlinked : Linked (pool.inserted ⟨v, none⟩) (some pool.fresh) [pool.fresh] :=
    .cons hself .nil
  have hvalues : values (pool.inserted ⟨v, none⟩) [pool.fresh] = [v] := values_cons hself []
  rw [heq, ← hvalues]
  exact holds_of_linked (hpool.inserted _) hlinked (List.nodup_singleton _) rfl

/-- A further value gets the fresh place, to which the last node is made to lead. -/
theorem append_concat {x : α} {init : List α} (h : c.Holds (init ++ [x])) (v : α) :
    (c.append v).Holds (init ++ [x] ++ [v]) := by
  have hpool := h.sound.pool
  obtain ⟨places, last, node, hlinked, hnodup, htail, hget, rfl, rfl⟩ := h.linked_concat
  obtain ⟨pool, head, tail⟩ := c
  dsimp only at hlinked htail hpool hget ⊢
  subst htail
  -- The fresh place is none of the chain, so the links do not see what is put there.
  have hfresh : pool.fresh ∉ places ++ [last] := by
    intro hmem
    have hsome := hlinked.get?_isSome _ hmem
    rw [Pool.get?_fresh hpool] at hsome
    nomatch hsome
  have hsame : ∀ place ∈ places ++ [last],
      (pool.inserted ⟨v, none⟩).get? place = pool.get? place := by
    intro place hmem
    apply Pool.get?_inserted_of_ne
    rintro rfl
    exact hfresh hmem
  have hself := Pool.get?_inserted_self hpool ⟨v, none⟩
  -- links and values change in one place each: the last node leads on, the fresh one holds the value
  have hextended := Linked.extend hself rfl (hlinked.congr hsame) hnodup hfresh
  have heq : Chain.append v ⟨pool, head, some last⟩ =
      ⟨(pool.inserted ⟨v, none⟩).modify last fun node => { node with next := some pool.fresh },
        head, some pool.fresh⟩ := by
    simp only [Chain.append, Pool.insert_eq]
  have hnodup' : (places ++ [last] ++ [pool.fresh]).Nodup :=
    List.nodup_append_comm.mpr (List.nodup_cons.mpr ⟨hfresh, hnodup⟩)
  have hkept := values_modify_of_value_eq (pool.inserted ⟨v, none⟩) last
    (fun node => { node with next := some pool.fresh }) (fun _ => rfl)
    (places ++ [last] ++ [pool.fresh])
  have hvalues : values (pool.inserted ⟨v, none⟩) (places ++ [last] ++ [pool.fresh]) =
      values pool places ++ [node.value] ++ [v] := by
    rw [values_append, values_congr hsame, values_append, values_cons hget, values_cons hself]
    rfl
  rw [heq, ← hvalues, ← hkept]
  refine holds_of_linked ((hpool.inserted _).modify _ _) hextended hnodup' ?_
  rw [List.getLast?_concat]

/-- **Appending** puts a value behind the last one. -/
theorem append (h : c.Holds items) (v : α) : (c.append v).Holds (items ++ [v]) := by
  rcases List.eq_nil_or_concat' items with rfl | ⟨init, x, rfl⟩
  · exact h.append_nil v
  · exact h.append_concat v

/-! ## Dropping -/

/-- **Dropping** gives the first node back; the links never lead there again. -/
theorem dropFront {x : α} {rest : List α} (h : c.Holds (x :: rest)) : c.dropFront.Holds rest := by
  have hpool := h.sound.pool
  obtain ⟨first, node, places, hhead, hget, _, hafter, hnotIn, hnodup, htail, rfl⟩ := h.linked_cons
  obtain ⟨pool, head, tail⟩ := c
  dsimp only at hpool hhead hget hafter htail ⊢
  subst hhead
  have hsame : ∀ place ∈ places, (pool.erase first).get? place = pool.get? place := by
    intro place hmem
    apply Pool.get?_erase_of_ne
    rintro rfl
    exact hnotIn hmem
  have heq : Chain.dropFront ⟨pool, some first, tail⟩ =
      ⟨pool.erase first, node.next, if node.next.isNone then none else tail⟩ := by
    simp only [Chain.dropFront, hget, Option.bind_some]
  rw [heq, ← values_congr hsame]
  refine holds_of_linked (hpool.erase first) (hafter.congr hsame) hnodup ?_
  show (if node.next.isNone then none else tail) = places.getLast?
  rw [htail]
  generalize node.next = next at hafter
  cases hafter with
  | nil => rfl
  | cons _ _ => exact List.getLast?_cons_cons

/-! ## Changing a value -/

/-- A change of the first value. -/
theorem modifyFront {x : α} {rest : List α} (h : c.Holds (x :: rest)) (f : α → α) :
    (c.modifyFront f).Holds (f x :: rest) := by
  have hpool := h.sound.pool
  obtain ⟨first, node, places, hhead, hget, rfl, hafter, hnotIn, hnodup, htail, rfl⟩ :=
    h.linked_cons
  obtain ⟨pool, head, tail⟩ := c
  dsimp only at hpool hhead hget hafter htail ⊢
  subst hhead
  let changed := pool.modify first fun node => { node with value := f node.value }
  have hlinked : Linked changed (some first) (first :: places) :=
    (Linked.cons hget hafter).modify first fun _ => rfl
  have hself : changed.get? first = some { node with value := f node.value } := by
    rw [Pool.get?_modify_self, hget]
    rfl
  have hvalues : values changed (first :: places) = f node.value :: values pool places := by
    rw [values_cons hself, values_modify_of_not_mem pool _ hnotIn]
  rw [← hvalues]
  exact holds_of_linked (hpool.modify _ _) hlinked (List.nodup_cons.mpr ⟨hnotIn, hnodup⟩) htail

/-- A change of the last value. -/
theorem modifyBack {x : α} {init : List α} (h : c.Holds (init ++ [x])) (f : α → α) :
    (c.modifyBack f).Holds (init ++ [f x]) := by
  have hpool := h.sound.pool
  obtain ⟨places, last, node, hlinked, hnodup, htail, hget, rfl, rfl⟩ := h.linked_concat
  obtain ⟨pool, head, tail⟩ := c
  dsimp only at hpool hlinked htail hget ⊢
  subst htail
  let changed := pool.modify last fun node => { node with value := f node.value }
  have hlinked' : Linked changed head (places ++ [last]) := hlinked.modify last fun _ => rfl
  have hself : changed.get? last = some { node with value := f node.value } := by
    rw [Pool.get?_modify_self, hget]
    rfl
  have hnotIn : last ∉ places := by
    intro hmem
    exact (List.nodup_append.mp hnodup).2.2 last hmem last List.mem_cons_self rfl
  have hvalues : values changed (places ++ [last]) = values pool places ++ [f node.value] := by
    rw [values_append, values_cons hself, values_modify_of_not_mem pool _ hnotIn]
    rfl
  rw [← hvalues]
  exact holds_of_linked (hpool.modify _ _) hlinked' hnodup List.getLast?_concat.symm

end Holds
end Fifo.Chain
