/-
  SEGMENTS: what is done to one of them, and to a list of them that is in order.

  1. **One segment** — its window is what was written and not read.  Putting appends to the window,
     skipping removes the first slot, and the rest of the segment does not matter.

  2. **A list in order** — `SoundSegments` is kept by each of the FOUR paths: a slot more in the last
     segment (`put`), a new segment behind full ones (`link`), a drained segment less at the front
     (`release`), and a slot less in the first segment (`skip`), which is rewound if it is drained
     and alone (`skip_rewind`); the last two are what READING does (`Read`).  That a released
     segment has a successor with something to read is part of the invariant (`unread`): nobody
     checks it again.
-/
import Fifo.Chained.SegmentedQueue

namespace Fifo

variable {p : Placement}

/-! ## One segment -/

namespace Segment

theorem length_window {s : Segment p} (hle : s.write ≤ s.slots.size) :
    s.window.length = s.size := by
  unfold window size
  rw [List.length_drop, List.length_take, Array.length_toList, Nat.min_eq_left hle]

theorem window_of_drained {s : Segment p} (h : s.read = s.write) : s.window = [] := by
  unfold window
  rw [h]
  exact List.drop_eq_nil_of_le (List.length_take_le _ _)

/-- **Putting** appends to the window. -/
theorem window_put {s : Segment p} (hle : s.read ≤ s.write) (hlt : s.write < s.slots.size)
    (v : Int32) : (s.put v).window = s.window ++ [p.pack v] := by
  have hlength : s.write < s.slots.toList.length := by rwa [Array.length_toList]
  have htake : (s.slots.setIfInBounds s.write (p.pack v)).toList.take (s.write + 1) =
      s.slots.toList.take s.write ++ [p.pack v] := by
    rw [Array.toList_setIfInBounds, List.take_add_one, List.take_set_of_le (Nat.le_refl _),
      List.getElem?_set_self hlength]
    rfl
  unfold window put
  dsimp only
  rw [htake, List.drop_append_of_le_length]
  rw [List.length_take, Nat.min_eq_left (Nat.le_of_lt hlength)]
  exact hle

/-- **Skipping** removes the first slot of the window. -/
theorem window_eq_cons {s : Segment p} (hlt : s.read < s.write) (hle : s.write ≤ s.slots.size) :
    ∃ slot, s.slots[s.read]? = some slot ∧ s.window = slot :: s.skip.window := by
  have hread : s.read < s.slots.size := by omega
  refine ⟨s.slots[s.read], Array.getElem?_eq_getElem hread, ?_⟩
  have hlength : s.read < (s.slots.toList.take s.write).length := by
    rw [List.length_take, Array.length_toList]
    omega
  -- What is taken out lies before the place from which the window now starts.
  have hskip : s.skip.window = (s.slots.toList.take s.write).drop (s.read + 1) := by
    unfold window skip
    dsimp only
    rw [Array.toList_modify]
    apply List.ext_getElem?
    intro i
    have hne : s.read ≠ s.read + 1 + i := by omega
    rw [List.getElem?_drop, List.getElem?_drop, List.getElem?_take, List.getElem?_take]
    simp [hne]
  rw [hskip]
  unfold window
  rw [List.drop_eq_getElem_cons hlength]
  simp

end Segment

/-! ## A list of segments in order -/

namespace SegmentedQueue

open Segment (held)

/-- What the segments hold is counted by their windows. -/
theorem held_eq {segments : List (Segment p)}
    (h : ∀ s ∈ segments, s.write ≤ s.slots.size) :
    held segments = (segments.flatMap Segment.window).length := by
  induction segments with
  | nil => rfl
  | cons s rest ih =>
    have hrest := ih fun t hmem => h t (List.mem_cons_of_mem _ hmem)
    rw [List.flatMap_cons, List.length_append, ← hrest,
      Segment.length_window (h s List.mem_cons_self)]
    rfl

namespace SoundSegments

variable {capacity : Nat}

theorem write_le {segments : List (Segment p)} (h : SoundSegments capacity segments) :
    ∀ s ∈ segments, s.write ≤ s.slots.size := by
  intro s hmem
  rw [h.slots_eq s hmem]
  exact (h.le_le s hmem).2

/-! ### At the end -/

/-- Behind full segments there may be one that has something to read, and was not read unless it is
    the first. -/
theorem concat {init : List (Segment p)} {t : Segment p}
    (hinit : ∀ s ∈ init, s.slots.size = capacity ∧ s.read ≤ s.write ∧ s.write = capacity)
    (hunread : ∀ s ∈ init.tail, s.read = 0 ∧ 0 < s.write) (hslots : t.slots.size = capacity)
    (hlt : t.read < t.write) (hle : t.write ≤ capacity) (hfirst : init ≠ [] → t.read = 0) :
    SoundSegments capacity (init ++ [t]) := by
  constructor
  · intro s hs
    rcases List.mem_append.mp hs with hbefore | hlast
    · exact (hinit s hbefore).1
    · obtain rfl := List.mem_singleton.mp hlast
      exact hslots
  · intro s hs
    rcases List.mem_append.mp hs with hbefore | hlast
    · obtain ⟨_, hread, hwrite⟩ := hinit s hbefore
      exact ⟨hread, Nat.le_of_eq hwrite⟩
    · obtain rfl := List.mem_singleton.mp hlast
      exact ⟨Nat.le_of_lt hlt, hle⟩
  · intro s hs
    rw [List.dropLast_concat] at hs
    exact (hinit s hs).2.2
  · intro s hs
    cases init with
    | nil => exact absurd hs List.not_mem_nil
    | cons first rest =>
      rcases List.mem_append.mp hs with hrest | hlast
      · exact hunread s hrest
      · obtain rfl := List.mem_singleton.mp hlast
        have hread : s.read = 0 := hfirst (List.cons_ne_nil _ _)
        exact ⟨hread, by omega⟩
  · intro s heq hdrained
    cases init with
    | nil =>
      obtain rfl : t = s := (List.cons.inj heq).1
      exact absurd hdrained (Nat.ne_of_lt hlt)
    | cons first rest => simp at heq

/-- **A slot more in the last segment.** -/
theorem put {init : List (Segment p)} {t : Segment p} (h : SoundSegments capacity (init ++ [t]))
    (hlt : t.write < capacity) (v : Int32) : SoundSegments capacity (init ++ [t.put v]) := by
  have hmem : t ∈ init ++ [t] := List.mem_append_right _ List.mem_cons_self
  obtain ⟨hle, _⟩ := h.le_le t hmem
  apply concat
  · intro s hs
    have hs' : s ∈ init ++ [t] := List.mem_append_left _ hs
    refine ⟨h.slots_eq s hs', (h.le_le s hs').1, h.full s ?_⟩
    rwa [List.dropLast_concat]
  · intro s hs
    cases init with
    | nil => exact absurd hs List.not_mem_nil
    | cons first rest => exact h.unread s (List.mem_append_left _ hs)
  · exact Array.size_setIfInBounds.trans (h.slots_eq t hmem)
  · exact Nat.lt_succ_of_le hle
  · exact hlt
  · intro hne
    cases init with
    | nil => exact absurd rfl hne
    | cons first rest => exact (h.unread t (List.mem_append_right _ List.mem_cons_self)).1

/-- **A new segment behind full ones**, with its first element. -/
theorem link {segments : List (Segment p)} (h : SoundSegments capacity segments)
    (hpos : 0 < capacity) (hfull : ∀ s ∈ segments, s.write = capacity) (v : Int32) :
    SoundSegments capacity (segments ++ [(Segment.vacant p capacity).put v]) := by
  apply concat
  · intro s hs
    exact ⟨h.slots_eq s hs, (h.le_le s hs).1, hfull s hs⟩
  · exact h.unread
  · exact Array.size_setIfInBounds.trans (Store.size_vacant p capacity)
  · exact Nat.one_pos
  · exact hpos
  · intro _
    rfl

/-- When the last segment is full, all are. -/
theorem all_full {init : List (Segment p)} {t : Segment p}
    (h : SoundSegments capacity (init ++ [t])) (hfull : t.write = capacity) :
    ∀ s ∈ init ++ [t], s.write = capacity := by
  intro s hs
  rcases List.mem_append.mp hs with hinit | hlast
  · exact h.full s (by rwa [List.dropLast_concat])
  · obtain rfl := List.mem_singleton.mp hlast
    exact hfull

/-! ### At the front -/

/-- The successor of a segment holds an element, all of it still to be read. -/
theorem successor {s t : Segment p} {rest : List (Segment p)}
    (h : SoundSegments capacity (s :: t :: rest)) : t.read < t.write := by
  obtain ⟨hread, hpos⟩ := h.unread t List.mem_cons_self
  omega

/-- **A segment less**, when there is a successor. -/
theorem release {s t : Segment p} {rest : List (Segment p)}
    (h : SoundSegments capacity (s :: t :: rest)) : SoundSegments capacity (t :: rest) := by
  constructor
  · intro u hu
    exact h.slots_eq u (List.mem_cons_of_mem _ hu)
  · intro u hu
    exact h.le_le u (List.mem_cons_of_mem _ hu)
  · intro u hu
    exact h.full u (List.mem_cons_of_mem _ hu)
  · intro u hu
    exact h.unread u (List.mem_cons_of_mem _ hu)
  · intro u heq hdrained
    obtain rfl : t = u := (List.cons.inj heq).1
    exact absurd hdrained (Nat.ne_of_lt h.successor)

/-- **A slot less in the first segment**, when that segment is not drained or not alone. -/
theorem skip {s : Segment p} {rest : List (Segment p)} (h : SoundSegments capacity (s :: rest))
    (hlt : s.read < s.write) (hmore : s.read + 1 < s.write ∨ rest ≠ []) :
    SoundSegments capacity (s.skip :: rest) := by
  constructor
  · intro t ht
    rcases List.mem_cons.mp ht with rfl | hrest
    · exact Array.size_modify.trans (h.slots_eq s List.mem_cons_self)
    · exact h.slots_eq t (List.mem_cons_of_mem _ hrest)
  · intro t ht
    rcases List.mem_cons.mp ht with rfl | hrest
    · exact ⟨hlt, (h.le_le s List.mem_cons_self).2⟩
    · exact h.le_le t (List.mem_cons_of_mem _ hrest)
  · intro t ht
    cases rest with
    | nil => exact absurd ht List.not_mem_nil
    | cons next rest =>
      rcases List.mem_cons.mp ht with rfl | hrest
      · exact h.full s List.mem_cons_self
      · exact h.full t (List.mem_cons_of_mem _ hrest)
  · intro t ht
    exact h.unread t ht
  · intro t heq hdrained
    obtain ⟨rfl, rfl⟩ := List.cons.inj heq
    rcases hmore with hless | hne
    · exact absurd hdrained (Nat.ne_of_lt hless)
    · exact absurd rfl hne

/-- **A slot less in a segment that is alone**, rewound because it is drained. -/
theorem skip_rewind {s : Segment p} (h : SoundSegments capacity [s]) :
    SoundSegments capacity [s.skip.rewind] := by
  constructor
  · intro t ht
    obtain rfl := List.mem_singleton.mp ht
    exact Array.size_modify.trans (h.slots_eq s List.mem_cons_self)
  · intro t ht
    obtain rfl := List.mem_singleton.mp ht
    exact ⟨Nat.le_refl 0, Nat.zero_le capacity⟩
  · intro t ht
    exact absurd ht List.not_mem_nil
  · intro t ht
    exact absurd ht List.not_mem_nil
  · intro t heq _
    obtain rfl : s.skip.rewind = t := (List.cons.inj heq).1
    rfl

end SoundSegments

/-! ## Reading -/

/-- `Read segments segments'` — a slot of the first segment was read, and that segment rewound if it is
    drained and alone. -/
inductive Read : List (Segment p) → List (Segment p) → Prop
  | skip {s : Segment p} {rest : List (Segment p)} (hlt : s.read < s.write)
    (hmore : s.read + 1 < s.write ∨ rest ≠ []) : Read (s :: rest) (s.skip :: rest)
  | rewind {s : Segment p} (hlast : s.read + 1 = s.write) : Read [s] [s.skip.rewind]

theorem Read.length_eq {segments segments' : List (Segment p)} (h : Read segments segments') :
    segments'.length = segments.length := by
  cases h with
  | skip => rfl
  | rewind => rfl

end SegmentedQueue
end Fifo
