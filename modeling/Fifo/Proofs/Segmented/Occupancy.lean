/-
  OCCUPANCY of boxed segments: a slot refers to an element if it was written and not read.

        read       write
        v          v
    . . a b c d e  . . .      `Tidy`: occupied are the slots in between, and no others

  Writing and reading move one index each, over the one slot that they change.  Rewinding moves both
  and changes no slot: it needs a drained segment, in which no slot is occupied.
-/
import Fifo.Proofs.Segmented.Moves
import Fifo.Proofs.Slots

namespace Fifo

open Store (Occupied)

/-! ## One segment -/

namespace Segment

/-- `Tidy s` — the occupied slots are those that were written and not read. -/
def Tidy (s : Segment .boxed) : Prop :=
  ∀ place, Occupied s.slots place ↔ s.read ≤ place ∧ place < s.write

variable {s : Segment .boxed}

theorem tidy_vacant (capacity : Nat) : (vacant .boxed capacity).Tidy := by
  intro place
  refine iff_of_false (Store.not_occupied_vacant capacity place) ?_
  rintro ⟨_, hlt⟩
  exact Nat.not_lt_zero _ hlt

theorem Tidy.put (h : s.Tidy) (hle : s.read ≤ s.write) (hlt : s.write < s.slots.size) (v : Int32) :
    (s.put v).Tidy := by
  intro place
  show Occupied (s.slots.setIfInBounds s.write _) place ↔ s.read ≤ place ∧ place < s.write + 1
  rw [Store.occupied_set_iff hlt, h place]
  omega

theorem Tidy.skip (h : s.Tidy) : s.skip.Tidy := by
  intro place
  show Occupied (s.slots.modify s.read _) place ↔ s.read + 1 ≤ place ∧ place < s.write
  rw [Store.occupied_taken_iff, h place]
  omega

/-- Nothing is left in a drained segment. -/
theorem Tidy.rewind (h : s.Tidy) (hdrained : s.read = s.write) : s.rewind.Tidy := by
  intro place
  show Occupied s.slots place ↔ 0 ≤ place ∧ place < 0
  rw [h place]
  omega

end Segment

/-! ## Lists of segments -/

namespace SegmentedQueue

variable {capacity : Nat} {segments segments' : List (Segment .boxed)}

theorem tidy_read (hread : Read segments segments') (h : ∀ s ∈ segments, s.Tidy) :
    ∀ s ∈ segments', s.Tidy := by
  cases hread with
  | @skip s rest =>
    intro t ht
    rcases List.mem_cons.mp ht with rfl | hrest
    · exact (h s List.mem_cons_self).skip
    · exact h t (List.mem_cons_of_mem _ hrest)
  | @rewind s hlast =>
    intro t ht
    obtain rfl := List.mem_singleton.mp ht
    exact (h s List.mem_cons_self).skip.rewind hlast

/-- **No move makes a mess.** -/
theorem tidy_move (hpos : 0 < capacity) {n : Nat} {log : List Record}
    (hs : SoundSegments capacity segments) (hmove : Move capacity segments n log segments')
    (h : ∀ s ∈ segments, s.Tidy) : ∀ s ∈ segments', s.Tidy := by
  cases hmove with
  | idle => exact h
  | @put init t hlt v =>
    have hmem : t ∈ init ++ [t] := List.mem_append_right _ List.mem_cons_self
    intro s hin
    rcases List.mem_append.mp hin with hinit | hlast
    · exact h s (List.mem_append_left _ hinit)
    · obtain rfl := List.mem_singleton.mp hlast
      refine (h t hmem).put (hs.le_le t hmem).1 ?_ v
      rwa [hs.slots_eq t hmem]
  | link _ v =>
    intro s hin
    rcases List.mem_append.mp hin with hbefore | hlast
    · exact h s hbefore
    · obtain rfl := List.mem_singleton.mp hlast
      refine (Segment.tidy_vacant capacity).put (Nat.le_refl 0) ?_ v
      show 0 < (Store.vacant .boxed capacity).size
      rwa [Store.size_vacant]
  | read hread => exact tidy_read hread h
  | release _ hread => exact tidy_read hread fun s hin => h s (List.mem_cons_of_mem _ hin)

/-- All segments are tidy after every run. -/
theorem tidy_after (requested : Nat) (ops : List Queue.Op) :
    ∀ s ∈ (Queue.after ops (new .boxed requested)).chain.toList, s.Tidy := by
  have hpos := requested_pos requested
  refine segments_after (fun segments => ∀ s ∈ segments, s.Tidy) hpos (tidy_move hpos) ops
    (holds_new requested) ?_
  intro s hin
  exact absurd hin List.not_mem_nil

end SegmentedQueue
end Fifo
