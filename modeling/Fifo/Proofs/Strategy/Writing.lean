/-
  WRITING the names of strategies, in a form that reads back.

  1. **Fields** — `framed_pad`: a field that is filled with blanks holds the text, cut to the
     precision, between blanks.  So trimming takes off exactly what padding put on, on whichever
     sides.

  2. **Beginnings** — no name begins another (`eq_of_begins`).  A name that was cut short is none at
     all, and it is not saved by the case of its letters (`sameLetters_iff_of_begins`).
-/
import Mathlib.Data.List.TakeDrop
import Fifo.Proofs.Strategy.Reading

namespace Fifo

/-! ## Fields -/

namespace Text.Layout

variable {l : Layout}

/-- `Blanks l` — whatever fills the field is a blank. -/
def Blanks (l : Layout) : Prop := ∀ side fill, l.side = some (side, fill) → isBlank fill = true

theorem blank_replicate {fill : Char} (h : isBlank fill = true) (count : Nat) :
    Blank (List.replicate count fill) := fun c hc => by rwa [List.eq_of_mem_replicate hc]

theorem framed_surround {fill : Char} (h : isBlank fill = true) (count : Nat) (text : List Char)
    (side : Side) : Framed text (surround count fill text side) := by
  cases side with
  | left =>
    refine ⟨[], List.replicate count fill, rfl, ?_, blank_replicate h count⟩
    exact blank_replicate h 0
  | centre => exact ⟨_, _, rfl, blank_replicate h _, blank_replicate h _⟩
  | right =>
    refine ⟨List.replicate count fill, [], ?_, blank_replicate h count, blank_replicate h 0⟩
    exact (List.append_nil _).symm

/-- The text, cut to the precision, stands between blanks. -/
theorem framed_pad (h : l.Blanks) (text : List Char) : Framed (l.cut text) (l.pad text) := by
  unfold pad
  cases hside : l.side with
  | none => exact framed_surround (by decide) _ _ _
  | some field => exact framed_surround (h field.1 field.2 hside) _ _ _

/-- Cutting leaves a beginning of the text. -/
theorem cut_prefix (l : Layout) (text : List Char) : l.cut text <+: text := by
  unfold cut
  cases l.precision with
  | none => exact List.prefix_refl text
  | some n => exact List.take_prefix n text

theorem length_cut (l : Layout) (text : List Char) :
    (l.cut text).length = match l.precision with
      | none => text.length
      | some n => min n text.length := by
  unfold cut
  cases l.precision with
  | none => rfl
  | some n => exact List.length_take

/-- Nothing is cut off where the precision is no less than the length. -/
theorem cut_eq_self_iff {text : List Char} :
    l.cut text = text ↔ ∀ n, l.precision = some n → text.length ≤ n := by
  unfold cut
  cases l.precision with
  | none => simp
  | some n => simp [List.take_eq_self_iff]

end Text.Layout

/-! ## Names -/

namespace Strategy

open Text (Layout Solid sameLetters trim)

variable {t t' : Strategy} {l : Layout} {body : List Char}

/-- **No name begins another.** -/
theorem eq_of_begins (h : t'.letters <+: t.letters) : t' = t := by
  revert h
  cases t <;> cases t' <;> decide

theorem map_toLower_of_begins (h : body <+: t.letters) : body.map Char.toLower = body := by
  have hsmall : ∀ c ∈ body, c.toLower = id c := by
    intro c hc
    exact Text.toLower_of_letter (t.letter_of_mem c (h.subset hc)).1
  rw [List.map_congr_left hsmall, List.map_id]

/-- What a name begins with is read as the strategy of that name if it is the whole name, and not at
    all if it is less. -/
theorem sameLetters_iff_of_begins (h : body <+: t.letters) :
    sameLetters t'.letters body = true ↔ t' = t ∧ body = t.letters := by
  rw [Text.sameLetters_iff, map_toLower_of_begins (List.prefix_refl t'.letters),
    map_toLower_of_begins h]
  constructor
  · rintro rfl
    exact ⟨eq_of_begins h, congrArg letters (eq_of_begins h)⟩
  · rintro ⟨rfl, rfl⟩
    rfl

theorem length_name (t : Strategy) : t.name.length = t.letters.length := String.length_ofList

/-- A field spells the name that was written into it, unless that was cut short, and no other. -/
theorem spells_display_iff (h : l.Blanks) :
    Spells t' (display l t) ↔ t' = t ∧ ∀ n, l.precision = some n → t.name.length ≤ n := by
  have hbegins : l.cut t.letters <+: t.letters := l.cut_prefix t.letters
  have hsolid : Solid (l.cut t.letters) := fun c hc => t.solid_letters c (hbegins.subset hc)
  have htrim : trim (display l t).toList = l.cut t.letters := by
    rw [display, String.toList_ofList]
    exact (Text.Layout.framed_pad h t.letters).trim_eq hsolid
  rw [spells_iff, htrim, sameLetters_iff_of_begins hbegins, Text.Layout.cut_eq_self_iff, length_name]

/-- **A name that is written into a field of blanks reads back**, however wide the field is and
    wherever the name stands in it, as long as the precision leaves all of it; and a name that is
    cut short is read as none at all.  A field is as wide as it was asked to be, or as what the
    precision left. -/
theorem fields_of_names (t : Strategy) (h : l.Blanks) :
    (∀ t', parse (display l t) = .ok t' ↔
        t' = t ∧ ∀ n, l.precision = some n → t.name.length ≤ n) ∧
      (parse (display l t) = .error .unknownStrategy ↔
        ∃ n, l.precision = some n ∧ n < t.name.length) ∧
      (display l t).length = max l.width (match l.precision with
        | none => t.name.length
        | some n => min n t.name.length) := by
  refine ⟨fun t' => ?_, ?_, ?_⟩
  · rw [← spells_display_iff h]
    exact parse_eq_ok_iff
  · have herror : parse (display l t) = .error .unknownStrategy ↔ ∀ t', ¬ Spells t' (display l t) :=
      parse_eq_error_iff.trans (and_iff_right rfl)
    simp only [herror, spells_display_iff h, not_and, forall_eq, not_forall, Nat.not_le, exists_prop]
  · rw [display, String.length_ofList, Text.Layout.length_pad, Text.Layout.length_cut, length_name]

/-- In the middle of a field of ideographic spaces, with one letter's room to spare on the right. -/
theorem fields_of_names_of_segmented :
    let l : Layout :=
      { width := 14, precision := some 9, side := some (.centre, '\u3000'), zeros := true }
    l.Blanks ∧ (display l .segmented).toList =
        List.replicate 2 '\u3000' ++ "segmented".toList ++ List.replicate 3 '\u3000' ∧
      parse (display l .segmented) = .ok .segmented ∧ (display l .segmented).length = 14 := by
  intro l
  have hl : l.Blanks := by
    rintro side fill ⟨⟩
    decide
  obtain ⟨hok, _, hlength⟩ := fields_of_names .segmented hl
  refine ⟨hl, by decide, (hok .segmented).mpr ⟨rfl, ?_⟩, hlength⟩
  rintro n ⟨⟩
  decide

end Strategy
end Fifo
