/-
  READING the names of strategies.

  1. **Blanks** — `Framed m text`: the text is `m` between blanks.  Trimming finds the `m`, as long as
     no character of it is a blank itself (`Framed.trim_eq`), and there is always something that it
     finds (`framed_trim`).

  2. **Letters** — `SameUpToCase`: the same character, or the two cases of one of 26 letters.  What is
     the same as a letter up to case is a letter, so that no name is spelled with a blank in it.

  3. **Names** — `Spells t text`: blanks, the name of the strategy up to case, blanks.  No text spells
     two of them (`Spells.unique`), so that reading is a search whose order does not show (`searched`).
-/
import Mathlib.Data.List.DropRight
import Mathlib.Data.List.Forall2
import Fifo.Strategy

namespace Fifo

/-! ## Blanks around a text -/

namespace Text

variable {u m v text : List Char}

/-- `Blank text` — there is nothing but blanks. -/
def Blank (text : List Char) : Prop := ∀ c ∈ text, isBlank c = true

/-- `Solid text` — there is no blank. -/
def Solid (text : List Char) : Prop := ∀ c ∈ text, isBlank c = false

/-- `Framed m text` — the text is `m` between blanks. -/
def Framed (m text : List Char) : Prop := ∃ u v, text = u ++ m ++ v ∧ Blank u ∧ Blank v

theorem Blank.reverse (hv : Blank v) : Blank v.reverse := fun c hc => hv c (List.mem_reverse.mp hc)

theorem Solid.reverse (hm : Solid m) : Solid m.reverse := fun c hc => hm c (List.mem_reverse.mp hc)

theorem trimStart_append (hu : Blank u) (text : List Char) : trimStart (u ++ text) = trimStart text :=
  List.dropWhile_append_of_pos hu

theorem trimStart_of_blank (hu : Blank u) : trimStart u = [] := List.dropWhile_eq_nil_iff.mpr hu

/-- A text that begins with no blank is left as it is. -/
theorem trimStart_solid_append {c : Char} (hm : Solid (c :: m)) (v : List Char) :
    trimStart (c :: m ++ v) = c :: m ++ v :=
  List.dropWhile_cons_of_neg (by simp [hm c List.mem_cons_self])

theorem trimStart_of_solid (hm : Solid m) : trimStart m = m := by
  cases m with
  | nil => rfl
  | cons c m => simpa using trimStart_solid_append hm []

/-- Blanks at the end are trimmed, and nothing before them that is none. -/
theorem trimEnd_append (hm : Solid m) (hv : Blank v) : trimEnd (m ++ v) = m := by
  unfold trimEnd
  rw [List.reverse_append, trimStart_append hv.reverse, trimStart_of_solid hm.reverse,
    List.reverse_reverse]

/-- **Trimming finds what is between the blanks.** -/
theorem Framed.trim_eq (h : Framed m text) (hm : Solid m) : trim text = m := by
  obtain ⟨u, v, rfl, hu, hv⟩ := h
  unfold trim
  rw [List.append_assoc, trimStart_append hu]
  cases m with
  | nil =>
    rw [List.nil_append, trimStart_of_blank hv]
    rfl
  | cons c m => rw [trimStart_solid_append hm, trimEnd_append hm hv]

/-- What is trimmed off are blanks. -/
theorem framed_trim (text : List Char) : Framed (trim text) text := by
  refine ⟨text.takeWhile isBlank, (trimStart text).rtakeWhile isBlank, ?_, ?_, ?_⟩
  · have hend : trim text ++ (trimStart text).rtakeWhile isBlank = trimStart text :=
      List.rdropWhile_append_rtakeWhile
    rw [List.append_assoc, hend]
    exact List.takeWhile_append_dropWhile.symm
  · exact fun c hc => List.mem_takeWhile_imp hc
  · exact fun c hc => List.mem_rtakeWhile_imp hc

/-! ## Letters up to case -/

/-- `SameUpToCase a b` — the characters are the same, or the two cases of a letter from a to z. -/
def SameUpToCase (a b : Char) : Prop :=
  a = b ∨ ∃ k < 26,
    (a.toNat = 'A'.toNat + k ∧ b.toNat = 'a'.toNat + k) ∨
      (a.toNat = 'a'.toNat + k ∧ b.toNat = 'A'.toNat + k)

/-- Of all characters the 26 capitals alone have a lower case. -/
theorem toNat_toLower (c : Char) :
    c.toLower.toNat =
      if 'A'.toNat ≤ c.toNat ∧ c.toNat ≤ 'Z'.toNat then c.toNat + 32 else c.toNat := by
  have hcapital : (c.val ≥ 'A'.val ∧ c.val ≤ 'Z'.val) ↔
      'A'.toNat ≤ c.toNat ∧ c.toNat ≤ 'Z'.toNat := by
    rw [ge_iff_le, UInt32.le_iff_toNat_le, UInt32.le_iff_toNat_le]
    rfl
  unfold Char.toLower
  by_cases h : c.val ≥ 'A'.val ∧ c.val ≤ 'Z'.val
  · have hle : c.val.toNat ≤ 90 := (hcapital.mp h).2
    have hdiff : UInt32.toNat 32 = 32 := rfl
    rw [dif_pos h, if_pos (hcapital.mp h)]
    show (c.val + 32).toNat = c.val.toNat + 32
    rw [UInt32.toNat_add]
    exact Nat.mod_eq_of_lt (by omega)
  · rw [dif_neg h, if_neg (mt hcapital.mpr h)]

/-- A small letter is its own lower case. -/
theorem toLower_of_letter {c : Char} (ha : 'a'.toNat ≤ c.toNat) : c.toLower = c := by
  have hZ : 'Z'.toNat < 'a'.toNat := by decide
  rw [← Char.toNat_inj, toNat_toLower, if_neg (by omega)]

theorem sameLetter_iff {a b : Char} : sameLetter a b = true ↔ SameUpToCase a b := by
  have hA : 'A'.toNat = 65 := rfl
  have hZ : 'Z'.toNat = 90 := rfl
  have ha : 'a'.toNat = 97 := rfl
  unfold sameLetter SameUpToCase
  rw [beq_iff_eq, ← Char.toNat_inj, ← Char.toNat_inj, toNat_toLower, toNat_toLower]
  constructor
  · intro h
    split at h <;> split at h
    · exact .inl (by omega)
    · exact .inr ⟨a.toNat - 'A'.toNat, by omega, by omega⟩
    · exact .inr ⟨b.toNat - 'A'.toNat, by omega, by omega⟩
    · exact .inl h
  · rintro (h | ⟨k, hk, ⟨hup, hlow⟩ | ⟨hlow, hup⟩⟩)
    · rw [h]
    · rw [hup, hlow, if_pos (by omega), if_neg (by omega)]
      omega
    · rw [hup, hlow, if_neg (by omega), if_pos (by omega)]
      omega

/-- Texts are compared at each place. -/
theorem sameLetters_iff_forall₂ {s t : List Char} :
    sameLetters s t = true ↔ List.Forall₂ SameUpToCase s t := by
  induction s generalizing t with
  | nil => cases t <;> simp [sameLetters]
  | cons a s ih => cases t <;> simp [sameLetters, sameLetter_iff, ih]

/-- No letter is a blank. -/
theorem isBlank_of_letter {c : Char} (hA : 'A'.toNat ≤ c.toNat) (hz : c.toNat ≤ 'z'.toNat) :
    isBlank c = false := by
  have hA' : 65 ≤ c.toNat := hA
  have hz' : c.toNat ≤ 122 := hz
  simp only [isBlank, blankRanges, List.any_cons, List.any_nil, Bool.or_eq_false_iff,
    Bool.and_eq_false_iff, decide_eq_false_iff_not, and_true]
  -- the blanks next to the letters are at 0x20 and at 0x85
  omega

/-- What is the same as a letter up to case is a letter. -/
theorem SameUpToCase.isBlank_eq {a b : Char} (h : SameUpToCase a b) (ha : 'a'.toNat ≤ a.toNat)
    (hz : a.toNat ≤ 'z'.toNat) : isBlank b = false := by
  have hA : 'A'.toNat = 65 := rfl
  have ha' : 'a'.toNat = 97 := rfl
  have hz' : 'z'.toNat = 122 := rfl
  rcases h with rfl | ⟨k, hk, ⟨hup, hlow⟩ | ⟨hlow, hup⟩⟩ <;>
    exact isBlank_of_letter (by omega) (by omega)

/-- What is spelled of small letters has no blank in it. -/
theorem solid_of_spelling {s m : List Char} (h : List.Forall₂ SameUpToCase s m)
    (hs : ∀ c ∈ s, 'a'.toNat ≤ c.toNat ∧ c.toNat ≤ 'z'.toNat) : Solid m := by
  induction h with
  | nil => exact fun _ hc => absurd hc List.not_mem_nil
  | cons hab _ ih =>
    obtain ⟨ha, hs⟩ := List.forall_mem_cons.mp hs
    exact List.forall_mem_cons.mpr ⟨hab.isBlank_eq ha.1 ha.2, ih hs⟩

end Text

/-! ## Names -/

namespace Strategy

open Text (Blank Solid Framed SameUpToCase sameLetters trim)

variable {t t' : Strategy} {text : String}

theorem toList_name (t : Strategy) : t.name.toList = t.letters := String.toList_ofList

/-- Names are written in small letters. -/
theorem letter_of_mem (t : Strategy) :
    ∀ c ∈ t.letters, 'a'.toNat ≤ c.toNat ∧ c.toNat ≤ 'z'.toNat := by
  have hall : (t.letters.all fun c => 'a'.toNat ≤ c.toNat && c.toNat ≤ 'z'.toNat) = true := by
    cases t <;> decide
  intro c hc
  simpa using List.all_eq_true.mp hall c hc

theorem solid_letters (t : Strategy) : Solid t.letters := by
  intro c hc
  obtain ⟨ha, hz⟩ := t.letter_of_mem c hc
  have hA : 'A'.toNat ≤ 'a'.toNat := by decide
  exact Text.isBlank_of_letter (Nat.le_trans hA ha) hz

/-- `Spells t text` — the text is the name of the strategy, up to case and between blanks. -/
def Spells (t : Strategy) (text : String) : Prop :=
  ∃ u m v, text.toList = u ++ m ++ v ∧ Blank u ∧ Blank v ∧
    List.Forall₂ SameUpToCase t.name.toList m

/-- Trimming and comparing find out whether a name is spelled. -/
theorem spells_iff : Spells t text ↔ sameLetters t.letters (trim text.toList) = true := by
  rw [Text.sameLetters_iff_forall₂]
  constructor
  · rintro ⟨u, m, v, htext, hu, hv, hsame⟩
    rw [toList_name] at hsame
    have hframed : Framed m text.toList := ⟨u, v, htext, hu, hv⟩
    rwa [hframed.trim_eq (Text.solid_of_spelling hsame t.letter_of_mem)]
  · intro hsame
    obtain ⟨u, v, htext, hu, hv⟩ := Text.framed_trim text.toList
    exact ⟨u, _, v, htext, hu, hv, by rwa [toList_name]⟩

/-- **No text spells two names.** -/
theorem Spells.unique (h : Spells t text) (h' : Spells t' text) : t = t' := by
  have hlower := (Text.sameLetters_iff.mp (spells_iff.mp h)).trans
    (Text.sameLetters_iff.mp (spells_iff.mp h')).symm
  revert hlower
  cases t <;> cases t' <;> decide

/-- The strategy that a text names, looked for in the order of a list. -/
def searched (order : List Strategy) (text : String) : Except Error Strategy :=
  match order.find? fun t => sameLetters t.letters (trim text.toList) with
  | some t => .ok t
  | none => .error .unknownStrategy

variable {order : List Strategy}

theorem spells_of_find?
    (h : order.find? (fun t => sameLetters t.letters (trim text.toList)) = some t) :
    Spells t text := by
  have hsame := List.find?_some h
  exact spells_iff.mpr hsame

theorem not_spells_of_find? (hall : ∀ t, t ∈ order)
    (h : order.find? (fun t => sameLetters t.letters (trim text.toList)) = none) (t : Strategy) :
    ¬ Spells t text :=
  fun hspells => List.find?_eq_none.mp h t (hall t) (spells_iff.mp hspells)

/-- Where all strategies are looked at, the one that is spelled is found. -/
theorem searched_eq_ok_iff (hall : ∀ t, t ∈ order) : searched order text = .ok t ↔ Spells t text := by
  unfold searched
  cases hfind : order.find? fun t => sameLetters t.letters (trim text.toList) with
  | none => exact iff_of_false (nomatch ·) (not_spells_of_find? hall hfind t)
  | some found =>
    have hfound := spells_of_find? hfind
    constructor
    · rintro ⟨⟩
      exact hfound
    · intro h
      rw [hfound.unique h]

theorem searched_eq_error_iff (hall : ∀ t, t ∈ order) {e : Error} :
    searched order text = .error e ↔ e = .unknownStrategy ∧ ∀ t, ¬ Spells t text := by
  unfold searched
  cases hfind : order.find? fun t => sameLetters t.letters (trim text.toList) with
  | none => rw [and_iff_left (not_spells_of_find? hall hfind), Except.error.injEq, eq_comm]
  | some found =>
    exact iff_of_false (nomatch ·) fun h => h.2 found (spells_of_find? hfind)

theorem mem_all (t : Strategy) : t ∈ all := by
  cases t <;> decide

theorem parse_eq_searched (text : String) : parse text = searched all text := rfl

theorem parse_eq_ok_iff : parse text = .ok t ↔ Spells t text := by
  rw [parse_eq_searched]
  exact searched_eq_ok_iff mem_all

theorem parse_eq_error_iff {e : Error} :
    parse text = .error e ↔ e = .unknownStrategy ∧ ∀ t, ¬ Spells t text := by
  rw [parse_eq_searched]
  exact searched_eq_error_iff mem_all

/-- In whatever order the strategies are looked at, the answer is the same. -/
theorem searched_eq_parse (h : order.Perm all) (text : String) : searched order text = parse text := by
  have hall (t : Strategy) : t ∈ order := h.mem_iff.mpr t.mem_all
  cases hparse : parse text with
  | ok t => exact (searched_eq_ok_iff hall).mpr (parse_eq_ok_iff.mp hparse)
  | error e => exact (searched_eq_error_iff hall).mpr (parse_eq_error_iff.mp hparse)

/-- **A text is read as a strategy exactly if it spells its name**, between blanks and up to case, and
    every other text is refused.  No text spells two names, so that it does not matter in which order
    they are compared. -/
theorem readings_of_texts (text : String) :
    (∀ t, parse text = .ok t ↔ Spells t text) ∧
      (∀ e, parse text = .error e ↔ e = .unknownStrategy ∧ ∀ t, ¬ Spells t text) ∧
      (∀ t t', Spells t text → Spells t' text → t = t') ∧
      ∀ order : List Strategy, order.Perm all → searched order text = parse text :=
  ⟨fun _ => parse_eq_ok_iff, fun _ => parse_eq_error_iff, fun _ _ h h' => h.unique h',
    fun _ h => searched_eq_parse h text⟩

/-- A name in capitals, behind an em space and before a line feed, looked for from the last name on. -/
theorem readings_of_texts_of_linked :
    let text := "\u2003LINKed\n"
    parse text = .ok .linked ∧ Spells .linked text ∧ (∀ t, Spells t text → .linked = t) ∧
      all.reverse.Perm all ∧ searched all.reverse text = parse text := by
  intro text
  have hparse : parse text = .ok .linked := by decide
  obtain ⟨hok, _, hunique, horder⟩ := readings_of_texts text
  have hspells : Spells .linked text := (hok .linked).mp hparse
  have hperm : all.reverse.Perm all := by decide
  exact ⟨hparse, hspells, fun t => hunique .linked t hspells, hperm, horder all.reverse hperm⟩

/-- Nothing, blanks alone, a blank inside, a Kelvin sign, a beginning, and one letter more. -/
example :
    ["", "\t ", "fix ed", "lin\u212Aed", "fixe", "fixeds"].map parse =
      List.replicate 6 (.error .unknownStrategy) := by decide

end Strategy
end Fifo
