/-
  LETTERS up to case, where only the 26 letters from a to z have two cases.

  A character whose lower case is one of them in some language (the Kelvin sign, the dotted capital
  I) is itself none of them, and equals nothing but itself.
-/

namespace Fifo.Text

/-- Whether two characters are the same letter, or the same character. -/
def sameLetter (a b : Char) : Bool := a.toLower == b.toLower

/-- Whether two texts have the same length, and the same letters at each place. -/
def sameLetters : List Char → List Char → Bool
  | [], [] => true
  | a :: s, b :: t => sameLetter a b && sameLetters s t
  | _, _ => false

theorem sameLetters_iff {s t : List Char} :
    sameLetters s t = true ↔ s.map Char.toLower = t.map Char.toLower := by
  induction s generalizing t with
  | nil =>
    cases t with
    | nil => exact ⟨fun _ => rfl, fun _ => rfl⟩
    | cons b t => simp [sameLetters]
  | cons a s ih =>
    cases t with
    | nil => simp [sameLetters]
    | cons b t => simp [sameLetters, sameLetter, ih]

end Fifo.Text
