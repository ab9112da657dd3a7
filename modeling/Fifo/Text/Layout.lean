/-
  LAYOUTS: how a text is fitted into a field of a line.

  The text is CUT first, to the precision, and then PADDED, to the width: a text that is still too
  long stays as it is.  Without a side it stands at the left, between nothing and spaces.
-/

namespace Fifo.Text

/-- Where a text stands in its field. -/
inductive Side where
  | left
  | centre
  | right
  deriving DecidableEq, Repr

/-- A field for a text. -/
structure Layout where
  /-- How many characters the text takes at least. -/
  width : Nat := 0
  /-- How many characters of the text are taken at most. -/
  precision : Option Nat := none
  /-- The side the text stands at, with the character that fills the field. -/
  side : Option (Side × Char) := none
  /-- Asks for zeros in front of a number.  A text is no number, and is not changed by it. -/
  zeros : Bool := false
  deriving DecidableEq, Repr

namespace Layout

/-- The text, cut to the precision. -/
def cut (l : Layout) (text : List Char) : List Char :=
  match l.precision with
  | none => text
  | some n => text.take n

/-- A text with `count` characters around it.  In the centre, the odd one comes after the text. -/
def surround (count : Nat) (fill : Char) (text : List Char) : Side → List Char
  | .left => text ++ List.replicate count fill
  | .centre => List.replicate (count / 2) fill ++ text ++ List.replicate (count - count / 2) fill
  | .right => List.replicate count fill ++ text

/-- The text, cut to the precision and padded to the width. -/
def pad (l : Layout) (text : List Char) : List Char :=
  let body := l.cut text
  let (side, fill) := l.side.getD (.left, ' ')
  surround (l.width - body.length) fill body side

theorem length_surround (count : Nat) (fill : Char) (text : List Char) (side : Side) :
    (surround count fill text side).length = text.length + count := by
  cases side <;> simp [surround] <;> omega

theorem length_pad (l : Layout) (text : List Char) :
    (l.pad text).length = max l.width (l.cut text).length := by
  show (surround _ _ _ _).length = _
  rw [length_surround]
  omega

end Layout
end Fifo.Text
