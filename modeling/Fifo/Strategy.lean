/-
  STRATEGIES: the kinds of queue, by name.

  A strategy is written as its name and read back from it.  Reading trims blanks from both ends
  and does not look at the case of letters; everything else has to be the name, and nothing else.
-/
import Fifo.Error
import Fifo.Text.Blank
import Fifo.Text.Layout
import Fifo.Text.Letters

namespace Fifo

/-- A kind of queue. -/
inductive Strategy where
  | fixed
  | growable
  | linked
  | segmented
  deriving DecidableEq, Repr

namespace Strategy

/-- All strategies, in the order in which they are listed to users. -/
def all : List Strategy := [.fixed, .growable, .linked, .segmented]

/-- The letters of the name. -/
def letters : Strategy → List Char
  | .fixed => ['f', 'i', 'x', 'e', 'd']
  | .growable => ['g', 'r', 'o', 'w', 'a', 'b', 'l', 'e']
  | .linked => ['l', 'i', 'n', 'k', 'e', 'd']
  | .segmented => ['s', 'e', 'g', 'm', 'e', 'n', 't', 'e', 'd']

/-- The name. -/
def name (t : Strategy) : String := String.ofList t.letters

/-- What is shown of a strategy itself. -/
def label : Strategy → String
  | .fixed => "Fixed"
  | .growable => "Growable"
  | .linked => "Linked"
  | .segmented => "Segmented"

/-- The strategy that a text names. -/
def parse (text : String) : Except Error Strategy :=
  let body := Text.trim text.toList
  match all.find? fun t => Text.sameLetters t.letters body with
  | some t => .ok t
  | none => .error .unknownStrategy

/-- The name in a field of a line. -/
def display (l : Text.Layout) (t : Strategy) : String := String.ofList (l.pad t.letters)

example : all.map letters = ["fixed", "growable", "linked", "segmented"].map String.toList := by
  decide

end Strategy

/-- The text of an error, which is no name: no field changes it. -/
def Error.display (_ : Text.Layout) (e : Error) : String := e.message

end Fifo
