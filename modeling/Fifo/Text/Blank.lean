/-
  BLANKS: the characters that are trimmed from both ends of a text.

  They are the 25 characters with the Unicode property White_Space.  A character outside this
  table is not a blank, however little of it can be seen (a zero width space, a byte order mark).
-/

namespace Fifo.Text

/-- The first and the last code points of the ranges of blanks. -/
def blankRanges : List (Nat × Nat) :=
  [(0x09, 0x0D), (0x20, 0x20), (0x85, 0x85), (0xA0, 0xA0), (0x1680, 0x1680), (0x2000, 0x200A),
    (0x2028, 0x2029), (0x202F, 0x202F), (0x205F, 0x205F), (0x3000, 0x3000)]

example : (blankRanges.map fun (first, last) => last + 1 - first).sum = 25 := by decide

/-- Whether a character is a blank. -/
def isBlank (c : Char) : Bool :=
  blankRanges.any fun (first, last) => first ≤ c.toNat && c.toNat ≤ last

/-- A text without the blanks at its start. -/
def trimStart (text : List Char) : List Char := text.dropWhile isBlank

/-- A text without the blanks at its end. -/
def trimEnd (text : List Char) : List Char := (trimStart text.reverse).reverse

/-- A text without the blanks at its ends. -/
def trim (text : List Char) : List Char := trimEnd (trimStart text)

example : trim [' ', '\t', 'a', ' ', 'b', '\n'] = ['a', ' ', 'b'] := by decide

end Fifo.Text
