/-
  SHOWN VALUES: the tree between a value and the text it is shown to a programmer with.

  One tree has TWO layouts.  `Shown.line` writes all of it on one line,

      Ring { repr: "inline", head: 0 }

  and `Shown.tall` writes each item on a line of its own, indented by four spaces for each level
  and followed by a comma.  Both walk the same tree, so they cannot disagree on what is shown.
-/

namespace Fifo

/-- What is shown of a value. -/
inductive Shown where
  /-- A text written as it is: a number, a name. -/
  | atom (text : String)
  /-- A text written between quotes.  The names shown so are plain words: nothing is escaped. -/
  | quoted (text : String)
  /-- Items between an opening and a closing bracket. -/
  | group (opening closing : String) (items : List Shown)
  /-- A named structure and its fields. -/
  | fields (name : String) (items : List (String × Shown))

namespace Shown

/-- A number, in decimal. -/
def number (n : Nat) : Shown := .atom (toString n)

/-- A list, between square brackets. -/
def list (items : List Shown) : Shown := .group "[" "]" items

/-- A tuple, between parentheses. -/
def tuple (items : List Shown) : Shown := .group "(" ")" items

/-! ## One line -/

mutual

/-- All on one line, items separated by commas. -/
def line : Shown → String
  | .atom text => text
  | .quoted text => "\"" ++ text ++ "\""
  | .group opening closing items => opening ++ ", ".intercalate (itemLines items) ++ closing
  | .fields name items => name ++ " \x7b " ++ ", ".intercalate (fieldLines items) ++ " \x7d"

/-- The items of a group, each on one line. -/
def itemLines : List Shown → List String
  | [] => []
  | v :: rest => v.line :: itemLines rest

/-- The fields of a structure, each on one line behind its name. -/
def fieldLines : List (String × Shown) → List String
  | [] => []
  | (name, v) :: rest => (name ++ ": " ++ v.line) :: fieldLines rest

end

/-! ## A line for each item -/

mutual

/-- The tall layout, whose first line stands behind `indent` already. -/
def tallAt (indent : String) : Shown → String
  | .atom text => text
  | .quoted text => "\"" ++ text ++ "\""
  | .group opening closing items =>
    opening ++ "\n" ++ itemsAt (indent ++ "    ") items ++ indent ++ closing
  | .fields name items =>
    name ++ " \x7b\n" ++ fieldsAt (indent ++ "    ") items ++ indent ++ "\x7d"

/-- The items of a group, each on a line of its own. -/
def itemsAt (indent : String) : List Shown → String
  | [] => ""
  | v :: rest => indent ++ tallAt indent v ++ ",\n" ++ itemsAt indent rest

/-- The fields of a structure, each on a line of its own. -/
def fieldsAt (indent : String) : List (String × Shown) → String
  | [] => ""
  | (name, v) :: rest =>
    indent ++ name ++ ": " ++ tallAt indent v ++ ",\n" ++ fieldsAt indent rest

end

/-- One item a line, indented by level. -/
def tall (v : Shown) : String := tallAt "" v

end Shown
end Fifo
