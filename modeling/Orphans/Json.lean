import Orphans.Text

/-!
# JSON

The values that a report is made of, and their pretty-printed form: two spaces for each level, a
line for each item of a list and each member of a record, and nothing between the brackets of an
empty one. In a string only the quotation mark, the backslash and the characters below U+0020 are
escaped.

The members of a record are a list, so they are printed in the order in which they are given, and
nothing here forbids two members of one name.
-/

namespace Orphans

/-- A value of JSON without fractions, truth values and nulls. -/
inductive Json where
  | text (text : Text)
  | number (n : Nat)
  | list (items : List Json)
  | record (members : List (Text × Json))

namespace Json

/-- A member of a record, for a name that is written out in the program. -/
def member (name : String) (value : Json) : Text × Json :=
  (name.toList, value)

/-! ### Strings -/

/-- A digit of base sixteen. -/
def hexDigit (n : Nat) : Char :=
  Nat.digitChar (n % 16)

/-- A character as it is written inside a string. -/
def escape (c : Char) : Text :=
  if c = '\x22' then ['\\', '\x22']
  else if c = '\\' then ['\\', '\\']
  else if c = '\x08' then ['\\', 'b']
  else if c = '\x0c' then ['\\', 'f']
  else if c = '\n' then ['\\', 'n']
  else if c = '\r' then ['\\', 'r']
  else if c = '\t' then ['\\', 't']
  else if c.toNat < 0x20 then ['\\', 'u', '0', '0', hexDigit (c.toNat / 16), hexDigit c.toNat]
  else [c]

/-- A text as a string. -/
def quote (text : Text) : Text :=
  '\x22' :: text.flatMap escape ++ ['\x22']

/-! ### Layout -/

/-- The beginning of a line at a level. -/
def newLine (level : Nat) : Text :=
  '\n' :: List.replicate (2 * level) ' '

mutual

/-- A value that begins on a line of the given level. -/
def prettyAt (level : Nat) : Json → Text
  | text t => quote t
  | number n => Nat.toDigits 10 n
  | list [] => ['[', ']']
  | list (item :: items) =>
    '[' :: newLine (level + 1) ++ item.prettyAt (level + 1) ++ prettyItems (level + 1) items ++
      newLine level ++ [']']
  | record [] => ['\x7b', '\x7d']
  | record ((key, value) :: members) =>
    '\x7b' :: newLine (level + 1) ++ quote key ++ ':' :: ' ' :: value.prettyAt (level + 1) ++
      prettyMembers (level + 1) members ++ newLine level ++ ['\x7d']

/-- Items after the first one. -/
def prettyItems (level : Nat) : List Json → Text
  | [] => []
  | item :: items => ',' :: newLine level ++ item.prettyAt level ++ prettyItems level items

/-- Members after the first one. -/
def prettyMembers (level : Nat) : List (Text × Json) → Text
  | [] => []
  | (key, value) :: members =>
    ',' :: newLine level ++ quote key ++ ':' :: ' ' :: value.prettyAt level ++
      prettyMembers level members

end

/-- The pretty-printed form of a value. -/
def pretty (value : Json) : Text :=
  value.prettyAt 0

end Json

end Orphans
