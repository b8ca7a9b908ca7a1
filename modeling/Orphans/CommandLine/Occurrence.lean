import Orphans.CommandLine.Arguments

/-!
# Occurrences

What a list of arguments gives, without the ways to write it: a value may be attached to its setting
or be the next argument, and some flags have a letter. Arguments with `--`, and requests for help or
the version, are not made of occurrences.

`AreWritten` relates occurrences to the lists of arguments that they can be written with. It is a
relation, so that a statement about occurrences speaks about all the ways to write them at once.
`Regroups` relates occurrences that should make the same configuration.
-/

namespace Orphans

/-- Whether the values of a setting make a list. -/
def Setting.isList : Setting → Bool
  | extensions => true
  | implicitFiles => true
  | excludeDirs => true
  | sourceRoot => false
  | strategy => false

/-- A root, a flag, or a setting with its value. -/
inductive Occurrence where
  | root (value : Text)
  | flag (flag : Flag)
  | setting (setting : Setting) (value : Text)
deriving Repr, DecidableEq

/-! ### Ways to write them -/

/-- Whether an argument is no switch: it begins with no dash, or is one dash. -/
def IsPlain (arg : Text) : Prop :=
  arg.head? ≠ some '-' ∨ arg = ['-']

instance (arg : Text) : Decidable (IsPlain arg) :=
  inferInstanceAs (Decidable (_ ∨ _))

/-- The argument that is a long name. -/
def longArgument (name : String) : Text :=
  '-' :: '-' :: name.toList

/-- The arguments that an occurrence can be written with. -/
inductive Occurrence.IsWritten : Occurrence → List Text → Prop
  /-- A root stands by itself. -/
  | root {value : Text} (plain : IsPlain value) : IsWritten (.root value) [value]
  /-- A flag by its long name. -/
  | name {flag : Flag} {name : String} (named : (name, .flag flag) ∈ Switch.longNames) :
      IsWritten (.flag flag) [longArgument name]
  /-- A flag by its letter. -/
  | letter {flag : Flag} {letter : Char} (lettered : (letter, .flag flag) ∈ Switch.letters) :
      IsWritten (.flag flag) [['-', letter]]
  /-- A setting and its value in one argument. -/
  | attached {setting : Setting} {name : String} {value : Text}
      (named : (name, .setting setting) ∈ Switch.longNames) :
      IsWritten (.setting setting value) [longArgument name ++ '=' :: value]
  /-- A setting, and its value as the next argument. -/
  | detached {setting : Setting} {name : String} {value : Text}
      (named : (name, .setting setting) ∈ Switch.longNames) (plain : IsPlain value) :
      IsWritten (.setting setting value) [longArgument name, value]

namespace Occurrence

/-- The arguments that occurrences can be written with, in their order. -/
inductive AreWritten : List Occurrence → List Text → Prop
  | nil : AreWritten [] []
  | cons {occurrence : Occurrence} {occurrences : List Occurrence} {args rest : List Text}
      (head : occurrence.IsWritten args) (tail : AreWritten occurrences rest) :
      AreWritten (occurrence :: occurrences) (args ++ rest)

/-! ### What is given -/

/-- The roots among occurrences. -/
def roots (occurrences : List Occurrence) : List Text :=
  occurrences.filterMap fun
    | .root value => some value
    | _ => none

/-- The flags among occurrences. -/
def flags (occurrences : List Occurrence) : List Flag :=
  occurrences.filterMap fun
    | .flag f => some f
    | _ => none

/-- The values of a setting among occurrences. -/
def values (setting : Setting) (occurrences : List Occurrence) : List Text :=
  occurrences.filterMap fun
    | .setting other value => if other = setting then some value else none
    | _ => none

/-- The values of a list, cut at commas. -/
def pieces (setting : Setting) (occurrences : List Occurrence) : List Text :=
  (values setting occurrences).flatMap (·.splitOn ',')

/-- The root that is given, or else the one that the environment holds. -/
def givenRoot? (rootVariable : Option Text) (occurrences : List Occurrence) : Option Text :=
  (roots occurrences).head?.or rootVariable

/-- Whether an occurrence is part of a list. -/
def isOfList : Occurrence → Bool
  | .setting s _ => s.isList
  | _ => false

/-- Occurrences in another order, with the pieces of each list in any order and distributed in
another way among its values. A list that is not given has no pieces. -/
structure Regroups (occurrences others : List Occurrence) : Prop where
  /-- Each list has the same pieces. -/
  mem_pieces_iff : ∀ setting piece,
    piece ∈ pieces setting occurrences ↔ piece ∈ pieces setting others
  /-- All else is given in another order, as often as before. -/
  perm : (occurrences.filter (!·.isOfList)).Perm (others.filter (!·.isOfList))

end Occurrence

end Orphans
