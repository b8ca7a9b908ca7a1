import Orphans.CommandLine.Switch
import Orphans.Text.Terminal

/-!
# Argument errors

What can be wrong with a list of arguments, and the line that says so. What is quoted from the
arguments is shown without control sequences.

Only the first line of a message is told here, with the argument that it is about; the hints and the
usage that follow it are not.
-/

namespace Orphans

/-- What can be given twice, or lack a value: the root or a switch. -/
inductive Subject where
  | root
  | switch (switch : Switch)
deriving Repr, DecidableEq

/-- A subject as messages show it. -/
def Subject.display : Subject → String
  | root => "<ROOT>"
  | switch s => s.display

/-- What is wrong with a list of arguments. -/
inductive ArgumentError where
  /-- A switch that there is not, or an argument too many. -/
  | unknown (shown : Text)
  /-- No root is given. -/
  | missingRoot
  /-- A value is missing, or empty where it must not be. -/
  | valueRequired (subject : Subject)
  /-- A value is not one of those that are possible. -/
  | invalidValue (value : Text) (setting : Setting)
  /-- A switch is given twice. -/
  | repeated (switch : Switch)
  /-- Two flags exclude each other. -/
  | conflict (first second : Flag)
  /-- A switch that stands alone has a value. -/
  | unexpectedValue (value : Text) (switch : Switch)
deriving Repr, DecidableEq

/-- A part of the arguments as messages show it. -/
def ArgumentError.quoted (text : Text) : String :=
  "'" ++ String.ofList (Terminal.withoutControls text) ++ "'"

/-- The line that tells an argument error. -/
def ArgumentError.message : ArgumentError → String
  | unknown shown => "error: unexpected argument " ++ quoted shown ++ " found"
  | missingRoot => "error: the following required arguments were not provided:"
  | valueRequired subject =>
    "error: a value is required for '" ++ subject.display ++ "' but none was supplied"
  | invalidValue value setting =>
    "error: invalid value " ++ quoted value ++ " for '" ++ setting.display ++ "'"
  | repeated switch =>
    "error: the argument '" ++ switch.display ++ "' cannot be used multiple times"
  | conflict first second =>
    "error: the argument '" ++ first.display ++ "' cannot be used with '" ++ second.display ++ "'"
  | unexpectedValue value switch =>
    "error: unexpected value " ++ quoted value ++ " for '" ++ switch.display ++
      "' found; no more were expected"

end Orphans
