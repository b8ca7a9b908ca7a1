import Orphans.Text

/-!
# Switches

The names that an argument may have after dashes. A *flag* stands alone, a *setting* takes a value.
Names are never abbreviated, and only some flags have a letter.

The names and the letters are tables, so a lemma about all of them is checked entry by entry.
-/

namespace Orphans

/-- A switch that is given or not. -/
inductive Flag where
  /-- The default entry points are not wanted. -/
  | noDefaultImplicit
  /-- The report is asked for as JSON. -/
  | json
  /-- Unused files count as a failure. -/
  | failOnUnused
  /-- More is to be logged. -/
  | verbose
  /-- Less is to be logged. -/
  | quiet
deriving Repr, DecidableEq

/-- A switch with a value. -/
inductive Setting where
  /-- The directory that imports are relative to. -/
  | sourceRoot
  /-- The extensions of source files, as a list. -/
  | extensions
  /-- The names of further entry points, as a list. -/
  | implicitFiles
  /-- The names of directories to leave out, as a list. -/
  | excludeDirs
  /-- How references are searched for. -/
  | strategy
deriving Repr, DecidableEq

/-- A named argument. -/
inductive Switch where
  | flag (flag : Flag)
  | setting (setting : Setting)
  /-- Asks for the help text. -/
  | help
  /-- Asks for the version. -/
  | version
deriving Repr, DecidableEq

/-- A flag as messages show it. -/
def Flag.display : Flag → String
  | noDefaultImplicit => "--no-default-implicit"
  | json => "--json"
  | failOnUnused => "--fail-on-unused"
  | verbose => "--verbose"
  | quiet => "--quiet"

/-- A setting as messages show it. -/
def Setting.display : Setting → String
  | sourceRoot => "--source-root <SOURCE_ROOT>"
  | extensions => "--ext <EXTENSIONS>"
  | implicitFiles => "--implicit <IMPLICIT_FILES>"
  | excludeDirs => "--exclude-dir <EXCLUDE_DIRS>"
  | strategy => "--strategy <STRATEGY>"

namespace Switch

/-- A switch as messages show it. -/
def display : Switch → String
  | flag f => f.display
  | setting s => s.display
  | help => "--help"
  | version => "--version"

/-! ### Long names -/

/-- The long names, written after two dashes. -/
def longNames : List (String × Switch) :=
  [("source-root", setting .sourceRoot), ("ext", setting .extensions),
    ("implicit", setting .implicitFiles), ("no-default-implicit", flag .noDefaultImplicit),
    ("exclude-dir", setting .excludeDirs), ("strategy", setting .strategy), ("json", flag .json),
    ("fail-on-unused", flag .failOnUnused), ("verbose", flag .verbose), ("quiet", flag .quiet),
    ("help", help), ("version", version)]

/-- The switch with a long name. -/
def ofLong? (name : Text) : Option Switch :=
  (longNames.find? (·.1.toList = name)).map (·.2)

/-! ### Letters -/

/-- The switches that have a letter. None of them takes a value. -/
inductive Lettered where
  | flag (flag : Flag)
  | help
  | version
deriving Repr, DecidableEq

/-- A switch with a letter as a switch. -/
def Lettered.switch : Lettered → Switch
  | .flag f => .flag f
  | .help => .help
  | .version => .version

/-- The letters, written after one dash. -/
def letters : List (Char × Lettered) :=
  [('v', .flag .verbose), ('q', .flag .quiet), ('h', .help), ('V', .version)]

/-- The switch with a letter. -/
def ofLetter? (letter : Char) : Option Lettered :=
  (letters.find? (·.1 = letter)).map (·.2)

/-- The letter of a switch. -/
def letter? (switch : Switch) : Option Char :=
  (letters.find? (·.2.switch = switch)).map (·.1)

end Switch

end Orphans
