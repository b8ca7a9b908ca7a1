import Std.Data.ExtTreeSet
import Orphans.RawPath
import Orphans.Text.Blank

/-!
# Configurations

What a run is told: where to look, which files count, which of them are entry points that nothing
has to refer to, which directories to leave out, and how to search. Names arrive as people type
them, so blanks around them are dropped, and an extension may be written with dots before it.

The sets are extensional: two configurations with the same members in every set are equal, whatever
the order in which the members were given.
-/

namespace Orphans

/-- A set of names, in the order of their code points, which is also the order of their bytes. -/
abbrev NameSet := Std.ExtTreeSet Text compare

/-- How the files that may refer to a candidate are searched. -/
inductive Strategy where
  /-- Every file is read once into an index that answers for all candidates. -/
  | index
  /-- For each candidate every other file is searched. -/
  | scan
deriving Repr, DecidableEq

/-- All strategies, in the order in which they are listed. -/
def Strategy.all : List Strategy := [.index, .scan]

/-- The name of a strategy. -/
def Strategy.name : Strategy → String
  | index => "index"
  | scan => "scan"

/-- The strategy with a given name. -/
def Strategy.ofName? (name : Text) : Option Strategy :=
  Strategy.all.find? (·.name.toList = name)

/-- The configuration of a run. -/
structure Config where
  /-- The directory to search; paths are shown as this path with names after it. -/
  root : RawPath
  /-- The directory that imports are written relative to. -/
  sourceRoot : RawPath
  /-- The extensions of source files, without a dot. -/
  extensions : NameSet
  /-- The names of files that are always in use. -/
  implicitFiles : NameSet
  /-- The names of directories that are left out. -/
  excludeDirs : NameSet
  /-- How references are searched for. -/
  strategy : Strategy

namespace Config

/-! ### Names as they are typed -/

/-- The extension meant by a text: blanks at the ends are dropped first, then all dots at the
beginning. -/
def normalizeExtension (text : Text) : Text :=
  text.trim.dropWhile (· = '.')

/-- The set of the extensions meant by some texts. -/
def extensionSet (texts : List Text) : NameSet :=
  .ofList ((texts.map normalizeExtension).filter (· ≠ [])) compare

/-- The names meant by some texts: blanks at the ends are dropped, and so is what was all blank. -/
def cleanNames (texts : List Text) : List Text :=
  (texts.map Text.trim).filter (· ≠ [])

/-- The set of the names meant by some texts. -/
def nameSet (texts : List Text) : NameSet :=
  .ofList (cleanNames texts) compare

/-! ### Defaults -/

/-- The extensions that are searched for when none are given. -/
def defaultExtensions : NameSet :=
  .ofList (["ts", "tsx", "js", "jsx"].map String.toList) compare

/-- The files that a framework loads by their names, and global style sheets. -/
def defaultImplicitFiles : NameSet :=
  .ofList (["page.tsx", "layout.tsx", "loading.tsx", "error.tsx", "not-found.tsx", "route.ts",
    "middleware.ts", "globals.css"].map String.toList) compare

/-- The configuration of a run that is told its root only. -/
def ofRoot (root : RawPath) : Config where
  root := root
  sourceRoot := root
  extensions := defaultExtensions
  implicitFiles := defaultImplicitFiles
  excludeDirs := ∅
  strategy := .index

/-! ### Changes -/

/-- A configuration with another directory that imports are relative to. -/
def withSourceRoot (config : Config) (sourceRoot : RawPath) : Config :=
  { config with sourceRoot := sourceRoot }

/-- A configuration with the extensions meant by some texts, in the place of those it had. -/
def withExtensions (config : Config) (texts : List Text) : Config :=
  { config with extensions := extensionSet texts }

/-- A configuration with the entry points meant by some texts, in the place of those it had. -/
def withImplicitFiles (config : Config) (texts : List Text) : Config :=
  { config with implicitFiles := nameSet texts }

/-- A configuration with the left-out directories meant by some texts, in the place of those it
had. -/
def withExcludeDirs (config : Config) (texts : List Text) : Config :=
  { config with excludeDirs := nameSet texts }

/-- A configuration with another strategy. -/
def withStrategy (config : Config) (strategy : Strategy) : Config :=
  { config with strategy := strategy }

/-! ### Questions -/

/-- Whether directories of this name are left out. A name that is no text never is. -/
def prunes (config : Config) (name : Bytes) : Bool :=
  match Utf8.decode? name with
  | none => false
  | some text => config.excludeDirs.contains text

end Config

end Orphans
