import Orphans.CommandLine.Switch
import Orphans.Config
import Orphans.Text.Terminal

/-!
# Help and version

The texts that answer a request for help or the version. Help comes in two forms: the short one has
a line for each argument, the long one a paragraph. Both are put together from what is said about
one argument, in the order of `Switch.explained`.

Nothing here depends on the arguments. But the help shows the value of the environment variable that
may hold the root, and what it shows of that must not reach a terminal as control sequences.
-/

namespace Orphans

/-- How much help is asked for. -/
inductive HelpStyle where
  /-- One line for each argument, asked for by letter. -/
  | short
  /-- One paragraph for each argument, asked for by name. -/
  | long
deriving Repr, DecidableEq

/-- What the program is for, in one line. -/
def purpose : String :=
  "List JS/TS source files that no other file in the project references"

/-- The name and number of this version. -/
def versionLine : String :=
  "strayfiles 0.1.0"

/-! ### What is said about an argument -/

/-- What a strategy does. -/
def Strategy.summary : Strategy → String
  | index => "Read every file once and answer each candidate from a literal suffix index"
  | scan => "Re-read every other file for each candidate"

/-- What a switch is for. -/
def Switch.summary (style : HelpStyle) : Switch → String
  | setting .sourceRoot => "Directory import paths are written relative to (defaults to ROOT)"
  | setting .extensions =>
    "Recognised extensions (repeatable or comma-separated); replaces the defaults"
  | setting .implicitFiles =>
    "Extra file names that are always treated as used, e.g. --implicit template.tsx"
  | setting .excludeDirs =>
    "Directory names to skip while walking (repeatable or comma-separated)"
  | setting .strategy => "How the project is searched for references"
  | flag .noDefaultImplicit => "Do not treat the built-in framework file names as used"
  | flag .json => "Emit JSON output"
  | flag .failOnUnused => "Exit with status 1 when unused files are found"
  | flag .verbose => "Log every reference decision"
  | flag .quiet => "Only log errors"
  | help =>
    match style with
    | .short => "Print help (see more with '--help')"
    | .long => "Print help (see a summary with '-h')"
  | version => "Print version"

/-- The switches in the order in which they are explained. -/
def Switch.explained : List Switch :=
  [setting .sourceRoot, setting .extensions, setting .implicitFiles, flag .noDefaultImplicit,
    setting .excludeDirs, setting .strategy, flag .json, flag .failOnUnused, flag .verbose,
    flag .quiet, help, version]

/-- A switch with its letter, or with the space for one. -/
def Switch.label (switch : Switch) : String :=
  (match switch.letter? with
    | some letter => "  -" ++ String.ofList [letter] ++ ", "
    | none => "      ") ++ switch.display

/-- What the lines of a paragraph begin with. -/
def paragraphIndent : String :=
  "          "

/-- The variable that may hold the root, with the value that it has. A value of several lines goes
on in lines of the paragraph. -/
def variableNote (rootVariable : Option Text) : String :=
  let lines := ((rootVariable.getD []).splitOn '\n').map String.ofList
  "[env: STRAYFILES_ROOT=" ++ ("\n" ++ paragraphIndent).intercalate lines ++ "]"

/-! ### The short form -/

/-- The width of the labels and the space after them. -/
def labelWidth : Nat := 36

/-- What the short form adds to a summary. -/
def Switch.hint : Switch → String
  | setting .strategy => " [default: index] [possible values: index, scan]"
  | _ => ""

/-- A switch in the short form. -/
def Switch.shortLine (switch : Switch) : String :=
  let label := switch.label
  label ++ String.ofList (List.replicate (labelWidth - label.length) ' ') ++
    switch.summary .short ++ switch.hint

/-! ### The long form -/

/-- A line of a paragraph. -/
def indented (line : String) : String :=
  paragraphIndent ++ line

/-- A strategy among the possible values. -/
def Strategy.shownValue : Strategy → String
  | index => "- index: " ++ index.summary
  | scan => "- scan:  " ++ scan.summary

/-- What the long form adds to a paragraph. -/
def Switch.details : Switch → List String
  | setting .strategy =>
    "" :: ("Possible values:" :: Strategy.all.map Strategy.shownValue ++
      ["", "[default: index]"]).map indented
  | _ => []

/-- A switch in the long form, with an empty line before it. -/
def Switch.paragraph (switch : Switch) : List String :=
  ["", switch.label, indented (switch.summary .long)] ++ switch.details

/-! ### The texts -/

/-- Lines, every one ended. -/
def textOfLines (lines : List String) : Text :=
  lines.flatMap fun line => line.toList ++ ['\n']

/-- The lines that both forms begin with. -/
def helpOpening : List String :=
  [purpose, "", "Usage: strayfiles [OPTIONS] <ROOT>", "", "Arguments:"]

/-- The lines on the root, and the empty line after them. -/
def HelpStyle.rootLines (rootVariable : Option Text) : HelpStyle → List String
  | short => ["  <ROOT>  Directory to scan " ++ variableNote rootVariable, ""]
  | long =>
    "  <ROOT>" :: ["Directory to scan", "", variableNote rootVariable].map indented ++ [""]

/-- The lines on the switches. -/
def HelpStyle.switchLines : HelpStyle → List String
  | short => Switch.explained.map Switch.shortLine
  | long => (Switch.explained.flatMap Switch.paragraph).drop 1

/-- The help. The value of the variable is shown without control sequences; one that is open at its
end takes up to the next heading with it. -/
def HelpStyle.text (rootVariable : Option Text) (style : HelpStyle) : Text :=
  textOfLines helpOpening ++
    Terminal.withoutControls (textOfLines (style.rootLines rootVariable)) ++
    textOfLines ("Options:" :: style.switchLines)

end Orphans
