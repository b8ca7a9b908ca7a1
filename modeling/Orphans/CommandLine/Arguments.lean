import Orphans.CommandLine.ArgumentError
import Orphans.CommandLine.Help

/-!
# Reading arguments

The arguments are read from left to right. A value may be written after `=`, or be the next argument
if that does not begin with a dash; after `--` every argument is the root. The values of the three
lists are cut at commas, and a list that is given again grows.

What is read of an argument is *settled*, checked and kept, only when the next argument is known to
be one: so an argument that there is not wins over a faulty value directly before it. A request for
help or the version ends the reading where it stands.

What has been settled is a `Draft`; what has been read, with the part that is not settled, is an
`ArgumentReader`. Whether a draft makes a run is asked at the end only, when the root may still come
from the environment (`Draft.withVariable`, `Draft.finish`).
-/

namespace Orphans

/-- The arguments of a run. -/
structure Arguments where
  /-- The directory to search, as it is given or as the environment holds it. -/
  root : Text
  /-- The directory that imports are relative to, if one is given. -/
  sourceRoot : Option Text
  /-- The pieces of all values that are given; none if the list is not given. -/
  extensions : List Text
  implicitFiles : List Text
  excludeDirs : List Text
  strategy : Strategy
  /-- Whether the default entry points are not wanted. -/
  noDefaultImplicit : Bool
  /-- Whether the report is asked for as JSON. -/
  json : Bool
  /-- Whether unused files count as a failure. -/
  failOnUnused : Bool
  verbose : Bool
  quiet : Bool
deriving Repr, DecidableEq

/-- Why the arguments do not make a run. -/
inductive Interruption where
  /-- Something is wrong with them. -/
  | fault (error : ArgumentError)
  /-- Help is asked for. -/
  | help (style : HelpStyle)
  /-- The version is asked for. -/
  | version
deriving Repr, DecidableEq

/-- What has been settled of the arguments. -/
structure Draft where
  root : Option Text
  sourceRoot : Option Text
  strategy : Option Strategy
  extensions : List Text
  implicitFiles : List Text
  excludeDirs : List Text
  /-- The flags in the order in which they are given. -/
  flags : List Flag
deriving Repr, DecidableEq

namespace Draft

/-- The draft before the first argument. -/
def empty : Draft := ⟨none, none, none, [], [], [], []⟩

/-- Keeps the root, which must not be empty. -/
def setRoot (draft : Draft) (value : Text) : Except ArgumentError Draft :=
  if value = [] then .error (.valueRequired .root)
  else .ok { draft with root := some value }

/-- Keeps a flag, which must not be there yet. -/
def setFlag (draft : Draft) (flag : Flag) : Except ArgumentError Draft :=
  if flag ∈ draft.flags then .error (.repeated (.flag flag))
  else .ok { draft with flags := draft.flags ++ [flag] }

/-- Keeps the source root, which must not be there yet and must not be empty. -/
def setSourceRoot (draft : Draft) (value : Text) : Except ArgumentError Draft :=
  if draft.sourceRoot.isSome then .error (.repeated (.setting .sourceRoot))
  else if value = [] then .error (.valueRequired (.switch (.setting .sourceRoot)))
  else .ok { draft with sourceRoot := some value }

/-- Keeps the strategy, which must not be there yet and must be one that there is. -/
def setStrategy (draft : Draft) (value : Text) : Except ArgumentError Draft :=
  if draft.strategy.isSome then .error (.repeated (.setting .strategy))
  else if value = [] then .error (.valueRequired (.switch (.setting .strategy)))
  else
    match Strategy.ofName? value with
    | none => .error (.invalidValue value .strategy)
    | some strategy => .ok { draft with strategy := some strategy }

/-- Keeps the value of a setting. -/
def set (draft : Draft) (setting : Setting) (value : Text) : Except ArgumentError Draft :=
  let pieces := value.splitOn ','
  match setting with
  | .sourceRoot => draft.setSourceRoot value
  | .strategy => draft.setStrategy value
  | .extensions => .ok { draft with extensions := draft.extensions ++ pieces }
  | .implicitFiles => .ok { draft with implicitFiles := draft.implicitFiles ++ pieces }
  | .excludeDirs => .ok { draft with excludeDirs := draft.excludeDirs ++ pieces }

end Draft

/-- What has been read but not settled. -/
inductive Unsettled where
  /-- A root. -/
  | root (value : Text)
  /-- A setting that still has no value. -/
  | open (setting : Setting)
  /-- A setting and its value. -/
  | closed (setting : Setting) (value : Text)
deriving Repr, DecidableEq

/-- The state between two arguments. -/
structure ArgumentReader where
  /-- What has been checked and kept. -/
  draft : Draft
  /-- What has been read since, if anything. -/
  unsettled : Option Unsettled
  /-- Whether `--` has been read. -/
  afterDashes : Bool
deriving Repr, DecidableEq

namespace ArgumentReader

/-- The state before the first argument. -/
def start : ArgumentReader := ⟨.empty, none, false⟩

/-- Settles what has been read. -/
def settle (reader : ArgumentReader) : Except ArgumentError Draft :=
  match reader.unsettled with
  | none => .ok reader.draft
  | some (.root value) => reader.draft.setRoot value
  | some (.open setting) => .error (.valueRequired (.switch (.setting setting)))
  | some (.closed setting value) => reader.draft.set setting value

/-- The state after a draft has been settled and something else has been read. -/
def proceed (reader : ArgumentReader) (draft : Draft) (unsettled : Option Unsettled) :
    ArgumentReader :=
  { reader with draft := draft, unsettled := unsettled }

/-- Whether a root has been read. -/
def hasRoot (reader : ArgumentReader) : Bool :=
  reader.draft.root.isSome ||
    match reader.unsettled with
    | some (.root _) => true
    | _ => false

/-- Reads an argument that is no switch and no value of a setting. -/
def readRoot (reader : ArgumentReader) (arg : Text) : Except Interruption ArgumentReader :=
  if reader.hasRoot then .error (.fault (.unknown arg))
  else
    match reader.settle with
    | .error error => .error (.fault error)
    | .ok draft => .ok (reader.proceed draft (some (.root arg)))

/-- Reads a flag. -/
def readFlag (reader : ArgumentReader) (flag : Flag) : Except Interruption ArgumentReader :=
  match reader.settle.bind (·.setFlag flag) with
  | .error error => .error (.fault error)
  | .ok draft => .ok (reader.proceed draft none)

/-- Reads a request that ends the reading. -/
def readRequest (reader : ArgumentReader) (request : Interruption) :
    Except Interruption ArgumentReader :=
  match reader.settle with
  | .error error => .error (.fault error)
  | .ok _ => .error request

/-- Reads a setting with the value that is attached to it, if one is. -/
def readSetting (reader : ArgumentReader) (setting : Setting) (value : Option Text) :
    Except Interruption ArgumentReader :=
  match reader.settle with
  | .error error => .error (.fault error)
  | .ok draft =>
    match value with
    | none => .ok (reader.proceed draft (some (.open setting)))
    | some value =>
      match draft.set setting value with
      | .error error => .error (.fault error)
      | .ok draft => .ok (reader.proceed draft none)

/-- Reads an argument that begins with two dashes, of which `body` is the rest. -/
def readLong (reader : ArgumentReader) (body : Text) : Except Interruption ArgumentReader :=
  let (name, value) := body.cut '='
  match Switch.ofLong? name, value with
  | none, _ => .error (.fault (.unknown ('-' :: '-' :: name)))
  | some (.setting setting), value => reader.readSetting setting value
  | some switch, some value => .error (.fault (.unexpectedValue value switch))
  | some (.flag flag), none => reader.readFlag flag
  | some .help, none => reader.readRequest (.help .long)
  | some .version, none => reader.readRequest .version

/-- Reads letters after one dash. -/
def readLetters (reader : ArgumentReader) : List Char → Except Interruption ArgumentReader
  | [] => .ok reader
  | c :: letters =>
    match Switch.ofLetter? c with
    | none => .error (.fault (.unknown ['-', c]))
    | some (.flag flag) =>
      match reader.readFlag flag with
      | .error interruption => .error interruption
      | .ok reader => reader.readLetters letters
    | some .help => reader.readRequest (.help .short)
    | some .version => reader.readRequest .version

/-- Reads one argument. -/
def read (reader : ArgumentReader) (arg : Text) : Except Interruption ArgumentReader :=
  if reader.afterDashes then reader.readRoot arg
  else
    match arg with
    | ['-', '-'] => .ok { reader with afterDashes := true }
    | '-' :: '-' :: body => reader.readLong body
    | '-' :: c :: letters => reader.readLetters (c :: letters)
    | _ =>
      match reader.unsettled with
      | some (.open setting) =>
        .ok { reader with unsettled := some (.closed setting arg) }
      | _ => reader.readRoot arg

end ArgumentReader

namespace Draft

/-- The root of a draft, or the one that the environment holds. -/
def withVariable (draft : Draft) (rootVariable : Option Text) : Except ArgumentError Draft :=
  match draft.root, rootVariable with
  | none, some value => draft.setRoot value
  | _, _ => .ok draft

/-- The two flags that exclude each other, in the order in which they are given, if both are. -/
def conflict? (draft : Draft) : Option (Flag × Flag) :=
  match draft.flags.filter fun flag => flag = .verbose ∨ flag = .quiet with
  | first :: second :: _ => some (first, second)
  | _ => none

/-- The arguments of a draft. -/
def finish (draft : Draft) : Except ArgumentError Arguments :=
  match draft.conflict?, draft.root with
  | some (first, second), _ => .error (.conflict first second)
  | none, none => .error .missingRoot
  | none, some root =>
    .ok {
      root := root
      sourceRoot := draft.sourceRoot
      extensions := draft.extensions
      implicitFiles := draft.implicitFiles
      excludeDirs := draft.excludeDirs
      strategy := draft.strategy.getD .index
      noDefaultImplicit := draft.flags.contains .noDefaultImplicit
      json := draft.flags.contains .json
      failOnUnused := draft.flags.contains .failOnUnused
      verbose := draft.flags.contains .verbose
      quiet := draft.flags.contains .quiet }

end Draft

/-- The arguments of a run. Where no root is given, the one that the environment holds is taken. -/
def Arguments.read (rootVariable : Option Text) (args : List Text) :
    Except Interruption Arguments :=
  match args.foldlM ArgumentReader.read .start with
  | .error interruption => .error interruption
  | .ok reader =>
    match ((reader.settle).bind (·.withVariable rootVariable)).bind Draft.finish with
    | .error error => .error (.fault error)
    | .ok arguments => .ok arguments

end Orphans
