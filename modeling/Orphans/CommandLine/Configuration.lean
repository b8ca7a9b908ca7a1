import Orphans.CommandLine.Arguments
import Orphans.FileTree.Access

/-!
# The configuration of a command line

The arguments name directories as they are seen from the working directory; a configuration holds
the absolute paths that they lead to, free of links. The source root is looked up from the root. If
one of the two cannot be reached there is no configuration, and the root is asked for first.

The three lists meet their defaults in different ways: extensions replace them, entry points are
added to them, and left-out directories have none (`Config.withGivenLists`).
-/

namespace Orphans

/-- Why arguments have no configuration: a directory cannot be reached. -/
inductive ConfigError where
  /-- The root leads nowhere. -/
  | rootUnreachable (path : RawPath) (cause : AccessError)
  /-- The source root leads nowhere, seen from the root. -/
  | sourceRootUnreachable (path : RawPath) (cause : AccessError)
deriving Repr, DecidableEq

/-- The line that tells a configuration error. -/
def ConfigError.message : ConfigError → String
  | rootUnreachable path cause =>
    "Failed to access root: " ++ String.ofList path.display ++ ": " ++ cause.message
  | sourceRootUnreachable path cause =>
    "Failed to access source root: " ++ String.ofList path.display ++ ": " ++ cause.message

/-- The absolute path, free of links, of what a path leads to. -/
def FileSystem.canonicalize (fs : FileSystem) (path : RawPath) : Except AccessError RawPath :=
  (fs.resolve path).map RawPath.ofNames

namespace Config

/-- A configuration with the source root that is given, if one is. -/
def withGivenSourceRoot (fs : FileSystem) (config : Config) :
    Option Text → Except ConfigError Config
  | none => .ok config
  | some given =>
    let path := config.root.join (.ofText given)
    match fs.canonicalize path with
    | .error cause => .error (.sourceRootUnreachable path cause)
    | .ok sourceRoot => .ok (config.withSourceRoot sourceRoot)

/-- A configuration with the lists that are given. Extensions take the place of the defaults;
entry points are added to the defaults, unless those are not wanted. -/
def withGivenLists (config : Config) (args : Arguments) : Config :=
  let config := config.withExcludeDirs args.excludeDirs
  let config := if args.extensions = [] then config else config.withExtensions args.extensions
  let implicitFiles := if args.noDefaultImplicit then ∅ else config.implicitFiles
  { config with implicitFiles := implicitFiles.insertMany (cleanNames args.implicitFiles) }

/-- The configuration that arguments ask for. -/
def ofArguments (fs : FileSystem) (args : Arguments) : Except ConfigError Config :=
  let path := RawPath.ofText args.root
  match fs.canonicalize path with
  | .error cause => .error (.rootUnreachable path cause)
  | .ok root =>
    (withGivenSourceRoot fs (ofRoot root) args.sourceRoot).map fun config =>
      (config.withStrategy args.strategy).withGivenLists args

end Config

end Orphans
