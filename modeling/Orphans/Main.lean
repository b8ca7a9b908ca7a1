import Orphans.CommandLine.Program

/-!
# The command

The outer layer: it notes what a run can see of the disk as a file tree, hands the tree and the
arguments to `Program.call`, and prints. What a run makes of the tree is decided in `Program.call`.
What is decided here is which tree stands for the disk:

* Noted is every directory, file and link on the ways that the arguments name, all that is below the
  root, and what links lead to. Nothing else of the disk is in the tree.
* A link is noted with the absolute path that it leads to in the end, so of a chain of links only
  the two ends are told. A link in a circle and one that leads nowhere are noted such that every
  access through them fails (`noteLink`).
* A file that cannot be read is noted with a content that is no text (`contentOf`), and a directory
  that cannot be read is noted as empty (`noteBelow`).
* A file tree has no special files (sockets, devices, pipes). Below the root they are dropped, as a
  run takes no notice of them there (`noteBelow`). Where one is named as the root or on the way to
  it, or is what a link leads to, it is noted as a regular file (`noteWay`, `noteReal`): behind a
  link that is how a run takes it, which only asks there whether a directory stands at the end.
* An entry is noted with the content that it has of its own. That two names on the disk can be names
  of one file (hard links) is not seen.
-/

namespace Orphans.Disk

/-- A tree in the making, which keeps what is noted when the disk refuses something. -/
abbrev Noting := StateRefT FileTree IO

/-- The names on an absolute path. -/
def namesOf (path : String) : List Bytes :=
  ((Utf8.encode path.toList).splitOn slash).filter (· ≠ [])

/-- Notes an entry at an absolute path that is free of links, unless one is noted there. -/
def note (path : String) (entry : FileTree) : Noting Unit :=
  modify fun top => if (top.get? (namesOf path)).isSome then top else .put entry top (namesOf path)

/-- The content of a file. A file that cannot be read is noted with a byte that is no text. -/
def contentOf (path : String) : IO Bytes := do
  try
    return (← IO.FS.readBinFile path).toList
  catch _ => return [0xFF]

/-- Notes what stands at an absolute path that is free of links, without what is below it. All that
is no directory is noted as a regular file, also a special file. -/
def noteReal (path : String) : Noting Unit := do
  if ← (← IO.FS.realPath path).isDir then note path (.dir [])
  else note path (.file (← contentOf path))

/-- Whether a link that leads nowhere does so by leading round in a circle. -/
def isCircle (path : String) : IO Bool := do
  try
    let _ ← IO.FS.readBinFile path
    return false
  catch
    | .invalidArgument .. => return true
    | _ => return false

/-- Notes the link at a path, and what it leads to. A link in a circle is noted as a link to itself,
and one that leads nowhere as a link to a name that no entry can have. -/
def noteLink (path : String) : Noting Unit := do
  let target ← try some <$> IO.FS.realPath path catch _ => pure none
  match target with
  | some target =>
    noteReal target.toString
    note path (.link (Utf8.encode target.toString.toList))
  | none =>
    let target := if ← isCircle path then Utf8.encode path.toList else [0]
    note path (.link target)

/-- Notes the directory at an absolute path that is free of links, with all that is below it. A
directory that cannot be read is noted as empty, and special files are not noted. -/
partial def noteBelow (path : String) : Noting Unit := do
  note path (.dir [])
  let entries ← try (← IO.FS.realPath path).readDir catch _ => pure #[]
  for entry in entries do
    let path := entry.path.toString
    match (← entry.path.symlinkMetadata).type with
    | .dir => noteBelow path
    | .file => note path (.file (← contentOf path))
    | .symlink => noteLink path
    | .other => pure ()

/-- Notes every entry on the way that an absolute path describes, as far as it leads. What is
neither a directory nor a link is noted as a regular file, also a special file. -/
def noteWay (path : String) : Noting Unit := do
  let mut before := "/"
  for piece in path.splitOn "/" do
    if piece ≠ "" && piece ≠ "." && piece ≠ ".." then
      let here := (← IO.FS.realPath before) / piece
      match (← here.symlinkMetadata).type with
      | .dir => note here.toString (.dir [])
      | .symlink => noteLink here.toString
      | _ => note here.toString (.file (← contentOf here.toString))
    before := before ++ piece ++ "/"

/-- A path seen from a directory. -/
def seenFrom (directory path : String) : String :=
  if path.startsWith "/" then path else directory ++ "/" ++ path

/-- Notes what a run with the given arguments can see. -/
def noteAll (workingDir : String) (arguments : Arguments) : Noting Unit := do
  noteReal workingDir
  let root := seenFrom workingDir (String.ofList arguments.root)
  noteWay root
  let root := (← IO.FS.realPath root).toString
  if ← (← IO.FS.realPath root).isDir then noteBelow root
  match arguments.sourceRoot with
  | none => pure ()
  | some sourceRoot => noteWay (seenFrom root (String.ofList sourceRoot))

/-- The part of the disk that a run can see. -/
def fileSystem (workingDir : String) (rootVariable : Option Text) (args : List Text) :
    IO FileSystem := do
  let noting := match Arguments.read rootVariable args with
    | .ok arguments => try noteAll workingDir arguments catch _ => pure ()
    | .error _ => pure ()
  let (_, top) ← noting.run (.dir [])
  return ⟨top, namesOf workingDir⟩

end Orphans.Disk

/-- Runs the program. -/
def main (args : List String) : IO UInt32 := do
  let args := args.map String.toList
  let rootVariable := (← IO.getEnv "STRAYFILES_ROOT").map String.toList
  let workingDir := (← IO.currentDir).toString
  let fs ← Orphans.Disk.fileSystem workingDir rootVariable args
  let outcome := Orphans.Program.call fs rootVariable args
  IO.print (String.ofList outcome.output)
  if outcome.complaint ≠ [] then IO.eprintln (String.ofList outcome.complaint)
  return outcome.status.toUInt32
