import Orphans.FileTree
import Orphans.RawPath

/-!
# Access through links

How a path leads to an entry of a file tree. The way goes from directory to directory; a link on the
way, also the last entry of it, is replaced by its target, which is read from the directory that
holds the link. At most forty links are followed, so a circle of links ends in an error and every
path is settled in finitely many steps.

The way up to the next link is a recursion on the steps (`FileSystem.advance`), and the way through
links one on the number of them that may still be followed (`FileSystem.follow`). Both are
structural, so they are followed in proofs by induction on the same data.
-/

namespace Orphans

/-- A file tree and the directory in it that relative paths begin at. -/
structure FileSystem where
  /-- The directory that absolute paths begin at. -/
  top : FileTree
  /-- The names on the way to the directory that relative paths begin at. -/
  workingDir : List Bytes

/-- Why a path leads nowhere. -/
inductive AccessError where
  /-- An entry on the way does not exist. -/
  | notFound
  /-- The way goes on after something that is no directory. -/
  | notDirectory
  /-- A name that does not exist is longer than any name can be. -/
  | nameTooLong
  /-- More links are met than are followed. -/
  | tooManyLinks
deriving Repr, DecidableEq

/-- An error as the operating system words and numbers it. -/
def AccessError.message : AccessError → String
  | notFound => "No such file or directory (os error 2)"
  | notDirectory => "Not a directory (os error 20)"
  | nameTooLong => "File name too long (os error 36)"
  | tooManyLinks => "Too many levels of symbolic links (os error 40)"

/-- One step on the way that a path describes. -/
inductive Step where
  /-- Stay, in what has to be a directory. -/
  | stay
  /-- Go to the parent directory; the top is its own parent. -/
  | up
  /-- Go to an entry. -/
  | enter (name : Bytes)
deriving Repr, DecidableEq

/-- The step that a piece of a path between two slashes asks for. -/
def Step.ofPiece? (piece : Bytes) : Option Step :=
  if piece = [] then none
  else if piece = [dot] then some .stay
  else if piece = [dot, dot] then some .up
  else some (.enter piece)

/-- The steps of a path. A slash at the end asks for a directory. -/
def RawPath.steps (p : RawPath) : List Step :=
  (p.bytes.splitOn slash).filterMap Step.ofPiece? ++
    if p.bytes.getLast? = some slash then [.stay] else []

namespace FileSystem

/-- How far some steps lead before a link has to be followed. -/
inductive Progress where
  /-- All steps were taken, to the entry at `position`. -/
  | arrived (position : List Bytes)
  /-- In the directory at `position` a link was met, with steps still to take after it. -/
  | atLink (position : List Bytes) (target : RawPath) (rest : List Step)
  /-- A step could not be taken. -/
  | failed (error : AccessError)

/-- The number of bytes that a name can have. -/
def maxNameLength : Nat := 255

/-- The error of a name that a directory does not have. -/
def missing (name : Bytes) : AccessError :=
  if name.length ≤ maxNameLength then .notFound else .nameTooLong

/-- Takes steps from `position` until a link is met. -/
def advance (fs : FileSystem) (position : List Bytes) : List Step → Progress
  | [] => .arrived position
  | step :: rest =>
    match fs.top.get? position with
    | some (.dir entries) =>
      match step with
      | .stay => fs.advance position rest
      | .up => fs.advance position.dropLast rest
      | .enter name =>
        match entries.lookup name with
        | none => .failed (missing name)
        | some (.link target) => .atLink position ⟨target⟩ rest
        | some _ => fs.advance (position ++ [name]) rest
    | _ => .failed .notDirectory

/-- Where a path begins that is met in the directory at `position`. -/
def origin (position : List Bytes) (p : RawPath) : List Bytes :=
  if p.isAbsolute then [] else position

/-- Takes steps from `position`, following as many links as `links` allows. -/
def follow (fs : FileSystem) (links : Nat) (position : List Bytes) (steps : List Step) :
    Except AccessError (List Bytes) :=
  match fs.advance position steps with
  | .arrived position => .ok position
  | .failed error => .error error
  | .atLink position target rest =>
    match links with
    | 0 => .error .tooManyLinks
    | links + 1 => fs.follow links (origin position target) (target.steps ++ rest)

/-- The number of links that are followed for one path. -/
def maxLinks : Nat := 40

/-- The names on the way from the top to what a path leads to, all links followed. The empty path
leads nowhere. -/
def resolve (fs : FileSystem) (p : RawPath) : Except AccessError (List Bytes) :=
  if p.bytes = [] then .error .notFound
  else fs.follow maxLinks (origin fs.workingDir p) p.steps

/-- What a path leads to, all links followed. -/
def stat? (fs : FileSystem) (p : RawPath) : Option FileTree :=
  match fs.resolve p with
  | .ok position => fs.top.get? position
  | .error _ => none

/-- What a path names: as what it leads to, but a link at the end of the path is not followed. -/
def lstat? (fs : FileSystem) (p : RawPath) : Option FileTree :=
  match p.steps.getLast? with
  | some (.enter name) =>
    match fs.follow maxLinks (origin fs.workingDir p) p.steps.dropLast with
    | .ok position => fs.top.get? (position ++ [name])
    | .error _ => none
  | _ => fs.stat? p

/-- Whether a path names a link. -/
def isLink (fs : FileSystem) (p : RawPath) : Bool :=
  (fs.lstat? p).any FileTree.isLink

/-- Whether a path leads to a directory. -/
def leadsToDirectory (fs : FileSystem) (p : RawPath) : Bool :=
  match fs.stat? p with
  | some (.dir _) => true
  | _ => false

/-- The text of the file that a path leads to, if it is a regular file and well-formed UTF-8. -/
def readText? (fs : FileSystem) (p : RawPath) : Option Text :=
  match fs.stat? p with
  | some (.file content) => Utf8.decode? content
  | _ => none

end FileSystem

end Orphans
