import Orphans.FileTree.Access

/-!
# Changes through links

Making, removing and moving entries by the names on the way to them from the top. Links on the way
are followed, so that a change below a link to a directory happens in that directory; the entry
itself is changed as it stands, also if it is a link. Writing into a file is another matter: there
the last link is followed as well.
-/

namespace Orphans.FileSystem

/-- The way to an entry without links, from a directory on that is reached without links. Names that
lead nowhere yet are kept. -/
def locate (fs : FileSystem) (position : List Bytes) : List Bytes → List Bytes
  | [] => position
  | [name] => position ++ [name]
  | name :: names =>
    match fs.resolve (.ofNames (position ++ [name])) with
    | .ok position => fs.locate position names
    | .error _ => fs.locate (position ++ [name]) names

/-- A file system without an entry, and without all that the entry holds. -/
def remove (fs : FileSystem) (names : List Bytes) : FileSystem :=
  { fs with top := fs.top.remove (fs.locate [] names) }

/-- A file system with an entry in the place of what was there, which is removed first: if that was
a link on the way, the way is made anew. -/
def put (fs : FileSystem) (names : List Bytes) (entry : FileTree) : FileSystem :=
  let cleared := fs.remove names
  { cleared with top := .put entry cleared.top (cleared.locate [] names) }

/-- A file system with an entry moved, in the place of what was at the destination, which is removed
first. -/
def rename (fs : FileSystem) (source destination : List Bytes) : FileSystem :=
  let cleared := fs.remove destination
  { cleared with
    top := cleared.top.rename (cleared.locate [] source) (cleared.locate [] destination) }

/-- A file system with another content in the file that a path leads to, all links followed. Where
the path leads nowhere, nothing is written. -/
def write (fs : FileSystem) (p : RawPath) (content : Bytes) : FileSystem :=
  match fs.resolve p with
  | .ok position => { fs with top := .put (.file content) fs.top position }
  | .error _ => fs

end Orphans.FileSystem
