import Orphans.Config

/-!
# Source files

A source file has two keys by which other files may refer to it. Its *name key* is its name without
the extension, as in `'./button'`. Its *path key* is its path from the directory that imports are
written relative to, again without the extension, as in `'@/components/button'`.

Whether a path stands for a source file, and with which keys, is told by the path and the
configuration alone (`SourceFile.ofPath?`): nothing has to be looked up or read.
-/

namespace Orphans

/-- A file whose extension is one of those that are searched for. -/
structure SourceFile where
  /-- The path as it is shown. -/
  path : RawPath
  /-- The name at the end of the path, as a text. -/
  fileName : Text
  /-- What follows the last dot of the name. -/
  extension : Text
  /-- The file name without its extension. -/
  nameKey : Text
  /-- The path from the source root without its extension. -/
  pathKey : Text
deriving Repr, DecidableEq

namespace SourceFile

/-- What a path is from the source root, or from the root if it does not lie below the former, or as
it stands if it lies below neither. -/
def relativePath (config : Config) (path : RawPath) : RawPath :=
  ((config.sourceRoot.stripPrefix? path).or (config.root.stripPrefix? path)).getD path

/-- The names on a path, with slashes between them. Components that are no names are left out. -/
def namesOf (path : RawPath) : Text :=
  Text.join ['/'] ((path.components.filterMap Component.name?).map Utf8.decodeLossy)

/-- The path key of a path: its names from the source root on, without the extension. -/
def pathKeyOf (config : Config) (path : RawPath) : Text :=
  namesOf (relativePath config path).withoutExtension

/-- The source file at a path, if the path has an extension that is searched for. Names that are no
texts are shown, and referred to, as texts with U+FFFD in them. -/
def ofPath? (config : Config) (path : RawPath) : Option SourceFile := do
  let name ← path.fileName?
  let extension ← (splitExtension name).2 >>= Utf8.decode?
  if config.extensions.contains extension then
    some {
      path := path
      fileName := Utf8.decodeLossy name
      extension := extension
      nameKey := Utf8.decodeLossy (splitExtension name).1
      pathKey := pathKeyOf config path }
  else none

/-- Whether a file is in use without any reference to it. -/
def isImplicit (config : Config) (file : SourceFile) : Bool :=
  config.implicitFiles.contains file.fileName

end SourceFile

end Orphans
