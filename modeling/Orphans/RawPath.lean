import Orphans.Text.Utf8

/-!
# Paths

A path is kept as it is spelled, byte for byte, because that is how it is shown. What it *means* is
read off its components: repeated slashes, `.` (except at the very beginning of a relative path) and
slashes at the end add nothing, while `..` stays, since without the directories at hand nobody can
say what it cancels.
-/

namespace Orphans

/-- A path as it is spelled. -/
structure RawPath where
  bytes : Bytes
deriving Repr, DecidableEq

/-- One component of a path. -/
inductive Component where
  /-- The slash that an absolute path begins with. -/
  | root
  /-- The dot that a relative path may begin with. -/
  | current
  /-- Two dots. -/
  | parent
  /-- The name of an entry of a directory. -/
  | normal (name : Bytes)
deriving Repr, DecidableEq

/-- The byte between the names of a path. -/
def slash : UInt8 := 0x2F

/-- The byte before an extension. -/
def dot : UInt8 := 0x2E

namespace Component

/-- The component that a piece between two slashes stands for; an empty piece and a dot stand for
none. -/
def ofPiece? (piece : Bytes) : Option Component :=
  if piece = [] ∨ piece = [dot] then none
  else if piece = [dot, dot] then some .parent
  else some (.normal piece)

/-- The spelling of a component between slashes. -/
def bytes : Component → Bytes
  | root => []
  | current => [dot]
  | parent => [dot, dot]
  | normal name => name

/-- The name in a normal component. -/
def name? : Component → Option Bytes
  | normal name => some name
  | _ => none

end Component

/-- A file name cut at its last dot into stem and extension. A name without a dot and a name whose
only dot is its first byte have no extension and are stems as a whole. -/
def splitExtension (name : Bytes) : Bytes × Option Bytes :=
  match name.reverse.dropWhile (· != dot) with
  | _ :: b :: before => ((b :: before).reverse, some (name.reverse.takeWhile (· != dot)).reverse)
  | _ => (name, none)

namespace RawPath

/-! ### Components -/

/-- Whether a path begins at the root of the file system. -/
def isAbsolute (p : RawPath) : Bool :=
  p.bytes.head? == some slash

/-- The components of a path. -/
def components (p : RawPath) : List Component :=
  let pieces := p.bytes.splitOn slash
  let first : List Component :=
    if p.isAbsolute then [.root] else if pieces.head? = some [dot] then [.current] else []
  first ++ pieces.filterMap Component.ofPiece?

/-- The plainest spelling of a sequence of components. -/
def ofComponents : List Component → RawPath
  | .root :: rest => ⟨slash :: [slash].intercalate (rest.map Component.bytes)⟩
  | cs => ⟨[slash].intercalate (cs.map Component.bytes)⟩

/-- What is left of a path after the components of `base`, if it begins with them. -/
def stripPrefix? (base p : RawPath) : Option RawPath :=
  if base.components.isPrefixOf p.components then
    some (ofComponents (p.components.drop base.components.length))
  else none

/-! ### The last component -/

/-- The name that a path ends with; a path that ends with its root, `.` or `..` has none. -/
def fileName? (p : RawPath) : Option Bytes :=
  p.components.getLast?.bind Component.name?

/-- The extension of the file name. -/
def extension? (p : RawPath) : Option Bytes :=
  p.fileName?.bind fun name => (splitExtension name).2

/-- A path without the extension of its file name and the dot before it, spelled plainly. As this
acts on the spelling, a stem of one or two dots makes the last component a special one. -/
def withoutExtension (p : RawPath) : RawPath :=
  match p.extension? with
  | none => p
  | some extension =>
    let plain := (ofComponents p.components).bytes
    ⟨plain.take (plain.length - (extension.length + 1))⟩

/-! ### Longer paths -/

/-- A path followed by a relative path: a slash is written between them unless one is there. An
absolute path stands for itself. -/
def join (p q : RawPath) : RawPath :=
  if q.isAbsolute then q
  else if p.bytes = [] ∨ p.bytes.getLast? = some slash then ⟨p.bytes ++ q.bytes⟩
  else ⟨p.bytes ++ slash :: q.bytes⟩

/-- The path of the entry that is reached from `p` by going through `names`. -/
def below (p : RawPath) (names : List Bytes) : RawPath :=
  names.foldl (fun q name => q.join ⟨name⟩) p

/-- The absolute path of the entry that is reached from the root of the file system by going through
`names`. -/
def ofNames (names : List Bytes) : RawPath :=
  ⟨slash :: [slash].intercalate names⟩

/-! ### Texts -/

/-- The path spelled by a text. -/
def ofText (text : Text) : RawPath :=
  ⟨Utf8.encode text⟩

/-- A path as it is shown: bytes that are no text appear as U+FFFD. -/
def display (p : RawPath) : Text :=
  Utf8.decodeLossy p.bytes

end RawPath

end Orphans
