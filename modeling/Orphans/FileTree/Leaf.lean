import Orphans.FileTree

/-!
# The leaves of a directory

The files and links below a directory in *discovery order*: the entries of a directory come in the
byte order of their names, and what a subdirectory holds comes at its own place. Links are not
followed. Directories whose names are pruned are left out with all they hold.

Only directories are pruned, and never the one that the search begins in: a file or a link of such a
name is a leaf like any other. The order is made by `FileTree.gather` alone, from groups in whatever
order the entries were made.
-/

namespace Orphans

/-- A file or link below some directory: the names on the way to it, and whether it is a link. -/
structure Leaf where
  /-- The names on the way to it; the last one is its own. -/
  names : List Bytes
  isLink : Bool
deriving Repr, DecidableEq

/-- A leaf as it is seen from the directory that holds `name`. -/
def Leaf.under (name : Bytes) (leaf : Leaf) : Leaf :=
  { leaf with names := name :: leaf.names }

namespace FileTree

/-- Whether a name comes before another one, or is the same, in byte order. -/
def nameLE (a b : Bytes) : Bool :=
  (compare a b).isLE

/-- Named groups of leaves, put together in the byte order of the names. -/
def gather (groups : List (Bytes × List Leaf)) : List Leaf :=
  (groups.mergeSort fun a b => nameLE a.1 b.1).flatMap (·.2)

mutual

/-- The leaves of an entry called `name`. -/
def leavesAs (pruned : Bytes → Bool) (name : Bytes) : FileTree → List Leaf
  | file _ => [⟨[name], false⟩]
  | link _ => [⟨[name], true⟩]
  | dir entries =>
    if pruned name then [] else (gather (groupedLeaves pruned entries)).map (.under name)

/-- The leaves of every entry, each group under the name of its entry. -/
def groupedLeaves (pruned : Bytes → Bool) : List (Bytes × FileTree) → List (Bytes × List Leaf)
  | [] => []
  | (name, tree) :: rest => (name, tree.leavesAs pruned name) :: groupedLeaves pruned rest

end

/-- The leaves below a directory in discovery order; the name of the directory itself is not
asked for. -/
def leaves (pruned : Bytes → Bool) (tree : FileTree) : List Leaf :=
  gather (groupedLeaves pruned tree.entries)

end FileTree

end Orphans
