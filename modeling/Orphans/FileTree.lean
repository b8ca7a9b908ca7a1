import Orphans.Text.Utf8

/-!
# File trees

A file tree is a regular file with its content, a symbolic link with its target, or a directory
with its entries in the order in which they were made. An entry is addressed by the names on the way
to it from the top, and no link is followed: that is the business of `Orphans.FileTree.Access`.

These three kinds of entries are all there are. Sockets, devices and pipes have no place in a tree,
so nothing here says what a run makes of them. A content belongs to an entry: two files of a tree
never share one content, so every regular file has one name and there are no hard links. To write
into an entry (`FileSystem.write`) changes that entry alone.
-/

namespace Orphans

/-- A tree of regular files, symbolic links and directories, without special files and without hard
links. -/
inductive FileTree where
  /-- A regular file and its content. -/
  | file (content : Bytes)
  /-- A symbolic link and the spelling of its target. -/
  | link (target : Bytes)
  /-- A directory: the names of its entries and what they are. -/
  | dir (entries : List (Bytes × FileTree))

namespace FileTree

/-- Whether a tree is a symbolic link. -/
def isLink : FileTree → Bool
  | link _ => true
  | _ => false

/-! ### The entries of a directory -/

/-- The entries of a directory; what is no directory has none. -/
def entries : FileTree → List (Bytes × FileTree)
  | dir entries => entries
  | _ => []

/-- Entries with `tree` under `name`, in the place of what was there, else at the end. -/
def setEntry (name : Bytes) (tree : FileTree) (entries : List (Bytes × FileTree)) :
    List (Bytes × FileTree) :=
  if entries.any (·.1 = name) then
    entries.map fun entry => if entry.1 = name then (name, tree) else entry
  else entries ++ [(name, tree)]

/-- Under the name that was set stands what was set. -/
theorem lookup_setEntry (name : Bytes) (tree : FileTree) (entries : List (Bytes × FileTree)) :
    (setEntry name tree entries).lookup name = some tree := by
  unfold setEntry
  induction entries with
  | nil => simp
  | cons entry rest ih =>
    rcases entry with ⟨other, old⟩
    by_cases h : other = name
    · simp [h]
    · have h' : (name == other) = false := by simpa using fun e : name = other => h e.symm
      simp only [List.any_cons, h, decide_false, Bool.false_or, List.map_cons, if_false,
        List.cons_append, ← apply_ite (List.cons (other, old))]
      simpa [List.lookup_cons, h'] using ih

/-! ### Addressed entries -/

/-- What stands at the end of the way through `names`. -/
def get? (tree : FileTree) (names : List Bytes) : Option FileTree :=
  names.foldlM (fun tree name => tree.entries.lookup name) tree

/-- The way without names ends where it begins. -/
@[simp] theorem get?_nil (tree : FileTree) : tree.get? [] = some tree := rfl

/-- The way through one name more goes to its entry first. -/
theorem get?_cons (tree : FileTree) (name : Bytes) (names : List Bytes) :
    tree.get? (name :: names) = (tree.entries.lookup name).bind (·.get? names) := by
  simp [get?]

/-- The way through some names and then some others is one way after the other. -/
theorem get?_append (tree : FileTree) (names rest : List Bytes) :
    tree.get? (names ++ rest) = (tree.get? names).bind (·.get? rest) := by
  simp [get?]

/-- A tree with `new` at the end of the way through `names`, in the place of what was there.
Directories that are missing on the way are made. -/
def put (new : FileTree) : FileTree → List Bytes → FileTree
  | _, [] => new
  | tree, name :: names =>
    let child := (tree.entries.lookup name).getD (dir [])
    dir (setEntry name (put new child names) tree.entries)

/-- A tree without what stands at the end of the way through `names`. -/
def remove : FileTree → List Bytes → FileTree
  | tree, [] => tree
  | tree, [name] =>
    match tree with
    | dir entries => dir (entries.filter (·.1 != name))
    | _ => tree
  | tree, name :: names =>
    match tree, tree.entries.lookup name with
    | dir entries, some child => dir (setEntry name (child.remove names) entries)
    | _, _ => tree

/-- A tree with the entry at `source` moved to `destination`, in the place of what was there. -/
def rename (tree : FileTree) (source destination : List Bytes) : FileTree :=
  let cleared := tree.remove destination
  match cleared.get? source with
  | none => cleared
  | some entry => put entry (cleared.remove source) destination

end FileTree

end Orphans
