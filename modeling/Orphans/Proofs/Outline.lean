import Orphans.Corpus
import Orphans.Proofs.Leaf
import Orphans.Proofs.Resolution

/-!
# The corpus does not depend on contents

The outline of a tree is the tree with empty files in the place of its files. It has entries of the
same kinds at the same places (`FileSystem.sameKinds_outline`) and the same leaves
(`FileTree.leaves_outline`), so the corpus of a file system is the corpus of its outline
(`Corpus.collect_outline`), and two file systems that differ in the contents of files have the same
corpus (`Corpus.collect_eq_of_outline_eq`).

To say that only contents differ is thus to say that the outlines are equal. This form is used for
writing into a file, where all that has to be shown is that the outline stays as it is.
-/

namespace Orphans

namespace FileTree

/-! ### Trees -/

mutual

/-- A tree without the contents of its files. -/
def outline : FileTree → FileTree
  | file _ => file []
  | link target => link target
  | dir entries => dir (outlineEntries entries)

/-- The entries of a directory without the contents of files. -/
def outlineEntries : List (Bytes × FileTree) → List (Bytes × FileTree)
  | [] => []
  | (name, tree) :: rest => (name, tree.outline) :: outlineEntries rest

end

/-- The outlines of entries, entry by entry. -/
theorem outlineEntries_eq_map (entries : List (Bytes × FileTree)) :
    outlineEntries entries = entries.map fun entry => (entry.1, entry.2.outline) := by
  induction entries with
  | nil => rfl
  | cons entry rest ih => rw [outlineEntries, ih, List.map_cons]

/-- The entries of an outline are the outlines of the entries. -/
theorem entries_outline (tree : FileTree) : tree.outline.entries = outlineEntries tree.entries := by
  cases tree <;> rfl

/-- Under a name stands in the outline the outline of what stands there. -/
theorem lookup_outlineEntries (name : Bytes) (entries : List (Bytes × FileTree)) :
    (outlineEntries entries).lookup name = (entries.lookup name).map outline := by
  induction entries with
  | nil => rfl
  | cons entry rest ih =>
    rw [outlineEntries, List.lookup_cons, List.lookup_cons, ih]
    cases name == entry.1 <;> rfl

/-- At the end of a way through the outline stands the outline of what stands there. -/
theorem get?_outline (tree : FileTree) (names : List Bytes) :
    tree.outline.get? names = (tree.get? names).map outline := by
  induction names generalizing tree with
  | nil => rfl
  | cons name names ih =>
    rw [get?_cons, get?_cons, entries_outline, lookup_outlineEntries]
    rcases tree.entries.lookup name with _ | child
    · rfl
    · exact ih child

mutual

/-- The outline of an entry has the leaves of the entry. -/
theorem leavesAs_outline (pruned : Bytes → Bool) (name : Bytes) :
    (tree : FileTree) → tree.outline.leavesAs pruned name = tree.leavesAs pruned name
  | file _ => rfl
  | link _ => rfl
  | dir entries => by
    rw [outline, leavesAs, leavesAs, groupedLeaves_outlineEntries pruned entries]

/-- So have the outlines of the entries of a directory, in the same groups. -/
theorem groupedLeaves_outlineEntries (pruned : Bytes → Bool) :
    (entries : List (Bytes × FileTree)) →
      groupedLeaves pruned (outlineEntries entries) = groupedLeaves pruned entries
  | [] => rfl
  | (name, tree) :: rest => by
    rw [outlineEntries, groupedLeaves, groupedLeaves, leavesAs_outline pruned name tree,
      groupedLeaves_outlineEntries pruned rest]

end

/-- The outline has the leaves of the tree. -/
theorem leaves_outline (pruned : Bytes → Bool) (tree : FileTree) :
    tree.outline.leaves pruned = tree.leaves pruned := by
  unfold leaves
  rw [entries_outline, groupedLeaves_outlineEntries]

end FileTree

/-! ### Access -/

namespace FileSystem

/-- A file system without the contents of its files. -/
def outline (fs : FileSystem) : FileSystem :=
  { fs with top := fs.top.outline }

/-- The outline has entries of the same kinds at the same places. -/
theorem sameKinds_outline (fs : FileSystem) : SameKinds fs.outline fs where
  workingDir_eq := rfl
  kindAt?_eq := by
    intro position
    have here : fs.outline.top.get? position = (fs.top.get? position).map .outline :=
      FileTree.get?_outline fs.top position
    unfold kindAt?
    rw [here, Option.map_map]
    rcases fs.top.get? position with _ | content | target | entries <;> rfl

/-- A path leads to the same place in the outline. -/
theorem resolve_outline (fs : FileSystem) (p : RawPath) : fs.outline.resolve p = fs.resolve p :=
  (sameKinds_outline fs).resolve_eq p

/-- A path leads in the outline to the outline of what it leads to. -/
theorem stat?_outline (fs : FileSystem) (p : RawPath) :
    fs.outline.stat? p = (fs.stat? p).map .outline := by
  unfold stat?
  rw [resolve_outline]
  rcases fs.resolve p with error | position
  · rfl
  · exact FileTree.get?_outline fs.top position

/-- A path leads to a directory in the outline exactly if it does so in the file system. -/
theorem leadsToDirectory_outline (fs : FileSystem) (p : RawPath) :
    fs.outline.leadsToDirectory p = fs.leadsToDirectory p :=
  (sameKinds_outline fs).leadsToDirectory_eq p

end FileSystem

/-! ### The corpus -/

namespace Corpus

/-- A run looks at the same paths below the outline of a directory. -/
theorem pathsBelow_outline (fs : FileSystem) (config : Config) (tree : FileTree) :
    pathsBelow fs.outline config tree.outline = pathsBelow fs config tree := by
  unfold pathsBelow
  rw [FileTree.leaves_outline]
  simp only [FileSystem.leadsToDirectory_outline]

/-- The corpus of a file system is that of its outline. -/
theorem collect_outline (fs : FileSystem) (config : Config) :
    collect fs.outline config = collect fs config := by
  have same : paths fs.outline config = paths fs config := by
    unfold paths
    rw [FileSystem.stat?_outline]
    rcases fs.stat? config.root with _ | content | target | entries
    · rfl
    · rfl
    · rfl
    · exact pathsBelow_outline fs config (.dir entries)
  unfold collect
  rw [same]

/-- File systems that differ in the contents of files have the same corpus. -/
theorem collect_eq_of_outline_eq {fs fs' : FileSystem} (h : fs.outline = fs'.outline)
    (config : Config) : collect fs config = collect fs' config := by
  rw [← collect_outline fs, h, collect_outline]

end Corpus

end Orphans
