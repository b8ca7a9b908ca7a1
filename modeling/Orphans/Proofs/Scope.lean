import Mathlib.Data.List.Flatten
import Orphans.Analysis
import Orphans.Proofs.Corpus

/-!
# A narrower scope

Leaving out more directories and searching for fewer extensions takes files out of the corpus and
changes nothing about the others: the files that are left come in the same order, with the same
keys, the same status as candidates and the same texts (`Corpus.collect_narrows`).

Two facts carry this. The leaves of a tree without more of its directories are a subsequence of its
leaves, by induction on the tree (`FileTree.leaves_sublist`), and fewer extensions are a filter on
the source files (`SourceFile.ofPath?_withScope`).

Positions are not kept, as files before a file may go. So what stays the same is told by entries
(`Corpus.Entry`), which hold all that a run knows of a file apart from its position.
-/

namespace Orphans

/-- A configuration with other extensions and with other directories left out. -/
def Config.withScope (config : Config) (extensions excludeDirs : NameSet) : Config :=
  { config with extensions := extensions, excludeDirs := excludeDirs }

/-! ### Leaves -/

namespace FileTree

variable {pruned pruned' : Bytes → Bool}

mutual

/-- The more names are pruned, the fewer leaves an entry has. Those that are left come in the same
order, so this is said of lists and not of sets. -/
theorem leavesAs_sublist (h : ∀ name, pruned name = true → pruned' name = true) :
    (tree : FileTree) → (name : Bytes) →
      (tree.leavesAs pruned' name).Sublist (tree.leavesAs pruned name)
  | file _, _ => List.Sublist.refl _
  | link _, _ => List.Sublist.refl _
  | dir entries, name => by
    rw [leavesAs_dir, leavesAs_dir]
    rcases hpruned : pruned name with _ | _
    · split
      · exact List.nil_sublist _
      · -- not pruned in either: the entries come in the same order, whatever is pruned below them
        rw [leaves_eq_flatMap, leaves_eq_flatMap]
        refine List.Sublist.map _ (List.Sublist.flatMap_right _ ?_)
        intro entry hentry
        exact leavesAs_entries_sublist h entries entry (List.mem_mergeSort.mp hentry)
    · rw [h name hpruned]
      exact List.nil_sublist _

/-- The same for every entry of a directory. The two are proved together, as the walk is defined. -/
theorem leavesAs_entries_sublist (h : ∀ name, pruned name = true → pruned' name = true) :
    (entries : List (Bytes × FileTree)) → ∀ entry ∈ entries,
      (entry.2.leavesAs pruned' entry.1).Sublist (entry.2.leavesAs pruned entry.1)
  | [], _, hentry => absurd hentry List.not_mem_nil
  | (name, tree) :: rest, entry, hentry => by
    rcases List.mem_cons.mp hentry with rfl | hentry
    · exact leavesAs_sublist h tree name
    · exact leavesAs_entries_sublist h rest entry hentry

end

/-- The more names are pruned, the fewer leaves a directory has. -/
theorem leaves_sublist (h : ∀ name, pruned name = true → pruned' name = true) (tree : FileTree) :
    (tree.leaves pruned').Sublist (tree.leaves pruned) := by
  rw [leaves_eq_flatMap, leaves_eq_flatMap]
  exact List.Sublist.flatMap_right _ fun entry _ => leavesAs_sublist h entry.2 entry.1

end FileTree

/-! ### Files -/

variable {config : Config} {extensions excludeDirs : NameSet}

/-- With more directories left out, those that were left out still are. -/
theorem Config.prunes_withScope (h : ∀ name ∈ config.excludeDirs, name ∈ excludeDirs)
    (name : Bytes) (hname : config.prunes name = true) :
    (config.withScope extensions excludeDirs).prunes name = true := by
  unfold Config.prunes at hname ⊢
  split at hname
  · cases hname
  · next text _ =>
    exact Std.ExtTreeSet.contains_iff_mem.mpr (h text (Std.ExtTreeSet.contains_iff_mem.mp hname))

/-- With fewer extensions fewer paths stand for source files, and these for the same as before. -/
theorem SourceFile.ofPath?_withScope (h : ∀ name ∈ extensions, name ∈ config.extensions)
    (path : RawPath) :
    ofPath? (config.withScope extensions excludeDirs) path =
      (ofPath? config path).filter fun file => extensions.contains file.extension := by
  ext file
  simp only [Option.filter_eq_some_iff, ofPath?_eq_some_iff, Std.ExtTreeSet.contains_iff_mem]
  constructor
  · rintro ⟨name, bytes, extension, hname, hbytes, hextension, member, rfl⟩
    exact ⟨⟨name, bytes, extension, hname, hbytes, hextension, h extension member, rfl⟩, member⟩
  · rintro ⟨⟨name, bytes, extension, hname, hbytes, hextension, -, rfl⟩, member⟩
    exact ⟨name, bytes, extension, hname, hbytes, hextension, member, rfl⟩

namespace Corpus

/-- With more directories left out a run looks at a part of the paths, in the same order. -/
theorem paths_sublist (fs : FileSystem) (h : ∀ name ∈ config.excludeDirs, name ∈ excludeDirs) :
    (paths fs (config.withScope extensions excludeDirs)).Sublist (paths fs config) := by
  have root : (config.withScope extensions excludeDirs).root = config.root := rfl
  unfold paths
  rw [root]
  split
  · exact List.Sublist.refl _
  · next entries _ =>
    exact (FileTree.leaves_sublist (Config.prunes_withScope h) (.dir entries)).filterMap _
  · exact List.Sublist.refl _

/-- In a narrower scope the files are a part of the files, in the same order and with the same keys.
-/
theorem files_sublist (fs : FileSystem)
    (hextensions : ∀ name ∈ extensions, name ∈ config.extensions)
    (hexcludeDirs : ∀ name ∈ config.excludeDirs, name ∈ excludeDirs) :
    (collect fs (config.withScope extensions excludeDirs)).files.Sublist
      (collect fs config).files := by
  have filtered : (collect fs (config.withScope extensions excludeDirs)).files =
      ((paths fs (config.withScope extensions excludeDirs)).filterMap
        (SourceFile.ofPath? config)).filter fun file => extensions.contains file.extension := by
    rw [List.filter_filterMap]
    exact List.filterMap_congr fun path _ => SourceFile.ofPath?_withScope hextensions path
  rw [filtered]
  exact List.filter_sublist.trans ((paths_sublist fs hexcludeDirs).filterMap _)

/-! ### Entries -/

/-- What a run knows of a file: the file, whether it is a candidate, and its text if it has one. -/
structure Entry where
  file : SourceFile
  isCandidate : Bool
  text : Option Text

/-- The files of a corpus with all that a run knows of them, in order. What another corpus has to
have for the same usages is then a matter of these lists. -/
def entries (fs : FileSystem) (corpus : Corpus) : List Entry :=
  corpus.files.zipIdx.map fun (file, i) =>
    ⟨file, corpus.candidates.contains i, fs.readText? file.path⟩

/-- The entry at a position is about the file at that position. -/
theorem getElem?_entries (fs : FileSystem) (corpus : Corpus) (i : Nat) :
    (corpus.entries fs)[i]? = corpus.files[i]?.map fun file =>
      ⟨file, corpus.candidates.contains i, fs.readText? file.path⟩ := by
  unfold entries
  rw [List.getElem?_map, List.getElem?_zipIdx, Option.map_map, Nat.zero_add]
  rfl

/-- One corpus narrows another one if its entries are a subsequence of the other's. The order
matters, as the first file that refers to a candidate is the one that is reported. -/
def Narrows (fs' : FileSystem) (narrow : Corpus) (fs : FileSystem) (wide : Corpus) : Prop :=
  (narrow.entries fs').Sublist (wide.entries fs)

/-- In a collected corpus the file alone tells whether it is a candidate, so an entry does not
depend on the position of its file. -/
theorem entries_collect (fs : FileSystem) (config : Config) :
    (collect fs config).entries fs = (collect fs config).files.map fun file =>
      ⟨file, !file.isImplicit config, fs.readText? file.path⟩ := by
  apply List.ext_getElem?
  intro i
  rw [getElem?_entries, List.getElem?_map]
  apply Option.map_congr
  intro file hfile
  have isCandidate : (collect fs config).candidates.contains i = !file.isImplicit config := by
    rw [Bool.eq_iff_iff, List.contains_iff_mem, Bool.not_eq_true',
      mem_candidates_iff_of_getElem? hfile]
  rw [isCandidate]

/-- Fewer extensions and more directories left out narrow the corpus. -/
theorem collect_narrows (fs : FileSystem)
    (hextensions : ∀ name ∈ extensions, name ∈ config.extensions)
    (hexcludeDirs : ∀ name ∈ config.excludeDirs, name ∈ excludeDirs) :
    (collect fs (config.withScope extensions excludeDirs)).Narrows fs fs (collect fs config) := by
  unfold Narrows
  rw [entries_collect, entries_collect]
  exact (files_sublist fs hextensions hexcludeDirs).map _

end Corpus

end Orphans
