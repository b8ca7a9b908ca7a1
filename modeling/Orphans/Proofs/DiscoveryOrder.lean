import Mathlib
import Orphans.Report
import Orphans.Proofs.Corpus
import Orphans.Proofs.Reordering

/-!
# Discovery order

`Analysis.run_isCanonical`: the files of a corpus come in the lexicographic order of the names on
the ways to them from the root, where names are compared byte by byte. So what is in a directory
comes where the directory itself would, and `lib/x.ts` before `lib-a.ts` and `lib.ts`, other than in
the order of the spelled paths. The corpus, and with it all that a run reports, does not depend on
the order in which directories have their entries.

The order of the leaves of a tree is known (`FileTree.pairwise_leaves`). What has to be added is
that the paths of a run are made from a part of the leaves, and the files from a part of the paths.
Both are lists from which entries are dropped and nothing is moved (`filterMap_sublist_map`), and a
part of an increasing list is increasing (`AreAlong.sublist`).

That the order of entries on the disk does not matter is `Analysis.run_eq_of_reordered`.
-/

namespace Orphans

/-- Comparing lists entry by entry decides their lexicographic order. -/
theorem compare_eq_lt_iff_lt {α : Type} [Ord α] [LT α] [Std.LawfulEqOrd α]
    (entry : ∀ a b : α, compare a b = .lt ↔ a < b) (l l' : List α) :
    compare l l' = .lt ↔ l < l' := by
  -- on both lists at once: the first entries decide unless they are the same
  induction l generalizing l' with
  | nil => rcases l' with _ | ⟨b, l'⟩ <;> simp
  | cons a l ih =>
    rcases l' with _ | ⟨b, l'⟩
    · simp
    · rw [List.compare_cons_cons, List.cons_lt_cons_iff, Ordering.then_eq_lt, entry, ih,
        Std.compare_eq_iff_eq]

/-- The order of leaves is the lexicographic order of their ways, where names are compared
lexicographically by their bytes. -/
theorem Leaf.before_iff_lt {a b : Leaf} : a.Before b ↔ a.names < b.names :=
  compare_eq_lt_iff_lt (compare_eq_lt_iff_lt fun _ _ => Std.compare_eq_lt) _ _

/-- Where a function only drops entries or replaces them by their images, a part of the images is
left, in their order. -/
theorem filterMap_sublist_map {α β : Type} {f : α → Option β} {image : α → β}
    (h : ∀ a b, f a = some b → image a = b) (l : List α) :
    (l.filterMap f).Sublist (l.map image) := by
  induction l with
  | nil => exact List.Sublist.slnil
  | cons a l ih =>
    rw [List.map_cons]
    rcases hf : f a with _ | b
    · rw [List.filterMap_cons_none hf]
      exact ih.cons _
    · rw [List.filterMap_cons_some hf, h a b hf]
      exact ih.cons_cons _

namespace Corpus

variable {fs : FileSystem} {config : Config}

/-! ### Ways -/

/-- Some paths are those at the ends of some ways from the root, which go through names and come in
strictly increasing order. -/
structure AreAlong (root : RawPath) (ways : List (List Bytes)) (paths : List RawPath) : Prop where
  /-- Each path is the root with the names of its way after it. -/
  paths_eq : paths = ways.map root.below
  /-- The ways go through names that entries can have. -/
  isName : ∀ way ∈ ways, ∀ name ∈ way, IsName name
  /-- No way comes twice, and each comes before the next in the order of the bytes. -/
  increasing : ways.Pairwise (· < ·)

/-- A part of such paths goes along a part of the ways. -/
theorem AreAlong.sublist {root : RawPath} {ways : List (List Bytes)} {paths part : List RawPath}
    (h : AreAlong root ways paths) (sublist : part.Sublist paths) :
    ∃ ways', AreAlong root ways' part := by
  rw [h.paths_eq] at sublist
  obtain ⟨ways', hways, rfl⟩ := List.sublist_map_iff.mp sublist
  exact ⟨ways', rfl, fun way hway => h.isName way (hways.subset hway), h.increasing.sublist hways⟩

/-- The paths below a directory are those of its leaves, some of them dropped. -/
theorem pathsBelow_sublist (fs : FileSystem) (config : Config) (root : FileTree) :
    (pathsBelow fs config root).Sublist
      (((root.leaves config.prunes).map (·.names)).map config.root.below) := by
  rw [List.map_map]
  refine filterMap_sublist_map ?_ _
  intro leaf path hpath
  dsimp only at hpath
  split at hpath
  · cases hpath
  · exact Option.some_inj.mp hpath

/-- So they go along increasing ways. -/
theorem exists_areAlong_pathsBelow {root : FileTree} (wellFormed : root.WellFormed) :
    ∃ ways, AreAlong config.root ways (pathsBelow fs config root) := by
  have leaves : AreAlong config.root ((root.leaves config.prunes).map (·.names))
      (((root.leaves config.prunes).map (·.names)).map config.root.below) := by
    refine ⟨rfl, ?_, ?_⟩
    · intro way hway
      obtain ⟨leaf, hleaf, rfl⟩ := List.mem_map.mp hway
      exact (FileTree.isName_of_mem_leaves wellFormed hleaf).2
    · refine List.pairwise_map.mpr ((FileTree.pairwise_leaves wellFormed).imp ?_)
      exact fun h => Leaf.before_iff_lt.mp h
  exact leaves.sublist (pathsBelow_sublist fs config root)

/-- The paths that a run looks at go along increasing ways from the root. A root that is a file is
at the end of the way without names. -/
theorem exists_areAlong_paths (wellFormed : fs.top.WellFormed) :
    ∃ ways, AreAlong config.root ways (paths fs config) := by
  unfold paths
  split
  · exact ⟨[], rfl, by simp, List.Pairwise.nil⟩
  · next entries hroot =>
    obtain ⟨position, -, hdir⟩ := FileSystem.exists_resolve_of_stat? hroot
    exact exists_areAlong_pathsBelow (wellFormed.get? hdir)
  · exact ⟨[[]], rfl, by simp, List.pairwise_singleton _ _⟩

/-- The paths of the files are those that a run looks at, some of them dropped. -/
theorem map_path_files_sublist (fs : FileSystem) (config : Config) :
    ((collect fs config).files.map (·.path)).Sublist (paths fs config) := by
  have files : (collect fs config).files.map (·.path) =
      (paths fs config).filterMap fun path =>
        (SourceFile.ofPath? config path).map (·.path) := List.map_filterMap
  rw [files]
  conv_rhs => rw [← List.map_id (paths fs config)]
  refine filterMap_sublist_map ?_ _
  intro path path' h
  obtain ⟨file, hfile, rfl⟩ := Option.map_eq_some_iff.mp h
  exact (SourceFile.path_ofPath? hfile).symm

/-! ### The corpus -/

/-- The files of a corpus come in discovery order, that is, along increasing ways from the root, and
the candidates are listed in this order too. -/
structure IsOrdered (root : RawPath) (corpus : Corpus) : Prop where
  /-- The paths of the files are along increasing ways. -/
  exists_ways : ∃ ways, AreAlong root ways (corpus.files.map (·.path))
  /-- No path occurs twice. -/
  nodup_paths : (corpus.files.map (·.path)).Nodup
  /-- The candidates are listed in the order of the files. -/
  candidates_increasing : corpus.candidates.Pairwise (· < ·)
  /-- Every candidate is a file. -/
  candidates_lt : ∀ i ∈ corpus.candidates, i < corpus.files.length

/-- A corpus on a well-formed tree is in discovery order. -/
theorem collect_isOrdered (wellFormed : fs.top.WellFormed) :
    (collect fs config).IsOrdered config.root where
  exists_ways := by
    have all : ∃ ways, AreAlong config.root ways (paths fs config) :=
      exists_areAlong_paths wellFormed
    obtain ⟨ways, h⟩ := all
    exact h.sublist (map_path_files_sublist fs config)
  nodup_paths := nodup_paths_collect config wellFormed
  candidates_increasing := pairwise_lt_candidates fs config
  candidates_lt _ := lt_length_of_mem_candidates

end Corpus

/-! ### Runs -/

namespace Analysis

/-- **Discovery order**: a run on a well-formed tree finds the files in discovery order, and finds
out the same for every order in which directories have their entries.  The second part is about the
whole result: the same analysis, hence the same report to the letter. -/
theorem run_isCanonical (fs : FileSystem) (config : Config) (wellFormed : fs.top.WellFormed) :
    (run fs config).corpus.IsOrdered config.root ∧
      ∀ fs' : FileSystem, fs.Reordered fs' → run fs' config = run fs config ∧
        Report.ofAnalysis config (run fs' config) = Report.ofAnalysis config (run fs config) := by
  refine ⟨Corpus.collect_isOrdered wellFormed, ?_⟩
  intro fs' reordered
  have same : run fs' config = run fs config := (run_eq_of_reordered reordered wellFormed).symm
  exact ⟨same, congrArg (Report.ofAnalysis config) same⟩

/-- A page, a directory and a file whose names all begin in the same way. -/
def libraryEntries : List (Bytes × FileTree) :=
  [(Utf8.encode "lib.ts".toList, .file (Utf8.encode "import './lib/x'".toList)),
    (Utf8.encode "lib-a.ts".toList, .file (Utf8.encode "import './lib/x'".toList)),
    (Utf8.encode "lib".toList, .dir [(Utf8.encode "x.ts".toList, .file [])])]

/-- A project whose directory has some entries. -/
def projectOf (entries : List (Bytes × FileTree)) : FileSystem where
  top := .dir [(Utf8.encode "site".toList, .dir entries)]
  workingDir := []

/-- What is in the directory comes first, and the same file is reported to refer to it when the
entries are listed the other way round. -/
theorem run_isCanonical_library :
    let config := Config.ofRoot (.ofText "/site".toList)
    (projectOf libraryEntries).top.WellFormed ∧
      (run (projectOf libraryEntries) config).corpus.IsOrdered config.root ∧
      (projectOf libraryEntries).Reordered (projectOf libraryEntries.reverse) ∧
      run (projectOf libraryEntries.reverse) config = run (projectOf libraryEntries) config ∧
      (run (projectOf libraryEntries) config).usages =
        [⟨.ofText "/site/lib/x.ts".toList, some ⟨.ofText "/site/lib-a.ts".toList, .path⟩⟩,
          ⟨.ofText "/site/lib-a.ts".toList, none⟩, ⟨.ofText "/site/lib.ts".toList, none⟩] := by
  intro config
  have wellFormed : (projectOf libraryEntries).top.WellFormed := by decide
  have reordered : (projectOf libraryEntries).Reordered (projectOf libraryEntries.reverse) :=
    ⟨rfl, .inside [] [] _ (.shuffled (List.reverse_perm _).symm)⟩
  obtain ⟨isOrdered, same⟩ := run_isCanonical (projectOf libraryEntries) config wellFormed
  refine ⟨wellFormed, isOrdered, reordered, (same _ reordered).1, ?_⟩
  cbv

end Analysis

end Orphans
