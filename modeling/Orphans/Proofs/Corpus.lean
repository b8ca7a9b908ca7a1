import Orphans.Corpus
import Orphans.Proofs.Access
import Orphans.Proofs.Leaf
import Orphans.Proofs.Position
import Orphans.Proofs.SourceFile

/-!
# Candidates

The candidates of a collected corpus are positions of its files, each listed once and in discovery
order, and every file has a name key. On a well-formed tree no two files have the same path
(`Corpus.nodup_paths_collect`), because no way from the root leads to two leaves.

Nor do two files stand at the same place, as long as neither of them is a link
(`Corpus.resolve_ne_of_ne`). A link stands at a place of its own and leads to another one, which may
be that of a second file; this is the one way in which an entry is read twice.
-/

namespace Orphans.Corpus

/-! ### Candidates by position -/

/-- A position is one of a candidate exactly when the file there is no entry point. -/
theorem mem_candidates_ofFiles {config : Config} {files : List SourceFile} {i : Nat} :
    i ∈ (ofFiles config files).candidates ↔
      ∃ file, files[i]? = some file ∧ file.isImplicit config = false := by
  simp [ofFiles, List.mem_zipIdx_iff_getElem?]

/-- The candidates depend on the file names only. -/
theorem candidates_ofFiles (config : Config) (files : List SourceFile) :
    (ofFiles config files).candidates =
      ((files.map (·.fileName)).zipIdx.filter fun x => !config.implicitFiles.contains x.1).map
        (·.2) := by
  rw [List.zipIdx_map, List.filter_map, List.map_map]
  rfl

/-- Which files are candidates is told by their names and those of the entry points. -/
theorem candidates_ofFiles_congr {config config' : Config} {files files' : List SourceFile}
    (entryPoints : config.implicitFiles = config'.implicitFiles)
    (names : files.map (·.fileName) = files'.map (·.fileName)) :
    (ofFiles config files).candidates = (ofFiles config' files').candidates := by
  rw [candidates_ofFiles, candidates_ofFiles, entryPoints, names]

/-- Every file is a candidate or an entry point. -/
theorem length_candidates_add_countP (config : Config) (files : List SourceFile) :
    (ofFiles config files).candidates.length + files.countP (·.isImplicit config) =
      files.length := by
  -- candidates are counted by the files that stand at them
  have candidates : (ofFiles config files).candidates.length =
      files.countP fun file => !file.isImplicit config := by
    conv_rhs => rw [← List.zipIdx_map_fst 0 files, List.countP_map, List.countP_eq_length_filter]
    exact List.length_map _
  have total := List.length_eq_countP_add_countP (fun file => file.isImplicit config) (l := files)
  simp only [Bool.not_eq_true, Bool.decide_eq_false] at total
  omega

/-- The candidates are listed in discovery order, each of them once. -/
theorem pairwise_lt_candidates (fs : FileSystem) (config : Config) :
    (collect fs config).candidates.Pairwise (· < ·) :=
  pairwise_lt_positions _ _ 0

/-- At the position of a candidate stands a file. -/
theorem exists_getElem?_of_mem_candidates {fs : FileSystem} {config : Config} {candidate : Nat}
    (h : candidate ∈ (collect fs config).candidates) :
    ∃ target, (collect fs config).files[candidate]? = some target := by
  obtain ⟨file, hfile, -⟩ := mem_candidates_ofFiles.mp h
  exact ⟨file, hfile⟩

/-- The same in the form that `getElem?_filterMap_of_isSome` asks for. -/
theorem isSome_getElem?_of_mem_candidates {fs : FileSystem} {config : Config} {candidate : Nat}
    (h : candidate ∈ (collect fs config).candidates) :
    (collect fs config).files[candidate]?.isSome = true :=
  Option.isSome_iff_exists.mpr (exists_getElem?_of_mem_candidates h)

/-- The position of a candidate is in range. -/
theorem lt_length_of_mem_candidates {fs : FileSystem} {config : Config} {candidate : Nat}
    (h : candidate ∈ (collect fs config).candidates) :
    candidate < (collect fs config).files.length := by
  obtain ⟨file, hfile⟩ := exists_getElem?_of_mem_candidates h
  exact (List.getElem?_eq_some_iff.mp hfile).1

/-- The same for the candidate at a position of the list of candidates. -/
theorem exists_getElem?_candidates {fs : FileSystem} {config : Config}
    (n : Fin (collect fs config).candidates.length) :
    ∃ target, (collect fs config).files[(collect fs config).candidates[n]]? = some target :=
  exists_getElem?_of_mem_candidates (List.getElem_mem n.isLt)

/-- A file is a candidate unless it is an entry point. -/
theorem mem_candidates_iff_of_getElem? {fs : FileSystem} {config : Config} {i : Nat}
    {file : SourceFile} (hfile : (collect fs config).files[i]? = some file) :
    i ∈ (collect fs config).candidates ↔ file.isImplicit config = false := by
  refine mem_candidates_ofFiles.trans ⟨?_, fun h => ⟨file, hfile, h⟩⟩
  rintro ⟨file', hfile', h⟩
  obtain rfl := Option.some_inj.mp (hfile.symm.trans hfile')
  exact h

/-- The file at the position of a candidate is one of the candidate files. -/
theorem mem_candidateFiles {corpus : Corpus} {candidate : Nat} {target : SourceFile}
    (h : candidate ∈ corpus.candidates) (htarget : corpus.files[candidate]? = some target) :
    target ∈ corpus.candidateFiles :=
  List.mem_filterMap.mpr ⟨candidate, h, htarget⟩

/-! ### Files -/

/-- The files of a corpus are the source files at the paths that a run looks at. -/
theorem mem_files_collect {fs : FileSystem} {config : Config} {file : SourceFile} :
    file ∈ (collect fs config).files ↔
      ∃ path ∈ paths fs config, SourceFile.ofPath? config path = some file :=
  List.mem_filterMap

/-- Every file of a corpus has a name key that is not empty: a name has a stem. -/
theorem nameKey_ne_nil {fs : FileSystem} {config : Config} {file : SourceFile}
    (h : file ∈ (collect fs config).files) : file.nameKey ≠ [] := by
  obtain ⟨path, -, hpath⟩ := mem_files_collect.mp h
  exact SourceFile.nameKey_ne_nil hpath

/-! ### Paths -/

/-- Below a well-formed directory no path is looked at twice. Different ways have different paths,
since the names on a way can be read off its path. -/
theorem nodup_pathsBelow {fs : FileSystem} {config : Config} {tree : FileTree}
    (wellFormed : tree.WellFormed) : (pathsBelow fs config tree).Nodup := by
  have different : (tree.leaves config.prunes).Pairwise fun a b =>
      config.root.below a.names ≠ config.root.below b.names := by
    refine (List.pairwise_map.mp (FileTree.nodup_names_leaves wellFormed)).imp_of_mem ?_
    intro a b ha hb hne same
    obtain ⟨nonempty, isName⟩ := FileTree.isName_of_mem_leaves wellFormed ha
    obtain ⟨nonempty', isName'⟩ := FileTree.isName_of_mem_leaves wellFormed hb
    exact hne (RawPath.below_injective _ nonempty nonempty' isName isName' same)
  -- a path is kept or left out, and never changed, so what is kept is still different
  refine different.filterMap _ ?_
  intro a b hab p hp q hq
  dsimp only at hp hq
  split at hp
  · cases hp
  · split at hq
    · cases hq
    · cases hp
      cases hq
      exact hab

/-- No path is looked at twice by a run on a well-formed tree. -/
theorem nodup_paths {fs : FileSystem} (config : Config) (wellFormed : fs.top.WellFormed) :
    (paths fs config).Nodup := by
  unfold paths
  split
  · exact List.nodup_nil
  · next entries hentry =>
    refine nodup_pathsBelow ?_
    unfold FileSystem.stat? at hentry
    split at hentry
    · exact wellFormed.get? hentry
    · cases hentry
  · exact List.pairwise_singleton _ _

/-- No two files of a corpus have the same path. -/
theorem nodup_paths_collect {fs : FileSystem} (config : Config) (wellFormed : fs.top.WellFormed) :
    ((collect fs config).files.map (·.path)).Nodup := by
  refine List.pairwise_map.mpr (List.Pairwise.filterMap _ ?_ (nodup_paths config wellFormed))
  intro p q different file hfile file' hfile'
  rw [SourceFile.path_ofPath? hfile, SourceFile.path_ofPath? hfile']
  exact different

/-- Files at different positions have different paths. -/
theorem path_ne_of_ne {fs : FileSystem} {config : Config} (wellFormed : fs.top.WellFormed)
    {i j : Nat} (ne : i ≠ j) {file other : SourceFile}
    (hfile : (collect fs config).files[i]? = some file)
    (hother : (collect fs config).files[j]? = some other) : file.path ≠ other.path := by
  intro same
  have hi : ((collect fs config).files.map (·.path))[i]? = some file.path := by
    rw [List.getElem?_map, hfile, Option.map_some]
  have hj : ((collect fs config).files.map (·.path))[j]? = some file.path := by
    rw [List.getElem?_map, hother, Option.map_some, same]
  obtain ⟨inRange, -⟩ := List.getElem?_eq_some_iff.mp hi
  have nodup : ((collect fs config).files.map (·.path)).Nodup :=
    nodup_paths_collect config wellFormed
  exact ne ((List.getElem?_inj inRange nodup).mp (hi.trans hj.symm))

/-! ### Places -/

/-- A path that a run looks at is the root, alone, or leads to a file or link below the root. In the
second case the names on the way are told too, so that two paths can be compared by them. -/
theorem place_of_mem_paths {fs : FileSystem} {config : Config} (wellFormed : fs.top.WellFormed)
    {path : RawPath} (h : path ∈ paths fs config) :
    paths fs config = [config.root] ∨
      ∃ position names found, fs.resolve config.root = .ok position ∧ names ≠ [] ∧
        (∀ name ∈ names, IsName name) ∧ path = config.root.below names ∧
        fs.top.get? (position ++ names) = some found ∧ ∀ entries, found ≠ .dir entries := by
  unfold paths at h ⊢
  split at h
  · cases h
  · next entries hentry =>
    -- the paths below the root are those of the leaves of its directory
    right
    obtain ⟨position, hroot, hdir⟩ := FileSystem.exists_resolve_of_stat? hentry
    obtain ⟨leaf, hleaf, hpath⟩ := List.mem_filterMap.mp h
    have treeWellFormed := wellFormed.get? hdir
    obtain ⟨nonempty, isName⟩ := FileTree.isName_of_mem_leaves treeWellFormed hleaf
    obtain ⟨found, hfound, notDir⟩ := FileTree.exists_get?_of_mem_leaves treeWellFormed hleaf
    refine ⟨position, leaf.names, found, hroot, nonempty, isName, ?_, ?_, notDir⟩
    · dsimp only at hpath
      split at hpath
      · cases hpath
      · exact (Option.some_inj.mp hpath).symm
    · rw [FileTree.get?_append, hdir]
      exact hfound
  · exact .inl rfl

/-- Two files of a corpus of which neither is a link stand at different places. Their paths are
different, and without a link at the end a path leads to where its names stand. -/
theorem resolve_ne_of_ne {fs : FileSystem} {config : Config} (wellFormed : fs.top.WellFormed)
    {i j : Nat} (ne : i ≠ j) {file other : SourceFile}
    (hfile : (collect fs config).files[i]? = some file)
    (hother : (collect fs config).files[j]? = some other)
    (notLink : fs.isLink file.path = false) (notLink' : fs.isLink other.path = false) :
    fs.resolve file.path ≠ fs.resolve other.path := by
  have different := path_ne_of_ne wellFormed ne hfile hother
  obtain ⟨path, hpath, hofPath⟩ := mem_files_collect.mp (List.mem_of_getElem? hfile)
  obtain ⟨path', hpath', hofPath'⟩ := mem_files_collect.mp (List.mem_of_getElem? hother)
  rw [SourceFile.path_ofPath? hofPath] at different notLink ⊢
  rw [SourceFile.path_ofPath? hofPath'] at different notLink' ⊢
  -- a root that is a file is alone in the corpus, so there are no two files
  rcases place_of_mem_paths wellFormed hpath with
    alone | ⟨position, names, found, hroot, nonempty, isName, rfl, hfound, -⟩
  · rw [alone, List.mem_singleton] at hpath hpath'
    exact absurd (hpath.trans hpath'.symm) different
  rcases place_of_mem_paths wellFormed hpath' with
    alone | ⟨position', names', found', hroot', nonempty', isName', rfl, hfound', -⟩
  · rw [alone, List.mem_singleton] at hpath hpath'
    exact absurd (hpath.trans hpath'.symm) different
  obtain rfl := Except.ok.inj (hroot.symm.trans hroot')
  rw [FileSystem.isLink, FileSystem.lstat?_below hroot nonempty isName hfound] at notLink
  rw [FileSystem.isLink, FileSystem.lstat?_below hroot nonempty' isName' hfound'] at notLink'
  rw [FileSystem.resolve_below hroot nonempty isName hfound notLink,
    FileSystem.resolve_below hroot nonempty' isName' hfound' notLink']
  -- both places are that of the root with the names on the way, so the ways are one
  intro same
  have names_eq : names = names' := List.append_cancel_left (Except.ok.inj same)
  exact different (by rw [names_eq])

end Orphans.Corpus
