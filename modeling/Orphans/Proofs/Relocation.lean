import Mathlib
import Orphans.Proofs.Analysis
import Orphans.Proofs.Components
import Orphans.Proofs.Reordering

/-!
# Projects at two places

`Analysis.run_relocated`: a project without links is analysed in the same way wherever it stands.
The files of the two runs differ in their paths only, and these only in the root at their front. The
same files are candidates, and the usages name the same files.

Three things have to be independent of the root. The walk is, because it goes by the names below the
root, and so are the contents that it finds there (`FileSystem.readText?_below`). The keys are,
because the source root goes along with the root, so that the same names are left of a path after
either of them (`SourceFile.ofPath?_below`). And the search for references carries paths along
without looking at them (`Analysis.usageOf_mapPath`).

A project is a directory that stands at a path (`FileSystem.Holds`), with its entries in any order
and the path spelled in any way. Links are left out of it because what a link leads to may be
outside, where nothing has to be the same.
-/

namespace Orphans

/-! ### Other paths -/

/-- A path with the directory `root'` in the place of the directory `root` at its front. A path that
does not begin with `root` is left as it is, but a run has no such paths. -/
def RawPath.rebase (root root' p : RawPath) : RawPath :=
  match root.stripPrefix? p with
  | none => p
  | some rest => root'.join rest

/-- A source file at another path, with the same names and keys. -/
def SourceFile.mapPath (f : RawPath → RawPath) (file : SourceFile) : SourceFile :=
  { file with path := f file.path }

/-- A reference in a file at another path. -/
def Reference.mapPath (f : RawPath → RawPath) (reference : Reference) : Reference :=
  { reference with file := f reference.file }

/-- A usage with other paths. -/
def Usage.mapPath (f : RawPath → RawPath) (usage : Usage) : Usage :=
  ⟨f usage.file, usage.referencedBy.map (Reference.mapPath f)⟩

/-- A configuration with another root, and with the directory that some names lead to from there as
its source root. -/
def Config.rootedAt (config : Config) (root : RawPath) (sourceNames : List Bytes) : Config :=
  { config with root := root, sourceRoot := root.below sourceNames }

/-! ### Keys -/

section keys

variable {config : Config} {root : RawPath} {names sourceNames : List Bytes}

/-- Below the first root a path becomes the path with the same names below the second. -/
theorem RawPath.rebase_below (root' : RawPath) (spelled : root.bytes ≠ []) (nonempty : names ≠ [])
    (isName : ∀ name ∈ names, IsName name) :
    rebase root root' (root.below names) = root'.below names := by
  unfold rebase
  rw [stripPrefix?_below_self root spelled isName]
  exact join_ofComponents root' nonempty isName

/-- What a path below the root is relative to the source root depends on the names only. -/
theorem SourceFile.relativePath_below (config : Config) (spelled : root.bytes ≠ [])
    (isSourceName : ∀ name ∈ sourceNames, IsName name) (isName : ∀ name ∈ names, IsName name) :
    relativePath (config.rootedAt root sourceNames) (root.below names) =
      RawPath.ofComponents ((if sourceNames <+: names then names.drop sourceNames.length
        else names).map Component.normal) := by
  have fromSource := RawPath.stripPrefix?_below root spelled isSourceName isName
  have fromRoot := RawPath.stripPrefix?_below_self root spelled isName
  unfold relativePath Config.rootedAt
  dsimp only
  rw [fromSource, fromRoot]
  split
  · rfl
  · rfl

/-- The keys of a file are told by the names on the way to it from the root. So the file at the
other root is the same one at another path. -/
theorem SourceFile.ofPath?_below {root' : RawPath} (spelled : root.bytes ≠ [])
    (spelled' : root'.bytes ≠ []) (isSourceName : ∀ name ∈ sourceNames, IsName name)
    (nonempty : names ≠ []) (isName : ∀ name ∈ names, IsName name) :
    ofPath? (config.rootedAt root' sourceNames) (root'.below names) =
      (ofPath? (config.rootedAt root sourceNames) (root.below names)).map
        (mapPath (RawPath.rebase root root')) := by
  have extensions (root : RawPath) :
      (config.rootedAt root sourceNames).extensions = config.extensions := rfl
  have pathKey : pathKeyOf (config.rootedAt root' sourceNames) (root'.below names) =
      pathKeyOf (config.rootedAt root sourceNames) (root.below names) := by
    unfold pathKeyOf
    rw [relativePath_below config spelled' isSourceName isName,
      relativePath_below config spelled isSourceName isName]
  simp only [ofPath?, Option.bind_eq_bind, extensions, pathKey,
    RawPath.fileName?_below _ nonempty isName]
  -- the last name tells both whether this is a source file and all of its parts but the path key
  rcases names.getLast? with _ | name
  · rfl
  · dsimp only [Option.bind_some]
    rcases (splitExtension name).2.bind Utf8.decode? with _ | extension
    · rfl
    · dsimp only [Option.bind_some]
      split
      · simp [mapPath, RawPath.rebase_below root' spelled nonempty isName]
      · rfl

end keys

/-! ### Contents -/

/-- No link stands in a tree. A link could lead out of the directory, and then what is found there
would depend on where the directory is. -/
def FileTree.LinkFree (tree : FileTree) : Prop :=
  ∀ names target, tree.get? names ≠ some (.link target)

/-- A file is no link and has nothing below it. -/
theorem FileTree.linkFree_file (content : Bytes) : (file content).LinkFree := by
  intro names target h
  rcases names with _ | ⟨name, names⟩ <;> cases h

/-- A directory has no link in it if its entries have none. -/
theorem FileTree.linkFree_dir {entries : List (Bytes × FileTree)}
    (h : ∀ entry ∈ entries, entry.2.LinkFree) : (dir entries).LinkFree := by
  intro names target hfound
  rcases names with _ | ⟨name, names⟩
  · cases hfound
  · rw [get?_cons, Option.bind_eq_some_iff] at hfound
    obtain ⟨child, hchild, hfound⟩ := hfound
    exact h _ (mem_of_lookup_eq_some hchild) names target hfound

/-- A directory stands at a path, with its entries listed in any order. A copy of a directory need
not list its entries as the directory does. -/
def FileSystem.Holds (fs : FileSystem) (root : RawPath) (tree : FileTree) : Prop :=
  ∃ listed, fs.stat? root = some listed ∧ tree.Reordered listed

section contents

variable {fs : FileSystem} {root : RawPath} {tree : FileTree} {entries : List (Bytes × FileTree)}
  {pruned : Bytes → Bool} {leaf : Leaf}

/-- Without links every leaf is a file. -/
theorem FileTree.LinkFree.exists_content (linkFree : tree.LinkFree) (wellFormed : tree.WellFormed)
    (hleaf : leaf ∈ tree.leaves pruned) :
    ∃ content, tree.get? leaf.names = some (.file content) := by
  obtain ⟨found, hfound, notDir⟩ := exists_get?_of_mem_leaves wellFormed hleaf
  rcases found with content | target | entries
  · exact ⟨content, hfound⟩
  · exact absurd hfound (linkFree leaf.names target)
  · exact absurd rfl (notDir entries)

namespace FileSystem

/-- The path of a directory that is there is not empty. -/
theorem Holds.bytes_ne_nil (h : fs.Holds root tree) : root.bytes ≠ [] := by
  obtain ⟨listed, hlisted, -⟩ := h
  obtain ⟨position, hposition, -⟩ := exists_resolve_of_stat? hlisted
  exact bytes_ne_nil_of_resolve hposition

/-- What stands at the path of a directory is a directory with the same entries, listed in some
order. -/
theorem Holds.exists_dir (h : fs.Holds root (.dir entries)) :
    ∃ listed, fs.stat? root = some (.dir listed) ∧
      (FileTree.dir entries).Reordered (.dir listed) := by
  obtain ⟨tree, htree, same⟩ := h
  rcases same.eq_or_exists_dir with rfl | ⟨_, listed, -, rfl⟩
  · exact ⟨entries, htree, same⟩
  · exact ⟨listed, htree, same⟩

/-- The path of a file below the root leads to that file. -/
theorem Holds.stat?_below (h : fs.Holds root tree) (wellFormed : tree.WellFormed)
    (hleaf : leaf ∈ tree.leaves pruned) {content : Bytes}
    (hcontent : tree.get? leaf.names = some (.file content)) :
    fs.stat? (root.below leaf.names) = some (.file content) := by
  obtain ⟨listed, hlisted, same⟩ := h
  obtain ⟨position, hposition, hplace⟩ := exists_resolve_of_stat? hlisted
  obtain ⟨nonempty, isName⟩ := FileTree.isName_of_mem_leaves wellFormed hleaf
  have there : fs.top.get? (position ++ leaf.names) = some (.file content) := by
    rw [FileTree.get?_append, hplace, Option.bind_some]
    exact same.get?_file wellFormed hcontent
  unfold stat?
  rw [resolve_below hposition nonempty isName there rfl]
  exact there

/-- No path of a leaf leads to a directory, as every leaf is a file. -/
theorem Holds.leadsToDirectory_below (h : fs.Holds root tree) (wellFormed : tree.WellFormed)
    (linkFree : tree.LinkFree) (hleaf : leaf ∈ tree.leaves pruned) :
    fs.leadsToDirectory (root.below leaf.names) = false := by
  obtain ⟨content, hcontent⟩ := linkFree.exists_content wellFormed hleaf
  unfold leadsToDirectory
  rw [h.stat?_below wellFormed hleaf hcontent]

/-- What is read below the root depends on the names only. -/
theorem Holds.readText?_below (h : fs.Holds root tree) (wellFormed : tree.WellFormed)
    (linkFree : tree.LinkFree) (hleaf : leaf ∈ tree.leaves pruned) :
    fs.readText? (root.below leaf.names) =
      ((tree.get? leaf.names).bind FileTree.content?).bind Utf8.decode? := by
  obtain ⟨content, hcontent⟩ := linkFree.exists_content wellFormed hleaf
  rw [readText?_eq_bind, h.stat?_below wellFormed hleaf hcontent, hcontent]

end FileSystem

end contents

/-! ### The corpus -/

namespace Corpus

variable {fs fs' : FileSystem} {config : Config} {root root' : RawPath} {sourceNames : List Bytes}
  {entries : List (Bytes × FileTree)}

/-- The walk goes along the names below the root, whatever the root is called. -/
theorem paths_of_holds (h : fs.Holds root (.dir entries))
    (wellFormed : (FileTree.dir entries).WellFormed) (linkFree : (FileTree.dir entries).LinkFree) :
    paths fs (config.rootedAt root sourceNames) =
      ((FileTree.dir entries).leaves config.prunes).map fun leaf => root.below leaf.names := by
  obtain ⟨listed, hlisted, same⟩ := h.exists_dir
  have root_eq : (config.rootedAt root sourceNames).root = root := rfl
  have prunes_eq : (config.rootedAt root sourceNames).prunes = config.prunes := rfl
  unfold paths
  rw [root_eq, hlisted]
  show pathsBelow fs (config.rootedAt root sourceNames) (.dir listed) = _
  unfold pathsBelow
  rw [root_eq, prunes_eq, ← same.leaves_eq config.prunes wellFormed,
    List.filterMap_eq_map_iff_forall_eq_some]
  intro leaf hleaf
  simp [h.leadsToDirectory_below wellFormed linkFree hleaf]

/-- The files of the corpus are made of the leaves of the project. -/
theorem files_of_holds (h : fs.Holds root (.dir entries))
    (wellFormed : (FileTree.dir entries).WellFormed) (linkFree : (FileTree.dir entries).LinkFree) :
    (collect fs (config.rootedAt root sourceNames)).files =
      ((FileTree.dir entries).leaves config.prunes).filterMap fun leaf =>
        SourceFile.ofPath? (config.rootedAt root sourceNames) (root.below leaf.names) := by
  unfold collect
  rw [paths_of_holds h wellFormed linkFree]
  exact List.filterMap_map

/-- Every file of the corpus is at the end of a way from the root. -/
theorem exists_leaf_of_mem_files (h : fs.Holds root (.dir entries))
    (wellFormed : (FileTree.dir entries).WellFormed) (linkFree : (FileTree.dir entries).LinkFree)
    {file : SourceFile} (hfile : file ∈ (collect fs (config.rootedAt root sourceNames)).files) :
    ∃ leaf ∈ (FileTree.dir entries).leaves config.prunes, file.path = root.below leaf.names := by
  rw [files_of_holds h wellFormed linkFree, List.mem_filterMap] at hfile
  obtain ⟨leaf, hleaf, hofPath⟩ := hfile
  exact ⟨leaf, hleaf, SourceFile.path_ofPath? hofPath⟩

section twoRoots

variable (config) (isSourceName : ∀ name ∈ sourceNames, IsName name)
  (wellFormed : (FileTree.dir entries).WellFormed) (linkFree : (FileTree.dir entries).LinkFree)
  (h : fs.Holds root (.dir entries)) (h' : fs'.Holds root' (.dir entries))

include isSourceName wellFormed linkFree h h'

/-- The files at the second root are those at the first root, at other paths. -/
theorem files_relocated :
    (collect fs' (config.rootedAt root' sourceNames)).files =
      (collect fs (config.rootedAt root sourceNames)).files.map
        (SourceFile.mapPath (RawPath.rebase root root')) := by
  rw [files_of_holds h wellFormed linkFree, files_of_holds h' wellFormed linkFree,
    List.map_filterMap]
  apply List.filterMap_congr
  intro leaf hleaf
  obtain ⟨nonempty, isName⟩ := FileTree.isName_of_mem_leaves wellFormed hleaf
  exact SourceFile.ofPath?_below h.bytes_ne_nil h'.bytes_ne_nil isSourceName nonempty isName

/-- The same positions are those of candidates: the names of the files are the same. -/
theorem candidates_relocated :
    (collect fs' (config.rootedAt root' sourceNames)).candidates =
      (collect fs (config.rootedAt root sourceNames)).candidates := by
  have names : (collect fs' (config.rootedAt root' sourceNames)).files.map (·.fileName) =
      (collect fs (config.rootedAt root sourceNames)).files.map (·.fileName) := by
    rw [files_relocated config isSourceName wellFormed linkFree h h', List.map_map]
    rfl
  exact candidates_ofFiles_congr rfl names

/-- What is read of the files is the same at both roots. -/
theorem texts_relocated :
    Analysis.texts fs' (collect fs' (config.rootedAt root' sourceNames)) =
      Analysis.texts fs (collect fs (config.rootedAt root sourceNames)) := by
  unfold Analysis.texts
  rw [files_relocated config isSourceName wellFormed linkFree h h', List.map_map]
  apply List.map_congr_left
  intro file hfile
  obtain ⟨leaf, hleaf, hpath⟩ := exists_leaf_of_mem_files h wellFormed linkFree hfile
  obtain ⟨nonempty, isName⟩ := FileTree.isName_of_mem_leaves wellFormed hleaf
  show fs'.readText? (RawPath.rebase root root' file.path) = fs.readText? file.path
  rw [hpath, RawPath.rebase_below root' h.bytes_ne_nil nonempty isName,
    h.readText?_below wellFormed linkFree hleaf, h'.readText?_below wellFormed linkFree hleaf]

end twoRoots

end Corpus

/-! ### Usages -/

/-- A search through the texts carries the paths of the files along. -/
theorem Usage.firstReference?_map (f : RawPath → RawPath) (files : List SourceFile)
    (texts : List (Option Text)) (candidate : Nat) (via? : Text → Option Via) :
    firstReference? (files.map (SourceFile.mapPath f)) texts candidate via? =
      (firstReference? files texts candidate via?).map (Reference.mapPath f) := by
  unfold firstReference?
  rw [List.zip_map_left, List.zipIdx_map, List.findSome?_map, List.map_findSome?]
  congr 1
  funext ⟨⟨file, text⟩, position⟩
  show referenceIn? candidate via? (file.mapPath f, text) position =
    (referenceIn? candidate via? (file, text) position).map (Reference.mapPath f)
  unfold referenceIn?
  split
  · rfl
  · rw [Option.map_map]
    rfl

namespace Analysis

/-- The usage of a candidate with other paths is its usage, with these paths. -/
theorem usageOf_mapPath {fs fs' : FileSystem} {corpus corpus' : Corpus} {f : RawPath → RawPath}
    (files_eq : corpus'.files = corpus.files.map (SourceFile.mapPath f))
    (texts_eq : texts fs' corpus' = texts fs corpus) (strategy : Strategy) (candidate : Nat)
    (target : SourceFile) :
    usageOf fs' strategy corpus' candidate (target.mapPath f) =
      (usageOf fs strategy corpus candidate target).mapPath f := by
  unfold usageOf Usage.usageOf Usage.mapPath
  rw [files_eq, texts_eq, Usage.firstReference?_map]
  rfl

/-- At the second root the usages name the same files as at the first, at other paths. The positions
are the same at both, so the candidates can be compared one by one. -/
theorem usages_relocated {fs fs' : FileSystem} (config : Config) {root root' : RawPath}
    {sourceNames : List Bytes} {entries : List (Bytes × FileTree)}
    (isSourceName : ∀ name ∈ sourceNames, IsName name)
    (wellFormed : (FileTree.dir entries).WellFormed) (linkFree : (FileTree.dir entries).LinkFree)
    (h : fs.Holds root (.dir entries)) (h' : fs'.Holds root' (.dir entries)) :
    (run fs' (config.rootedAt root' sourceNames)).usages =
      (run fs (config.rootedAt root sourceNames)).usages.map
        (Usage.mapPath (RawPath.rebase root root')) := by
  have files_eq := Corpus.files_relocated config isSourceName wellFormed linkFree h h'
  have candidates_eq := Corpus.candidates_relocated config isSourceName wellFormed linkFree h h'
  have texts_eq := Corpus.texts_relocated config isSourceName wellFormed linkFree h h'
  refine (byStrategy_collect fs' _ config.strategy).trans
    (Eq.trans ?_ (congrArg _ (byStrategy_collect fs _ config.strategy).symm))
  rw [candidates_eq, List.map_filterMap]
  apply List.filterMap_congr
  intro candidate _
  rw [files_eq, List.getElem?_map, Option.map_map, Option.map_map]
  congr 1
  funext target
  exact usageOf_mapPath files_eq texts_eq config.strategy candidate target

/-- Two analyses are one and the same, made at two places: what is below `root` in the first one is
below `root'` in the second. -/
structure Relocated (root root' : RawPath) (first second : Analysis) : Prop where
  /-- Every file is below the first root, so that the other root can take its place. -/
  below_root : ∀ file ∈ first.corpus.files, ∃ names, names ≠ [] ∧ (∀ name ∈ names, IsName name) ∧
    file.path = root.below names ∧ RawPath.rebase root root' file.path = root'.below names
  /-- File by file the names and keys are the same. -/
  files_eq : second.corpus.files =
    first.corpus.files.map (SourceFile.mapPath (RawPath.rebase root root'))
  /-- The same files are candidates. -/
  candidates_eq : second.corpus.candidates = first.corpus.candidates
  /-- The usages are the same, with the other root in all paths. -/
  usages_eq : second.usages = first.usages.map (Usage.mapPath (RawPath.rebase root root'))

/-- **Relocation**: a run at another root finds out the same, with the other root in all paths.  The
two roots may be spelled in any way and may lie in different file systems, as long as the
directories that they lead to hold the same entries and no links. The source root moves along, as it
is given by names from the root. -/
theorem run_relocated (fs fs' : FileSystem) (config : Config) (root root' : RawPath)
    {sourceNames : List Bytes} {entries : List (Bytes × FileTree)}
    (isSourceName : ∀ name ∈ sourceNames, IsName name)
    (wellFormed : (FileTree.dir entries).WellFormed) (linkFree : (FileTree.dir entries).LinkFree)
    (h : fs.Holds root (.dir entries)) (h' : fs'.Holds root' (.dir entries)) :
    Relocated root root' (run fs (config.rootedAt root sourceNames))
      (run fs' (config.rootedAt root' sourceNames)) where
  below_root := by
    intro file hfile
    obtain ⟨leaf, hleaf, hpath⟩ := Corpus.exists_leaf_of_mem_files h wellFormed linkFree hfile
    obtain ⟨nonempty, isName⟩ := FileTree.isName_of_mem_leaves wellFormed hleaf
    refine ⟨leaf.names, nonempty, isName, hpath, ?_⟩
    rw [hpath, RawPath.rebase_below root' h.bytes_ne_nil nonempty isName]
  files_eq := Corpus.files_relocated config isSourceName wellFormed linkFree h h'
  candidates_eq := Corpus.candidates_relocated config isSourceName wellFormed linkFree h h'
  usages_eq := usages_relocated config isSourceName wellFormed linkFree h h'

/-- A component and the page that imports it by its path, next to a generated file. -/
def copiedEntries : List (Bytes × FileTree) :=
  [(Utf8.encode "src".toList, .dir [
      (Utf8.encode "ui".toList, .dir [(Utf8.encode "nav.ts".toList, .file [])]),
      (Utf8.encode "app.ts".toList, .file (Utf8.encode "'ui/nav'".toList))]),
    (Utf8.encode "gen".toList, .dir [(Utf8.encode "all.ts".toList, .file [])])]

/-- A project and a copy of it in a directory that has the name of the generated files. -/
def projectAndCopy : FileSystem where
  top := .dir [(Utf8.encode "site".toList, .dir copiedEntries),
    (Utf8.encode "gen".toList, .dir copiedEntries)]
  workingDir := []

/-- There are no links among the entries, directory by directory. -/
theorem linkFree_copiedEntries : (FileTree.dir copiedEntries).LinkFree := by
  have alone (name content : Bytes) : (FileTree.dir [(name, .file content)]).LinkFree := by
    apply FileTree.linkFree_dir
    simpa using FileTree.linkFree_file content
  have src : (FileTree.dir [
      (Utf8.encode "ui".toList, .dir [(Utf8.encode "nav.ts".toList, .file [])]),
      (Utf8.encode "app.ts".toList, .file (Utf8.encode "'ui/nav'".toList))]).LinkFree := by
    apply FileTree.linkFree_dir
    simpa using ⟨alone _ _, FileTree.linkFree_file _⟩
  apply FileTree.linkFree_dir
  simpa [copiedEntries] using ⟨src, alone _ _⟩

/-- Generated files are left out. -/
def copiedConfig : Config :=
  (Config.ofRoot (.ofText "/".toList)).withExcludeDirs ["gen".toList]

/-- Where the project is. -/
def projectRoot : RawPath := .ofText "/site".toList

/-- Where the copy is, in a roundabout way. -/
def copyRoot : RawPath := .ofText "/site/../gen/".toList

/-- The project stands where it should. -/
theorem holds_project : projectAndCopy.Holds projectRoot (.dir copiedEntries) :=
  ⟨.dir copiedEntries, by cbv, .refl _⟩

/-- So does the copy, although its path goes up from the project first. -/
theorem holds_copy : projectAndCopy.Holds copyRoot (.dir copiedEntries) :=
  ⟨.dir copiedEntries, by cbv, .refl _⟩

/-- The generated file is left out at both places. The copy is not, although its directory has the
same name. -/
theorem run_relocated_copy :
    (∀ name ∈ [Utf8.encode "src".toList], IsName name) ∧
      (FileTree.dir copiedEntries).WellFormed ∧ (FileTree.dir copiedEntries).LinkFree ∧
      projectAndCopy.Holds projectRoot (.dir copiedEntries) ∧
      projectAndCopy.Holds copyRoot (.dir copiedEntries) ∧
      Relocated projectRoot copyRoot
        (run projectAndCopy (copiedConfig.rootedAt projectRoot [Utf8.encode "src".toList]))
        (run projectAndCopy (copiedConfig.rootedAt copyRoot [Utf8.encode "src".toList])) ∧
      (run projectAndCopy (copiedConfig.rootedAt copyRoot [Utf8.encode "src".toList])).usages =
        [⟨.ofText "/site/../gen/src/app.ts".toList, none⟩,
          ⟨.ofText "/site/../gen/src/ui/nav.ts".toList,
            some ⟨.ofText "/site/../gen/src/app.ts".toList, .path⟩⟩] := by
  have isSourceName : ∀ name ∈ [Utf8.encode "src".toList], IsName name := by decide
  have wellFormed : (FileTree.dir copiedEntries).WellFormed := by decide
  refine ⟨isSourceName, wellFormed, linkFree_copiedEntries, holds_project, holds_copy, ?_, ?_⟩
  · exact run_relocated projectAndCopy projectAndCopy copiedConfig projectRoot copyRoot
      isSourceName wellFormed linkFree_copiedEntries holds_project holds_copy
  · cbv

end Analysis

end Orphans
