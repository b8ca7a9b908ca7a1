import Mathlib
import Orphans.Proofs.Corpus

/-!
# What the walk finds

`Corpus.collect_isDiscovery`: under a root that leads to a directory, the corpus has the source
files that are reached from there through directories, each of them once, and no others. A way to a
file goes through directories only, none of them a link and none with a name that is left out; at
its end stands a regular file, or a link that does not lead to a directory, under a name with an
extension that is searched for. The candidates are the files among them that are no entry points.

The leaves of a tree are described first, by an induction on the directories of the way
(`FileTree.mem_leaves_concat_iff`): the walk takes one directory of the way after the other, and the
names on the way decide where it goes because no directory has two entries of the same name.

From the leaves the corpus is made in three steps, each with a lemma of its own: links to
directories are dropped (`mem_pathsBelow_iff_enters`), names without an extension that is searched
for are dropped (`mem_map_path_collect_iff`), and of what is left the entry points are no candidates
(`isImplicit_eq_false_iff`). The root itself may be reached through a link: only the ways below it
are without links.
-/

namespace Orphans

/-! ### Ways to leaves -/

namespace FileTree

variable {pruned : Bytes → Bool} {tree : FileTree} {name : Bytes} {rest : List Bytes}
  {isLink : Bool}

/-- The walk through a tree goes into every directory on a way: none is a link, and none has a name
that is pruned. -/
def Enters (pruned : Bytes → Bool) (tree : FileTree) (directories : List Bytes) : Prop :=
  ∀ before name after, directories = before ++ name :: after →
    (∃ entries, tree.get? (before ++ [name]) = some (.dir entries)) ∧ pruned name = false

/-- There is nothing to enter on the way without directories. -/
theorem enters_nil : Enters pruned tree [] := by
  intro before name after h
  simp at h

/-- The walk enters the directories of a way one after the other. `Enters` speaks of every directory
on the way at once; this is the form in which an induction meets it. -/
theorem enters_cons_iff :
    Enters pruned tree (name :: rest) ↔
      ∃ entries, tree.entries.lookup name = some (.dir entries) ∧ pruned name = false ∧
        Enters pruned (.dir entries) rest := by
  constructor
  · intro h
    obtain ⟨⟨entries, hentries⟩, kept⟩ := h [] name rest rfl
    have hlookup : tree.entries.lookup name = some (.dir entries) := by
      rw [List.nil_append, get?_cons, Option.bind_eq_some_iff] at hentries
      obtain ⟨child, hchild, same⟩ := hentries
      rw [hchild]
      exact same
    refine ⟨entries, hlookup, kept, ?_⟩
    intro before next after hrest
    have inside := h (name :: before) next after (by rw [hrest, List.cons_append])
    rwa [List.cons_append, get?_cons, hlookup, Option.bind_some] at inside
  · rintro ⟨entries, hlookup, kept, h⟩ before next after hnames
    -- the directory asked about is the first one, or one behind it
    rcases before with _ | ⟨first, before⟩
    · obtain ⟨rfl, -⟩ := List.cons.inj hnames
      refine ⟨⟨entries, ?_⟩, kept⟩
      rw [List.nil_append, get?_cons, hlookup]
      rfl
    · obtain ⟨rfl, hrest⟩ := List.cons.inj hnames
      rw [List.cons_append, get?_cons, hlookup, Option.bind_some]
      exact h before next after hrest

/-- A leaf under a name is a leaf of the entry of that name. -/
theorem mem_leaves_cons_iff (wellFormed : tree.WellFormed) :
    ⟨name :: rest, isLink⟩ ∈ tree.leaves pruned ↔
      ∃ child, tree.entries.lookup name = some child ∧
        ⟨name :: rest, isLink⟩ ∈ child.leavesAs pruned name := by
  rw [mem_leaves_iff]
  constructor
  · rintro ⟨⟨other, child⟩, hentry, hleaf⟩
    obtain ⟨rest', hnames⟩ := names_of_mem_leavesAs hleaf
    obtain ⟨rfl, -⟩ := List.cons.inj hnames
    exact ⟨child, lookup_of_mem wellFormed.nodup_entries hentry, hleaf⟩
  · rintro ⟨child, hchild, hleaf⟩
    exact ⟨(name, child), mem_of_lookup_eq_some hchild, hleaf⟩

/-- The leaves of a directory under its name are its leaves as a root, one name further down, unless
it is pruned. -/
theorem mem_leavesAs_dir_iff {entries : List (Bytes × FileTree)} :
    ⟨name :: rest, isLink⟩ ∈ (dir entries).leavesAs pruned name ↔
      pruned name = false ∧ ⟨rest, isLink⟩ ∈ (dir entries).leaves pruned := by
  rw [leavesAs_dir]
  rcases pruned name with _ | _
  · rw [if_neg Bool.false_ne_true, List.mem_map]
    constructor
    · rintro ⟨leaf, hleaf, same⟩
      obtain ⟨hnames, hlink⟩ := Leaf.mk.inj same
      obtain ⟨-, rfl⟩ := List.cons.inj hnames
      exact ⟨rfl, hlink ▸ hleaf⟩
    · rintro ⟨-, hleaf⟩
      exact ⟨_, hleaf, rfl⟩
  · simp

/-- A directory is no leaf of itself. -/
theorem not_mem_leaves_nil (wellFormed : tree.WellFormed) : ⟨[], isLink⟩ ∉ tree.leaves pruned :=
  fun h => (isName_of_mem_leaves wellFormed h).1 rfl

/-- A leaf whose way goes through directories is what stands at the end of that way and is no
directory, if the walk enters all of them. -/
theorem mem_leaves_concat_iff (wellFormed : tree.WellFormed) {directories : List Bytes} :
    ⟨directories ++ [name], isLink⟩ ∈ tree.leaves pruned ↔
      Enters pruned tree directories ∧ ∃ found, tree.get? (directories ++ [name]) = some found ∧
        (∀ entries, found ≠ .dir entries) ∧ isLink = found.isLink := by
  -- on the directories of the way; the last entry is the base case
  induction directories generalizing tree with
  | nil =>
    rw [List.nil_append, mem_leaves_cons_iff wellFormed, get?_cons]
    constructor
    · rintro ⟨child, hchild, hleaf⟩
      refine ⟨enters_nil, child, by rw [hchild]; rfl, ?_⟩
      rcases child with content | target | entries
      · obtain ⟨-, rfl⟩ := Leaf.mk.inj (List.mem_singleton.mp hleaf)
        exact ⟨fun _ => nofun, rfl⟩
      · obtain ⟨-, rfl⟩ := Leaf.mk.inj (List.mem_singleton.mp hleaf)
        exact ⟨fun _ => nofun, rfl⟩
      · -- a directory at the end of the way has leaves of its own, but is none
        have below := wellFormed.of_mem_entries (mem_of_lookup_eq_some hchild)
        exact absurd (mem_leavesAs_dir_iff.mp hleaf).2 (not_mem_leaves_nil below)
    · rintro ⟨-, found, hfound, notDir, rfl⟩
      obtain ⟨child, hchild, same⟩ := Option.bind_eq_some_iff.mp hfound
      obtain rfl := Option.some_inj.mp same
      refine ⟨child, hchild, ?_⟩
      rcases child with content | target | entries
      · exact List.mem_singleton.mpr rfl
      · exact List.mem_singleton.mpr rfl
      · exact absurd rfl (notDir entries)
  | cons directory directories ih =>
    rw [List.cons_append, mem_leaves_cons_iff wellFormed, get?_cons, enters_cons_iff]
    constructor
    · rintro ⟨child, hchild, hleaf⟩
      rcases child with content | target | entries
      · simp [leavesAs] at hleaf
      · simp [leavesAs] at hleaf
      · have below := wellFormed.of_mem_entries (mem_of_lookup_eq_some hchild)
        -- the walk entered the first directory, and the rest of the way is one in there
        obtain ⟨kept, hleaf⟩ := mem_leavesAs_dir_iff.mp hleaf
        obtain ⟨enters, hfound⟩ := (ih below).mp hleaf
        exact ⟨⟨entries, hchild, kept, enters⟩, by rwa [hchild, Option.bind_some]⟩
    · rintro ⟨⟨entries, hlookup, kept, enters⟩, hfound⟩
      have below := wellFormed.of_mem_entries (mem_of_lookup_eq_some hlookup)
      rw [hlookup, Option.bind_some] at hfound
      exact ⟨.dir entries, hlookup,
        mem_leavesAs_dir_iff.mpr ⟨kept, (ih below).mpr ⟨enters, hfound⟩⟩⟩

end FileTree

/-! ### Files to find -/

/-- A directory is left out if its name is a text among those to leave out. -/
theorem Config.prunes_eq_false_iff {config : Config} {name : Bytes} :
    config.prunes name = false ↔
      ∀ text, Utf8.decode? name = some text → text ∉ config.excludeDirs := by
  unfold prunes
  rcases Utf8.decode? name with _ | text
  · simp
  · simp [← Bool.not_eq_true, Std.ExtTreeSet.contains_iff_mem]

/-- A name has an extension that is searched for. The extension must be a text, as those that are
searched for are; what comes before it need not be one. -/
def Config.Recognises (config : Config) (name : Bytes) : Prop :=
  ∃ bytes extension, (splitExtension name).2 = some bytes ∧ Utf8.decode? bytes = some extension ∧
    extension ∈ config.extensions

namespace Corpus

/-- What stands at the end of a path is read as a file: a regular file is, and so is a link that
does not lead to a directory, also one that leads nowhere. -/
def IsReadAsFile (fs : FileSystem) (path : RawPath) : FileTree → Prop
  | .file _ => True
  | .link _ => ∀ entries, fs.stat? path ≠ some (.dir entries)
  | .dir _ => False

/-- From the directory `root` a way goes through `directories` to a source file called `name`. -/
structure IsWayToFile (fs : FileSystem) (config : Config) (root : FileTree)
    (directories : List Bytes) (name : Bytes) : Prop where
  /-- Everything on the way is a directory and no link, and none has a name that is left out; a
  name that is no text never is. -/
  enters : ∀ before directory after, directories = before ++ directory :: after →
    (∃ entries, root.get? (before ++ [directory]) = some (.dir entries)) ∧
      ∀ text, Utf8.decode? directory = some text → text ∉ config.excludeDirs
  /-- At the end stands a regular file, or a link that does not lead to a directory. -/
  isReadAsFile : ∃ found, root.get? (directories ++ [name]) = some found ∧
    IsReadAsFile fs (config.root.below (directories ++ [name])) found
  /-- Its name has an extension that is searched for. -/
  recognises : config.Recognises name

/-- A corpus is what is found in the directory `root` under a configuration. This tells the files as
a set, and the candidates as a set of positions; in which order they come is told by
`Corpus.IsOrdered`. -/
structure IsDiscovery (fs : FileSystem) (config : Config) (root : FileTree) (corpus : Corpus) :
    Prop where
  /-- The files are those to which a way goes from the root. -/
  mem_paths_iff : ∀ path, path ∈ corpus.files.map (·.path) ↔
    ∃ directories name, IsWayToFile fs config root directories name ∧
      path = config.root.below (directories ++ [name])
  /-- Each occurs once. -/
  nodup_paths : (corpus.files.map (·.path)).Nodup
  /-- The candidates are the files with other names than those of the entry points. -/
  mem_candidates_iff : ∀ i, i ∈ corpus.candidates ↔
    ∃ file directories name, corpus.files[i]? = some file ∧
      IsWayToFile fs config root directories name ∧
      file.path = config.root.below (directories ++ [name]) ∧
      Utf8.decodeLossy name ∉ config.implicitFiles
  /-- Each candidate is listed once. -/
  nodup_candidates : corpus.candidates.Nodup

variable {fs : FileSystem} {config : Config} {root : FileTree} {directories : List Bytes}
  {name : Bytes}

/-! ### The paths of a run -/

/-- A path does not lead to a directory exactly when nothing that it leads to is one. -/
theorem leadsToDirectory_eq_false_iff {path : RawPath} :
    fs.leadsToDirectory path = false ↔ ∀ entries, fs.stat? path ≠ some (.dir entries) := by
  unfold FileSystem.leadsToDirectory
  rcases fs.stat? path with _ | content | target | entries <;> simp

/-- What is read as a file, told as the walk decides it: no directory, and no link to one. -/
theorem isReadAsFile_iff {path : RawPath} {found : FileTree} :
    IsReadAsFile fs path found ↔
      (∀ entries, found ≠ .dir entries) ∧ (found.isLink && fs.leadsToDirectory path) = false := by
  rcases found with content | target | entries
  · simp [IsReadAsFile, FileTree.isLink]
  · simp [IsReadAsFile, FileTree.isLink, leadsToDirectory_eq_false_iff]
  · simp [IsReadAsFile]

/-- The paths below a directory are those of its leaves, without the links that lead to directories.
-/
theorem mem_pathsBelow_iff {path : RawPath} :
    path ∈ pathsBelow fs config root ↔
      ∃ leaf ∈ root.leaves config.prunes,
        (leaf.isLink && fs.leadsToDirectory (config.root.below leaf.names)) = false ∧
          path = config.root.below leaf.names := by
  unfold pathsBelow
  rw [List.mem_filterMap]
  refine exists_congr fun leaf => and_congr_right fun _ => ?_
  dsimp only
  rcases leaf.isLink && fs.leadsToDirectory (config.root.below leaf.names) with _ | _
  · simp [eq_comm]
  · simp

/-- The paths below a directory are those of the ways to what is read as a file. Every leaf has a
last name, which is that of the file, and the names before it are directories. -/
theorem mem_pathsBelow_iff_enters (wellFormed : root.WellFormed) {path : RawPath} :
    path ∈ pathsBelow fs config root ↔
      ∃ directories name, FileTree.Enters config.prunes root directories ∧
        (∃ found, root.get? (directories ++ [name]) = some found ∧
          IsReadAsFile fs (config.root.below (directories ++ [name])) found) ∧
        path = config.root.below (directories ++ [name]) := by
  rw [mem_pathsBelow_iff]
  constructor
  · rintro ⟨⟨names, isLink⟩, hleaf, hlink, rfl⟩
    have nonempty := (FileTree.isName_of_mem_leaves wellFormed hleaf).1
    obtain ⟨directories, name, rfl⟩ := (List.eq_nil_or_concat names).resolve_left nonempty
    rw [List.concat_eq_append] at hleaf hlink ⊢
    obtain ⟨enters, found, hfound, notDir, rfl⟩ :=
      (FileTree.mem_leaves_concat_iff wellFormed).mp hleaf
    exact ⟨directories, name, enters, ⟨found, hfound, isReadAsFile_iff.mpr ⟨notDir, hlink⟩⟩, rfl⟩
  · rintro ⟨directories, name, enters, ⟨found, hfound, readAsFile⟩, rfl⟩
    obtain ⟨notDir, hlink⟩ := isReadAsFile_iff.mp readAsFile
    exact ⟨⟨directories ++ [name], found.isLink⟩, (FileTree.mem_leaves_concat_iff wellFormed).mpr
      ⟨enters, found, hfound, notDir, rfl⟩, hlink, rfl⟩

/-! ### The files of a run -/

/-- A way to a source file goes through directories that the walk enters, to what is read as a file,
under a name with an extension that is searched for. -/
theorem isWayToFile_iff :
    IsWayToFile fs config root directories name ↔
      FileTree.Enters config.prunes root directories ∧
        (∃ found, root.get? (directories ++ [name]) = some found ∧
          IsReadAsFile fs (config.root.below (directories ++ [name])) found) ∧
        config.Recognises name := by
  unfold FileTree.Enters
  simp only [Config.prunes_eq_false_iff]
  exact ⟨fun h => ⟨h.enters, h.isReadAsFile, h.recognises⟩, fun h => ⟨h.1, h.2.1, h.2.2⟩⟩

/-- The path of a source file ends with its name. -/
theorem IsWayToFile.fileName?_below (wellFormed : root.WellFormed)
    (h : IsWayToFile fs config root directories name) :
    (config.root.below (directories ++ [name])).fileName? = some name := by
  obtain ⟨found, hfound, -⟩ := h.isReadAsFile
  have isName := wellFormed.isName_of_get? hfound name (by simp)
  rw [RawPath.below_concat, RawPath.fileName?_join _ isName]

/-- A path stands for a source file if its file name has an extension that is searched for. -/
theorem exists_ofPath?_iff {path : RawPath} :
    (∃ file, SourceFile.ofPath? config path = some file) ↔
      ∃ name, path.fileName? = some name ∧ config.Recognises name := by
  simp only [SourceFile.ofPath?_eq_some_iff]
  constructor
  · rintro ⟨file, name, bytes, extension, hname, hbytes, hextension, member, -⟩
    exact ⟨name, hname, bytes, extension, hbytes, hextension, member⟩
  · rintro ⟨name, hname, bytes, extension, hbytes, hextension, member⟩
    exact ⟨_, name, bytes, extension, hname, hbytes, hextension, member, rfl⟩

/-- The paths of the files of a corpus are those that a run looks at and whose name has an extension
that is searched for. -/
theorem mem_map_path_collect_iff {path : RawPath} :
    path ∈ (collect fs config).files.map (·.path) ↔
      path ∈ paths fs config ∧ ∃ name, path.fileName? = some name ∧ config.Recognises name := by
  rw [List.mem_map, ← exists_ofPath?_iff]
  simp only [mem_files_collect]
  constructor
  · rintro ⟨file, ⟨path', hpath', hfile⟩, rfl⟩
    rw [SourceFile.path_ofPath? hfile]
    exact ⟨hpath', file, hfile⟩
  · rintro ⟨hpath, file, hfile⟩
    exact ⟨file, ⟨path, hpath, hfile⟩, SourceFile.path_ofPath? hfile⟩

/-- Under a root that leads to a directory a run looks at the paths below that directory. -/
theorem paths_eq_pathsBelow {entries : List (Bytes × FileTree)}
    (hroot : fs.stat? config.root = some (.dir entries)) :
    paths fs config = pathsBelow fs config (.dir entries) := by
  unfold paths
  rw [hroot]

/-- The files of a corpus are exactly those to which a way goes from the root. What is added to the
paths that are looked at is that the last name has an extension that is searched for. -/
theorem mem_map_path_collect_iff_isWayToFile (wellFormed : fs.top.WellFormed)
    {entries : List (Bytes × FileTree)} (hroot : fs.stat? config.root = some (.dir entries))
    {path : RawPath} :
    path ∈ (collect fs config).files.map (·.path) ↔
      ∃ directories name, IsWayToFile fs config (.dir entries) directories name ∧
        path = config.root.below (directories ++ [name]) := by
  obtain ⟨position, -, hdir⟩ := FileSystem.exists_resolve_of_stat? hroot
  have below : (FileTree.dir entries).WellFormed := wellFormed.get? hdir
  rw [mem_map_path_collect_iff, paths_eq_pathsBelow hroot, mem_pathsBelow_iff_enters below]
  constructor
  · rintro ⟨⟨directories, name, enters, ⟨found, hfound, readAsFile⟩, rfl⟩, last, hlast, recognised⟩
    -- the file name of the path is the last name on the way
    have isName := below.isName_of_get? hfound name (by simp)
    rw [RawPath.below_concat, RawPath.fileName?_join _ isName, Option.some_inj] at hlast
    subst hlast
    exact ⟨directories, name,
      isWayToFile_iff.mpr ⟨enters, ⟨found, hfound, readAsFile⟩, recognised⟩, rfl⟩
  · rintro ⟨directories, name, way, rfl⟩
    obtain ⟨enters, readAsFile, recognised⟩ := isWayToFile_iff.mp way
    exact ⟨⟨directories, name, enters, readAsFile, rfl⟩, name, way.fileName?_below below,
      recognised⟩

/-- The name of a source file as it is shown is the last name on the way to it. -/
theorem fileName_eq_of_isWayToFile (wellFormed : root.WellFormed) {file : SourceFile}
    (hfile : file ∈ (collect fs config).files)
    (way : IsWayToFile fs config root directories name)
    (hpath : file.path = config.root.below (directories ++ [name])) :
    file.fileName = Utf8.decodeLossy name := by
  obtain ⟨path, -, hofPath⟩ := mem_files_collect.mp hfile
  have shown := SourceFile.fileName?_ofPath? hofPath
  rw [← SourceFile.path_ofPath? hofPath, hpath, way.fileName?_below wellFormed, Option.map_some,
    Option.some_inj] at shown
  exact shown.symm

/-- Whether a source file is an entry point is told by the last name on the way to it. -/
theorem isImplicit_eq_false_iff (wellFormed : root.WellFormed) {file : SourceFile}
    (hfile : file ∈ (collect fs config).files)
    (way : IsWayToFile fs config root directories name)
    (hpath : file.path = config.root.below (directories ++ [name])) :
    file.isImplicit config = false ↔ Utf8.decodeLossy name ∉ config.implicitFiles := by
  unfold SourceFile.isImplicit
  rw [fileName_eq_of_isWayToFile wellFormed hfile way hpath, ← Std.ExtTreeSet.contains_iff_mem,
    Bool.not_eq_true]

/-- **What the walk finds**: under a root that leads to a directory a run collects all source files
to which a way goes from there, each of them once, and its candidates are those that are no entry
points.  The root itself may be a link to that directory. Links to directories below it are not gone
through, so a file that can only be reached through one is not found. -/
theorem collect_isDiscovery (fs : FileSystem) (config : Config) (wellFormed : fs.top.WellFormed)
    {entries : List (Bytes × FileTree)} (hroot : fs.stat? config.root = some (.dir entries)) :
    IsDiscovery fs config (.dir entries) (collect fs config) where
  mem_paths_iff _ := mem_map_path_collect_iff_isWayToFile wellFormed hroot
  nodup_paths := nodup_paths_collect config wellFormed
  mem_candidates_iff := by
    intro i
    obtain ⟨position, -, hdir⟩ := FileSystem.exists_resolve_of_stat? hroot
    have below : (FileTree.dir entries).WellFormed := wellFormed.get? hdir
    refine mem_candidates_ofFiles.trans ?_
    constructor
    · rintro ⟨file, hfile, notImplicit⟩
      -- a way goes to every file that is collected, and its last name is what an entry point is
      -- known by
      have member : file ∈ (collect fs config).files := List.mem_of_getElem? hfile
      obtain ⟨directories, name, way, hpath⟩ :=
        (mem_map_path_collect_iff_isWayToFile wellFormed hroot).mp
          (List.mem_map.mpr ⟨file, member, rfl⟩)
      exact ⟨file, directories, name, hfile, way, hpath,
        (isImplicit_eq_false_iff below member way hpath).mp notImplicit⟩
    · rintro ⟨file, directories, name, hfile, way, hpath, notImplicit⟩
      have member : file ∈ (collect fs config).files := List.mem_of_getElem? hfile
      exact ⟨file, hfile, (isImplicit_eq_false_iff below member way hpath).mpr notImplicit⟩
  nodup_candidates := (pairwise_lt_candidates fs config).imp fun h => Nat.ne_of_lt h

/-- A link that leads nowhere, generated files in a directory of nearly the same name, a directory
whose name is no text, a link to it, and a page. -/
def projectEntries : List (Bytes × FileTree) :=
  [(Utf8.encode "gen.ts".toList, .link (Utf8.encode "gone".toList)),
    (Utf8.encode "gen".toList, .dir [(Utf8.encode "all.ts".toList, .file [])]),
    ([0xFF], .dir [(Utf8.encode "nav.ts".toList, .file [])]),
    (Utf8.encode "copy.ts".toList, .link [0xFF]),
    (Utf8.encode "page.tsx".toList, .file [])]

/-- A project with a link to its directory. -/
def linkedProject : FileSystem where
  top := .dir [(Utf8.encode "site".toList, .link (Utf8.encode "project".toList)),
    (Utf8.encode "project".toList, .dir projectEntries)]
  workingDir := []

/-- The generated files and the linked directory are left out, and the page is no candidate. The
names to leave out do not concern the link that leads nowhere. -/
theorem collect_isDiscovery_linkedProject :
    let config := (Config.ofRoot (.ofText "/site".toList)).withExcludeDirs
      ["gen".toList, "gen.ts".toList]
    linkedProject.top.WellFormed ∧
      linkedProject.stat? config.root = some (.dir projectEntries) ∧
      IsDiscovery linkedProject config (.dir projectEntries) (collect linkedProject config) ∧
      (collect linkedProject config).files.map (·.path) =
        [.ofText "/site/gen.ts".toList, .ofText "/site/page.tsx".toList,
          ⟨Utf8.encode "/site/".toList ++ 0xFF :: Utf8.encode "/nav.ts".toList⟩] ∧
      (collect linkedProject config).candidates = [0, 2] := by
  intro config
  have wellFormed : linkedProject.top.WellFormed := by decide
  have hroot : linkedProject.stat? config.root = some (.dir projectEntries) := by cbv
  refine ⟨wellFormed, hroot, collect_isDiscovery linkedProject config wellFormed hroot, ?_, ?_⟩
  · cbv
  · cbv

end Corpus

end Orphans
