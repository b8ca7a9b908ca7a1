import Mathlib
import Orphans.Proofs.Components
import Orphans.Proofs.Corpus
import Orphans.Proofs.Spelling
import Orphans.Proofs.Utf8

/-!
# Where the keys of a file come from

`SourceFile.ofPath?_isDerived`: which paths are those of source files, and the keys of these, are
told by the components of the path and of the two roots. The name key is the last name up to its
last dot. The path key has the names that are left without the source root or the root
(`SourceFile.remainder`), with the name key in the place of the last one.

The extension is taken off the spelling, so a stem of one or two dots is no name any more and the
path key does without it (`RawPath.names_withoutExtension`). Names are read one by one as texts, and
a name key and an extension are too, since a dot is a byte of ASCII
(`Utf8.decodeLossy_append_cons`).

All parts but the path itself depend on the components only, so two spellings of one path make the
same file with another path (`SourceFile.ofPath?_congr`). For that every function on the way is
shown to give paths with the same components for paths with the same components.
-/

namespace Orphans

/-! ### Stems and extensions -/

/-- A name is cut at its last dot, unless that is its first byte. The stem may hold further dots,
and the extension may be empty. -/
theorem splitExtension_eq_some_iff {name stem extension : Bytes} :
    splitExtension name = (stem, some extension) ↔
      name = stem ++ dot :: extension ∧ stem ≠ [] ∧ dot ∉ extension := by
  unfold splitExtension
  constructor
  · intro h
    split at h
    · next b first before found =>
      -- the extension is what the reversed name begins with up to its first dot
      have inside : ∀ c ∈ name.reverse.takeWhile (· != dot), c ≠ dot := by
        intro c hc
        simpa using List.mem_takeWhile_imp hc
      have whole := List.takeWhile_append_dropWhile (p := (· != dot)) (l := name.reverse)
      have isDot : b = dot := by
        have stops := List.head?_dropWhile_not (· != dot) name.reverse
        rw [found] at stops
        simpa using stops
      cases h
      refine ⟨?_, by simp, ?_⟩
      · rw [found, isDot] at whole
        have back := congrArg List.reverse whole
        rw [List.reverse_reverse] at back
        simpa using back.symm
      · intro hdot
        exact inside dot (List.mem_reverse.mp hdot) rfl
    · cases h
  · rintro ⟨rfl, nonempty, noDot⟩
    obtain ⟨before, first, rfl⟩ := (List.eq_nil_or_concat stem).resolve_left nonempty
    have inside : ∀ c ∈ extension.reverse, (c != dot) = true := by
      intro c hc
      have ne : c ≠ dot := fun h => noDot (h ▸ List.mem_reverse.mp hc)
      simpa using ne
    have spelled : (before.concat first ++ dot :: extension).reverse =
        extension.reverse ++ dot :: first :: before.reverse := by simp
    rw [spelled, List.dropWhile_append_of_pos inside, List.takeWhile_append_of_pos inside]
    simp

/-- A path ends with a name that is made of a stem, a dot and an extension. The dot is the last one
of the name, and not its first byte. The stem may be any bytes, the extension is a text. -/
structure RawPath.EndsWith (path : RawPath) (stem : Bytes) (extension : Text) : Prop where
  /-- A name that begins with its only dot has no extension. -/
  stem_ne_nil : stem ≠ []
  /-- The dot before the extension is the last one. -/
  dot_not_mem : dot ∉ Utf8.encode extension
  /-- The name is the last component of the path, so it is neither `.` nor `..`. -/
  getLast?_eq :
    path.components.getLast? = some (.normal (stem ++ dot :: Utf8.encode extension))

namespace RawPath

variable {path other : RawPath} {stem : Bytes} {extension : Text}

/-- Such a name is cut into that stem and that extension. -/
theorem EndsWith.splitExtension_eq (h : path.EndsWith stem extension) :
    splitExtension (stem ++ dot :: Utf8.encode extension) = (stem, some (Utf8.encode extension)) :=
  splitExtension_eq_some_iff.mpr ⟨rfl, h.stem_ne_nil, h.dot_not_mem⟩

/-- And it is the file name of the path. -/
theorem EndsWith.fileName?_eq (h : path.EndsWith stem extension) :
    path.fileName? = some (stem ++ dot :: Utf8.encode extension) := by
  rw [fileName?, h.getLast?_eq, Option.bind_some]
  rfl

/-- The file name does not depend on the spelling. -/
theorem fileName?_congr (same : path.components = other.components) :
    path.fileName? = other.fileName? := by
  rw [fileName?, fileName?, same]

/-- Taking the extension off keeps the difference between two spellings only if there is none. -/
theorem components_withoutExtension_congr (same : path.components = other.components) :
    path.withoutExtension.components = other.withoutExtension.components := by
  have extensions : path.extension? = other.extension? := by
    rw [extension?, extension?, fileName?_congr same]
  unfold withoutExtension
  rw [← extensions, same]
  rcases path.extension? with _ | extension
  · exact same
  · rfl

end RawPath

namespace SourceFile

variable {config : Config} {path other : RawPath} {file : SourceFile} {stem : Bytes}
  {extension : Text}

/-- The paths of source files are those that end with an extension that is searched for. All parts
of the file are told by the stem, the extension and the two roots. -/
theorem ofPath?_eq_some_iff_endsWith :
    ofPath? config path = some file ↔
      ∃ stem, ∃ extension ∈ config.extensions, path.EndsWith stem extension ∧
        file = ⟨path, Utf8.decodeLossy (stem ++ dot :: Utf8.encode extension), extension,
          Utf8.decodeLossy stem, pathKeyOf config path⟩ := by
  rw [ofPath?_eq_some_iff]
  constructor
  · rintro ⟨name, bytes, extension, hname, hbytes, hextension, member, rfl⟩
    obtain rfl := Utf8.decode?_eq_some_iff.mp hextension
    -- the name is stem, dot and extension, and the extension is the last part without a dot
    obtain ⟨hsplit, nonempty, noDot⟩ := splitExtension_eq_some_iff.mp
      (show splitExtension name = ((splitExtension name).1, some _) from Prod.ext rfl hbytes)
    refine ⟨(splitExtension name).1, extension, member, ⟨nonempty, noDot, ?_⟩, ?_⟩
    · obtain ⟨c, hc, hcname⟩ := Option.bind_eq_some_iff.mp hname
      cases c <;> cases hcname
      rw [hc, ← hsplit]
    · rw [← hsplit]
  · rintro ⟨stem, extension, member, ends, rfl⟩
    have cut := ends.splitExtension_eq
    refine ⟨_, Utf8.encode extension, extension, ends.fileName?_eq, ?_,
      Utf8.decode?_eq_some_iff.mpr rfl, member, ?_⟩
    · rw [cut]
    · rw [cut]

/-! ### What is left of a path -/

/-- The components that are left of a path without those of the source root, if it begins with them,
or else without those of the root, if it begins with these. A path that begins with neither is left
as it is. -/
def remainder (config : Config) (path : RawPath) : List Component :=
  if config.sourceRoot.components <+: path.components then
    path.components.drop config.sourceRoot.components.length
  else if config.root.components <+: path.components then
    path.components.drop config.root.components.length
  else path.components

/-- What is left of a path is an end of its components, in every case. -/
theorem exists_remainder_eq_drop (config : Config) (path : RawPath) :
    ∃ n, remainder config path = path.components.drop n := by
  unfold remainder
  split
  · exact ⟨_, rfl⟩
  · split
    · exact ⟨_, rfl⟩
    · exact ⟨0, rfl⟩

/-- The components of what is left of a path are what is left of its components. What is left is
spelled anew, and that spelling stands for the same components. -/
theorem components_relativePath (config : Config) (path : RawPath) :
    (relativePath config path).components = remainder config path := by
  have spelled (n : Nat) :
      (RawPath.ofComponents (path.components.drop n)).components = path.components.drop n :=
    RawPath.components_ofComponents ((RawPath.areComponents_components path).drop n)
  unfold relativePath remainder RawPath.stripPrefix?
  simp only [List.isPrefixOf_iff_prefix]
  split
  · exact spelled _
  · split
    · exact spelled _
    · rfl

/-- What is left of a path ends like the path, unless nothing is left. -/
theorem getLast?_remainder (nonempty : remainder config path ≠ []) :
    (remainder config path).getLast? = path.components.getLast? := by
  obtain ⟨n, hn⟩ := exists_remainder_eq_drop config path
  rw [hn] at nonempty ⊢
  rw [List.getLast?_drop, if_neg]
  simpa using nonempty

/-! ### Path keys -/

/-- Nothing is left of a path: its path key is empty. -/
theorem pathKeyOf_of_remainder_eq_nil (h : remainder config path = []) :
    pathKeyOf config path = [] := by
  have nothing : (relativePath config path).components = [] := by
    rw [components_relativePath, h]
  have unnamed : (relativePath config path).extension? = none := by
    rw [RawPath.extension?, RawPath.fileName?, nothing]
    rfl
  unfold pathKeyOf namesOf RawPath.withoutExtension
  rw [unnamed]
  dsimp only
  rw [nothing]
  rfl

/-- What is read as one or two dots is one or two dots. -/
theorem decodeLossy_eq_dots_iff (stem : Bytes) :
    Utf8.decodeLossy stem = ['.'] ∨ Utf8.decodeLossy stem = ['.', '.'] ↔
      stem = [dot] ∨ stem = [dot, dot] := by
  rw [Utf8.decodeLossy_eq_iff_of_not_mem (by decide),
    Utf8.decodeLossy_eq_iff_of_not_mem (by decide)]
  rfl

/-- Something is left of a path: its path key has the names there, the last one without the
extension. -/
theorem pathKeyOf_of_remainder_eq_concat (ends : path.EndsWith stem extension)
    {front : List Component} {last : Component} (h : remainder config path = front ++ [last]) :
    pathKeyOf config path = Text.join ['/']
      ((front.filterMap Component.name?).map Utf8.decodeLossy ++
        if Utf8.decodeLossy stem = ['.'] ∨ Utf8.decodeLossy stem = ['.', '.'] then []
        else [Utf8.decodeLossy stem]) := by
  -- what is left ends like the path, so with the name of the file
  have last_eq : last = .normal (stem ++ dot :: Utf8.encode extension) := by
    have ended : (remainder config path).getLast? = path.components.getLast? :=
      getLast?_remainder (by simp [h])
    rw [h, List.getLast?_concat, ends.getLast?_eq] at ended
    exact Option.some_inj.mp ended
  have components : (relativePath config path).components =
      front ++ [.normal (stem ++ dot :: Utf8.encode extension)] := by
    rw [components_relativePath, h, last_eq]
  have names := RawPath.names_withoutExtension components ends.splitExtension_eq ends.stem_ne_nil
  unfold pathKeyOf namesOf
  rw [names, List.map_append]
  simp only [decodeLossy_eq_dots_iff]
  split <;> rfl

/-- The path key does not depend on the spelling. -/
theorem pathKeyOf_congr (same : path.components = other.components) :
    pathKeyOf config path = pathKeyOf config other := by
  have left : (relativePath config path).components = (relativePath config other).components := by
    rw [components_relativePath, components_relativePath]
    unfold remainder
    rw [same]
  unfold pathKeyOf namesOf
  rw [RawPath.components_withoutExtension_congr left]

/-- The spelling of a path is kept, and nothing else depends on it. -/
theorem ofPath?_congr (same : path.components = other.components) :
    ofPath? config other = (ofPath? config path).map ({ · with path := other }) := by
  unfold ofPath?
  rw [← RawPath.fileName?_congr same, ← pathKeyOf_congr same]
  rcases path.fileName? with _ | name
  · rfl
  · simp only [Option.bind_eq_bind, Option.bind_some]
    rcases (splitExtension name).2.bind Utf8.decode? with _ | extension
    · rfl
    · simp only [Option.bind_some]
      split <;> rfl

end SourceFile

/-! ### The walk -/

/-- The path of every file that is found begins with the components of the root. -/
theorem Corpus.components_root_prefix {fs : FileSystem} (wellFormed : fs.top.WellFormed)
    {config : Config} {file : SourceFile} (h : file ∈ (collect fs config).files) :
    config.root.components <+: file.path.components := by
  obtain ⟨path, hpath, hfile⟩ := mem_files_collect.mp h
  rw [SourceFile.path_ofPath? hfile]
  rcases place_of_mem_paths wellFormed hpath with
    alone | ⟨position, names, found, hroot, nonempty, isName, rfl, -, -⟩
  · rw [alone, List.mem_singleton] at hpath
    rw [hpath]
  · rw [RawPath.components_below _ (FileSystem.bytes_ne_nil_of_resolve hroot) isName]
    exact List.prefix_append _ _

namespace SourceFile

/-- Where the parts of a source file come from. -/
structure Derived (config : Config) (path : RawPath) (stem : Bytes) (file : SourceFile) : Prop where
  /-- The path is kept as it is spelled. -/
  path_eq : file.path = path
  /-- The path ends with the name of the file. -/
  endsWith : path.EndsWith stem file.extension
  /-- The file name is the name at the end, shown as a text. -/
  fileName_eq_decodeLossy :
    file.fileName = Utf8.decodeLossy (stem ++ dot :: Utf8.encode file.extension)
  /-- The name key is the stem of that name, shown as a text. -/
  nameKey_eq_decodeLossy : file.nameKey = Utf8.decodeLossy stem
  /-- A name key is never empty. -/
  nameKey_ne_nil : file.nameKey ≠ []
  /-- The file name is the name key, a dot and the extension, also where bytes are no text. -/
  fileName_eq : file.fileName = file.nameKey ++ '.' :: file.extension
  /-- Nothing is left of the path without a root. -/
  pathKey_eq_nil : remainder config path = [] → file.pathKey = []
  /-- The names before the last component of what is left, and the name key as a name. -/
  pathKey_eq_join : ∀ front last, remainder config path = front ++ [last] →
    file.pathKey = Text.join ['/'] ((front.filterMap Component.name?).map Utf8.decodeLossy ++
      if file.nameKey = ['.'] ∨ file.nameKey = ['.', '.'] then [] else [file.nameKey])

/-- A path that ends with an extension makes a file whose parts come from it. -/
theorem derived_of_endsWith {config : Config} {path : RawPath} {stem : Bytes} {extension : Text}
    (ends : path.EndsWith stem extension) :
    Derived config path stem
      ⟨path, Utf8.decodeLossy (stem ++ dot :: Utf8.encode extension), extension,
        Utf8.decodeLossy stem, pathKeyOf config path⟩ where
  path_eq := rfl
  endsWith := ends
  fileName_eq_decodeLossy := rfl
  nameKey_eq_decodeLossy := rfl
  nameKey_ne_nil := Utf8.decodeLossy_ne_nil ends.stem_ne_nil
  fileName_eq := by
    have cut := Utf8.decodeLossy_append_cons (b := dot) (by decide) stem (Utf8.encode extension)
    rw [Utf8.decodeLossy_encode] at cut
    exact cut
  pathKey_eq_nil := pathKeyOf_of_remainder_eq_nil
  pathKey_eq_join _ _ h := pathKeyOf_of_remainder_eq_concat ends h

/-- **Where the keys come from**: whether a path is that of a source file, and all parts of the
file, are told by the components of the path and of the roots. Of a file that is found, one of the
roots is always taken away.  No path is left out: it may be relative, have doubled slashes or hold
bytes that are no text. Two spellings of the same components give the same file, apart from the path
that is kept as spelled. -/
theorem ofPath?_isDerived (config : Config) :
    (∀ path, (ofPath? config path).isSome = true ↔
      ∃ stem, ∃ extension ∈ config.extensions, path.EndsWith stem extension) ∧
    (∀ path file, ofPath? config path = some file → ∃ stem, Derived config path stem file) ∧
    (∀ path other : RawPath, path.components = other.components →
      ofPath? config other = (ofPath? config path).map ({ · with path := other })) ∧
    ∀ fs : FileSystem, fs.top.WellFormed → ∀ file ∈ (Corpus.collect fs config).files,
      config.sourceRoot.components ++ remainder config file.path = file.path.components ∨
        config.root.components ++ remainder config file.path = file.path.components := by
  refine ⟨?_, ?_, fun _ _ => ofPath?_congr, ?_⟩
  · intro path
    rw [Option.isSome_iff_exists]
    constructor
    · rintro ⟨file, hfile⟩
      obtain ⟨stem, extension, member, ends, -⟩ := ofPath?_eq_some_iff_endsWith.mp hfile
      exact ⟨stem, extension, member, ends⟩
    · rintro ⟨stem, extension, member, ends⟩
      exact ⟨_, ofPath?_eq_some_iff_endsWith.mpr ⟨stem, extension, member, ends, rfl⟩⟩
  · intro path file hfile
    obtain ⟨stem, extension, -, ends, rfl⟩ := ofPath?_eq_some_iff_endsWith.mp hfile
    exact ⟨stem, derived_of_endsWith ends⟩
  · intro fs wellFormed file hfile
    -- a file that is found lies below the root, so one of the roots can be taken away
    have belowRoot := Corpus.components_root_prefix wellFormed hfile
    unfold remainder
    split
    · next belowSource => exact .inl (List.prefix_iff_eq_append.mp belowSource)
    · exact .inr (List.prefix_iff_eq_append.mp belowRoot)

/-- A file with nothing but a dot before its extension, and one with a dot within its name. -/
def dottedProject : FileSystem where
  top := .dir [(Utf8.encode "site".toList, .dir [
    (Utf8.encode "ui".toList, .dir [
      (Utf8.encode "..ts".toList, .file []),
      (Utf8.encode "nav.d.ts".toList, .file [])])])]
  workingDir := []

/-- The stem of the first file is the name of the directory it stands in, and vanishes from the path
key. The inner dot of the second file is kept. -/
theorem ofPath?_isDerived_dottedProject :
    let config := Config.ofRoot (.ofText "/site".toList)
    let path := RawPath.ofText "/site/ui/..ts".toList
    let file : SourceFile := ⟨path, "..ts".toList, "ts".toList, ".".toList, "ui".toList⟩
    ofPath? config path = some file ∧ (∃ stem, Derived config path stem file) ∧
      dottedProject.top.WellFormed ∧
      (Corpus.collect dottedProject config).files.map (fun file => (file.nameKey, file.pathKey)) =
        [(".".toList, "ui".toList), ("nav.d".toList, "ui/nav.d".toList)] ∧
      ∀ file ∈ (Corpus.collect dottedProject config).files,
        config.sourceRoot.components ++ remainder config file.path = file.path.components ∨
          config.root.components ++ remainder config file.path = file.path.components := by
  intro config path file
  have wellFormed : dottedProject.top.WellFormed := by decide
  have read : ofPath? config path = some file := by cbv
  obtain ⟨-, derived, -, inside⟩ := ofPath?_isDerived config
  refine ⟨read, derived path file read, wellFormed, ?_, inside dottedProject wellFormed⟩
  cbv

end SourceFile

end Orphans
