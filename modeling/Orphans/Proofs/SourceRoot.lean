import Orphans.Report
import Orphans.Proofs.Analysis

/-!
# Another source root

`Analysis.run_withSourceRoot`: the directory that imports are relative to decides the path keys, and
through them by which key a file is said to be referred to. The files of the corpus, the candidates,
which of them are in use and by which file are the same for every source root, and so are the unused
files and the report in plain words.

The reason is that all of this can be read off the files without their path keys
(`Analysis.outcome_congr`). So the two corpora are compared by what their files are without path
keys, `SourceFile.withoutPathKey`, and everything that is the same in both is a function of that:
the file names, hence the candidates; the paths and name keys, hence what refers to what.
-/

namespace Orphans

/-- A source file without its path key. It is still a source file, so two corpora can be compared as
lists of files. -/
def SourceFile.withoutPathKey (file : SourceFile) : SourceFile :=
  { file with pathKey := [] }

/-- Source files are the same without their path keys if the path, the name with its extension and
the name key are the same. -/
theorem SourceFile.withoutPathKey_eq_iff {file file' : SourceFile} :
    file.withoutPathKey = file'.withoutPathKey ↔
      file.path = file'.path ∧ file.fileName = file'.fileName ∧
        file.extension = file'.extension ∧ file.nameKey = file'.nameKey := by
  simp [withoutPathKey]

/-- What a usage says apart from the key: the file, whether it is in use, and the file that refers
to it. -/
def Usage.outcome (usage : Usage) : RawPath × Bool × Option RawPath :=
  (usage.file, usage.isUsed, usage.referencedBy.map (·.file))

/-! ### The corpus -/

/-- A path stands for the same source file under every source root, apart from the path key. -/
theorem SourceFile.map_withoutPathKey_ofPath? (config : Config) (sourceRoot path : RawPath) :
    (ofPath? (config.withSourceRoot sourceRoot) path).map withoutPathKey =
      (ofPath? config path).map withoutPathKey := by
  have extensions : (config.withSourceRoot sourceRoot).extensions = config.extensions := rfl
  simp only [ofPath?, Option.bind_eq_bind, extensions]
  rcases path.fileName? with _ | name
  · rfl
  · dsimp only [Option.bind_some]
    rcases (splitExtension name).2.bind Utf8.decode? with _ | extension
    · rfl
    · dsimp only [Option.bind_some]
      split <;> rfl

namespace Corpus

/-- The files are the same apart from their path keys. -/
theorem map_withoutPathKey_collect (fs : FileSystem) (config : Config) (sourceRoot : RawPath) :
    (collect fs (config.withSourceRoot sourceRoot)).files.map SourceFile.withoutPathKey =
      (collect fs config).files.map SourceFile.withoutPathKey := by
  have files (config : Config) : (collect fs config).files.map SourceFile.withoutPathKey =
      (paths fs config).filterMap fun path =>
        (SourceFile.ofPath? config path).map SourceFile.withoutPathKey :=
    List.map_filterMap
  rw [files, files]
  simp only [SourceFile.map_withoutPathKey_ofPath?]
  rfl

/-- So they have the same names. -/
theorem map_fileName_collect (fs : FileSystem) (config : Config) (sourceRoot : RawPath) :
    (collect fs (config.withSourceRoot sourceRoot)).files.map (·.fileName) =
      (collect fs config).files.map (·.fileName) := by
  have names (files : List SourceFile) : files.map (·.fileName) =
      (files.map SourceFile.withoutPathKey).map (·.fileName) := by
    rw [List.map_map]
    rfl
  rw [names, map_withoutPathKey_collect, ← names]

/-- And the same positions are those of candidates. -/
theorem candidates_withSourceRoot (fs : FileSystem) (config : Config) (sourceRoot : RawPath) :
    (collect fs (config.withSourceRoot sourceRoot)).candidates = (collect fs config).candidates :=
  candidates_ofFiles_congr rfl (map_fileName_collect fs config sourceRoot)

end Corpus

/-! ### What is reported -/

namespace Analysis

variable {fs : FileSystem} {strategy : Strategy} {corpus corpus' : Corpus} {key : Text} {i : Nat}

/-- Whether a file refers to a key can be told without the path keys. -/
theorem refersTo_of_map_withoutPathKey_eq
    (h : corpus.files.map SourceFile.withoutPathKey = corpus'.files.map SourceFile.withoutPathKey)
    (refers : corpus.RefersTo fs key i) : corpus'.RefersTo fs key i := by
  obtain ⟨file, text, hfile, htext, refers⟩ := refers
  obtain ⟨file', hfile', same⟩ := exists_getElem?_of_map_eq h hfile
  have path_eq := (SourceFile.withoutPathKey_eq_iff.mp same).1
  exact ⟨file', text, hfile', by rw [path_eq, htext], refers⟩

/-- The file that is reported to refer to a candidate is the same, as it is told by the name key. -/
theorem referring_of_map_withoutPathKey_eq
    (h : corpus.files.map SourceFile.withoutPathKey = corpus'.files.map SourceFile.withoutPathKey)
    {target target' : SourceFile} (nameKey_eq : target.nameKey = target'.nameKey)
    {candidate : Nat} {path : RawPath}
    (found : (usageOf fs strategy corpus candidate target).referencedBy.map (·.file) = some path) :
    (usageOf fs strategy corpus' candidate target').referencedBy.map (·.file) = some path := by
  rw [map_file_referencedBy_eq_some_iff] at found ⊢
  obtain ⟨first, file, hleast, hfile, hpath⟩ := found
  obtain ⟨file', hfile', same⟩ := exists_getElem?_of_map_eq h hfile
  -- the same positions refer to the name key, so the least of them is the same
  have refersTo (i : Nat) :
      corpus.RefersTo fs target.nameKey i ↔ corpus'.RefersTo fs target'.nameKey i := by
    rw [nameKey_eq]
    exact ⟨refersTo_of_map_withoutPathKey_eq h, refersTo_of_map_withoutPathKey_eq h.symm⟩
  simp only [refersTo] at hleast
  have path_eq := (SourceFile.withoutPathKey_eq_iff.mp same).1
  exact ⟨first, file', hleast, hfile', by rw [hpath, path_eq]⟩

/-- What a usage says apart from the key depends on the files without their path keys only. The path
keys are used to name the key by which a file refers to another, and for nothing else. -/
theorem outcome_congr
    (h : corpus.files.map SourceFile.withoutPathKey = corpus'.files.map SourceFile.withoutPathKey)
    {target target' : SourceFile} (same : target.withoutPathKey = target'.withoutPathKey)
    (candidate : Nat) :
    (usageOf fs strategy corpus candidate target).outcome =
      (usageOf fs strategy corpus' candidate target').outcome := by
  obtain ⟨path_eq, -, -, nameKey_eq⟩ := SourceFile.withoutPathKey_eq_iff.mp same
  have referring_eq :
      (usageOf fs strategy corpus candidate target).referencedBy.map (·.file) =
        (usageOf fs strategy corpus' candidate target').referencedBy.map (·.file) := by
    ext path
    exact ⟨referring_of_map_withoutPathKey_eq h nameKey_eq,
      referring_of_map_withoutPathKey_eq h.symm nameKey_eq.symm⟩
  have isUsed_eq (usage : Usage) : usage.isUsed = (usage.referencedBy.map (·.file)).isSome := by
    rw [Option.isSome_map]
    rfl
  unfold Usage.outcome
  rw [isUsed_eq, isUsed_eq, referring_eq]
  exact congrArg (·, _) path_eq

/-- How two analyses are related that differ in the source root only. -/
structure DifferInSourceRoot (first second : Analysis) : Prop where
  /-- The files are the same apart from their path keys, in the same order. -/
  files_eq : first.corpus.files.map SourceFile.withoutPathKey =
    second.corpus.files.map SourceFile.withoutPathKey
  /-- The same files are candidates. -/
  candidates_eq : first.corpus.candidates = second.corpus.candidates
  /-- Every candidate is in use in both or in neither, by the same file. -/
  outcomes_eq : first.usages.map Usage.outcome = second.usages.map Usage.outcome
  /-- The same files are unused. -/
  unused_eq : first.unused = second.unused

/-- Every usage says the same apart from the key. Candidates are compared position by position,
where the same file stands under both source roots. -/
theorem outcomes_withSourceRoot (fs : FileSystem) (config : Config) (sourceRoot : RawPath) :
    (run fs (config.withSourceRoot sourceRoot)).usages.map Usage.outcome =
      (run fs config).usages.map Usage.outcome := by
  have outcomes (config : Config) : (run fs config).usages.map Usage.outcome =
      (Corpus.collect fs config).candidates.filterMap fun candidate =>
        (Corpus.collect fs config).files[candidate]?.map fun target =>
          (usageOf fs config.strategy (Corpus.collect fs config) candidate target).outcome := by
    refine (congrArg _ (byStrategy_collect fs config config.strategy)).trans ?_
    rw [List.map_filterMap]
    simp only [Option.map_map]
    rfl
  have files_eq := Corpus.map_withoutPathKey_collect fs config sourceRoot
  rw [outcomes, outcomes, Corpus.candidates_withSourceRoot]
  apply List.filterMap_congr
  intro candidate _
  exact map_getElem?_congr files_eq (fun target target' same => outcome_congr files_eq same _) _

/-- Which files are unused is told by the usages without the keys. -/
theorem unused_eq_of_outcomes (analysis : Analysis) :
    analysis.unused =
      ((analysis.usages.map Usage.outcome).filter fun outcome => !outcome.2.1).map (·.1) := by
  rw [List.filter_map, List.map_map]
  rfl

/-- A run with another source root differs from the run in the source root only. -/
theorem differInSourceRoot_withSourceRoot (fs : FileSystem) (config : Config)
    (sourceRoot : RawPath) :
    DifferInSourceRoot (run fs (config.withSourceRoot sourceRoot)) (run fs config) where
  files_eq := Corpus.map_withoutPathKey_collect fs config sourceRoot
  candidates_eq := Corpus.candidates_withSourceRoot fs config sourceRoot
  outcomes_eq := outcomes_withSourceRoot fs config sourceRoot
  unused_eq := by
    rw [unused_eq_of_outcomes, unused_eq_of_outcomes, outcomes_withSourceRoot]

/-- The report in plain words names the unused files and the number of candidates. -/
theorem plain_ofAnalysis_congr {first second : Analysis} (h : DifferInSourceRoot first second)
    (config config' : Config) :
    (Report.ofAnalysis config first).plain = (Report.ofAnalysis config' second).plain := by
  unfold Report.plain Report.ofAnalysis
  dsimp only
  rw [h.candidates_eq, h.unused_eq]

/-- **Another source root**: two runs that differ in the source root only find the same files
unused, and the others in use by the same files.  Both source roots may be any paths, also ones that
no file lies below. What may change is the key by which a file is said to be referred to, so of the
two forms of the report only the plain one, which does not show it, is the same. -/
theorem run_withSourceRoot (fs : FileSystem) (config : Config) (sourceRoot sourceRoot' : RawPath) :
    DifferInSourceRoot (run fs (config.withSourceRoot sourceRoot))
      (run fs (config.withSourceRoot sourceRoot')) ∧
    (Report.ofAnalysis (config.withSourceRoot sourceRoot)
      (run fs (config.withSourceRoot sourceRoot))).plain =
    (Report.ofAnalysis (config.withSourceRoot sourceRoot')
      (run fs (config.withSourceRoot sourceRoot'))).plain := by
  have related : DifferInSourceRoot (run fs (config.withSourceRoot sourceRoot))
      (run fs (config.withSourceRoot sourceRoot')) :=
    differInSourceRoot_withSourceRoot fs (config.withSourceRoot sourceRoot') sourceRoot
  exact ⟨related, plain_ofAnalysis_congr related _ _⟩

end Analysis

end Orphans
