import Orphans.Proofs.Analysis

/-!
# Other entry points

`Analysis.run_entryPoints`: which files are entry points decides which usages are reported, and
nothing else. Two runs that differ in the names of entry points only look at the same files with the
same keys, and a file that is a candidate in both has the same usage in both, although an index is
made for the keys of the candidates. With more entry points the usages are those of the other run
without the new entry points.

The reason is that the usage of a file depends on the files of the corpus and on what is read of
them (`Analysis.usageOf_eq_of_files_eq`), but not on what else is a candidate. For the scan this can
be seen from its definition; for the index it is what `Usage.byStrategy_eq` is for.

Usages have no positions of their own. A candidate is found in another run by its position among the
files (`Analysis.usageAt?`), and a usage is told to be about an entry point by the name of its file
(`Usage.isNamedIn`).
-/

namespace Orphans

/-- A configuration with other entry points. -/
def Config.withEntryPoints (config : Config) (names : NameSet) : Config :=
  { config with implicitFiles := names }

/-- The candidates of a corpus are the files with other names than those of the entry points. -/
structure Corpus.IsSplitBy (entryPoints : NameSet) (corpus : Corpus) : Prop where
  /-- A file is a candidate unless its name is that of an entry point. -/
  mem_candidates_iff : ∀ i, i ∈ corpus.candidates ↔
    ∃ file, corpus.files[i]? = some file ∧ file.fileName ∉ entryPoints
  /-- Each is listed once, in discovery order. -/
  increasing : corpus.candidates.Pairwise (· < ·)

/-- Whether the name of the file that a usage is about is one of some names. A usage holds the path
of the file, so the name is read off the path. -/
def Usage.isNamedIn (names : NameSet) (usage : Usage) : Bool :=
  (usage.file.fileName?.map Utf8.decodeLossy).any names.contains

namespace Analysis

/-- How two analyses are related that differ in the entry points only. -/
structure DifferInEntryPoints (entryPoints entryPoints' : NameSet) (first second : Analysis) :
    Prop where
  /-- The files are the same, in the same order and with the same keys. -/
  files_eq : first.corpus.files = second.corpus.files
  /-- The candidates of each are its files with other names than those of its entry points. -/
  first_split : first.corpus.IsSplitBy entryPoints
  /-- So are those of the other. -/
  second_split : second.corpus.IsSplitBy entryPoints'
  /-- What is a candidate in both has the same usage in both. -/
  usageAt?_eq : ∀ i ∈ first.corpus.candidates, i ∈ second.corpus.candidates →
    ∃ target usage, first.corpus.files[i]? = some target ∧ usage.file = target.path ∧
      first.usageAt? i = some usage ∧ second.usageAt? i = some usage
  /-- More entry points only remove usages. -/
  usages_eq : (∀ name ∈ entryPoints, name ∈ entryPoints') →
    second.usages = first.usages.filter fun usage => !usage.isNamedIn entryPoints'

variable {fs : FileSystem} {config : Config}

/-- The usage of a file does not depend on what the candidates are. -/
theorem usageOf_eq_of_files_eq {strategy : Strategy} {corpus corpus' : Corpus}
    (h : corpus.files = corpus'.files) :
    usageOf fs strategy corpus = usageOf fs strategy corpus' := by
  funext candidate target
  unfold usageOf Usage.usageOf texts
  rw [h]

/-- The candidates of a collected corpus are the files with other names than those of the entry
points. -/
theorem isSplitBy_collect (fs : FileSystem) (config : Config) :
    (Corpus.collect fs config).IsSplitBy config.implicitFiles where
  mem_candidates_iff := by
    intro i
    refine Corpus.mem_candidates_ofFiles.trans ?_
    simp only [SourceFile.isImplicit, ← Bool.not_eq_true, Std.ExtTreeSet.contains_iff_mem]
    rfl
  increasing := Corpus.pairwise_lt_candidates fs config

/-- Whether a usage is about an entry point is told by the file name of the candidate: the path of a
usage is that of its file, and the name of a file is the last one on its path. -/
theorem isNamedIn_usageOf {strategy : Strategy} {corpus : Corpus} {candidate : Nat}
    {target : SourceFile} (h : target ∈ (Corpus.collect fs config).files) (names : NameSet) :
    (usageOf fs strategy corpus candidate target).isNamedIn names =
      names.contains target.fileName := by
  obtain ⟨path, -, hpath⟩ := Corpus.mem_files_collect.mp h
  have file_eq : (usageOf fs strategy corpus candidate target).file = path :=
    SourceFile.path_ofPath? hpath
  unfold Usage.isNamedIn
  rw [file_eq, SourceFile.fileName?_ofPath? hpath, Option.any_some]

/-! ### Runs with other entry points -/

/-- Other entry points leave the files as they are. -/
theorem files_collect_withEntryPoints (fs : FileSystem) (config : Config) (names : NameSet) :
    (Corpus.collect fs (config.withEntryPoints names)).files = (Corpus.collect fs config).files :=
  rfl

/-- The usage of a candidate does not depend on the entry points, as long as it is none of them. -/
theorem usageAt?_withEntryPoints {names : NameSet} {i : Nat} {target : SourceFile}
    (hi : i ∈ (Corpus.collect fs (config.withEntryPoints names)).candidates)
    (htarget : (Corpus.collect fs config).files[i]? = some target) :
    (run fs (config.withEntryPoints names)).usageAt? i =
      some (usageOf fs config.strategy (Corpus.collect fs config) i target) := by
  rw [usageAt?_run hi htarget,
    usageOf_eq_of_files_eq (files_collect_withEntryPoints fs config names)]
  rfl

/-- The usages are those of the files that are not named as entry points, in discovery order. -/
theorem usages_withEntryPoints (fs : FileSystem) (config : Config) (names : NameSet) :
    (run fs (config.withEntryPoints names)).usages =
      ((Corpus.collect fs config).files.zipIdx.filter fun x => !names.contains x.1.fileName).map
        fun x => usageOf fs config.strategy (Corpus.collect fs config) x.2 x.1 := by
  rw [usages_run, usageOf_eq_of_files_eq (files_collect_withEntryPoints fs config names)]
  rfl

/-- **Other entry points**: two runs that differ in the entry points only decide every candidate of
both in the same way.  The usage of a candidate depends on the files of the corpus and not on what
else is a candidate (`usageOf_eq_of_files_eq`). Under the index this is no matter of course: with
fewer candidates fewer keys are noted, but those of the candidates that are left are noted as
before. -/
theorem run_entryPoints (fs : FileSystem) (config : Config) (entryPoints entryPoints' : NameSet) :
    DifferInEntryPoints entryPoints entryPoints'
      (run fs (config.withEntryPoints entryPoints))
      (run fs (config.withEntryPoints entryPoints')) where
  files_eq := rfl
  first_split := isSplitBy_collect fs (config.withEntryPoints entryPoints)
  second_split := isSplitBy_collect fs (config.withEntryPoints entryPoints')
  usageAt?_eq := by
    intro i hfirst hsecond
    obtain ⟨target, htarget⟩ := Corpus.exists_getElem?_of_mem_candidates hfirst
    exact ⟨target, _, htarget, rfl, usageAt?_withEntryPoints hfirst htarget,
      usageAt?_withEntryPoints hsecond htarget⟩
  usages_eq := by
    intro subset
    rw [usages_withEntryPoints, usages_withEntryPoints, List.filter_map, List.filter_filter]
    congr 1
    apply List.filter_congr
    rintro ⟨file, i⟩ hfile
    have member : file ∈ (Corpus.collect fs config).files :=
      List.mem_of_getElem? (List.mem_zipIdx_iff_getElem?.mp hfile)
    dsimp only [Function.comp_apply]
    rw [isNamedIn_usageOf member]
    -- a file that is named in the larger set is dropped either way
    rcases hsecond : entryPoints'.contains file.fileName with _ | _
    · have hfirst : entryPoints.contains file.fileName = false := by
        rw [← Bool.not_eq_true, Std.ExtTreeSet.contains_iff_mem] at hsecond ⊢
        exact fun h => hsecond (subset _ h)
      rw [hfirst]
      rfl
    · rfl

end Analysis

end Orphans
