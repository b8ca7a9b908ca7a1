import Orphans.Analysis
import Orphans.Proofs.Usage

/-!
# The usages of a run

The usages of a run stand at the places of the candidates (`Analysis.getElem?_byStrategy`), one for
each (`Analysis.length_byStrategy`). `Analysis.referencedBy_eq_some_iff` and
`Analysis.isUsed_usageOf_iff` say of one usage what it reports, in terms of the files of the corpus
and what is read at their paths.

What is proved about runs goes through these. Neither the index nor the scan occurs in the last two:
the strategy is left as an argument of `Usage.viaIn?`, where it matters for the empty path key only.
-/

namespace Orphans

/-- The file at a position of a corpus can be read as a text, which refers to `key`. No strategy has
a part in this: it is what the usages of both strategies are told by. -/
def Corpus.RefersTo (fs : FileSystem) (corpus : Corpus) (key : Text) (position : Nat) : Prop :=
  ∃ file text, corpus.files[position]? = some file ∧ fs.readText? file.path = some text ∧
    KeyPattern.Refers text key

namespace Analysis

variable {fs : FileSystem} {config : Config} {strategy : Strategy} {corpus : Corpus}

/-! ### The texts of a corpus -/

/-- There is an entry for every file, also for one that cannot be read. -/
@[simp] theorem length_texts (fs : FileSystem) (corpus : Corpus) :
    (texts fs corpus).length = corpus.files.length :=
  List.length_map _

/-- The text at a position is what is read at the path of the file there. -/
theorem getElem?_texts_eq_some_iff {i : Nat} {text : Text} :
    (texts fs corpus)[i]? = some (some text) ↔
      ∃ file, corpus.files[i]? = some file ∧ fs.readText? file.path = some text := by
  simp [texts]

/-- What refers to a key among the texts does so among the files. -/
theorem refersAt_texts_iff {key : Text} {i : Nat} :
    RefersAt (texts fs corpus) key i ↔ corpus.RefersTo fs key i := by
  unfold RefersAt Corpus.RefersTo
  simp only [getElem?_texts_eq_some_iff]
  constructor
  · rintro ⟨text, ⟨file, hfile, htext⟩, refers⟩
    exact ⟨file, text, hfile, htext, refers⟩
  · rintro ⟨file, text, hfile, htext, refers⟩
    exact ⟨text, ⟨file, hfile, htext⟩, refers⟩

/-! ### One usage for each candidate -/

/-- The usage of the file at a position of a corpus, as a file system has its texts. -/
def usageOf (fs : FileSystem) (strategy : Strategy) (corpus : Corpus) (candidate : Nat)
    (target : SourceFile) : Usage :=
  Usage.usageOf strategy corpus (texts fs corpus) candidate target

/-- On a collected corpus each strategy finds the usage of every candidate, in their order. No
candidate has an empty name key, so the index answers for all of them. -/
theorem byStrategy_collect (fs : FileSystem) (config : Config) (strategy : Strategy) :
    Usage.byStrategy strategy (Corpus.collect fs config) (texts fs (Corpus.collect fs config)) =
      (Corpus.collect fs config).candidates.filterMap fun candidate =>
        (Corpus.collect fs config).files[candidate]?.map
          (usageOf fs strategy (Corpus.collect fs config) candidate) := by
  apply Usage.byStrategy_eq strategy (length_texts fs _).symm
  intro target htarget
  obtain ⟨candidate, -, hfile⟩ := List.mem_filterMap.mp htarget
  exact Corpus.nameKey_ne_nil (List.mem_of_getElem? hfile)

/-- There is a usage for each candidate. -/
theorem length_byStrategy (fs : FileSystem) (config : Config) (strategy : Strategy) :
    (Usage.byStrategy strategy (Corpus.collect fs config)
      (texts fs (Corpus.collect fs config))).length =
      (Corpus.collect fs config).candidates.length := by
  rw [byStrategy_collect]
  apply length_filterMap_of_isSome
  intro candidate hcandidate
  rw [Option.isSome_map]
  exact Corpus.isSome_getElem?_of_mem_candidates hcandidate

/-- The usage of the `n`-th candidate is the `n`-th usage. -/
theorem getElem?_byStrategy {n candidate : Nat} {target : SourceFile}
    (hcandidate : (Corpus.collect fs config).candidates[n]? = some candidate)
    (htarget : (Corpus.collect fs config).files[candidate]? = some target)
    (strategy : Strategy) :
    (Usage.byStrategy strategy (Corpus.collect fs config)
      (texts fs (Corpus.collect fs config)))[n]? =
      some (usageOf fs strategy (Corpus.collect fs config) candidate target) := by
  rw [byStrategy_collect, getElem?_filterMap_of_isSome, hcandidate, Option.bind_some, htarget,
    Option.map_some]
  intro candidate hcandidate
  rw [Option.isSome_map]
  exact Corpus.isSome_getElem?_of_mem_candidates hcandidate

/-- The usages of a run are those of the files that are no entry points. -/
theorem usages_run (fs : FileSystem) (config : Config) :
    (run fs config).usages =
      ((Corpus.collect fs config).files.zipIdx.filter fun x => !x.1.isImplicit config).map fun x =>
        usageOf fs config.strategy (Corpus.collect fs config) x.2 x.1 := by
  have candidates : (Corpus.collect fs config).candidates =
      ((Corpus.collect fs config).files.zipIdx.filter fun x => !x.1.isImplicit config).map (·.2) :=
    rfl
  refine (byStrategy_collect fs config config.strategy).trans ?_
  rw [candidates, List.filterMap_map, ← List.filterMap_eq_map]
  apply List.filterMap_congr
  intro x hx
  have hfile : (Corpus.collect fs config).files[x.2]? = some x.1 :=
    List.mem_zipIdx_iff_getElem?.mp (List.mem_of_mem_filter hx)
  dsimp only [Function.comp_apply]
  rw [hfile, Option.map_some]

/-! ### The usage of one candidate -/

/-- The usage of the candidate at a position of the corpus, if an analysis has one. Usages are
listed by candidate, and two runs can be compared by position only. -/
def usageAt? (analysis : Analysis) (position : Nat) : Option Usage :=
  analysis.usages[analysis.corpus.candidates.idxOf position]?

/-- The usage of a candidate is found by its position in the corpus. -/
theorem usageAt?_run {candidate : Nat} {target : SourceFile}
    (hcandidate : candidate ∈ (Corpus.collect fs config).candidates)
    (htarget : (Corpus.collect fs config).files[candidate]? = some target) :
    (run fs config).usageAt? candidate =
      some (usageOf fs config.strategy (Corpus.collect fs config) candidate target) :=
  getElem?_byStrategy (List.getElem?_idxOf hcandidate) htarget config.strategy

/-! ### What one usage reports -/

/-- A file is in use exactly when another file of the corpus refers to its name key. -/
theorem isUsed_usageOf_iff {candidate : Nat} {target : SourceFile} :
    (usageOf fs strategy corpus candidate target).isUsed = true ↔
      ∃ i, i ≠ candidate ∧ corpus.RefersTo fs target.nameKey i := by
  simp only [← refersAt_texts_iff]
  exact Usage.isSome_firstReference?_iff (length_texts fs corpus).symm
    (Usage.isSome_viaIn? strategy target)

/-- The reference that is reported is in the first other file that refers to the name key. -/
theorem referencedBy_eq_some_iff {candidate : Nat} {target : SourceFile} {reference : Reference} :
    (usageOf fs strategy corpus candidate target).referencedBy = some reference ↔
      ∃ found file text,
        IsLeast {i | i ≠ candidate ∧ corpus.RefersTo fs target.nameKey i} found ∧
        corpus.files[found]? = some file ∧ fs.readText? file.path = some text ∧
        reference.file = file.path ∧
        Usage.viaIn? strategy target text = some reference.via := by
  simp only [← refersAt_texts_iff]
  refine (Usage.firstReference?_eq_some_iff (length_texts fs corpus).symm
    (Usage.isSome_viaIn? strategy target)).trans ?_
  simp only [getElem?_texts_eq_some_iff]
  constructor
  · rintro ⟨found, file, text, hleast, hfile, ⟨file', hfile', htext⟩, h⟩
    -- the file that is reported and the file that was read stand at one position
    obtain rfl := Option.some_inj.mp (hfile.symm.trans hfile')
    exact ⟨found, file, text, hleast, hfile, htext, h⟩
  · rintro ⟨found, file, text, hleast, hfile, htext, h⟩
    exact ⟨found, file, text, hleast, hfile, ⟨file, hfile, htext⟩, h⟩

/-- Which file is reported does not depend on the strategy, nor on the path key: the right side
speaks of the name key and of the texts only. -/
theorem map_file_referencedBy_eq_some_iff {candidate : Nat} {target : SourceFile}
    {path : RawPath} :
    (usageOf fs strategy corpus candidate target).referencedBy.map (·.file) = some path ↔
      ∃ found file, IsLeast {i | i ≠ candidate ∧ corpus.RefersTo fs target.nameKey i} found ∧
        corpus.files[found]? = some file ∧ path = file.path := by
  rw [Option.map_eq_some_iff]
  simp only [referencedBy_eq_some_iff]
  constructor
  · rintro ⟨reference, ⟨found, file, -, hleast, hfile, -, hpath, -⟩, rfl⟩
    exact ⟨found, file, hleast, hfile, hpath⟩
  · rintro ⟨found, file, hleast, hfile, rfl⟩
    obtain ⟨-, file', text, hfile', htext, refers⟩ := hleast.1
    obtain rfl := Option.some_inj.mp (hfile.symm.trans hfile')
    -- the least position is one of a text that refers to the name key, so some kind of key is
    -- reported
    obtain ⟨via, hvia⟩ :=
      Option.isSome_iff_exists.mp ((Usage.isSome_viaIn? strategy target text).mpr refers)
    exact ⟨⟨file.path, via⟩, ⟨found, file, text, hleast, hfile, htext, rfl, hvia⟩, rfl⟩

end Analysis

end Orphans
