import Mathlib
import Orphans.Proofs.Analysis

/-!
# A run reports what the texts say

`Analysis.run_isExact`: on a well-formed tree, whatever the configuration, a run gives one usage for
each candidate, in discovery order, and the usage is exact. A candidate is in use exactly when
another file of the corpus can be read and refers to its name key. The file that is reported is the
first such file, it is another file than the candidate, and its text alone decides by which key.

That the tree is well-formed is needed only for the paths to tell the files apart. What is said of
the key leaves out the empty path key, where the two strategies differ
(`Usage.byIndex_agrees_byScan`).
-/

namespace Orphans

open KeyPattern (Refers)

/-- What the usage of the file at a position of a corpus has to say. All of it is about what the
other files of the corpus say when they are read, and no part depends on the strategy. -/
structure Usage.IsExact (fs : FileSystem) (corpus : Corpus) (candidate : Nat) (target : SourceFile)
    (usage : Usage) : Prop where
  /-- The usage is about this candidate. -/
  file_eq : usage.file = target.path
  /-- It is in use exactly when another file refers to its name key. -/
  isUsed_iff : usage.isUsed = true ↔
    ∃ i, i ≠ candidate ∧ corpus.RefersTo fs target.nameKey i
  /-- The reported file is the first of the files that refer to the candidate. -/
  first : ∀ reference, usage.referencedBy = some reference →
    ∃ found file, IsLeast {i | i ≠ candidate ∧ corpus.RefersTo fs target.nameKey i} found ∧
      corpus.files[found]? = some file ∧ reference.file = file.path
  /-- No file is reported to refer to itself. -/
  file_ne : ∀ reference, usage.referencedBy = some reference → reference.file ≠ target.path
  /-- The text of the reported file tells by which key it refers to the candidate. -/
  via_iff : ∀ reference, usage.referencedBy = some reference → target.pathKey ≠ [] →
    ∃ text, fs.readText? reference.file = some text ∧
      (reference.via = .path ↔ target.pathKey ≠ target.nameKey ∧ Refers text target.pathKey)

/-- What an analysis of a file system under a configuration has to say. -/
structure Analysis.IsExact (fs : FileSystem) (config : Config) (analysis : Analysis) : Prop where
  /-- The corpus is what the configuration collects. -/
  corpus_eq : analysis.corpus = Corpus.collect fs config
  /-- There are as many usages as candidates, and the candidates come in discovery order. -/
  length_usages : analysis.usages.length = analysis.corpus.candidates.length
  /-- No candidate is listed twice. -/
  increasing : analysis.corpus.candidates.Pairwise (· < ·)
  /-- The usage of every candidate stands at its place and is exact. -/
  usages : ∀ n : Fin analysis.corpus.candidates.length, ∃ target usage,
    analysis.corpus.files[analysis.corpus.candidates[n]]? = some target ∧
    analysis.usages[n.val]? = some usage ∧
    usage.IsExact fs analysis.corpus analysis.corpus.candidates[n] target

/-! ### One usage -/

namespace Usage

/-- Unless the path key is empty, both strategies tell the keys apart in the same way. -/
theorem viaIn?_eq_some_path_iff {strategy : Strategy} {target : SourceFile} {text : Text}
    {via : Via} (nonempty : target.pathKey ≠ [])
    (h : viaIn? strategy target text = some via) :
    via = .path ↔ target.pathKey ≠ target.nameKey ∧ Refers text target.pathKey := by
  have reads : ReadsAsPath strategy target text ↔
      target.pathKey ≠ target.nameKey ∧ Refers text target.pathKey := by
    unfold ReadsAsPath
    simp [nonempty]
  rw [(viaIn?_eq_some_iff.mp h).2, ← reads]
  split_ifs with hreads <;> simp [hreads]

/-- The usage of a candidate is exact, whatever the strategy. All of it is read off
`Analysis.referencedBy_eq_some_iff`. -/
theorem usageOf_isExact {fs : FileSystem} {config : Config} (strategy : Strategy)
    (wellFormed : fs.top.WellFormed) {candidate : Nat} {target : SourceFile}
    (htarget : (Corpus.collect fs config).files[candidate]? = some target) :
    (Analysis.usageOf fs strategy (Corpus.collect fs config) candidate target).IsExact fs
      (Corpus.collect fs config) candidate target where
  file_eq := rfl
  isUsed_iff := Analysis.isUsed_usageOf_iff
  first := by
    intro reference hreference
    obtain ⟨found, file, -, hleast, hfile, -, hpath, -⟩ :=
      Analysis.referencedBy_eq_some_iff.mp hreference
    exact ⟨found, file, hleast, hfile, hpath⟩
  file_ne := by
    intro reference hreference
    obtain ⟨found, file, -, hleast, hfile, -, hpath, -⟩ :=
      Analysis.referencedBy_eq_some_iff.mp hreference
    rw [hpath]
    exact Corpus.path_ne_of_ne wellFormed hleast.1.1 hfile htarget
  via_iff := by
    intro reference hreference nonempty
    obtain ⟨-, file, text, -, -, htext, hpath, hvia⟩ :=
      Analysis.referencedBy_eq_some_iff.mp hreference
    exact ⟨text, by rw [hpath, htext], viaIn?_eq_some_path_iff nonempty hvia⟩

end Usage

/-! ### All usages -/

namespace Analysis

/-- **A run is exact**: on a well-formed tree, whatever the configuration and strategy, a run
reports what the texts say.  This is where the parts come together. The walk has found the files,
either strategy stops at the least position that refers to the name key
(`referencedBy_eq_some_iff`), and the paths of a well-formed tree tell that file apart from the
candidate. -/
theorem run_isExact (fs : FileSystem) (config : Config) (wellFormed : fs.top.WellFormed) :
    (run fs config).IsExact fs config where
  corpus_eq := rfl
  length_usages := length_byStrategy fs config config.strategy
  increasing := Corpus.pairwise_lt_candidates fs config
  usages := by
    intro n
    obtain ⟨target, htarget⟩ := Corpus.exists_getElem?_candidates n
    have hcandidate : (run fs config).corpus.candidates[n.val]? =
        some (run fs config).corpus.candidates[n] := List.getElem?_eq_getElem n.isLt
    exact ⟨target, _, htarget, getElem?_byStrategy hcandidate htarget config.strategy,
      Usage.usageOf_isExact config.strategy wellFormed htarget⟩

/-- A component that mentions itself and a page that imports it by its path. -/
def importingPage : FileSystem where
  top := .dir [(Utf8.encode "site".toList, .dir [
    (Utf8.encode "ui".toList, .dir [
      (Utf8.encode "nav.tsx".toList, .file (Utf8.encode "'ui/nav'".toList))]),
    (Utf8.encode "app.tsx".toList, .file (Utf8.encode "import '@/ui/nav'".toList))])]
  workingDir := []

/-- The page comes first in discovery order, and only it counts for the component. -/
theorem run_isExact_importingPage :
    importingPage.top.WellFormed ∧
      (run importingPage (.ofRoot (.ofText "/site".toList))).IsExact importingPage
        (.ofRoot (.ofText "/site".toList)) ∧
      (run importingPage (.ofRoot (.ofText "/site".toList))).usages =
        [⟨.ofText "/site/app.tsx".toList, none⟩,
          ⟨.ofText "/site/ui/nav.tsx".toList, some ⟨.ofText "/site/app.tsx".toList, .path⟩⟩] := by
  have wellFormed : importingPage.top.WellFormed := by decide
  refine ⟨wellFormed, run_isExact importingPage _ wellFormed, ?_⟩
  cbv

end Analysis

end Orphans
