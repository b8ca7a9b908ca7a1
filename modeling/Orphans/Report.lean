import Orphans.Analysis
import Orphans.Json

/-!
# Reports

What a run tells about an analysis: counts, the candidates that are not in use, and for each of the
others a file that refers to it. A report is shown either in plain words, with the unused files
only, or as JSON with everything.

All paths are texts here, as they are shown. Two files whose names are no UTF-8 may be shown in the
same way, so an entry does not always tell its file; the order of the entries does.
-/

namespace Orphans

/-- A candidate in use. -/
structure UsedFile where
  /-- The candidate. -/
  file : Text
  /-- The first other file that refers to it. -/
  referencedBy : Text
  /-- By which key that file refers to it. -/
  via : Via
deriving Repr, DecidableEq

/-- The counts of a report. -/
structure Summary where
  /-- All source files. -/
  corpusFiles : Nat
  /-- The candidates. -/
  checkedFiles : Nat
  /-- The source files that are no candidates. -/
  implicitEntryPoints : Nat
  /-- The candidates that no other file refers to. -/
  unusedFilesCount : Nat
deriving Repr, DecidableEq

/-- A report, with all paths as they are shown. -/
structure Report where
  root : Text
  sourceRoot : Text
  /-- How references were searched for. -/
  strategy : Strategy
  summary : Summary
  unusedFiles : List Text
  usedFiles : List UsedFile
deriving Repr, DecidableEq

/-! ### JSON values -/

/-- The counts as a JSON value. -/
def Summary.toJson (summary : Summary) : Json :=
  .record [
    Json.member "corpus_files" (.number summary.corpusFiles),
    Json.member "checked_files" (.number summary.checkedFiles),
    Json.member "implicit_entry_points" (.number summary.implicitEntryPoints),
    Json.member "unused_files_count" (.number summary.unusedFilesCount)]

/-- A used file as a JSON value. -/
def UsedFile.toJson (used : UsedFile) : Json :=
  .record [
    Json.member "file" (.text used.file),
    Json.member "referenced_by" (.text used.referencedBy),
    Json.member "via" (.text used.via.label.toList)]

/-- A report as a JSON value. -/
def Report.toJson (report : Report) : Json :=
  .record [
    Json.member "root" (.text report.root),
    Json.member "source_root" (.text report.sourceRoot),
    Json.member "strategy" (.text report.strategy.name.toList),
    Json.member "summary" report.summary.toJson,
    Json.member "unused_files" (.list (report.unusedFiles.map .text)),
    Json.member "used_files" (.list (report.usedFiles.map UsedFile.toJson))]

namespace Report

/-- The entry of a usage among the used files, if it belongs there. -/
def usedFile? (usage : Usage) : Option UsedFile :=
  usage.referencedBy.map fun reference =>
    ⟨usage.file.display, reference.file.display, reference.via⟩

/-- The report on an analysis under a configuration. -/
def ofAnalysis (config : Config) (analysis : Analysis) : Report :=
  let corpus := analysis.corpus
  let unusedFiles := analysis.unused.map RawPath.display
  { root := config.root.display
    sourceRoot := config.sourceRoot.display
    strategy := config.strategy
    summary :=
      { corpusFiles := corpus.files.length
        checkedFiles := corpus.candidates.length
        implicitEntryPoints := corpus.files.length - corpus.candidates.length
        unusedFilesCount := unusedFiles.length }
    unusedFiles := unusedFiles
    usedFiles := analysis.usages.filterMap usedFile? }

/-! ### Texts -/

/-- The report in plain words: a line for each unused file under two headings. -/
def plain (report : Report) : Text :=
  "Checking ".toList ++ Nat.toDigits 10 report.summary.checkedFiles ++
    " files for usage...\n\nPotential Unused Files Found:\n".toList ++
    report.unusedFiles.flatMap (· ++ ['\n'])

/-- The report as JSON text, without a newline at the end. -/
def json (report : Report) : Text :=
  report.toJson.pretty

end Report

end Orphans
