import Mathlib.Data.List.Basic
import Orphans.Proofs.JsonReader
import Orphans.Proofs.JsonSpelling
import Orphans.Report.Reader

/-!
# Reports are read back

`Report.json_isLossless`: the JSON text of a report is a spelling of one value only, and the report
is read back from it. Each record has members with different names, so each is found by its name,
and the names of the two kinds of keys and of the two strategies are different.

That the text spells the value is a property of the printer (`Json.isSpelling_pretty`), that it
spells no other one is a property of the grammar (`Json.IsSpelling.eq`), and that the value gives
the report back is the only part that looks at reports (`Report.ofJson?_toJson`).
-/

namespace Orphans

/-- The two kinds of keys have different names. -/
theorem Via.ofLabel?_label (via : Via) : Via.ofLabel? via.label.toList = some via := by
  cases via <;> rfl

/-- So have the two strategies. -/
theorem Strategy.ofName?_name (strategy : Strategy) :
    Strategy.ofName? strategy.name.toList = some strategy := by
  cases strategy <;> rfl

/-- The counts are read back. -/
theorem Summary.ofJson?_toJson (summary : Summary) : ofJson? summary.toJson = some summary :=
  rfl

/-- A used file is read back. -/
theorem UsedFile.ofJson?_toJson (used : UsedFile) : ofJson? used.toJson = some used := by
  show (Via.ofLabel? used.via.label.toList).bind
    (fun via => some ⟨used.file, used.referencedBy, via⟩) = some used
  rw [Via.ofLabel?_label]
  rfl

/-- Items that are read back one by one. -/
theorem mapM_map_eq_some {α β : Type} {write : α → β} {read : β → Option α}
    (h : ∀ item, read (write item) = some item) (items : List α) :
    (items.map write).mapM read = some items := by
  have inverse : read ∘ write = fun item => pure (id item) := funext h
  rw [List.mapM_map, inverse, List.mapM_pure, List.map_id]
  rfl

namespace Report

/-- A report is the report of its JSON value. Numbers, texts and lists are read back as they are,
and what has a name of its own, by its name. -/
theorem ofJson?_toJson (report : Report) : ofJson? report.toJson = some report := by
  -- Every member has been found by its name; what is left is to read the values that have kinds,
  -- counts and items in them.
  show (Strategy.ofName? report.strategy.name.toList).bind (fun strategy =>
    (Summary.ofJson? report.summary.toJson).bind fun summary =>
      ((report.unusedFiles.map Json.text).mapM Json.text?).bind fun unusedFiles =>
        ((report.usedFiles.map UsedFile.toJson).mapM UsedFile.ofJson?).bind fun usedFiles =>
          some ⟨report.root, report.sourceRoot, strategy, summary, unusedFiles, usedFiles⟩) =
    some report
  have textOf (text : Text) : Json.text? (.text text) = some text := rfl
  rw [Strategy.ofName?_name, Summary.ofJson?_toJson, mapM_map_eq_some textOf,
    mapM_map_eq_some UsedFile.ofJson?_toJson]
  rfl

/-- The text of a report spells its value. -/
theorem isSpelling_json (report : Report) : report.toJson.IsSpelling report.json :=
  Json.isSpelling_pretty report.toJson

/-- A spelling of the JSON value of a report, whoever has written it. -/
theorem ofText?_of_isSpelling {report : Report} {text : Text}
    (h : report.toJson.IsSpelling text) : ofText? text = some report := by
  unfold ofText?
  rw [Json.read?_eq_some_iff.mpr h]
  exact ofJson?_toJson report

/-- **Reading back**: the JSON text of a report spells the value of the report and no other, and the
report is read back from it as it was, also with a newline after it. So different reports have
different texts. -/
theorem json_isLossless (report : Report) :
    (∀ value : Json, value.IsSpelling report.json ↔ value = report.toJson) ∧
    ofJson? report.toJson = some report ∧
    ofText? report.json = some report ∧
    ofText? (report.json ++ ['\n']) = some report ∧
    ∀ other : Report, report.json = other.json ↔ report = other := by
  have spelled := isSpelling_json report
  have read : ofText? report.json = some report := ofText?_of_isSpelling spelled
  refine ⟨?_, ofJson?_toJson report, read, ofText?_of_isSpelling (spelled.concat rfl), ?_⟩
  · intro value
    constructor
    · intro h
      exact h.eq spelled
    · rintro rfl
      exact spelled
  · intro other
    constructor
    · -- equal texts are read back as one report
      intro same
      rw [same, ofText?_of_isSpelling (isSpelling_json other)] at read
      exact (Option.some_inj.mp read).symm
    · rintro rfl
      rfl

end Report

end Orphans
