import Orphans.Proofs.Analysis

/-!
# The index and the scan agree

`Usage.byIndex_agrees_byScan`: on a collected corpus both strategies give a usage for each
candidate, about the same file and with the same referring file. The usages are equal unless the
path key of the candidate is empty. Then the index reports a reference by the name key, while the
scan reports one by the path key as soon as the referring text holds any literal, because every
literal ends with the empty key.

Both strategies have been shown to be one search (`Analysis.referencedBy_eq_some_iff`), so all that
is left is to compare what they make of one text:

* A path key that is not empty is read alike (`viaIn?_index_eq_scan`), and then the usages are
  equal.
* An empty path key is never found by the index (`viaIn?_index_of_pathKey_eq_nil`), since the ends
  of a literal that it notes are the non-empty ones.
* The scan finds it at the end of any literal (`viaIn?_scan_of_pathKey_eq_nil`).

A path key is empty for a candidate that is the source root itself, and for one directly below it
whose stem is read as a special component, as that of `..ts`. No candidate has an empty name key
(`Corpus.nameKey_ne_nil`).
-/

namespace Orphans.Usage

open KeyPattern (Refers)

/-! ### One text -/

/-- A text refers to the empty key exactly when it holds a literal. -/
theorem refers_nil_iff {text : Text} : Refers text [] ↔ literals text ≠ [] := by
  rw [KeyPattern.refers_iff_exists_literal (by rfl), ne_eq, List.eq_nil_iff_forall_not_mem]
  simp

/-- The two strategies read every text alike, as long as the path key is not empty: the empty key is
the only one that the index leaves out. -/
theorem viaIn?_index_eq_scan {target : SourceFile} (nonempty : target.pathKey ≠ []) :
    viaIn? .index target = viaIn? .scan target := by
  funext text
  have same : ReadsAsPath .index target text ↔ ReadsAsPath .scan target text := by
    simp [ReadsAsPath, nonempty]
  unfold viaIn?
  simp only [same]

/-- The index reports a candidate with an empty path key by its name key, whatever the text holds.
-/
theorem viaIn?_index_of_pathKey_eq_nil {target : SourceFile} (empty : target.pathKey = [])
    {text : Text} {via : Via} (h : viaIn? .index target text = some via) : via = .name := by
  rw [(viaIn?_eq_some_iff.mp h).2, if_neg]
  exact fun reads => reads.2.1 rfl empty

/-- The scan reports a candidate with an empty path key by this key as soon as the text holds a
literal. A text can refer to the name key without holding any: the name key need not be path-safe.
-/
theorem viaIn?_scan_of_pathKey_eq_nil {target : SourceFile} (empty : target.pathKey = [])
    (nonempty : target.nameKey ≠ []) {text : Text} {via : Via}
    (h : viaIn? .scan target text = some via) :
    via = if literals text = [] then .name else .path := by
  have reads : ReadsAsPath .scan target text ↔ literals text ≠ [] := by
    unfold ReadsAsPath
    rw [empty, refers_nil_iff]
    simp [nonempty.symm]
  rw [(viaIn?_eq_some_iff.mp h).2]
  by_cases hliterals : literals text = [] <;> simp [reads, hliterals]

/-! ### All candidates -/

/-- How the usages that the strategies give for one candidate are related. -/
structure StrategiesAgree (fs : FileSystem) (target : SourceFile) (indexed scanned : Usage) :
    Prop where
  /-- Both are about the same candidate. -/
  file_eq : indexed.file = scanned.file
  /-- Both report the same referring file, or none. -/
  referring_eq : indexed.referencedBy.map (·.file) = scanned.referencedBy.map (·.file)
  /-- Unless the path key is empty, both report the same in all. -/
  eq_of_pathKey_ne_nil : target.pathKey ≠ [] → indexed = scanned
  /-- The index never finds the empty path key. -/
  indexed_via : target.pathKey = [] → ∀ reference, indexed.referencedBy = some reference →
    reference.via = .name
  /-- The scan finds the empty path key at the end of every literal. -/
  scanned_via : target.pathKey = [] → ∀ reference, scanned.referencedBy = some reference →
    ∃ text, fs.readText? reference.file = some text ∧
      reference.via = if literals text = [] then .name else .path

/-- For one candidate with a name key the two strategies agree in all that is promised. The
referring file is the same in any case, as it depends on the name key alone. -/
theorem usageOf_agree {fs : FileSystem} {corpus : Corpus} {candidate : Nat} {target : SourceFile}
    (nonempty : target.nameKey ≠ []) :
    StrategiesAgree fs target (Analysis.usageOf fs .index corpus candidate target)
      (Analysis.usageOf fs .scan corpus candidate target) where
  file_eq := rfl
  referring_eq := by
    -- both are the file at the least position that refers to the name key
    ext path
    rw [Analysis.map_file_referencedBy_eq_some_iff, Analysis.map_file_referencedBy_eq_some_iff]
  eq_of_pathKey_ne_nil := by
    intro hpath
    unfold Analysis.usageOf usageOf
    rw [viaIn?_index_eq_scan hpath]
  indexed_via := by
    intro empty reference hreference
    obtain ⟨-, -, text, -, -, -, -, hvia⟩ := Analysis.referencedBy_eq_some_iff.mp hreference
    exact viaIn?_index_of_pathKey_eq_nil empty hvia
  scanned_via := by
    intro empty reference hreference
    obtain ⟨-, file, text, -, -, htext, hfile, hvia⟩ :=
      Analysis.referencedBy_eq_some_iff.mp hreference
    exact ⟨text, by rw [hfile, htext], viaIn?_scan_of_pathKey_eq_nil empty nonempty hvia⟩

/-- **Agreement of the strategies**: on every collected corpus the index and the scan give usages
for the same candidates, in the same order, and the two usages of a candidate agree.  Nothing is
assumed of the file system or the configuration. The usages are equal unless the path key of the
candidate is empty. Even then both are about the same file and name the same referring file; only
the key differs, as the empty key is at the end of every literal and under no key of the index. -/
theorem byIndex_agrees_byScan (fs : FileSystem) (config : Config) :
    let corpus := Corpus.collect fs config
    let indexed := byIndex corpus (Analysis.texts fs corpus)
    let scanned := byScan corpus (Analysis.texts fs corpus)
    indexed.length = corpus.candidates.length ∧ scanned.length = corpus.candidates.length ∧
      ∀ n : Fin corpus.candidates.length, ∃ target usage usage',
        corpus.files[corpus.candidates.get n]? = some target ∧
        indexed[n.val]? = some usage ∧ scanned[n.val]? = some usage' ∧
        usage.file = target.path ∧ StrategiesAgree fs target usage usage' := by
  intro corpus indexed scanned
  refine ⟨Analysis.length_byStrategy fs config .index, Analysis.length_byStrategy fs config .scan,
    ?_⟩
  intro n
  obtain ⟨target, htarget⟩ := Corpus.exists_getElem?_candidates n
  have hcandidate : corpus.candidates[n.val]? = some (corpus.candidates.get n) :=
    List.getElem?_eq_getElem n.isLt
  have nonempty : target.nameKey ≠ [] := Corpus.nameKey_ne_nil (List.mem_of_getElem? htarget)
  exact ⟨target, _, _, htarget, Analysis.getElem?_byStrategy hcandidate htarget .index,
    Analysis.getElem?_byStrategy hcandidate htarget .scan, rfl, usageOf_agree nonempty⟩

end Orphans.Usage
