import Mathlib
import Orphans.Proofs.Analysis
import Orphans.Proofs.Scope

/-!
# Usages in a narrower corpus

`Analysis.run_narrowed`: when the corpus of one run narrows that of another, every candidate of the
narrower one keeps its usage as long as the file that it names is still there. A candidate without
references gets none, and one that loses its reference is referred to by a later file, or by none.

A subsequence is an increasing map of positions, so the positions that refer to a key in the narrow
corpus are those in the wide one that the map meets (`Embeds.refersTo_iff`), and the first of them
is found by comparing least elements. That the paths tell the files apart is needed to recognise a
file by the path that a usage names.

The map is an order embedding (`Narrows.exists_embeds`). That it is injective carries "apart from
the candidate" over, and that it reflects the order carries "the first" over (`isLeast_of_place`).
-/

namespace Orphans

/-- Whether the file at one path comes before the file at another one in a corpus. Where no path
occurs twice, of two different paths at most one comes before the other. -/
def Corpus.ComesBefore (corpus : Corpus) (path path' : RawPath) : Prop :=
  ∃ (i j : Nat) (file file' : SourceFile), i < j ∧
    corpus.files[i]? = some file ∧ corpus.files[j]? = some file' ∧
    file.path = path ∧ file'.path = path'

/-- What becomes of a usage when the corpus is narrowed. A candidate may lose its reference, keep
it, or be referred to by a later file than before; it never gains one that it did not have. -/
structure Usage.Narrowed (wide narrow : Corpus) (before after : Usage) : Prop where
  /-- The usage is about the same candidate. -/
  file_eq : after.file = before.file
  /-- What no file refers to is referred to by none of fewer files. -/
  unused : before.isUsed = false → after.isUsed = false
  /-- As long as the file that refers to the candidate is there, the usage is the same. -/
  kept : ∀ reference, before.referencedBy = some reference →
    (∃ file ∈ narrow.files, file.path = reference.file) → after = before
  /-- A file that refers to the candidate did so before, or another one did that came before it and
  is not there any more. -/
  used : ∀ reference, after.referencedBy = some reference →
    ∃ earlier, before.referencedBy = some earlier ∧
      (earlier.file = reference.file ∨
        wide.ComesBefore earlier.file reference.file ∧
          ∀ file ∈ narrow.files, file.path ≠ earlier.file)

namespace Corpus

/-! ### Positions of a subsequence -/

/-- The entries of a corpus stand in another one at the positions that an increasing map takes
theirs to. -/
structure Embeds (fs' : FileSystem) (narrow : Corpus) (fs : FileSystem) (wide : Corpus)
    (place : Nat ↪o Nat) : Prop where
  /-- The same file stands there. -/
  getElem?_place : ∀ (j : Nat) (file : SourceFile), narrow.files[j]? = some file →
    wide.files[place j]? = some file
  /-- It is a candidate in both or in neither. -/
  mem_candidates_iff : ∀ (j : Nat) (file : SourceFile), narrow.files[j]? = some file →
    (j ∈ narrow.candidates ↔ place j ∈ wide.candidates)
  /-- The same is read of it. -/
  readText?_eq : ∀ (j : Nat) (file : SourceFile), narrow.files[j]? = some file →
    fs'.readText? file.path = fs.readText? file.path

variable {fs fs' : FileSystem} {wide narrow : Corpus} {place : Nat ↪o Nat} {key : Text} {j : Nat}

/-- A subsequence of entries is an increasing map of positions, with the same entry at both places.
-/
theorem Narrows.exists_embeds (h : narrow.Narrows fs' fs wide) :
    ∃ place, narrow.Embeds fs' fs wide place := by
  obtain ⟨place, hplace⟩ := List.sublist_iff_exists_orderEmbedding_getElem?_eq.mp h
  have entry (j : Nat) (file : SourceFile) (hfile : narrow.files[j]? = some file) :
      wide.files[place j]? = some file ∧
        narrow.candidates.contains j = wide.candidates.contains (place j) ∧
        fs'.readText? file.path = fs.readText? file.path := by
    -- an entry is the file, whether it is a candidate, and what is read of it
    have same := hplace j
    rw [getElem?_entries, getElem?_entries, hfile, Option.map_some, eq_comm,
      Option.map_eq_some_iff] at same
    obtain ⟨file', hfile', same⟩ := same
    obtain ⟨rfl, hcandidate, htext⟩ := Entry.mk.inj same
    exact ⟨hfile', hcandidate.symm, htext.symm⟩
  refine ⟨place, fun j file hfile => (entry j file hfile).1, ?_,
    fun j file hfile => (entry j file hfile).2.2⟩
  intro j file hfile
  rw [← List.contains_iff_mem, ← List.contains_iff_mem, (entry j file hfile).2.1]

/-- A file of the narrow corpus refers to a key exactly when it does in the wide one. -/
theorem Embeds.refersTo_iff (h : narrow.Embeds fs' fs wide place) {file : SourceFile}
    (hfile : narrow.files[j]? = some file) :
    wide.RefersTo fs key (place j) ↔ narrow.RefersTo fs' key j := by
  unfold RefersTo
  rw [hfile, h.getElem?_place j file hfile]
  constructor
  · rintro ⟨file', text, hfile', htext, refers⟩
    obtain rfl := Option.some_inj.mp hfile'
    exact ⟨file, text, rfl, by rw [h.readText?_eq j file hfile, htext], refers⟩
  · rintro ⟨file', text, hfile', htext, refers⟩
    obtain rfl := Option.some_inj.mp hfile'
    exact ⟨file, text, rfl, by rw [← h.readText?_eq j file hfile, htext], refers⟩

/-- So a reference in the narrow corpus is one in the wide corpus. -/
theorem Embeds.refersTo_place (h : narrow.Embeds fs' fs wide place)
    (refers : narrow.RefersTo fs' key j) : wide.RefersTo fs key (place j) := by
  obtain ⟨file, text, hfile, htext, refers⟩ := refers
  exact (h.refersTo_iff hfile).mpr ⟨file, text, hfile, htext, refers⟩

end Corpus

/-! ### One usage -/

namespace Analysis

variable {fs fs' : FileSystem} {config : Config} {strategy : Strategy} {wide narrow : Corpus}
  {place : Nat ↪o Nat} {target : SourceFile} {j : Nat}

/-- What is in use in the narrow corpus is in use in the wide one. -/
theorem isUsed_place (h : narrow.Embeds fs' fs wide place)
    (used : (usageOf fs' strategy narrow j target).isUsed = true) :
    (usageOf fs strategy wide (place j) target).isUsed = true := by
  obtain ⟨i, ne, refers⟩ := isUsed_usageOf_iff.mp used
  exact isUsed_usageOf_iff.mpr
    ⟨place i, fun same => ne (place.injective same), h.refersTo_place refers⟩

/-- If the first file that refers to a key in the wide corpus is in the narrow one, it is the first
there. -/
theorem isLeast_of_place (h : narrow.Embeds fs' fs wide place) {key : Text} {q : Nat}
    {file : SourceFile} (hfile : narrow.files[q]? = some file)
    (hleast : IsLeast {i | i ≠ place j ∧ wide.RefersTo fs key i} (place q)) :
    IsLeast {i | i ≠ j ∧ narrow.RefersTo fs' key i} q := by
  obtain ⟨⟨ne, refers⟩, least⟩ := hleast
  refine ⟨⟨fun same => ne (congrArg place same), (h.refersTo_iff hfile).mp refers⟩, ?_⟩
  rintro i ⟨hi, refers⟩
  have inWide : place q ≤ place i :=
    least ⟨fun same => hi (place.injective same), h.refersTo_place refers⟩
  exact place.le_iff_le.mp inWide

/-- The path of a file tells its position in the wide corpus. -/
theorem place_eq_of_path_eq (wellFormed : fs.top.WellFormed)
    (h : narrow.Embeds fs' fs (Corpus.collect fs config) place) {i q : Nat}
    {file other : SourceFile} (hfile : (Corpus.collect fs config).files[i]? = some file)
    (hother : narrow.files[q]? = some other) (same : other.path = file.path) : place q = i := by
  by_contra ne
  exact Corpus.path_ne_of_ne wellFormed ne (h.getElem?_place q other hother) hfile same

/-- The usage of one candidate in a narrower corpus. All three parts compare two least positions,
the one in the narrow corpus with the place that the map gives it in the wide one. -/
theorem usageOf_narrowed (wellFormed : fs.top.WellFormed)
    (h : narrow.Embeds fs' fs (Corpus.collect fs config) place) :
    Usage.Narrowed (Corpus.collect fs config) narrow
      (usageOf fs strategy (Corpus.collect fs config) (place j) target)
      (usageOf fs' strategy narrow j target) where
  file_eq := rfl
  unused := by
    intro unused
    by_contra used
    rw [isUsed_place h (by simpa using used)] at unused
    cases unused
  kept := by
    rintro reference hreference ⟨other, hmember, hpath⟩
    obtain ⟨found, file, text, hleast, hfile, htext, hreferring, hvia⟩ :=
      referencedBy_eq_some_iff.mp hreference
    obtain ⟨q, hother⟩ := List.mem_iff_getElem?.mp hmember
    obtain rfl := place_eq_of_path_eq wellFormed h hfile hother (hpath.trans hreferring)
    obtain rfl := Option.some_inj.mp ((h.getElem?_place q other hother).symm.trans hfile)
    have after : (usageOf fs' strategy narrow j target).referencedBy = some reference :=
      referencedBy_eq_some_iff.mpr ⟨q, other, text, isLeast_of_place h hother hleast, hother,
        by rw [h.readText?_eq q other hother, htext], hreferring, hvia⟩
    exact congrArg (Usage.mk target.path) (after.trans hreference.symm)
  used := by
    intro reference hreference
    obtain ⟨q, file, -, hleast, hfile, -, hreferring, -⟩ := referencedBy_eq_some_iff.mp hreference
    obtain ⟨earlier, hearlier⟩ :=
      Option.isSome_iff_exists.mp (isUsed_place h (Option.isSome_of_eq_some hreference))
    obtain ⟨found, file', -, hleast', hfile', -, hreferring', -⟩ :=
      referencedBy_eq_some_iff.mp hearlier
    have atPlace := h.getElem?_place q file hfile
    have first : found ≤ place q :=
      hleast'.2 ⟨fun same => hleast.1.1 (place.injective same), h.refersTo_place hleast.1.2⟩
    refine ⟨earlier, hearlier, ?_⟩
    -- the first of the narrow corpus is the first of the wide one, or comes after it
    rcases first.eq_or_lt with rfl | before
    · obtain rfl := Option.some_inj.mp (hfile'.symm.trans atPlace)
      exact .inl (hreferring'.trans hreferring.symm)
    · refine .inr ⟨⟨found, place q, file', file, before, hfile', atPlace, hreferring'.symm,
        hreferring.symm⟩, ?_⟩
      intro other hmember hpath
      obtain ⟨q', hother⟩ := List.mem_iff_getElem?.mp hmember
      obtain rfl := place_eq_of_path_eq wellFormed h hfile' hother (hpath.trans hreferring')
      -- the earlier file would be the first of the narrow corpus, too
      have notAfter : q ≤ q' := hleast.2 (isLeast_of_place h hother hleast').1
      exact absurd (place.le_iff_le.mpr notAfter) (not_le.mpr before)

/-- **A narrower corpus**: where the corpus of a run narrows that of another run with the same
strategy, the usages of its candidates are those of the other run, as far as the files that they
name are there. Fewer extensions and more directories left out always narrow the corpus. -/
theorem run_narrowed (fs : FileSystem) (config : Config) (wellFormed : fs.top.WellFormed) :
    (∀ (fs' : FileSystem) (config' : Config), config'.strategy = config.strategy →
      (run fs' config').corpus.Narrows fs' fs (run fs config).corpus →
      ∀ j ∈ (run fs' config').corpus.candidates, ∃ (i : Nat) (target : SourceFile)
        (before after : Usage),
        (run fs config).corpus.files[i]? = some target ∧
        (run fs' config').corpus.files[j]? = some target ∧
        (run fs config).usageAt? i = some before ∧ (run fs' config').usageAt? j = some after ∧
        Usage.Narrowed (run fs config).corpus (run fs' config').corpus before after) ∧
    ∀ extensions excludeDirs : NameSet, (∀ name ∈ extensions, name ∈ config.extensions) →
      (∀ name ∈ config.excludeDirs, name ∈ excludeDirs) →
      (run fs (config.withScope extensions excludeDirs)).corpus.Narrows fs fs
        (run fs config).corpus := by
  refine ⟨?_, ?_⟩
  · intro fs' config' same narrows j hj
    obtain ⟨place, h⟩ := narrows.exists_embeds
    obtain ⟨target, htarget⟩ := Corpus.exists_getElem?_of_mem_candidates hj
    have inWide := h.getElem?_place j target htarget
    have isCandidate := (h.mem_candidates_iff j target htarget).mp hj
    have after := usageAt?_run hj htarget
    rw [same] at after
    exact ⟨place j, target, _, _, inWide, htarget, usageAt?_run isCandidate inWide, after,
      usageOf_narrowed wellFormed h⟩
  · intro extensions excludeDirs hextensions hexcludeDirs
    exact Corpus.collect_narrows fs hextensions hexcludeDirs

/-- A component that is imported by a page and, before it, by a generated file. -/
def generatedImport : FileSystem where
  top := .dir [(Utf8.encode "site".toList, .dir [
    (Utf8.encode "gen".toList, .dir [
      (Utf8.encode "all.ts".toList, .file (Utf8.encode "'../nav'".toList))]),
    (Utf8.encode "main.ts".toList, .file (Utf8.encode "import './nav'".toList)),
    (Utf8.encode "nav.ts".toList, .file [])])]
  workingDir := []

/-- Without the generated files the component is in use by the page, which comes later. -/
theorem run_narrowed_generatedImport :
    let config := Config.ofRoot (.ofText "/site".toList)
    let narrow := config.withScope config.extensions (Config.nameSet ["gen".toList])
    let path := RawPath.ofText "/site/nav.ts".toList
    generatedImport.top.WellFormed ∧
      (run generatedImport narrow).corpus.Narrows generatedImport generatedImport
        (run generatedImport config).corpus ∧
      1 ∈ (run generatedImport narrow).corpus.candidates ∧
      Usage.Narrowed (run generatedImport config).corpus (run generatedImport narrow).corpus
        ⟨path, some ⟨.ofText "/site/gen/all.ts".toList, .name⟩⟩
        ⟨path, some ⟨.ofText "/site/main.ts".toList, .name⟩⟩ := by
  intro config narrow path
  have wellFormed : generatedImport.top.WellFormed := by decide
  obtain ⟨law, scope⟩ := run_narrowed generatedImport config wellFormed
  have narrows := scope config.extensions (Config.nameSet ["gen".toList]) (fun _ h => h)
    fun _ h => absurd h Std.ExtTreeSet.not_mem_empty
  have isCandidate : 1 ∈ (run generatedImport narrow).corpus.candidates :=
    List.mem_of_getElem? (show _[1]? = some 1 by cbv)
  obtain ⟨i, target, before, after, hi, hj, hbefore, hafter, narrowed⟩ :=
    law generatedImport narrow rfl narrows 1 isCandidate
  have hnav : (run generatedImport config).corpus.files[2]? =
      some ⟨path, "nav.ts".toList, "ts".toList, "nav".toList, "nav".toList⟩ := by cbv
  have hnav' : (run generatedImport narrow).corpus.files[1]? =
      some ⟨path, "nav.ts".toList, "ts".toList, "nav".toList, "nav".toList⟩ := by cbv
  obtain rfl := Option.some_inj.mp (hj.symm.trans hnav')
  obtain rfl : i = 2 := by
    by_contra ne
    exact Corpus.path_ne_of_ne wellFormed ne hi hnav rfl
  have wide : (run generatedImport config).usageAt? 2 =
      some ⟨path, some ⟨.ofText "/site/gen/all.ts".toList, .name⟩⟩ := by cbv
  have rest : (run generatedImport narrow).usageAt? 1 =
      some ⟨path, some ⟨.ofText "/site/main.ts".toList, .name⟩⟩ := by cbv
  obtain rfl := Option.some_inj.mp (hbefore.symm.trans wide)
  obtain rfl := Option.some_inj.mp (hafter.symm.trans rest)
  exact ⟨wellFormed, narrows, isCandidate, narrowed⟩

end Analysis

end Orphans
