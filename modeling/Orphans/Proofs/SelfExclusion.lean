import Mathlib
import Orphans.Proofs.Analysis
import Orphans.Proofs.Write

/-!
# The content of a candidate

`Analysis.run_write`: writing another content into the file of a candidate changes neither the
corpus nor the usage of the candidate, as long as no link of the corpus leads to that file. The
corpus is the same because the outline of the tree is. The usage is the same because it depends only
on what is read from the other files of the corpus (`Analysis.usageOf_congr`), and of these the ones
that are no links stand at other places in the tree (`Corpus.resolve_ne_of_ne`).

A link in the corpus that leads to the candidate is another file, with the candidate's own content,
and that content counts (`Analysis.own_content_counts_through_link`).

All of this is about trees in which a regular file has one name, as a `FileTree` holds contents by
entry. Where two names are names of one file (hard links), writing through one changes what is read
under the other, and that other entry then stands to the candidate as a link to it does.
-/

namespace Orphans

/-- A link of the corpus leads to where a path leads. What a link is called and where it stands does
not matter. -/
def Corpus.HasLinkTo (fs : FileSystem) (corpus : Corpus) (path : RawPath) : Prop :=
  ∃ other ∈ corpus.files, fs.isLink other.path = true ∧ fs.resolve other.path = fs.resolve path

instance (fs : FileSystem) (corpus : Corpus) (path : RawPath) :
    Decidable (corpus.HasLinkTo fs path) :=
  inferInstanceAs (Decidable (∃ other ∈ corpus.files, _ ∧ _))

namespace Analysis

/-- The usage of a file depends only on what is read from the other files of the corpus. -/
theorem usageOf_congr {fs fs' : FileSystem} {strategy : Strategy} {corpus : Corpus}
    {candidate : Nat} {target : SourceFile}
    (same : ∀ i other, i ≠ candidate → corpus.files[i]? = some other →
      fs.readText? other.path = fs'.readText? other.path) :
    usageOf fs strategy corpus candidate target = usageOf fs' strategy corpus candidate target := by
  have texts_eq (i : Nat) (ne : i ≠ candidate) :
      (texts fs corpus)[i]? = (texts fs' corpus)[i]? := by
    unfold texts
    rw [List.getElem?_map, List.getElem?_map]
    rcases hfile : corpus.files[i]? with _ | other
    · rfl
    · rw [Option.map_some, Option.map_some, same i other ne hfile]
  unfold usageOf Usage.usageOf
  rw [Usage.firstReference?_congr (length_texts fs corpus).symm (length_texts fs' corpus).symm
    (Usage.isSome_viaIn? strategy target) texts_eq]

/-- The other files of a corpus are read as before when another content is written into one, except
through links. -/
theorem readText?_write_of_ne {fs : FileSystem} {config : Config} (wellFormed : fs.top.WellFormed)
    {i candidate : Nat} {target other : SourceFile} {old : Bytes} (new : Bytes)
    (htarget : (Corpus.collect fs config).files[candidate]? = some target)
    (hfile : fs.lstat? target.path = some (.file old))
    (noLink : ¬ (Corpus.collect fs config).HasLinkTo fs target.path)
    (ne : i ≠ candidate) (hother : (Corpus.collect fs config).files[i]? = some other) :
    (fs.write target.path new).readText? other.path = fs.readText? other.path := by
  have notLink : fs.isLink target.path = false := by
    rw [FileSystem.isLink, hfile]
    rfl
  have elsewhere : fs.resolve other.path ≠ fs.resolve target.path := by
    intro same
    rcases link : fs.isLink other.path
    · exact Corpus.resolve_ne_of_ne wellFormed ne hother htarget link notLink same
    · exact noLink ⟨other, List.mem_of_getElem? hother, link, same⟩
  have hstat : fs.stat? target.path = some (.file old) := FileSystem.stat?_of_lstat? hfile rfl
  exact FileSystem.readText?_write wellFormed hstat new elsewhere

/-- **Self-exclusion**: another content in the file of a candidate leaves the corpus as it is, and
the usage of the candidate too unless a link of the corpus leads to that file. The file has this one
name in the tree: there are no hard links to it.  Neither content has to be a text. What is written
may well change the usages of other candidates, as the file may begin or cease to refer to them. -/
theorem run_write (fs : FileSystem) (config : Config) (wellFormed : fs.top.WellFormed)
    {n candidate : Nat} {target : SourceFile} {old : Bytes} (new : Bytes)
    (hcandidate : (Corpus.collect fs config).candidates[n]? = some candidate)
    (htarget : (Corpus.collect fs config).files[candidate]? = some target)
    (hfile : fs.lstat? target.path = some (.file old)) :
    (run (fs.write target.path new) config).corpus = (run fs config).corpus ∧
      (¬ (Corpus.collect fs config).HasLinkTo fs target.path →
        ∃ usage, usage.file = target.path ∧ (run fs config).usages[n]? = some usage ∧
          (run (fs.write target.path new) config).usages[n]? = some usage) := by
  have hstat : fs.stat? target.path = some (.file old) := FileSystem.stat?_of_lstat? hfile rfl
  have corpus_eq : Corpus.collect (fs.write target.path new) config = Corpus.collect fs config :=
    Corpus.collect_eq_of_outline_eq (FileSystem.outline_write wellFormed hstat new) config
  refine ⟨corpus_eq, ?_⟩
  intro noLink
  -- the usage stands at the same place in both runs, as the corpus is the same
  have before : (run fs config).usages[n]? =
      some (usageOf fs config.strategy (Corpus.collect fs config) candidate target) :=
    getElem?_byStrategy hcandidate htarget config.strategy
  have usage_eq :
      usageOf (fs.write target.path new) config.strategy (Corpus.collect fs config) candidate
        target = usageOf fs config.strategy (Corpus.collect fs config) candidate target :=
    usageOf_congr fun i other ne hother =>
      readText?_write_of_ne wellFormed new htarget hfile noLink ne hother
  rw [← corpus_eq] at hcandidate htarget
  have after : (run (fs.write target.path new) config).usages[n]? =
      some (usageOf (fs.write target.path new) config.strategy
        (Corpus.collect (fs.write target.path new) config) candidate target) :=
    getElem?_byStrategy hcandidate htarget config.strategy
  rw [corpus_eq, usage_eq] at after
  exact ⟨_, rfl, before, after⟩

/-- A component that mentions itself, a page that imports it, and a link that leads to the page. -/
def linkedPage : FileSystem where
  top := .dir [(Utf8.encode "site".toList, .dir [
    (Utf8.encode "nav.ts".toList, .file (Utf8.encode "'./nav'".toList)),
    (Utf8.encode "old.ts".toList, .link (Utf8.encode "page.tsx".toList)),
    (Utf8.encode "page.tsx".toList, .file (Utf8.encode "import './nav'".toList))])]
  workingDir := []

/-- The component stays in use by what the link leads to, also when its own content is no text any
more. -/
theorem run_write_linkedPage :
    let config := Config.ofRoot (.ofText "/site".toList)
    let target : SourceFile := ⟨.ofText "/site/nav.ts".toList, "nav.ts".toList, "ts".toList,
      "nav".toList, "nav".toList⟩
    let usage : Usage := ⟨target.path, some ⟨.ofText "/site/old.ts".toList, .name⟩⟩
    linkedPage.top.WellFormed ∧
      (Corpus.collect linkedPage config).candidates[0]? = some 0 ∧
      (Corpus.collect linkedPage config).files[0]? = some target ∧
      linkedPage.lstat? target.path = some (.file (Utf8.encode "'./nav'".toList)) ∧
      ¬ (Corpus.collect linkedPage config).HasLinkTo linkedPage target.path ∧
      (run (linkedPage.write target.path [0xFF]) config).usages[0]? = some usage := by
  intro config target usage
  have wellFormed : linkedPage.top.WellFormed := by decide
  have hcandidate : (Corpus.collect linkedPage config).candidates[0]? = some 0 := by cbv
  have htarget : (Corpus.collect linkedPage config).files[0]? = some target := by cbv
  have hfile : linkedPage.lstat? target.path = some (.file (Utf8.encode "'./nav'".toList)) := by cbv
  have noLink : ¬ (Corpus.collect linkedPage config).HasLinkTo linkedPage target.path :=
    of_decide_eq_false (by cbv)
  obtain ⟨-, same⟩ := run_write linkedPage config wellFormed [0xFF] hcandidate htarget hfile
  obtain ⟨usage', -, before, after⟩ := same noLink
  have now : (run linkedPage config).usages[0]? = some usage := by cbv
  obtain rfl := Option.some_inj.mp (before.symm.trans now)
  exact ⟨wellFormed, hcandidate, htarget, hfile, noLink, after⟩

/-- A component that mentions itself, and a link that leads to it. -/
def linkedComponent : FileSystem where
  top := .dir [(Utf8.encode "site".toList, .dir [
    (Utf8.encode "a.ts".toList, .file (Utf8.encode "export * from './a'".toList)),
    (Utf8.encode "b.ts".toList, .link (Utf8.encode "a.ts".toList))])]
  workingDir := []

/-- Read through the link, the component is in use by its own content, and no longer so when it is
emptied. -/
theorem own_content_counts_through_link :
    ¬ ∀ (fs : FileSystem) (config : Config) (n candidate : Nat) (target : SourceFile)
      (old new : Bytes), fs.top.WellFormed →
      (Corpus.collect fs config).candidates[n]? = some candidate →
      (Corpus.collect fs config).files[candidate]? = some target →
      fs.lstat? target.path = some (.file old) →
      (run (fs.write target.path new) config).corpus = (run fs config).corpus ∧
        (run (fs.write target.path new) config).usages[n]? = (run fs config).usages[n]? := by
  intro h
  have same := h linkedComponent (.ofRoot (.ofText "/site".toList)) 0 0
    ⟨.ofText "/site/a.ts".toList, "a.ts".toList, "ts".toList, "a".toList, "a".toList⟩
    (Utf8.encode "export * from './a'".toList) [] (by decide) (by cbv) (by cbv) (by cbv)
  have used : (run linkedComponent (.ofRoot (.ofText "/site".toList))).usages[0]? =
      some ⟨.ofText "/site/a.ts".toList, some ⟨.ofText "/site/b.ts".toList, .name⟩⟩ := by cbv
  have unused : (run (linkedComponent.write (.ofText "/site/a.ts".toList) [])
      (.ofRoot (.ofText "/site".toList))).usages[0]? =
      some ⟨.ofText "/site/a.ts".toList, none⟩ := by cbv
  have changed := unused.symm.trans (same.2.trans used)
  cases changed

end Analysis

end Orphans
