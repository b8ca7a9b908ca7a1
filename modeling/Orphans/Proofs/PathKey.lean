import Mathlib
import Orphans.Proofs.Analysis

/-!
# References by the path key

The path key of a candidate is looked for only where its name key has been found, so a reference by
the path key counts only if it is one by the name key as well. `KeyPattern.carries_iff`: that every
reference by one key is one by another can be read off the shortest such reference, the key between
two quotes. A path key carries its name key in this way as long as only path-safe characters follow
the last quote of the directories before the name (`KeyPattern.carries_of_directory`), and then no
reference is lost (`Analysis.isUsed_of_matches_pathKey`).

It does not in a directory such as `[slug]`: the name of a file there is path-safe, so a literal has
to end with it, and no literal goes through a bracket (`Analysis.pathKey_reference_lost`). The name
of the directory need not be path-safe as a whole, though: a quote in it opens a literal that ends
with the name (`Analysis.isUsed_of_matches_pathKey_quotedDirectory`).

The lemma behind all of this is `KeyPattern.Refers.of_carries`. The reference inside the quoted key
begins at its first quote or inside the key, and in both cases it can be moved to where the key
stands in another text.
-/

namespace Orphans

namespace KeyPattern

variable {key other text : Text}

/-- A key carries another one if its quoted form refers to that one too. -/
def Carries (key other : Text) : Prop :=
  Refers (quoted key) other

instance (key other : Text) : Decidable (Carries key other) :=
  inferInstanceAs (Decidable (Refers _ _))

/-- A key between quotes is a reference to the key. -/
theorem refers_quoted (key : Text) : Refers (quoted key) key :=
  ⟨[], [], [], '\x27', '\x27', rfl, rfl, rfl, rfl⟩

/-- What stands in a text with a quote at its end stands there also with another end that begins
with a quote. -/
theorem exists_eq_append_of_concat_eq (rest : Text) {front after : Text} {quote closing last : Char}
    (hlast : isQuote last = true) (hclosing : isQuote closing = true)
    (h : key ++ [quote] = front ++ closing :: after) :
    ∃ closing' after', isQuote closing' = true ∧
      key ++ last :: rest = front ++ closing' :: after' := by
  rcases concat_eq_append_cons_iff.mp h with ⟨-, rfl, -⟩ | ⟨inner, -, rfl⟩
  · exact ⟨last, rest, hlast, rfl⟩
  · exact ⟨closing, inner ++ last :: rest, hclosing, by simp⟩

/-- A text that refers to a key refers to all that the key carries. What stands between the quotes
of the quoted key stands in the text as well, and the closing quote is that of the text. -/
theorem Refers.of_carries (h : Refers text key) (carries : Carries key other) :
    Refers text other := by
  obtain ⟨before, run, rest, opening, last, ho, hrun, hlast, rfl⟩ := h
  obtain ⟨before', run', after, opening', closing, ho', hrun', hclosing, hquoted⟩ := carries
  -- the reference inside the quoted key begins at its first quote or inside the key
  rcases before' with _ | ⟨first, inside⟩
  · obtain ⟨-, hkey⟩ := List.cons.inj hquoted
    obtain ⟨closing', after', hclosing', hend⟩ :=
      exists_eq_append_of_concat_eq rest hlast hclosing hkey
    refine ⟨before, run ++ run', after', opening, closing', ho, ?_, hclosing', ?_⟩
    · rw [List.all_append, hrun, hrun']
      rfl
    · simpa using hend
  · obtain ⟨-, hkey⟩ := List.cons.inj hquoted
    obtain ⟨closing', after', hclosing', hend⟩ :=
      exists_eq_append_of_concat_eq rest hlast hclosing hkey
    refine ⟨before ++ opening :: run ++ inside, run', after', opening', closing', ho', hrun',
      hclosing', ?_⟩
    simpa using hend

/-- A key carries another one exactly when every text that refers to it refers to the other. -/
theorem carries_iff : Carries key other ↔ ∀ text, Refers text key → Refers text other :=
  ⟨fun carries _ h => h.of_carries carries, fun h => h _ (refers_quoted key)⟩

/-- A path key carries its name key if only path-safe characters follow the last quote of the
directories. -/
theorem carries_of_directory {directory : Text}
    (h : directory.all isPathSafe = true ∨ (openRun directory).isSome = true) :
    Carries (directory ++ '/' :: key) key := by
  have hslash : isPathSafe '/' = true := by decide
  rcases h with safe | hrun
  · -- the whole directory belongs to the run before the name
    refine ⟨[], directory ++ ['/'], [], '\x27', '\x27', rfl, ?_, rfl, by simp [quoted]⟩
    rw [List.all_append, safe]
    simp [hslash]
  · obtain ⟨run, hrun⟩ := Option.isSome_iff_exists.mp hrun
    obtain ⟨safe, before, opening, ho, rfl⟩ := openRun_eq_some_iff.mp hrun
    -- the last quote of the directory opens the run
    refine ⟨'\x27' :: before, run ++ ['/'], [], opening, '\x27', ho, ?_, rfl, by simp [quoted]⟩
    rw [List.all_append, safe]
    simp [hslash]

/-- Every key carries itself. -/
theorem carries_self (key : Text) : Carries key key :=
  refers_quoted key

end KeyPattern

namespace Analysis

open KeyPattern (Carries quoted)

/-- Another file that refers to a key which carries the name key of a candidate keeps the candidate
in use. -/
theorem isUsed_of_carries {fs : FileSystem} {strategy : Strategy} {corpus : Corpus}
    {candidate i : Nat} {target : SourceFile} {key : Text} (carries : Carries key target.nameKey)
    (ne : i ≠ candidate) (refers : corpus.RefersTo fs key i) :
    (usageOf fs strategy corpus candidate target).isUsed = true := by
  obtain ⟨file, text, hfile, htext, refers⟩ := refers
  exact isUsed_usageOf_iff.mpr ⟨i, ne, file, text, hfile, htext, refers.of_carries carries⟩

/-- **References by the path key**: a candidate whose path key carries its name key is in use as
soon as another file matches its path key, whatever the strategy. The path key carries the name key
if it is the name key, or if only path-safe characters follow the last quote of the directories
before the name. Where it does not, the path key between quotes is a text that matches the path key
and not the name key, and such a reference does not count. -/
theorem isUsed_of_matches_pathKey (fs : FileSystem) (config : Config) {n candidate : Nat}
    {target : SourceFile}
    (hcandidate : (Corpus.collect fs config).candidates[n]? = some candidate)
    (htarget : (Corpus.collect fs config).files[candidate]? = some target) :
    (Carries target.pathKey target.nameKey → ∀ i other text, i ≠ candidate →
      (Corpus.collect fs config).files[i]? = some other →
      fs.readText? other.path = some text →
      (KeyPattern.ofKey target.pathKey).matchesText text = true →
      ∃ usage, (run fs config).usages[n]? = some usage ∧ usage.file = target.path ∧
        usage.isUsed = true) ∧
    (target.pathKey = target.nameKey → Carries target.pathKey target.nameKey) ∧
    (∀ directory, target.pathKey = directory ++ '/' :: target.nameKey →
      directory.all isPathSafe = true ∨ (openRun directory).isSome = true →
      Carries target.pathKey target.nameKey) ∧
    (¬ Carries target.pathKey target.nameKey →
      (KeyPattern.ofKey target.pathKey).matchesText (quoted target.pathKey) = true ∧
        (KeyPattern.ofKey target.nameKey).matchesText (quoted target.pathKey) = false) := by
  refine ⟨?_, ?_, ?_, ?_⟩
  · intro carries i other text ne hother htext hmatch
    refine ⟨_, getElem?_byStrategy hcandidate htarget config.strategy, rfl, ?_⟩
    exact isUsed_of_carries carries ne
      ⟨other, text, hother, htext, KeyPattern.matchesText_ofKey.mp hmatch⟩
  · intro same
    rw [same]
    exact KeyPattern.carries_self _
  · intro directory hpath hdirectory
    rw [hpath]
    exact KeyPattern.carries_of_directory hdirectory
  · intro lost
    constructor
    · exact KeyPattern.matchesText_ofKey.mpr (KeyPattern.refers_quoted _)
    · rw [← Bool.not_eq_true, KeyPattern.matchesText_ofKey]
      exact lost

/-- A page that imports a component from a directory with a quote in its name. -/
def quotedDirectory : FileSystem where
  top := .dir [(Utf8.encode "site".toList, .dir [
    (Utf8.encode "it's".toList, .dir [(Utf8.encode "nav.tsx".toList, .file [])]),
    (Utf8.encode "page.tsx".toList,
      .file (Utf8.encode ['\x22', '.', '/', 'i', 't', '\x27', 's', '/', 'n', 'a', 'v', '\x22']))])]
  workingDir := []

/-- After the quote in the directory's name everything is path-safe, so the import counts. -/
theorem isUsed_of_matches_pathKey_quotedDirectory :
    let config := Config.ofRoot (.ofText "/site".toList)
    let target : SourceFile := ⟨.ofText "/site/it's/nav.tsx".toList, "nav.tsx".toList,
      "tsx".toList, "nav".toList, "it's/nav".toList⟩
    (Corpus.collect quotedDirectory config).candidates[0]? = some 0 ∧
      (Corpus.collect quotedDirectory config).files[0]? = some target ∧
      Carries target.pathKey target.nameKey ∧
      ∃ usage, (run quotedDirectory config).usages[0]? = some usage ∧ usage.file = target.path ∧
        usage.isUsed = true := by
  intro config target
  have hcandidate : (Corpus.collect quotedDirectory config).candidates[0]? = some 0 := by cbv
  have htarget : (Corpus.collect quotedDirectory config).files[0]? = some target := by cbv
  have theory := isUsed_of_matches_pathKey quotedDirectory config hcandidate htarget
  have carries : Carries target.pathKey target.nameKey :=
    theory.2.2.1 "it's".toList (by decide) (by decide)
  exact ⟨hcandidate, htarget, carries, theory.1 carries 1
    ⟨.ofText "/site/page.tsx".toList, "page.tsx".toList, "tsx".toList, "page".toList,
      "page".toList⟩
    ['\x22', '.', '/', 'i', 't', '\x27', 's', '/', 'n', 'a', 'v', '\x22'] (by decide) (by cbv)
    (by cbv) (by cbv)⟩

/-- A page that imports a component from a directory with brackets in its name. -/
def bracketedDirectory : FileSystem where
  top := .dir [(Utf8.encode "site".toList, .dir [
    (Utf8.encode "[slug]".toList, .dir [(Utf8.encode "editor.ts".toList, .file [])]),
    (Utf8.encode "index.ts".toList, .file (Utf8.encode "import './[slug]/editor'".toList))])]
  workingDir := []

/-- The import is a reference by the path key and not by the name key, and it does not count. -/
theorem pathKey_reference_lost :
    ¬ ∀ (fs : FileSystem) (config : Config) (n candidate i : Nat) (target other : SourceFile)
      (text : Text) (usage : Usage),
      (Corpus.collect fs config).candidates[n]? = some candidate →
      (Corpus.collect fs config).files[candidate]? = some target →
      (target.pathKey = target.nameKey ∨
        ∃ directory, target.pathKey = directory ++ '/' :: target.nameKey) →
      i ≠ candidate → (Corpus.collect fs config).files[i]? = some other →
      fs.readText? other.path = some text →
      (KeyPattern.ofKey target.pathKey).matchesText text = true →
      (run fs config).usages[n]? = some usage → usage.isUsed = true := by
  intro h
  have used := h bracketedDirectory (.ofRoot (.ofText "/site".toList)) 0 0 1
    ⟨.ofText "/site/[slug]/editor.ts".toList, "editor.ts".toList, "ts".toList, "editor".toList,
      "[slug]/editor".toList⟩
    ⟨.ofText "/site/index.ts".toList, "index.ts".toList, "ts".toList, "index".toList,
      "index".toList⟩
    "import './[slug]/editor'".toList ⟨.ofText "/site/[slug]/editor.ts".toList, none⟩
    (by cbv) (by cbv) (.inr ⟨"[slug]".toList, by decide⟩) (by decide) (by cbv) (by cbv) (by cbv)
    (by cbv)
  cases used

end Analysis

end Orphans
