import Mathlib
import Orphans.Proofs.Bounds
import Orphans.Proofs.IndexContents

/-!
# What an index can be asked

`LiteralIndex.build_answers`: an index answers two questions about a key, which file refers to it
first and whether a given file does, and the two answers go together: the first file is the least
one of those that do (`firstMatch?_eq_some_iff`), and there is a first one whenever there is any
(`firstMatch?_eq_none_iff`).

For the keys that an index is made for, it says of each file what the text of the file says itself.
These are the keys of the candidates, apart from the empty one, and all keys that are not path-safe.
Of any other path-safe key it says that no file refers to it, whatever the files hold, because
nothing was noted under it. No candidate is ever looked up under such a key, unless the key is
empty.

That exception is real: the path key of the source root itself is empty, and then the index says
that no file refers to it, while every file with a literal does.
-/

namespace Orphans

/-- A key under which a candidate is looked up, if it is path-safe. The empty key is left out here:
the index has nothing under it. -/
def Corpus.HasKey (corpus : Corpus) (key : Text) : Prop :=
  key ≠ [] ∧ ∃ target ∈ corpus.candidateFiles, key = target.nameKey ∨ key = target.pathKey

namespace LiteralIndex

variable {corpus : Corpus} {key : Text}

/-! ### The first match and the others -/

/-- There is no first match exactly when nothing matches, apart from the excluded file. Numbers are
well-ordered, so where something matches there is a least one. -/
theorem firstMatch?_eq_none_iff {index : LiteralIndex} {pattern : KeyPattern} {excluded : Nat} :
    index.firstMatch? pattern excluded = none ↔
      ∀ i, i ≠ excluded → index.fileMatches pattern i = false := by
  constructor
  · intro hnone i hi
    by_contra hmatches
    -- some position matches, so there is a least one, and it would be the first match
    have nonempty : {i | i ≠ excluded ∧ index.fileMatches pattern i = true}.Nonempty :=
      ⟨i, hi, by simpa using hmatches⟩
    have isLeast := firstMatch?_eq_some_iff.mpr ⟨Nat.sInf_mem nonempty, fun _ => Nat.sInf_le⟩
    rw [hnone] at isLeast
    cases isLeast
  · intro h
    rcases hfound : index.firstMatch? pattern excluded with _ | found
    · rfl
    · obtain ⟨⟨hne, hmatches⟩, -⟩ := firstMatch?_eq_some_iff.mp hfound
      rw [h found hne] at hmatches
      cases hmatches

/-! ### What is said of a file -/

variable {read : Fin corpus.files.length → Option Text}

/-- Referring to a key at a position, where what was read is a function of the position. -/
theorem refersAt_ofFn (i : Fin corpus.files.length) :
    RefersAt (List.ofFn read) key i ↔ (read i).any (KeyPattern.ofKey key).matchesText = true := by
  unfold RefersAt
  rw [List.getElem?_ofFn, dif_pos i.isLt, Option.any_eq_true]
  simp only [Option.some_inj, KeyPattern.matchesText_ofKey]

/-- The keys that an index is made for, told as keys of the corpus: those that are searched for in
the texts, and the keys of its candidates. -/
theorem lookedUp_iff :
    (isPathSafeKey key = true → key ≠ [] ∧ key ∈ lookupKeys corpus) ↔
      isPathSafeKey key = false ∨ corpus.HasKey key := by
  unfold Corpus.HasKey
  rw [mem_lookupKeys]
  rcases isPathSafeKey key with _ | _ <;> simp

/-- For a key that the index is made for, it says of every file what the text of the file says. -/
theorem fileMatches_build_ofFn (hkey : isPathSafeKey key = false ∨ corpus.HasKey key)
    (i : Fin corpus.files.length) :
    (build corpus (List.ofFn read)).fileMatches (.ofKey key) i =
      (read i).any (KeyPattern.ofKey key).matchesText := by
  rw [Bool.eq_iff_iff, fileMatches_build, lookedUp_iff, refersAt_ofFn]
  exact and_iff_right hkey

/-- Any other path-safe key is not in the map, so the index says of no file that it refers to it. -/
theorem fileMatches_build_of_not_hasKey {texts : List (Option Text)}
    (safe : isPathSafeKey key = true) (hkey : ¬ corpus.HasKey key) (i : Nat) :
    (build corpus texts).fileMatches (.ofKey key) i = false := by
  rw [Bool.eq_false_iff]
  intro hmatches
  obtain ⟨lookedUp, -⟩ := fileMatches_build.mp hmatches
  rcases lookedUp_iff.mp lookedUp with notSafe | hasKey
  · rw [safe] at notSafe
    cases notSafe
  · exact hkey hasKey

/-! ### All questions -/

/-- What an index answers is what the files of the corpus say, of which some could be read. -/
structure Answers (corpus : Corpus) (read : Fin corpus.files.length → Option Text)
    (index : LiteralIndex) : Prop where
  /-- The first match is the least match, apart from the excluded file. -/
  firstMatch?_eq_some : ∀ (key : Text) (excluded found : Nat),
    index.firstMatch? (.ofKey key) excluded = some found ↔
      IsLeast {i | i ≠ excluded ∧ index.fileMatches (.ofKey key) i = true} found
  /-- There is no first match only if there is no such match at all. -/
  firstMatch?_eq_none : ∀ (key : Text) (excluded : Nat),
    index.firstMatch? (.ofKey key) excluded = none ↔
      ∀ i, i ≠ excluded → index.fileMatches (.ofKey key) i = false
  /-- Where there is no file, nothing matches. -/
  fileMatches_of_le : ∀ (key : Text) (i : Nat), corpus.files.length ≤ i →
    index.fileMatches (.ofKey key) i = false
  /-- A file matches a key if its text does. A file without a text matches none. -/
  fileMatches_eq : ∀ key : Text, isPathSafeKey key = false ∨ corpus.HasKey key →
    ∀ i : Fin corpus.files.length,
      index.fileMatches (.ofKey key) i = (read i).any (KeyPattern.ofKey key).matchesText
  /-- Only the path-safe keys of the candidates are looked up. -/
  fileMatches_of_not_hasKey : ∀ key : Text, isPathSafeKey key = true → ¬ corpus.HasKey key →
    ∀ i, index.fileMatches (.ofKey key) i = false

/-- An index answers for what was read of the files, whatever that was. -/
theorem answers_of_read (corpus : Corpus) (read : Fin corpus.files.length → Option Text) :
    Answers corpus read (build corpus (List.ofFn read)) where
  firstMatch?_eq_some _ _ _ := firstMatch?_eq_some_iff
  firstMatch?_eq_none _ _ := firstMatch?_eq_none_iff
  fileMatches_of_le := by
    intro key i hi
    rw [Bool.eq_false_iff]
    intro hmatches
    have inRange := lt_length_of_fileMatches_build hmatches
    rw [List.length_ofFn] at inRange
    omega
  fileMatches_eq _ hkey i := fileMatches_build_ofFn hkey i
  fileMatches_of_not_hasKey _ safe hkey i := fileMatches_build_of_not_hasKey safe hkey i

/-- **What an index answers**: whatever is read of the files of a corpus, the index that is made of
it answers for the corpus. A run makes it of what the file system has at the paths of the files.
The excluded position may be any number. It need not be that of a candidate, or of a file at all. -/
theorem build_answers (corpus : Corpus) :
    (∀ read : Fin corpus.files.length → Option Text,
      (build corpus (List.ofFn read)).Answers corpus read) ∧
    ∀ fs : FileSystem, (build corpus (Analysis.texts fs corpus)).Answers corpus
      fun i => fs.readText? (corpus.files.get i).path := by
  refine ⟨answers_of_read corpus, ?_⟩
  intro fs
  rw [Analysis.texts_eq_ofFn]
  exact answers_of_read corpus _

end LiteralIndex

end Orphans
