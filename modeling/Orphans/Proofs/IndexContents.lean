import Mathlib.Data.List.OfFn
import Orphans.Analysis
import Orphans.Proofs.LiteralIndex

/-!
# What an index represents

`LiteralIndex.build_represents`: an index has a slot for each file of the corpus, and its map has a
key exactly if the key is non-empty, path-safe and a key of a candidate, and some file that could be
read holds a literal that ends with it. The positions under a key are those of all such files. This
says of the whole map what `mem_positions_build` says of one key and one position; what has to be
added is that noting a position never leaves a key without any (`HasPositions`).

What was read of the files is left open, as a function from positions to texts: the index represents
whatever was read, also if some files could not be read. A run makes it of what the file system has
at the paths (`Analysis.texts_eq_ofFn`).
-/

namespace Orphans

namespace LiteralIndex

/-! ### Every key has a position -/

/-- Under every key of a map stands a position. Nothing in the type of the map says so, and a key
without positions would be one that no file ends a literal with. -/
def HasPositions (suffixes : SuffixMap) : Prop :=
  ∀ key ∈ suffixes, ∃ i, i ∈ positions suffixes key

variable {suffixes : SuffixMap} {keys : NameSet} {key : Text} {i position : Nat}

/-- A key with a position is in the map. -/
theorem mem_of_mem_positions (h : i ∈ positions suffixes key) : key ∈ suffixes := by
  unfold positions at h
  rw [Std.ExtTreeMap.mem_iff_isSome_getElem?]
  rcases hkey : suffixes[key]? with _ | found
  · rw [hkey] at h
    simp at h
  · rfl

/-- Noting under a key makes it a key of the map, and no other. -/
theorem mem_note {noted : Text} :
    key ∈ note position suffixes noted ↔ noted = key ∨ key ∈ suffixes := by
  unfold note
  rw [Std.ExtTreeMap.mem_alter]
  by_cases h : noted = key
  · simp [h]
  · simp [h]

/-- The empty map has no keys, so none without positions. -/
theorem hasPositions_empty : HasPositions ∅ := by
  intro key h
  simp at h

/-- A key that is new has the position that it is noted with. -/
theorem HasPositions.note (h : HasPositions suffixes) (position : Nat) (noted : Text) :
    HasPositions (note position suffixes noted) := by
  intro key hkey
  simp only [mem_positions_note]
  rcases mem_note.mp hkey with same | hkey
  · exact ⟨position, .inl ⟨same, rfl⟩⟩
  · obtain ⟨i, hi⟩ := h key hkey
    exact ⟨i, .inr hi⟩

/-- Noting the literals of a file keeps every key with a position. -/
theorem HasPositions.addText (h : HasPositions suffixes) (keys : NameSet) (longest : Nat)
    (entry : Option Text × Nat) : HasPositions (addText keys longest suffixes entry) := by
  rcases entry with ⟨_ | text, position⟩
  · exact h
  · -- the property is kept by every single noting, so also by both loops
    refine List.foldlRecOn _ _ h ?_
    intro suffixes h literal _
    refine List.foldlRecOn _ _ h ?_
    intro suffixes h noted _
    exact h.note position noted

/-- In a built index every key has a position. -/
theorem hasPositions_build (corpus : Corpus) (texts : List (Option Text)) :
    HasPositions (build corpus texts).suffixes := by
  refine List.foldlRecOn _ _ hasPositions_empty ?_
  intro suffixes h entry _
  exact h.addText _ _ entry

/-- So the keys of a built index are exactly the keys with a position, and `mem_positions_build`
tells them. -/
theorem mem_suffixes_build_iff {corpus : Corpus} {texts : List (Option Text)} :
    key ∈ (build corpus texts).suffixes ↔ ∃ i, i ∈ positions (build corpus texts).suffixes key :=
  ⟨hasPositions_build corpus texts key, fun ⟨_, hi⟩ => mem_of_mem_positions hi⟩

/-! ### The whole index -/

/-- What was read of a file is a text, and some literal of it ends with `key`. A file that could not
be read has no literals. -/
def ReadsLiteral {n : Nat} (read : Fin n → Option Text) (key : Text) (i : Fin n) : Prop :=
  ∃ text, read i = some text ∧ ∃ literal ∈ literals text, key <:+ literal

/-- An index represents the files of a corpus, of which some could be read as texts. -/
structure Represents (corpus : Corpus) (read : Fin corpus.files.length → Option Text)
    (index : LiteralIndex) : Prop where
  /-- There is one slot for each file. -/
  length_texts : index.texts.length = corpus.files.length
  /-- The slot of a file holds what was read of it. -/
  getElem?_texts : ∀ i : Fin corpus.files.length, index.texts[i.val]? = some (read i)
  /-- The keys of the map are the keys of candidates that are found in some file. -/
  mem_suffixes_iff : ∀ key : Text, key ∈ index.suffixes ↔
    key ≠ [] ∧ isPathSafeKey key = true ∧
      (∃ target ∈ corpus.candidateFiles, key = target.nameKey ∨ key = target.pathKey) ∧
      ∃ i, ReadsLiteral read key i
  /-- Under a key stand the positions of all files in which it is found, and no others. -/
  mem_positions_iff : ∀ (key : Text) (found : PositionSet), index.suffixes[key]? = some found →
    ∀ position, position ∈ found ↔
      ∃ inRange : position < corpus.files.length, ReadsLiteral read key ⟨position, inRange⟩

/-- The positions under a key, where what was read is a function of the position. -/
theorem mem_positions_build_ofFn {corpus : Corpus} {read : Fin corpus.files.length → Option Text} :
    position ∈ positions (build corpus (List.ofFn read)).suffixes key ↔
      key ≠ [] ∧ key ∈ lookupKeys corpus ∧
        ∃ inRange : position < corpus.files.length, ReadsLiteral read key ⟨position, inRange⟩ := by
  rw [mem_positions_build]
  refine and_congr_right fun _ => and_congr_right fun _ => ?_
  unfold ReadsLiteral
  constructor
  · rintro ⟨text, htext, h⟩
    rw [List.getElem?_ofFn] at htext
    split at htext
    · next inRange => exact ⟨inRange, text, Option.some_inj.mp htext, h⟩
    · cases htext
  · rintro ⟨inRange, text, htext, h⟩
    refine ⟨text, ?_, h⟩
    rw [List.getElem?_ofFn, dif_pos inRange, htext]

/-- The keys of the map are the non-empty path-safe keys of candidates that some file ends a literal
with. -/
theorem mem_suffixes_build_ofFn {corpus : Corpus} {read : Fin corpus.files.length → Option Text} :
    key ∈ (build corpus (List.ofFn read)).suffixes ↔
      key ≠ [] ∧ isPathSafeKey key = true ∧
        (∃ target ∈ corpus.candidateFiles, key = target.nameKey ∨ key = target.pathKey) ∧
        ∃ i, ReadsLiteral read key i := by
  rw [mem_suffixes_build_iff]
  simp only [mem_positions_build_ofFn, mem_lookupKeys]
  constructor
  · rintro ⟨position, nonempty, ⟨isKey, safe⟩, inRange, h⟩
    exact ⟨nonempty, safe, isKey, ⟨position, inRange⟩, h⟩
  · rintro ⟨nonempty, safe, isKey, i, h⟩
    exact ⟨i, nonempty, ⟨isKey, safe⟩, i.isLt, h⟩

/-- Under a key of the map stand the positions of all files with such a literal. Nothing more has to
be asked of the key, since it is in the map. -/
theorem mem_of_getElem?_suffixes_build {corpus : Corpus}
    {read : Fin corpus.files.length → Option Text} {found : PositionSet}
    (h : (build corpus (List.ofFn read)).suffixes[key]? = some found) :
    position ∈ found ↔
      ∃ inRange : position < corpus.files.length, ReadsLiteral read key ⟨position, inRange⟩ := by
  have isKey : key ∈ (build corpus (List.ofFn read)).suffixes := by
    rw [Std.ExtTreeMap.mem_iff_isSome_getElem?, h]
    rfl
  have same : positions (build corpus (List.ofFn read)).suffixes key = found := by
    unfold positions
    rw [h, Option.getD_some]
  -- the key is there, so some position is, and that settles all but the text
  obtain ⟨i, hi⟩ := mem_suffixes_build_iff.mp isKey
  obtain ⟨nonempty, hlookup, -⟩ := mem_positions_build_ofFn.mp hi
  rw [← same, mem_positions_build_ofFn]
  exact ⟨fun h => h.2.2, fun h => ⟨nonempty, hlookup, h⟩⟩

/-- An index represents what was read of the files, whatever that was. -/
theorem represents_of_read (corpus : Corpus) (read : Fin corpus.files.length → Option Text) :
    Represents corpus read (build corpus (List.ofFn read)) where
  length_texts := List.length_ofFn
  getElem?_texts := by
    intro i
    unfold build
    rw [List.getElem?_ofFn, dif_pos i.isLt]
  mem_suffixes_iff _ := mem_suffixes_build_ofFn
  mem_positions_iff _ _ hfound _ := mem_of_getElem?_suffixes_build hfound

end LiteralIndex

/-- The texts of a corpus are what is read at the paths of its files. -/
theorem Analysis.texts_eq_ofFn (fs : FileSystem) (corpus : Corpus) :
    texts fs corpus = List.ofFn fun i => fs.readText? (corpus.files.get i).path := by
  calc texts fs corpus
    _ = (List.ofFn corpus.files.get).map fun file => fs.readText? file.path := by
      rw [List.ofFn_get]
      rfl
    _ = List.ofFn fun i => fs.readText? (corpus.files.get i).path := List.map_ofFn

/-- **What an index represents**: whatever is read of the files of a corpus, the index that is made
of it represents the corpus. A run makes it of what the file system has at the paths of the files.
The first part does not mention a file system, so it also covers files that change while a run goes
on, as each of them is read once. -/
theorem LiteralIndex.build_represents (corpus : Corpus) :
    (∀ read : Fin corpus.files.length → Option Text,
      (build corpus (List.ofFn read)).Represents corpus read) ∧
    ∀ fs : FileSystem, (build corpus (Analysis.texts fs corpus)).Represents corpus
      fun i => fs.readText? (corpus.files.get i).path := by
  refine ⟨represents_of_read corpus, ?_⟩
  intro fs
  rw [Analysis.texts_eq_ofFn]
  exact represents_of_read corpus _

end Orphans
