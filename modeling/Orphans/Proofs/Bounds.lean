import Orphans.Analysis
import Orphans.Proofs.Bytes
import Orphans.Proofs.Corpus
import Orphans.Proofs.LiteralIndex

/-!
# Nothing is out of range

`Analysis.run_inBounds`: in every run all positions of candidates, all positions that its index
holds and all positions that the index gives as an answer are positions of files of the corpus, and
there are no more candidates than files. A position is noted only for a text, and there are as many
texts as files.

What is cut out of a text by offset is cut out between two characters, whatever the text: the
literals, at their spans, and of each literal the ends that may be keys, however long a key may be.
Offsets count bytes here, because that is where a cut could go wrong. A literal is cut at quotes,
which are bytes of their own in UTF-8 (`sliceable_of_mem_spans`); inside a literal all characters
are path-safe, so every byte is a character (`isBoundary_of_all_isPathSafe`).
-/

namespace Orphans

open Utf8 (encode)

/-! ### Positions -/

/-- All positions that a corpus and an index have are positions of files. -/
structure LiteralIndex.InBounds (corpus : Corpus) (index : LiteralIndex) : Prop where
  /-- Candidates are files of the corpus. -/
  candidates_lt : ∀ i ∈ corpus.candidates, i < corpus.files.length
  /-- There are no more candidates than files, so their difference is not cut off at zero. -/
  length_candidates_le : corpus.candidates.length ≤ corpus.files.length
  /-- What the index holds. -/
  suffixes_lt : ∀ (key : Text) (positions : PositionSet), index.suffixes[key]? = some positions →
    ∀ i ∈ positions, i < corpus.files.length
  /-- What the index answers, whatever it is asked. -/
  firstMatch?_lt : ∀ (pattern : KeyPattern) (excluded found : Nat),
    index.firstMatch? pattern excluded = some found → found < corpus.files.length

namespace LiteralIndex

variable {corpus : Corpus} {texts : List (Option Text)} {i : Nat}

/-- What the index holds are positions of texts. -/
theorem lt_length_of_mem_positions_build {key : Text}
    (h : i ∈ positions (build corpus texts).suffixes key) : i < texts.length := by
  obtain ⟨-, -, text, htext, -⟩ := mem_positions_build.mp h
  exact (List.getElem?_eq_some_iff.mp htext).1

/-- Only positions of texts match a pattern, in whichever way it is searched for. -/
theorem lt_length_of_fileMatches_build {pattern : KeyPattern}
    (h : (build corpus texts).fileMatches pattern i = true) : i < texts.length := by
  rcases pattern with key | key
  · rw [fileMatches, Std.ExtTreeSet.contains_iff_mem] at h
    exact lt_length_of_mem_positions_build h
  · obtain ⟨text, htext, -⟩ := any_join_iff.mp h
    exact (List.getElem?_eq_some_iff.mp htext).1

/-- So the first match is the position of a text. -/
theorem lt_length_of_firstMatch?_build {pattern : KeyPattern} {excluded found : Nat}
    (h : (build corpus texts).firstMatch? pattern excluded = some found) :
    found < texts.length :=
  lt_length_of_fileMatches_build (firstMatch?_eq_some_iff.mp h).1.2

/-! ### The ends of a literal -/

/-- The offsets at which the ends of a literal begin that may be keys: the last ones before its end,
as many as the longest key has bytes, or all if the literal is shorter. -/
def endOffsets (size longest : Nat) : List Nat :=
  List.range' (size - longest) (size - (size - longest))

/-- The ends that may be keys begin within the last `longest` symbols. A longest key that is longer
than the literal makes them begin at its front: the difference of the lengths is cut off at zero. -/
theorem mem_endOffsets_iff {size longest offset : Nat} :
    offset ∈ endOffsets size longest ↔ size - longest ≤ offset ∧ offset < size := by
  rw [endOffsets, List.mem_range'_1]
  omega

/-- The ends of a text are what is left of it from each offset on. -/
theorem nonemptyEnds_eq_map_drop (text : Text) :
    nonemptyEnds text = (List.range text.length).map fun offset => text.drop offset := by
  induction text with
  | nil => rfl
  | cons c text ih =>
    rw [nonemptyEnds, ih, List.length_cons, List.range_succ_eq_map, List.map_cons, List.map_map]
    rfl

/-- The ends of the last symbols of a text are ends of the text, from the offsets `endOffsets` on.
-/
theorem nonemptyEnds_drop (text : Text) (longest : Nat) :
    nonemptyEnds (text.drop (text.length - longest)) =
      (endOffsets text.length longest).map fun offset => text.drop offset := by
  rw [nonemptyEnds_eq_map_drop, endOffsets, List.range'_eq_map_range, List.map_map,
    List.length_drop]
  apply List.map_congr_left
  intro offset _
  exact List.drop_drop

end LiteralIndex

/-! ### Slices -/

open LiteralIndex (endOffsets nonemptyEnds)

/-- What is cut out of a text, and what of its literals, is cut out between characters. -/
structure Text.SlicesInBounds (text : Text) : Prop where
  /-- The literals are the slices of the bytes at the spans. -/
  literals_eq : (literals text).map encode = (spans (encode text)).map (·.slice (encode text))
  /-- Every span can be cut out of the text. -/
  sliceable : ∀ span ∈ spans (encode text), text.Sliceable span.start span.stop
  /-- The ends of a literal among which keys are looked for are slices to its end. -/
  ends_eq : ∀ literal ∈ literals text, ∀ longest : Nat,
    (nonemptyEnds (literal.drop (literal.length - longest))).map encode =
      (endOffsets (encode literal).length longest).map fun start => (encode literal).drop start
  /-- Every such end can be cut out of its literal. -/
  ends_sliceable : ∀ literal ∈ literals text, ∀ longest : Nat,
    ∀ start ∈ endOffsets (encode literal).length longest,
      Text.Sliceable literal start (encode literal).length

/-- Every text is cut between characters only. For the literals this is because they stand between
quotes, and for their ends because their own characters have one byte each. -/
theorem Text.slicesInBounds (text : Text) : text.SlicesInBounds where
  literals_eq := by rw [← literals_encode, literals_eq_map_slice]
  sliceable _ := sliceable_of_mem_spans
  ends_eq := by
    intro literal hliteral longest
    -- a literal has as many bytes as characters, so offsets in bytes are offsets in characters
    have safe : literal.all isPathSafe = true := (mem_literals_iff.mp hliteral).1
    rw [length_encode_of_all_isPathSafe safe, LiteralIndex.nonemptyEnds_drop, List.map_map]
    apply List.map_congr_left
    intro start hstart
    have inside := (LiteralIndex.mem_endOffsets_iff.mp hstart).2
    exact (drop_encode_of_all_isPathSafe safe (Nat.le_of_lt inside)).symm
  ends_sliceable := by
    intro literal hliteral longest start hstart
    have safe : literal.all isPathSafe = true := (mem_literals_iff.mp hliteral).1
    rw [length_encode_of_all_isPathSafe safe] at hstart ⊢
    have inside := Nat.le_of_lt (LiteralIndex.mem_endOffsets_iff.mp hstart).2
    exact ⟨inside, Nat.le_of_eq (length_encode_of_all_isPathSafe safe).symm,
      isBoundary_of_all_isPathSafe safe inside, isBoundary_of_all_isPathSafe safe (Nat.le_refl _)⟩

/-! ### Runs -/

namespace Analysis

/-- **Nothing is out of range**: no run accesses a position without a file, and no text is cut
inside a character.  The bounds hold of whatever the file system has; nothing is assumed of it. That
offsets are between characters holds because a literal begins and ends next to quotes, and quotes
and path-safe characters have one byte each. -/
theorem run_inBounds (fs : FileSystem) (config : Config) :
    (LiteralIndex.build (run fs config).corpus (texts fs (run fs config).corpus)).InBounds
        (run fs config).corpus ∧
      ∀ text : Text, text.SlicesInBounds := by
  have length_eq : (texts fs (Corpus.collect fs config)).length =
      (Corpus.collect fs config).files.length := List.length_map _
  refine ⟨?_, Text.slicesInBounds⟩
  exact {
    candidates_lt := fun _ => Corpus.lt_length_of_mem_candidates
    length_candidates_le := by
      -- candidates and entry points together are the files
      have count := Corpus.length_candidates_add_countP config (Corpus.collect fs config).files
      exact Nat.le_of_add_right_le (Nat.le_of_eq count)
    suffixes_lt := by
      intro key positions hpositions i hi
      have held : i ∈ LiteralIndex.positions
          (LiteralIndex.build (Corpus.collect fs config)
            (texts fs (Corpus.collect fs config))).suffixes key := by
        unfold LiteralIndex.positions
        exact hpositions ▸ hi
      exact length_eq ▸ LiteralIndex.lt_length_of_mem_positions_build held
    firstMatch?_lt := by
      intro pattern excluded found hfound
      exact length_eq ▸ LiteralIndex.lt_length_of_firstMatch?_build hfound
  }

end Analysis

end Orphans
