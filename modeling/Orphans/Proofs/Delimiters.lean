import Mathlib
import Orphans.Proofs.Bytes

/-!
# Which quotes delimit a literal

`Text.exists_literalsBetween`: a text has one literal for every two quotes with nothing but
path-safe symbols between them, namely what stands between these, and no others. A quote may be in
two such pairs, closing one literal and opening the next, but it opens one at most: the run of
path-safe symbols behind it can only end at one place (`length_takeWhile_eq_iff`). So the literals
come in the order of their opening quotes, each of them once.

All this is about offsets, and holds of the bytes of a text as of its characters. What makes it a
statement about texts is that the offsets are between characters, and that the literals among the
bytes are those among the characters.

The pairs are made from the spans (`delimiters`): the opening quote stands one place before the
span, and the closing quote where it stops.
-/

namespace Orphans

variable {α : Type} [PathSymbol α]

/-- The offsets of the quotes around each literal of a text. -/
def delimiters (text : List α) : List (Nat × Nat) :=
  (quoteOffsets text).filterMap fun opening =>
    (spanFrom? text (opening + 1)).map fun span => (opening, span.stop)

/-- Two offsets are a pair exactly when quotes stand there with only path-safe symbols between them.
-/
theorem mem_delimiters {text : List α} {opening closing : Nat} :
    (opening, closing) ∈ delimiters text ↔ Delimits text opening closing := by
  unfold delimiters
  simp only [List.mem_filterMap, Option.map_eq_some_iff, mem_quoteOffsets, Prod.mk.injEq,
    spanFrom?_eq_some_iff]
  constructor
  · rintro ⟨_, isQuote_opening, span, ⟨-, lt, isQuote_closing, between⟩, rfl, rfl⟩
    exact ⟨lt, isQuote_opening, isQuote_closing, between⟩
  · rintro ⟨lt, isQuote_opening, isQuote_closing, between⟩
    exact ⟨opening, isQuote_opening, ⟨opening + 1, closing⟩, ⟨rfl, lt, isQuote_closing, between⟩,
      rfl, rfl⟩

/-- The pairs come in the order of their opening quotes, with at most one for each of these. -/
theorem pairwise_delimiters (text : List α) :
    (delimiters text).Pairwise fun first second => first.1 < second.1 := by
  have increasing : (quoteOffsets text).Pairwise (· < ·) :=
    List.pairwise_lt_range.filter _
  refine increasing.filterMap _ ?_
  intro opening opening' lt delimiter hdelimiter delimiter' hdelimiter'
  obtain ⟨span, -, rfl⟩ := Option.map_eq_some_iff.mp hdelimiter
  obtain ⟨span', -, rfl⟩ := Option.map_eq_some_iff.mp hdelimiter'
  exact lt

/-- What stands between each two delimiters is a literal. -/
theorem literals_eq_map_delimiters (text : List α) :
    literals text =
      (delimiters text).map fun (opening, closing) => (text.take closing).drop (opening + 1) := by
  unfold delimiters
  rw [literals_eq_map_slice, spans, List.map_filterMap, List.map_filterMap]
  apply List.filterMap_congr
  intro opening _
  rw [Option.map_map]
  rcases hspan : spanFrom? text (opening + 1) with _ | span
  · rfl
  · obtain ⟨hstart, -⟩ := spanFrom?_eq_some_iff.mp hspan
    show some (span.slice text) = some ((text.take span.stop).drop (opening + 1))
    rw [Span.slice, List.drop_take, hstart]

/-! ### The delimiters of a text -/

namespace Text

open Utf8 (encode)

/-- The literals of a text are what stands between some quotes of it, which are told by the pairs of
their offsets among the bytes. -/
structure LiteralsBetween (text : Text) (pairs : List (Nat × Nat)) : Prop where
  /-- Any two quotes with only path-safe bytes between them are a pair, and no others are. -/
  mem_iff : ∀ opening closing, (opening, closing) ∈ pairs ↔ Delimits (encode text) opening closing
  /-- The pairs are in the order of the opening quotes, and each of these opens one pair only. -/
  increasing : pairs.Pairwise fun first second => first.1 < second.1
  /-- For each pair there is the literal that it stands around. -/
  literals_eq : literals (encode text) = pairs.map fun (opening, closing) =>
    ((encode text).take closing).drop (opening + 1)
  /-- The offsets before and after the quotes are between characters. -/
  isBoundary : ∀ opening closing, (opening, closing) ∈ pairs →
    text.IsBoundary opening ∧ text.IsBoundary (opening + 1) ∧
      text.IsBoundary closing ∧ text.IsBoundary (closing + 1)
  /-- The characters of the text have the same literals. -/
  byCharacters : (literals text).map encode = literals (encode text)

/-- **Two quotes, one literal**: every text has exactly one literal for any two quotes with only
path-safe bytes between them.  The bytes are looked at without any pass over them, by offsets alone,
so this says of the pass that it finds every literal and makes none up. -/
theorem exists_literalsBetween (text : Text) : ∃ pairs, text.LiteralsBetween pairs := by
  refine ⟨delimiters (encode text), ?_⟩
  constructor
  · intro opening closing
    exact mem_delimiters
  · exact pairwise_delimiters (encode text)
  · exact literals_eq_map_delimiters (encode text)
  · intro opening closing h
    have delimits := mem_delimiters.mp h
    obtain ⟨before, inside⟩ := isBoundary_of_isQuote delimits.isQuote_opening
    obtain ⟨outside, after⟩ := isBoundary_of_isQuote delimits.isQuote_closing
    exact ⟨before, inside, outside, after⟩
  · exact (literals_encode text).symm

/-- A quote that closes a literal opens the next one. -/
example : delimiters (encode "'é'foo\"bar'".toList) = [(3, 7), (7, 11)] := by decide

end Text

end Orphans
