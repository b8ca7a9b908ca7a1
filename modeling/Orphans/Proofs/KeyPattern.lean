import Orphans.KeyPattern
import Orphans.Proofs.Literal

/-!
# Both searches answer one question

`KeyPattern.matchesText_ofKey`: whichever way a key is searched for, the answer is whether the text
refers to it. For a path-safe key the way leads over the literals (`refers_iff_exists_literal`), for
any other key over the three stages of the search in the text, each of which is described by what it
finds (`closesHere_iff`, `closesAfterRun_iff`, `isEmbedded_iff`).

The search in the text would answer for path-safe keys as well: `isEmbedded_iff` asks nothing of the
key. What makes the literals usable for a path-safe key is that the run before the key and the key
together are path-safe, so that they are one literal.
-/

namespace Orphans

variable {text key : Text}

/-! ### Path-safe keys -/

/-- A literal stands in its text. -/
theorem isInfix_of_mem_literals {literal : Text} (h : literal ∈ literals text) :
    literal <:+: text := by
  obtain ⟨-, before, opening, closing, after, -, -, rfl⟩ := mem_literals_iff.mp h
  exact ⟨before ++ [opening], closing :: after, by simp⟩

/-- Looking for the key first changes nothing: a literal that ends with the key holds it. -/
theorem literalEndingWith_eq_find? (text key : Text) :
    literalEndingWith text key = (literals text).find? (key.isSuffixOf ·) := by
  unfold literalEndingWith
  split_ifs with h
  · rfl
  · symm
    rw [List.find?_eq_none]
    intro literal hliteral hkey
    have hkey : key <:+ literal := List.isSuffixOf_iff_suffix.mp hkey
    exact h (Text.occursIn_iff.mpr (hkey.isInfix.trans (isInfix_of_mem_literals hliteral)))

/-- Whether a first literal is found does not depend on which one comes first. -/
theorem isSome_literalEndingWith :
    (literalEndingWith text key).isSome = true ↔ ∃ literal ∈ literals text, key <:+ literal := by
  simp [literalEndingWith_eq_find?, List.isSuffixOf_iff_suffix]

namespace KeyPattern

/-- A text refers to a path-safe key exactly when one of its literals ends with the key. -/
theorem refers_iff_exists_literal (safe : isPathSafeKey key = true) :
    Refers text key ↔ ∃ literal ∈ literals text, key <:+ literal := by
  constructor
  · rintro ⟨before, run, after, opening, closing, ho, hrun, hc, rfl⟩
    -- run and key together are path-safe, so they make one literal
    refine ⟨run ++ key, mem_literals_iff.mpr ⟨?_, ?_⟩, List.suffix_append run key⟩
    · rw [List.all_append, hrun]
      exact safe
    · exact ⟨before, opening, closing, after, ho, hc, by simp⟩
  · rintro ⟨literal, hliteral, run, rfl⟩
    obtain ⟨hsafe, before, opening, closing, after, ho, hc, rfl⟩ := mem_literals_iff.mp hliteral
    rw [List.all_append, Bool.and_eq_true] at hsafe
    exact ⟨before, run, after, opening, closing, ho, hsafe.1, hc, by simp⟩

/-! ### Other keys -/

/-- The innermost stage: the text begins with the key and a quote. -/
theorem closesHere_iff :
    closesHere key text = true ↔
      ∃ closing after, isQuote closing = true ∧ text = key ++ closing :: after := by
  unfold closesHere
  rw [Bool.and_eq_true, List.isPrefixOf_iff_prefix]
  constructor
  · rintro ⟨⟨rest, rfl⟩, h⟩
    rw [List.drop_left] at h
    rcases rest with _ | ⟨closing, after⟩
    · cases h
    · exact ⟨closing, after, h, rfl⟩
  · rintro ⟨closing, after, hc, rfl⟩
    refine ⟨List.prefix_append key _, ?_⟩
    rw [List.drop_left]
    exact hc

/-- The middle stage: some path-safe characters may come before the key. It is tried after every
number of them, so a key that is found twice in one run is found where a quote follows. -/
theorem closesAfterRun_iff :
    closesAfterRun key text = true ↔
      ∃ run closing after, run.all isPathSafe = true ∧ isQuote closing = true ∧
        text = run ++ key ++ closing :: after := by
  -- on the text: either the key stands here, or one more path-safe character comes before it
  induction text with
  | nil =>
    rw [closesAfterRun, closesHere_iff]
    simp
  | cons c rest ih =>
    rw [closesAfterRun, Bool.or_eq_true, Bool.and_eq_true, closesHere_iff, ih]
    constructor
    · rintro (⟨closing, after, hc, htext⟩ | ⟨hs, run, closing, after, hrun, hc, rfl⟩)
      · exact ⟨[], closing, after, rfl, hc, htext⟩
      · exact ⟨c :: run, closing, after, by rw [List.all_cons, hs, hrun]; rfl, hc, rfl⟩
    · rintro ⟨run, closing, after, hrun, hc, htext⟩
      -- the run is empty, or it begins with the first symbol of the text
      rcases run with _ | ⟨first, run⟩
      · exact .inl ⟨closing, after, hc, htext⟩
      · obtain ⟨rfl, rfl⟩ := List.cons.inj htext
        rw [List.all_cons, Bool.and_eq_true] at hrun
        exact .inr ⟨hrun.1, run, closing, after, hrun.2, hc, rfl⟩

/-- The outermost stage, which is the question itself: somewhere in the text a quote stands with the
middle stage behind it. -/
theorem isEmbedded_iff : isEmbedded key text = true ↔ Refers text key := by
  -- on the text: the opening quote is its first character, or stands in the rest
  induction text with
  | nil => simp [isEmbedded, Refers]
  | cons c rest ih =>
    rw [isEmbedded, Bool.or_eq_true, Bool.and_eq_true, closesAfterRun_iff, ih]
    constructor
    · rintro (⟨ho, run, closing, after, hrun, hc, rfl⟩ |
        ⟨before, run, after, opening, closing, ho, hrun, hc, rfl⟩)
      · exact ⟨[], run, after, c, closing, ho, hrun, hc, rfl⟩
      · exact ⟨c :: before, run, after, opening, closing, ho, hrun, hc, rfl⟩
    · rintro ⟨before, run, after, opening, closing, ho, hrun, hc, htext⟩
      rcases before with _ | ⟨first, before⟩
      · obtain ⟨rfl, rfl⟩ := List.cons.inj htext
        exact .inl ⟨ho, run, closing, after, hrun, hc, rfl⟩
      · obtain ⟨rfl, rfl⟩ := List.cons.inj htext
        exact .inr ⟨before, run, after, opening, closing, ho, hrun, hc, rfl⟩

/-! ### All keys -/

/-- **The search is right**: for every key and every text the search tells whether the text refers
to the key. A path-safe key is searched for among the ends of literals, any other key in the text.
-/
theorem matchesText_ofKey : (ofKey key).matchesText text = true ↔ Refers text key := by
  unfold ofKey
  split_ifs with safe
  · rw [matchesText, isSome_literalEndingWith, refers_iff_exists_literal safe]
  · rw [matchesText, isEmbedded_iff]

instance : Decidable (Refers text key) :=
  decidable_of_iff _ matchesText_ofKey

/-! ### The shortest reference -/

/-- A key between two quotes: the shortest text that refers to the key. -/
def quoted (key : Text) : Text :=
  '\x27' :: key ++ ['\x27']

end KeyPattern

end Orphans
