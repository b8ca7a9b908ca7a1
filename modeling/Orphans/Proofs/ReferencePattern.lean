import Mathlib
import Orphans.Proofs.KeyPattern

/-!
# References as a regular expression

What refers to a key can be written down as a pattern: a quote, any number of path-safe characters,
the key and a quote again. `KeyPattern.ofKey_answersReference`: whichever way a key is searched for,
the answer is whether some part of the text is in the language of that pattern. So the ends of
literals tell of a path-safe key what the pattern would tell, and the search in the text itself
tells it of every key.

The language is taken apart as the pattern is put together: a class of characters
(`mem_matches_oneOf`), any number of these (`mem_matches_star_oneOf`), a text that stands for itself
(`mem_matches_verbatim`), and one of these after the other (`mem_matches_reference`). The classes
are written down as a pattern writes them, by ranges of characters, and `mem_quotes` and
`mem_pathSafe` say that they are the quotes and path-safe characters of the search.

A key goes into the pattern as it stands, whatever characters it has (`Pattern.verbatim`). That a
dot or a bracket in a key means itself is therefore part of what is stated, not assumed.
-/

namespace Orphans

open RegularExpression

namespace Pattern

/-! ### Patterns -/

/-- The characters from one to another. -/
def range (first last : Char) : List Char :=
  (List.range' first.toNat (last.toNat + 1 - first.toNat)).map Char.ofNat

/-- The quotes. -/
def quotes : List Char := ['\x27', '\x22']

/-- The path-safe characters. -/
def pathSafe : List Char :=
  ['.', '/'] ++ range 'A' 'Z' ++ range 'a' 'z' ++ range '0' '9' ++ ['_', '-', '@']

/-- A class of characters: any one of them. -/
def oneOf (chars : List Char) : RegularExpression Char :=
  (chars.map char).sum

/-- A text that stands for itself, whatever characters it has. -/
def verbatim (text : Text) : RegularExpression Char :=
  (text.map char).prod

/-- The pattern of the references to a key. -/
def reference (key : Text) : RegularExpression Char :=
  oneOf quotes * (oneOf pathSafe).star * verbatim key * oneOf quotes

/-- A pattern matches somewhere in a text. Only whether it does is told, not where or how much of
the text it matches, so it makes no difference which match is taken first. -/
def FoundIn (text : Text) (pattern : RegularExpression Char) : Prop :=
  ∃ part ∈ pattern.matches', part <:+: text

/-! ### Classes of characters -/

/-- A range of characters is told by the order of characters, as long as it ends below the
surrogates: above them not every number in between is a character. -/
theorem mem_range {first last c : Char} (h : last.toNat < 0xD800) :
    c ∈ range first last ↔ first ≤ c ∧ c ≤ last := by
  simp only [range, List.mem_map, List.mem_range'_1, Char.le_def, UInt32.le_iff_toNat_le]
  constructor
  · rintro ⟨n, ⟨le, lt⟩, rfl⟩
    have valid : n.isValidChar := .inl (by omega)
    have same : (Char.ofNat n).toNat = n := by rw [Char.toNat_ofNat, if_pos valid]
    show first.toNat ≤ (Char.ofNat n).toNat ∧ (Char.ofNat n).toNat ≤ last.toNat
    omega
  · rintro ⟨hfirst, hlast⟩
    have hfirst : first.toNat ≤ c.toNat := hfirst
    have hlast : c.toNat ≤ last.toNat := hlast
    exact ⟨c.toNat, by omega, Char.ofNat_toNat c⟩

/-- The class of the quotes. -/
theorem mem_quotes {c : Char} : c ∈ quotes ↔ isQuote c = true := by
  simp [quotes, isQuote]

/-- The class of the path-safe characters, range by range. -/
theorem mem_pathSafe {c : Char} : c ∈ pathSafe ↔ isPathSafe c = true := by
  have upper : c ∈ range 'A' 'Z' ↔ c.isUpper = true := by
    rw [mem_range (by decide), Char.isUpper]
    simp [Char.le_def]
  have lower : c ∈ range 'a' 'z' ↔ c.isLower = true := by
    rw [mem_range (by decide), Char.isLower]
    simp [Char.le_def]
  have digit : c ∈ range '0' '9' ↔ c.isDigit = true := by
    rw [mem_range (by decide), Char.isDigit]
    simp [Char.le_def]
  simp only [pathSafe, isPathSafe, Char.isAlphanum, Char.isAlpha, List.mem_append, List.mem_cons,
    List.not_mem_nil, or_false, upper, lower, digit, Bool.or_eq_true, decide_eq_true_eq]
  -- the same alternatives on both sides, in another order
  simp only [or_assoc, or_comm, or_left_comm]

/-! ### Languages -/

variable {part key text : Text} {chars : List Char}

/-- A class of characters matches exactly the texts of one character from it. -/
theorem mem_matches_oneOf : part ∈ (oneOf chars).matches' ↔ ∃ c ∈ chars, part = [c] := by
  induction chars with
  | nil =>
    -- no characters, no alternatives: the empty sum matches nothing
    show part ∈ (0 : Language Char) ↔ _
    simp
  | cons c chars ih =>
    have first : oneOf (c :: chars) = char c + oneOf chars := List.sum_cons
    rw [first, matches'_add, Language.mem_add, ih, List.exists_mem_cons_iff]
    rfl

/-- A text that stands for itself matches itself and nothing else. This is what escaping a key in a
pattern has to achieve, whatever characters the key has. -/
theorem mem_matches_verbatim : part ∈ (verbatim text).matches' ↔ part = text := by
  induction text generalizing part with
  | nil => rfl
  | cons c text ih =>
    have first : verbatim (c :: text) = char c * verbatim text := List.prod_cons
    rw [first, matches'_mul, Language.mem_mul]
    constructor
    · rintro ⟨single, hsingle, rest, hrest, rfl⟩
      have hsingle : single = [c] := hsingle
      rw [hsingle, ih.mp hrest]
      rfl
    · rintro rfl
      exact ⟨[c], rfl, text, ih.mpr rfl, rfl⟩

/-- Any number of characters from a class: a text of such characters is cut into parts of one
character each. -/
theorem mem_matches_star_oneOf : part ∈ (oneOf chars).star.matches' ↔ ∀ c ∈ part, c ∈ chars := by
  rw [matches'_star, Language.mem_kstar]
  constructor
  · rintro ⟨parts, rfl, hparts⟩ c hc
    obtain ⟨single, hsingle, hc⟩ := List.mem_flatten.mp hc
    obtain ⟨c', hc', rfl⟩ := mem_matches_oneOf.mp (hparts single hsingle)
    rwa [List.mem_singleton.mp hc]
  · intro h
    refine ⟨part.map fun c => [c], ?_, ?_⟩
    · simp [← List.flatMap_def]
    · intro single hsingle
      obtain ⟨c, hc, rfl⟩ := List.mem_map.mp hsingle
      exact mem_matches_oneOf.mpr ⟨c, h c hc, rfl⟩

/-- What the whole pattern matches: a quote, a path-safe run, the key and a quote, with nothing
before or after. -/
theorem mem_matches_reference :
    part ∈ (reference key).matches' ↔
      ∃ (opening closing : Char) (run : Text), isQuote opening = true ∧
        run.all isPathSafe = true ∧ isQuote closing = true ∧
        part = opening :: run ++ key ++ [closing] := by
  simp only [reference, matches'_mul, Language.mem_mul, mem_matches_oneOf, mem_matches_star_oneOf,
    mem_matches_verbatim, mem_quotes, mem_pathSafe, List.all_eq_true]
  constructor
  · rintro ⟨_, ⟨_, ⟨_, ⟨opening, ho, rfl⟩, run, hrun, rfl⟩, _, rfl, rfl⟩, _, ⟨closing, hc, rfl⟩,
      rfl⟩
    exact ⟨opening, closing, run, ho, hrun, hc, rfl⟩
  · rintro ⟨opening, closing, run, ho, hrun, hc, rfl⟩
    exact ⟨opening :: run ++ key, ⟨opening :: run, ⟨[opening], ⟨opening, ho, rfl⟩, run, hrun, rfl⟩,
      key, rfl, rfl⟩, [closing], ⟨closing, hc, rfl⟩, rfl⟩

end Pattern

namespace KeyPattern

variable {text key : Text}

/-- The pattern is found in a text exactly when the text refers to the key. What stands before and
after the part that is matched is what `Refers` leaves open. -/
theorem foundIn_reference : Pattern.FoundIn text (Pattern.reference key) ↔ Refers text key := by
  unfold Pattern.FoundIn
  simp only [Pattern.mem_matches_reference]
  constructor
  · rintro ⟨_, ⟨opening, closing, run, ho, hrun, hc, rfl⟩, before, after, rfl⟩
    exact ⟨before, run, after, opening, closing, ho, hrun, hc, by simp⟩
  · rintro ⟨before, run, after, opening, closing, ho, hrun, hc, rfl⟩
    exact ⟨opening :: run ++ key ++ [closing], ⟨opening, closing, run, ho, hrun, hc, rfl⟩, before,
      after, by simp⟩

/-- Whether a text refers to a key is what every search for the key answers. -/
structure AnswersReference (key : Text) : Prop where
  /-- The search that is made tells whether the text refers to the key. -/
  matches_iff : ∀ text, (ofKey key).matchesText text = true ↔
    ∃ (before run after : Text) (opening closing : Char),
      isQuote opening = true ∧ run.all isPathSafe = true ∧ isQuote closing = true ∧
        text = before ++ opening :: run ++ key ++ closing :: after
  /-- It tells whether the pattern is found in the text. -/
  matches_iff_foundIn : ∀ text,
    (ofKey key).matchesText text = true ↔ Pattern.FoundIn text (Pattern.reference key)
  /-- So would the search in the text itself, which is made for the keys that are not path-safe. -/
  embedded_iff_foundIn : ∀ text,
    (embedded key).matchesText text = true ↔ Pattern.FoundIn text (Pattern.reference key)
  /-- The literals tell it of path-safe keys. -/
  suffix_iff_foundIn : isPathSafeKey key = true → ∀ text,
    (suffix key).matchesText text = true ↔ Pattern.FoundIn text (Pattern.reference key)

/-- **The pattern of a reference**: a key is found exactly where the pattern of its references is,
in whichever way it is searched for.  A pattern is told by its language alone. So nothing is said of
how it would be matched, only of which texts hold a part that it matches. -/
theorem ofKey_answersReference (key : Text) : AnswersReference key where
  matches_iff _ := matchesText_ofKey
  matches_iff_foundIn _ := matchesText_ofKey.trans foundIn_reference.symm
  embedded_iff_foundIn _ := isEmbedded_iff.trans foundIn_reference.symm
  suffix_iff_foundIn safe text := by
    have made : ofKey key = suffix key := if_pos safe
    rw [← made, matchesText_ofKey, foundIn_reference]

/-- A key may hold a quote itself. -/
example : (ofKey "it\x27s".toList).matchesText "\x22./it\x27s\x27".toList = true := by decide

end KeyPattern

end Orphans
