import Orphans.Text

/-!
# Blank characters

The characters with the Unicode property `White_Space`, and the removal of blanks from the two ends
of a text. The property holds of the line and paragraph separators and of the no-break spaces, but
not of the zero-width space U+200B, the byte order mark U+FEFF or the separators U+001C to U+001F.
-/

namespace Orphans.Text

/-- The first and last code point of every range with the property `White_Space`. -/
def blankRanges : List (Nat × Nat) :=
  [(0x0009, 0x000D), (0x0020, 0x0020), (0x0085, 0x0085), (0x00A0, 0x00A0), (0x1680, 0x1680),
    (0x2000, 0x200A), (0x2028, 0x2029), (0x202F, 0x202F), (0x205F, 0x205F), (0x3000, 0x3000)]

/-- Whether a character is blank. -/
def isBlank (c : Char) : Bool :=
  blankRanges.any fun (first, last) => first ≤ c.toNat && c.toNat ≤ last

/-- The characters that the core library counts as whitespace are blank; others are too, such as
U+00A0. -/
theorem isBlank_of_isWhitespace {c : Char} (h : c.isWhitespace = true) : isBlank c = true := by
  simp only [Char.isWhitespace, Bool.or_eq_true, decide_eq_true_eq] at h
  rcases h with ((rfl | rfl) | rfl) | rfl <;> decide

/-- A text without the blanks it begins with. -/
def trimStart (text : Text) : Text :=
  text.dropWhile isBlank

/-- A text without the blanks it ends with. -/
def trimEnd (text : Text) : Text :=
  (text.reverse.dropWhile isBlank).reverse

/-- A text without the blanks at either end; blanks between other characters stay. -/
def trim (text : Text) : Text :=
  trimEnd (trimStart text)

end Orphans.Text
