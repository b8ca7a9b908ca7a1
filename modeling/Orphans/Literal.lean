import Orphans.Text

/-!
# Quoted path literals

A *path literal* is a run of path-safe symbols, letters, digits and `. / _ - @`, with a quote on
each side. The two quotes need not be the same one, and a quote may close one literal and open the
next: `'foo'bar'` holds both `foo` and `bar`.

One pass finds all literals. It remembers the symbols since the last quote as long as they are all
path-safe; a quote then closes that run and opens a new one. The pass is stated for any alphabet
that has quotes and path-safe symbols, because a text has two: its characters and its bytes.

What the pass finds is said without it in `Orphans.Proofs.Literal` (`mem_literals_iff`: what stands
between two quotes and is path-safe), that characters and bytes have the same literals in
`Orphans.Proofs.Bytes`, and where literals stand in a text in `Orphans.Proofs.Span`.
-/

namespace Orphans

/-! ### Alphabets -/

/-- An alphabet of texts with path literals: which symbols are quotes, and which may stand between
two quotes. No symbol is both. -/
class PathSymbol (α : Type) where
  isQuote : α → Bool
  isPathSafe : α → Bool
  isPathSafe_of_isQuote : ∀ a, isQuote a = true → isPathSafe a = false

export PathSymbol (isQuote isPathSafe)

/-- What may stand between two quotes is no quote. This is the law of the alphabet read the other
way round, and the form in which the pass needs it. -/
theorem PathSymbol.isQuote_of_isPathSafe {α : Type} [PathSymbol α] {a : α}
    (h : isPathSafe a = true) : isQuote a = false := by
  cases hq : isQuote a with
  | false => rfl
  | true => simp [PathSymbol.isPathSafe_of_isQuote a hq] at h

/-- Quotes are the apostrophe and the quotation mark; path-safe are the letters and digits of ASCII
and five marks. -/
instance : PathSymbol Char where
  isQuote c := c = '\x27' || c = '\x22'
  isPathSafe c := c.isAlphanum || c = '.' || c = '/' || c = '_' || c = '-' || c = '@'
  isPathSafe_of_isQuote c h := by
    simp only [Bool.or_eq_true, decide_eq_true_eq] at h
    rcases h with rfl | rfl <;> decide

/-- A byte is what the character with its number is: all quotes and path-safe characters are ASCII,
where UTF-8 has one byte for a character. -/
instance : PathSymbol UInt8 where
  isQuote b := isQuote (Char.ofUInt8 b)
  isPathSafe b := isPathSafe (Char.ofUInt8 b)
  isPathSafe_of_isQuote b := PathSymbol.isPathSafe_of_isQuote (Char.ofUInt8 b)

/-! ### Finding literals -/

section Scan

variable {α : Type} [PathSymbol α]

/-- A pass through a text in progress. -/
structure LiteralScan (α : Type) where
  /-- The symbols since the last quote, the latest first, while no other stood among them. -/
  run : Option (List α)
  /-- The literals closed so far, the latest first. -/
  closed : List (List α)

/-- The pass before the first symbol. -/
def LiteralScan.start : LiteralScan α := ⟨none, []⟩

/-- The pass after one more symbol. -/
def LiteralScan.step (scan : LiteralScan α) (a : α) : LiteralScan α :=
  if isQuote a then
    match scan.run with
    | none => ⟨some [], scan.closed⟩
    | some run => ⟨some [], run.reverse :: scan.closed⟩
  else if isPathSafe a then ⟨scan.run.map (a :: ·), scan.closed⟩
  else ⟨none, scan.closed⟩

/-- A quote closes the run before it, if there is one, and opens the next. -/
theorem LiteralScan.step_of_isQuote {a : α} (h : isQuote a = true) (scan : LiteralScan α) :
    scan.step a = ⟨some [], (scan.run.map List.reverse).toList ++ scan.closed⟩ := by
  rcases scan with ⟨_ | run, closed⟩ <;> simp [step, h]

/-- A path-safe symbol makes the run longer, if there is one. -/
theorem LiteralScan.step_of_isPathSafe {a : α} (h : isPathSafe a = true) (scan : LiteralScan α) :
    scan.step a = ⟨scan.run.map (a :: ·), scan.closed⟩ := by
  simp [step, h, PathSymbol.isQuote_of_isPathSafe h]

/-- Any other symbol breaks the run. -/
theorem LiteralScan.step_of_other {a : α} (hq : isQuote a = false) (hs : isPathSafe a = false)
    (scan : LiteralScan α) : scan.step a = ⟨none, scan.closed⟩ := by
  simp [step, hq, hs]

/-- The quoted path literals of a text, in the order of their opening quotes. -/
def literals (text : List α) : List (List α) :=
  (text.foldl LiteralScan.step .start).closed.reverse

end Scan

/-! ### Searching literals for a key -/

/-- Whether a key is made of path-safe characters only, as the empty key is. -/
def isPathSafeKey (key : Text) : Bool :=
  key.all isPathSafe

/-- The first literal of a text that ends with `key`. A text in which the key does not occur is not
searched for literals. -/
def literalEndingWith (text key : Text) : Option Text :=
  if Text.occursIn key text then (literals text).find? (key.isSuffixOf ·) else none

end Orphans
