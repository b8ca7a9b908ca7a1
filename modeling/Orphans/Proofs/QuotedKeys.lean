import Orphans.Proofs.Concatenation
import Orphans.Proofs.ReferencePattern
import Orphans.Proofs.Utf8

/-!
# Keys between quotes

`isPathSafeKey_agreesWithLiterals`: the keys that are counted as path-safe are those that the pass
for literals finds when they stand between quotes, among the bytes of a text as among its
characters, and they are the language of a class of characters repeated any number of times. So no
key is searched for among the ends of literals that could not be the end of one. Many such keys in
one text are found as well, in their order and with nothing between them, as long as something that
is neither a quote nor path-safe stands between each two of them.

A quote behind a key opens a run of its own, so the proof has to say what becomes of that run: a
separator breaks it (`closedRun?_append_of_isSeparator`), and at the end of the text it stays open.
-/

namespace Orphans

open KeyPattern (quoted)
open Utf8 (encode)

/-- A text that keeps two keys apart: it has no quotes, and something in it is not path-safe, so it
is not empty. -/
structure IsSeparator (text : Text) : Prop where
  /-- No quote in it could open a literal. -/
  not_isQuote : ∀ c ∈ text, isQuote c = false
  /-- So no run of path-safe characters goes through it. -/
  exists_unsafe : ∃ c ∈ text, isPathSafe c = false

/-- The texts that are made of some keys, each between two quotes, with separators between them. -/
inductive AreQuoted : List Text → Text → Prop
  /-- No keys in no text. -/
  | nil : AreQuoted [] []
  /-- One key between two quotes, which need not be of the same kind. -/
  | singleton {key : Text} {opening closing : Char} (isQuote_opening : isQuote opening = true)
      (isQuote_closing : isQuote closing = true) : AreQuoted [key] (opening :: key ++ [closing])
  /-- A key between two quotes, a separator, and what is made of the other keys. -/
  | cons {key next separator text : Text} {keys : List Text} {opening closing : Char}
      (isQuote_opening : isQuote opening = true) (isQuote_closing : isQuote closing = true)
      (apart : IsSeparator separator) (rest : AreQuoted (next :: keys) text) :
      AreQuoted (key :: next :: keys) (opening :: key ++ closing :: (separator ++ text))

variable {key : Text}

/-! ### One key -/

/-- A key between quotes is a literal of its own, if the run behind it is not closed. If it were,
the closing quote of the key would open another literal. -/
theorem literals_quoted_append (safe : isPathSafeKey key = true) {opening closing : Char}
    (ho : isQuote opening = true) (hc : isQuote closing = true) {rest : Text}
    (unclosed : closedRun? rest = none) :
    literals (opening :: key ++ closing :: rest) = key :: literals rest := by
  have closed : closedRun? (key ++ closing :: rest) = some key :=
    closedRun?_eq_some_iff.mpr ⟨safe, closing, rest, hc, rfl⟩
  have plain : ∀ c ∈ key, isQuote c = false := by
    intro c hc
    apply PathSymbol.isQuote_of_isPathSafe
    exact List.all_eq_true.mp safe c hc
  calc literals (opening :: (key ++ closing :: rest))
    _ = [key] ++ literals (key ++ closing :: rest) := by
      rw [literals_cons_of_isQuote ho, closed, Option.toList_some]
    _ = [key] ++ literals (closing :: rest) := by
      rw [literals_append_of_not_isQuote plain]
    _ = [key] ++ literals rest := by
      rw [literals_cons_of_isQuote hc, unclosed, Option.toList_none, List.nil_append]

/-- A key is path-safe exactly if it is the one literal of itself between quotes. -/
theorem isPathSafeKey_iff_literals_quoted :
    isPathSafeKey key = true ↔ literals (quoted key) = [key] := by
  constructor
  · intro safe
    exact literals_quoted_append safe (by decide) (by decide) rfl
  · -- whatever is found as a literal is path-safe
    intro h
    have found : key ∈ literals (quoted key) := by
      rw [h]
      exact List.mem_singleton_self key
    exact (mem_literals_iff.mp found).1

/-- The bytes say the same as the characters, since different texts have different bytes. -/
theorem isPathSafeKey_iff_literals_encode_quoted :
    isPathSafeKey key = true ↔ literals (encode (quoted key)) = [encode key] := by
  have single : [encode key] = [key].map encode := rfl
  rw [isPathSafeKey_iff_literals_quoted, literals_encode, single,
    (List.map_injective_iff.mpr Utf8.encode_injective).eq_iff]

/-- A path-safe key is a word of the class of path-safe characters, repeated any number of times. -/
theorem isPathSafeKey_iff_mem_matches :
    isPathSafeKey key = true ↔ key ∈ (Pattern.oneOf Pattern.pathSafe).star.matches' := by
  rw [Pattern.mem_matches_star_oneOf, isPathSafeKey, List.all_eq_true]
  simp only [Pattern.mem_pathSafe]

/-! ### Many keys -/

/-- A separator leaves no run open behind the quote that it follows. -/
theorem closedRun?_append_of_isSeparator {separator : Text} (apart : IsSeparator separator)
    (rest : Text) : closedRun? (separator ++ rest) = none := by
  rcases apart with ⟨not_isQuote, exists_unsafe⟩
  induction separator with
  | nil => simp at exists_unsafe
  | cons c separator ih =>
    rw [List.forall_mem_cons] at not_isQuote
    rw [List.exists_mem_cons_iff] at exists_unsafe
    rw [List.cons_append]
    by_cases safe : isPathSafe c = true
    · rw [closedRun?_cons_of_isPathSafe safe, ih not_isQuote.2, Option.map_none]
      exact exists_unsafe.resolve_left (by simp [safe])
    · exact closedRun?_cons_of_other not_isQuote.1 (by simpa using safe) _

/-- Path-safe keys are all found again where they stand between quotes, in their order. -/
theorem AreQuoted.literals_eq {keys : List Text} {text : Text} (h : AreQuoted keys text)
    (safe : ∀ key ∈ keys, isPathSafeKey key = true) : literals text = keys := by
  induction h with
  | nil => rfl
  | singleton ho hc => exact literals_quoted_append (safe _ (List.mem_singleton_self _)) ho hc rfl
  | cons ho hc apart _ ih =>
    rw [List.forall_mem_cons] at safe
    rw [literals_quoted_append safe.1 ho hc (closedRun?_append_of_isSeparator apart _),
      literals_append_of_not_isQuote apart.not_isQuote, ih safe.2]

/-! ### Both together -/

/-- What it is for a key to be counted as path-safe. The three parts are what the pass does on the
characters, what it does on the bytes, and a pattern that mentions no pass. -/
structure AgreesWithLiterals (key : Text) : Prop where
  /-- The pass for literals finds the key between quotes, and nothing else. -/
  iff_literals : isPathSafeKey key = true ↔ literals (quoted key) = [key]
  /-- So it does among the bytes. -/
  iff_literals_encode : isPathSafeKey key = true ↔ literals (encode (quoted key)) = [encode key]
  /-- The key has characters of one class only. -/
  iff_mem_matches :
    isPathSafeKey key = true ↔ key ∈ (Pattern.oneOf Pattern.pathSafe).star.matches'

/-- **Agreement on path-safe keys**: the keys that are counted as path-safe are those that the pass
for literals finds between quotes, and any number of them is found in one text.  The empty key is
one of them. In a list of keys the two quotes around each may differ, and every quote closes what is
open and opens anew. So it is the separators, and not the kinds of quotes, that keep the keys apart.
-/
theorem isPathSafeKey_agreesWithLiterals :
    (∀ key : Text, AgreesWithLiterals key) ∧
      ∀ (keys : List Text) (text : Text), (∀ key ∈ keys, isPathSafeKey key = true) →
        AreQuoted keys text →
          literals text = keys ∧ literals (encode text) = keys.map encode := by
  constructor
  · intro key
    exact {
      iff_literals := isPathSafeKey_iff_literals_quoted
      iff_literals_encode := isPathSafeKey_iff_literals_encode_quoted
      iff_mem_matches := isPathSafeKey_iff_mem_matches }
  · intro keys text safe areQuoted
    have found := areQuoted.literals_eq safe
    exact ⟨found, by rw [literals_encode, found]⟩

/-- An empty key between two others, and letters in a separator. -/
theorem isPathSafeKey_agreesWithLiterals_list :
    let keys := ["./nav".toList, [], "@x/y-2".toList]
    let text := "'./nav', \x22\x22 or else\n'@x/y-2\x22".toList
    AreQuoted keys text ∧ (∀ key ∈ keys, isPathSafeKey key = true) ∧
      literals text = keys ∧ literals (encode text) = keys.map encode := by
  intro keys text
  have last : AreQuoted ["@x/y-2".toList] "'@x/y-2\x22".toList := .singleton (by decide) (by decide)
  have comma : IsSeparator ", ".toList := ⟨by simp [isQuote], ',', by decide, by decide⟩
  have words : IsSeparator " or else\n".toList := ⟨by simp [isQuote], ' ', by decide, by decide⟩
  have areQuoted : AreQuoted keys text :=
    .cons (by decide) (by decide) comma (.cons (by decide) (by decide) words last)
  have safe : ∀ key ∈ keys, isPathSafeKey key = true := by decide
  exact ⟨areQuoted, safe, isPathSafeKey_agreesWithLiterals.2 keys text safe areQuoted⟩

end Orphans
