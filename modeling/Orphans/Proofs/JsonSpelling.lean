import Mathlib.Tactic.SplitIfs
import Orphans.Json.Grammar

/-!
# The pretty-printed form is a spelling

`isSpelling_pretty`: what is printed for a value is JSON text of that value. Spellings of tokens can
be put one after the other (`TokensSpelling.append`), and what is printed is made of lines, marks
and strings in the order of the tokens, so the proof follows `prettyAt`.
-/

namespace Orphans.Json

/-! ### Strings -/

/-- Characters below U+0020 are written with two digits of base sixteen. -/
theorem unit?_hexDigit {n : Nat} (h : n < 0x20) :
    unit? '0' '0' (hexDigit (n / 16)) (hexDigit n) = some n := by
  revert n
  decide

/-- A character is printed in one of its spellings. -/
theorem charSpelling_escape (c : Char) : CharSpelling c (escape c) := by
  unfold escape
  split_ifs
  -- Each of the seven characters that have a letter, in the order in which they are asked for.
  iterate 7
    · subst c
      exact .letter rfl
  · next control => exact .unit (unit?_hexDigit control)
  · next notMark notBackslash _ _ _ _ _ printable =>
    exact .plain (Nat.le_of_not_lt printable) notMark notBackslash

/-- So is a text, character by character. -/
theorem textSpelling_escape (text : Text) : TextSpelling text (text.flatMap escape) := by
  induction text with
  | nil => exact .nil
  | cons c text ih =>
    rw [List.flatMap_cons]
    exact .cons (charSpelling_escape c) ih

/-- A text between quotation marks spells the token of the text. -/
theorem tokenSpelling_quote (text : Text) : TokenSpelling (.text text) (quote text) :=
  .text (textSpelling_escape text)

/-! ### Spellings one after the other -/

section

variable {first second : List Token} {before after spelling : Text} {token : Token} {c : Char}

/-- Spellings can be put one after the other. -/
theorem TokensSpelling.append (h : TokensSpelling first before) (h' : TokensSpelling second after) :
    TokensSpelling (first ++ second) (before ++ after) := by
  induction h' with
  | nil => simpa using h
  | blank _ isBlank ih =>
    rw [← List.append_assoc]
    exact .blank ih isBlank
  | token _ spelled ih =>
    rw [← List.append_assoc, ← List.append_assoc]
    exact .token ih spelled

/-- A token is spelled by itself. -/
theorem TokenSpelling.tokens (h : TokenSpelling token spelling) : TokensSpelling [token] spelling :=
  TokensSpelling.token .nil h

/-- A token in front. -/
theorem TokenSpelling.append (h : TokenSpelling token spelling) (h' : TokensSpelling second after) :
    TokensSpelling (token :: second) (spelling ++ after) :=
  h.tokens.append h'

/-- A mark in front. -/
theorem TokensSpelling.cons_mark (h : mark? c = some token) (h' : TokensSpelling second after) :
    TokensSpelling (token :: second) (c :: after) :=
  (TokenSpelling.mark h).append h'

/-- A blank in front. -/
theorem TokensSpelling.cons_blank (h : isBlank c = true) (h' : TokensSpelling second after) :
    TokensSpelling second (c :: after) :=
  (TokensSpelling.blank .nil h).append h'

/-- Spaces spell nothing. -/
theorem tokensSpelling_spaces (n : Nat) : TokensSpelling [] (List.replicate n ' ') := by
  induction n with
  | zero => exact .nil
  | succ n ih => exact .cons_blank rfl ih

/-- Neither does the beginning of a line. -/
theorem tokensSpelling_newLine (level : Nat) : TokensSpelling [] (newLine level) :=
  .cons_blank rfl (tokensSpelling_spaces (2 * level))

/-- A mark at the end of a line. -/
theorem tokensSpelling_mark_newLine (h : mark? c = some token) (level : Nat) :
    TokensSpelling [token] (c :: newLine level) :=
  .cons_mark h (tokensSpelling_newLine level)

/-- A mark on a line of its own at the end. -/
theorem TokensSpelling.newLine_mark (h : TokensSpelling first before) (level : Nat)
    (hmark : mark? c = some token) :
    TokensSpelling (first ++ [token]) (before ++ newLine level ++ [c]) := by
  have line := h.append (tokensSpelling_newLine level)
  rw [List.append_nil] at line
  exact line.token (.mark hmark)

/-- What follows the name of a member. -/
theorem TokensSpelling.colon (h : TokensSpelling second after) :
    TokensSpelling (.colon :: second) (':' :: ' ' :: after) :=
  .cons_mark rfl (.cons_blank rfl h)

end

/-! ### Values -/

mutual

/-- A value is printed as one of its spellings, at every level. The proof follows the printer: the
brackets, what is inside of them first, and the rest. -/
theorem isSpelling_prettyAt (level : Nat) (value : Json) :
    value.IsSpelling (value.prettyAt level) := by
  match value with
  | text t => exact (tokenSpelling_quote t).tokens
  | number n => exact (TokenSpelling.number n).tokens
  | list [] => exact .cons_mark rfl (TokenSpelling.mark rfl).tokens
  | list (item :: items) =>
    -- what is printed, from left to right
    have opened := tokensSpelling_mark_newLine (c := '[') rfl (level + 1)
    have first := opened.append (isSpelling_prettyAt (level + 1) item)
    have all := first.append (tokensSpelling_prettyItems (level + 1) items)
    exact all.newLine_mark level rfl
  | record [] => exact .cons_mark rfl (TokenSpelling.mark rfl).tokens
  | record ((key, value) :: members) =>
    have opened := tokensSpelling_mark_newLine (c := '\x7b') rfl (level + 1)
    have named := opened.append (tokenSpelling_quote key).tokens
    have first := named.append (isSpelling_prettyAt (level + 1) value).colon
    have all := first.append (tokensSpelling_prettyMembers (level + 1) members)
    exact all.newLine_mark level rfl

/-- Further items are printed with a comma before each. -/
theorem tokensSpelling_prettyItems (level : Nat) (items : List Json) :
    TokensSpelling (itemTokens items) (prettyItems level items) := by
  match items with
  | [] => exact .nil
  | item :: items =>
    have comma := tokensSpelling_mark_newLine (c := ',') rfl level
    have first := comma.append (isSpelling_prettyAt level item)
    exact first.append (tokensSpelling_prettyItems level items)

/-- Further members are printed with a comma before each, and a colon after its name. -/
theorem tokensSpelling_prettyMembers (level : Nat) (members : List (Text × Json)) :
    TokensSpelling (memberTokens members) (prettyMembers level members) := by
  match members with
  | [] => exact .nil
  | (key, value) :: members =>
    have comma := tokensSpelling_mark_newLine (c := ',') rfl level
    have named := comma.append (tokenSpelling_quote key).tokens
    have first := named.append (isSpelling_prettyAt level value).colon
    exact first.append (tokensSpelling_prettyMembers level members)

end

/-- The pretty-printed form of a value is a spelling of it. -/
theorem isSpelling_pretty (value : Json) : value.IsSpelling value.pretty :=
  isSpelling_prettyAt 0 value

/-- So is the form with blanks after it. -/
theorem IsSpelling.concat {value : Json} {text : Text} {c : Char} (h : value.IsSpelling text)
    (blank : isBlank c = true) : value.IsSpelling (text ++ [c]) :=
  TokensSpelling.blank h blank

end Orphans.Json
