import Orphans.Json

/-!
# The grammar of JSON

Which texts spell a JSON value, whoever has written them. A value has one sequence of tokens
(`Json.tokens`). Blanks may stand before, between and after tokens, and inside a string every
character has several spellings: itself, unless it is a quotation mark, a backslash or below U+0020;
a backslash and a letter; its UTF-16 units in base sixteen.

The grammar knows nothing of the printer and the reader, so that what is printed can be said to be
JSON, and what is read can be said to be all of JSON that these values have. Truth values, nulls,
signs, fractions and exponents are not part of this, as there are no values for them.
-/

namespace Orphans.Json

/-! ### Tokens -/

/-- The tokens that a value is spelled with. -/
inductive Token where
  | openList
  | closeList
  | openRecord
  | closeRecord
  | comma
  | colon
  | text (text : Text)
  | number (n : Nat)
deriving Repr, DecidableEq

mutual

/-- The tokens of a value. -/
def tokens : Json → List Token
  | text t => [.text t]
  | number n => [.number n]
  | list [] => [.openList, .closeList]
  | list (item :: items) => .openList :: item.tokens ++ itemTokens items ++ [.closeList]
  | record [] => [.openRecord, .closeRecord]
  | record ((key, value) :: members) =>
    .openRecord :: .text key :: .colon :: value.tokens ++ memberTokens members ++ [.closeRecord]

/-- The tokens of items after the first one. -/
def itemTokens : List Json → List Token
  | [] => []
  | item :: items => .comma :: item.tokens ++ itemTokens items

/-- The tokens of members after the first one. -/
def memberTokens : List (Text × Json) → List Token
  | [] => []
  | (key, value) :: members =>
    .comma :: .text key :: .colon :: value.tokens ++ memberTokens members

end

/-- The token that is a mark. -/
def mark? : Char → Option Token
  | '[' => some .openList
  | ']' => some .closeList
  | '\x7b' => some .openRecord
  | '\x7d' => some .closeRecord
  | ',' => some .comma
  | ':' => some .colon
  | _ => none

/-- The characters that may stand between tokens. -/
def isBlank (c : Char) : Bool :=
  c = ' ' || c = '\n' || c = '\r' || c = '\t'

/-! ### Characters inside strings -/

/-- The character that a letter after a backslash stands for. -/
def escaped? : Char → Option Char
  | '\x22' => some '\x22'
  | '\\' => some '\\'
  | '/' => some '/'
  | 'b' => some '\x08'
  | 'f' => some '\x0c'
  | 'n' => some '\n'
  | 'r' => some '\r'
  | 't' => some '\t'
  | _ => none

/-- The value of a digit of base sixteen. -/
def hexValue? (c : Char) : Option Nat :=
  if '0' ≤ c ∧ c ≤ '9' then some (c.toNat - '0'.toNat)
  else if 'a' ≤ c ∧ c ≤ 'f' then some (c.toNat - 'a'.toNat + 10)
  else if 'A' ≤ c ∧ c ≤ 'F' then some (c.toNat - 'A'.toNat + 10)
  else none

/-- The UTF-16 unit that is written with four digits. -/
def unit? (a b c d : Char) : Option Nat := do
  let a ← hexValue? a
  let b ← hexValue? b
  let c ← hexValue? c
  let d ← hexValue? d
  some (((a * 16 + b) * 16 + c) * 16 + d)

/-- Whether a unit is the first of two. -/
def isHigh (unit : Nat) : Bool :=
  0xD800 ≤ unit && unit < 0xDC00

/-- Whether a unit is the second of two. -/
def isLow (unit : Nat) : Bool :=
  0xDC00 ≤ unit && unit < 0xE000

/-- The scalar value with two units. -/
def scalarOf (high low : Nat) : Nat :=
  0x10000 + (high - 0xD800) * 0x400 + (low - 0xDC00)

/-- The spellings of a character inside a string. -/
inductive CharSpelling : Char → Text → Prop
  /-- The character itself. -/
  | plain {c : Char} (printable : 0x20 ≤ c.toNat) (not_mark : c ≠ '\x22')
      (not_backslash : c ≠ '\\') : CharSpelling c [c]
  /-- A backslash and a letter, for the characters that have one. -/
  | letter {c e : Char} (h : escaped? e = some c) : CharSpelling c ['\\', e]
  /-- Its one UTF-16 unit, which is its number. -/
  | unit {ch a b c d : Char} (h : unit? a b c d = some ch.toNat) :
      CharSpelling ch ['\\', 'u', a, b, c, d]
  /-- Its two UTF-16 units, for a character from U+10000 on. -/
  | units {ch a b c d a' b' c' d' : Char} {high low : Nat} (hhigh : unit? a b c d = some high)
      (hlow : unit? a' b' c' d' = some low) (isHigh : isHigh high = true) (isLow : isLow low = true)
      (h : ch.toNat = scalarOf high low) :
      CharSpelling ch ['\\', 'u', a, b, c, d, '\\', 'u', a', b', c', d']

/-- The spellings of a text inside a string. -/
inductive TextSpelling : Text → Text → Prop
  | nil : TextSpelling [] []
  | cons {c : Char} {text spelling rest : Text} (head : CharSpelling c spelling)
      (tail : TextSpelling text rest) : TextSpelling (c :: text) (spelling ++ rest)

/-! ### Spellings -/

/-- The spellings of a token. A number has no digit 0 in front, unless that is all of it. -/
inductive TokenSpelling : Token → Text → Prop
  /-- A mark is spelled by its character. -/
  | mark {c : Char} {token : Token} (h : mark? c = some token) : TokenSpelling token [c]
  /-- A text is spelled between quotation marks. -/
  | text {text inside : Text} (h : TextSpelling text inside) :
      TokenSpelling (.text text) ('\x22' :: inside ++ ['\x22'])
  /-- A number is spelled by its digits in base ten. -/
  | number (n : Nat) : TokenSpelling (.number n) (Nat.toDigits 10 n)

/-- The spellings of tokens, with blanks anywhere between them. -/
inductive TokensSpelling : List Token → Text → Prop
  /-- Nothing spells no tokens. -/
  | nil : TokensSpelling [] []
  /-- A blank after a spelling changes nothing. -/
  | blank {tokens : List Token} {front : Text} {c : Char} (before : TokensSpelling tokens front)
      (h : isBlank c = true) : TokensSpelling tokens (front ++ [c])
  /-- One more token is spelled after the others. -/
  | token {tokens : List Token} {front : Text} {token : Token} {spelling : Text}
      (before : TokensSpelling tokens front) (h : TokenSpelling token spelling) :
      TokensSpelling (tokens ++ [token]) (front ++ spelling)

/-- The spellings of a value. No value has two numbers next to each other, so the tokens can be told
apart without blanks. -/
def IsSpelling (value : Json) (text : Text) : Prop :=
  TokensSpelling value.tokens text

end Orphans.Json
