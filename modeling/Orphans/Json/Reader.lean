import Orphans.Json.Grammar

/-!
# Reading JSON

A text is read in two passes, each of them from left to right. The scanner finds the tokens, and the
parser puts them together. What stands around the value that is being read is a list of frames, the
innermost first, so nothing is read twice and a text of any depth is read.

Each pass is a step for one character or one token, folded over all of them. So what is true of a
pass is proved of its step first. The inside of a string is collected as it stands and unescaped
when the string is closed.
-/

namespace Orphans.Json

/-! ### Strings -/

/-- The text that is spelled inside a string. -/
def unescape? : Text → Option Text
  | [] => some []
  | '\\' :: 'u' :: a :: b :: c :: d :: rest => do
    let unit ← unit? a b c d
    if isHigh unit then
      match rest with
      | '\\' :: 'u' :: a' :: b' :: c' :: d' :: rest => do
        let low ← unit? a' b' c' d'
        if isLow low then (Char.ofNat (scalarOf unit low) :: ·) <$> unescape? rest else none
      | _ => none
    else if isLow unit then none
    else (Char.ofNat unit :: ·) <$> unescape? rest
  | '\\' :: e :: rest => do
    let c ← escaped? e
    (c :: ·) <$> unescape? rest
  | c :: rest =>
    if 0x20 ≤ c.toNat ∧ c ≠ '\x22' ∧ c ≠ '\\' then (c :: ·) <$> unescape? rest else none

/-! ### Tokens -/

/-- What a scanner is in the middle of. -/
inductive Mode where
  /-- No token has been begun. -/
  | between
  /-- A number, with the value of its digits so far. -/
  | number (n : Nat)
  /-- A string, with what has been read of it. -/
  | string (inside : Text)
  /-- A string, after a backslash. -/
  | escape (inside : Text)

/-- The tokens that have been found, and what comes after them. -/
structure Scanner where
  /-- The tokens that have been read to their ends. -/
  found : List Token
  /-- What has been read since. -/
  mode : Mode

namespace Scanner

/-- Nothing has been read. -/
def start : Scanner where
  found := []
  mode := .between

/-- The digit that a character stands for. -/
def digitValue (c : Char) : Nat :=
  c.toNat - '0'.toNat

/-- A character that is not part of the token before it. -/
def begin? (found : List Token) (c : Char) : Option Scanner :=
  if isBlank c then some ⟨found, .between⟩
  else if c.isDigit then some ⟨found, .number (digitValue c)⟩
  else if c = '\x22' then some ⟨found, .string []⟩
  else (mark? c).map fun token => ⟨found ++ [token], .between⟩

/-- The next character. -/
def step (scanner : Scanner) (c : Char) : Option Scanner :=
  match scanner.mode with
  | .between => begin? scanner.found c
  | .number n =>
    if c.isDigit then
      if n = 0 then none else some ⟨scanner.found, .number (10 * n + digitValue c)⟩
    else begin? (scanner.found ++ [.number n]) c
  | .string inside =>
    if c = '\x22' then
      (unescape? inside).map fun text => ⟨scanner.found ++ [.text text], .between⟩
    else if c = '\\' then some ⟨scanner.found, .escape inside⟩
    else some ⟨scanner.found, .string (inside ++ [c])⟩
  | .escape inside => some ⟨scanner.found, .string (inside ++ ['\\', c])⟩

/-- A number ends where the text does. -/
def settle (scanner : Scanner) : Scanner :=
  match scanner.mode with
  | .number n => ⟨scanner.found ++ [.number n], .between⟩
  | _ => scanner

/-- All tokens, unless a string has not been closed. -/
def finish? (scanner : Scanner) : Option (List Token) :=
  match scanner.settle with
  | ⟨found, .between⟩ => some found
  | _ => none

end Scanner

/-- The tokens of a text. -/
def scan? (text : Text) : Option (List Token) := do
  let scanner ← text.foldlM Scanner.step .start
  scanner.finish?

/-! ### Values -/

/-- A list or a record around the value that is being read. -/
inductive Frame where
  /-- A list, with the items before the value. -/
  | list (items : List Json)
  /-- A record, with the members before the value, and its name. -/
  | record (members : List (Text × Json)) (key : Text)

/-- What has been read of a value, with the frames around it. -/
inductive Parser where
  /-- A value comes next. -/
  | ready (outer : List Frame)
  /-- A list has been opened. -/
  | firstItem (outer : List Frame)
  /-- A record has been opened. -/
  | firstMember (outer : List Frame)
  /-- The name of another member comes next. -/
  | member (members : List (Text × Json)) (outer : List Frame)
  /-- A colon comes next, after a name. -/
  | colon (members : List (Text × Json)) (key : Text) (outer : List Frame)
  /-- A value has been read to its end. -/
  | closed (value : Json) (outer : List Frame)

namespace Parser

/-- Nothing has been read. -/
def start : Parser :=
  .ready []

/-- The first token of a value. -/
def begin? (outer : List Frame) : Token → Option Parser
  | .openList => some (.firstItem outer)
  | .openRecord => some (.firstMember outer)
  | .text t => some (.closed (.text t) outer)
  | .number n => some (.closed (.number n) outer)
  | _ => none

/-- The next token. -/
def step : Parser → Token → Option Parser
  | .ready outer, token => begin? outer token
  | .firstItem outer, .closeList => some (.closed (.list []) outer)
  | .firstItem outer, token => begin? (.list [] :: outer) token
  | .firstMember outer, .closeRecord => some (.closed (.record []) outer)
  | .firstMember outer, .text key => some (.colon [] key outer)
  | .member members outer, .text key => some (.colon members key outer)
  | .colon members key outer, .colon => some (.ready (.record members key :: outer))
  | .closed value (.list items :: outer), .comma =>
    some (.ready (.list (items ++ [value]) :: outer))
  | .closed value (.list items :: outer), .closeList =>
    some (.closed (.list (items ++ [value])) outer)
  | .closed value (.record members key :: outer), .comma =>
    some (.member (members ++ [(key, value)]) outer)
  | .closed value (.record members key :: outer), .closeRecord =>
    some (.closed (.record (members ++ [(key, value)])) outer)
  | _, _ => none

/-- The value, if it has been read to its end. -/
def finish? : Parser → Option Json
  | .closed value [] => some value
  | _ => none

end Parser

/-- The value with the given tokens. -/
def parse? (tokens : List Token) : Option Json := do
  let parser ← tokens.foldlM Parser.step .start
  parser.finish?

/-- The value that a text spells. -/
def read? (text : Text) : Option Json := do
  let tokens ← scan? text
  parse? tokens

end Orphans.Json
