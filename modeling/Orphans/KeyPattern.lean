import Orphans.Literal

/-!
# Key patterns

How one key is searched for in a text. The question is the same for every key: does the text hold a
quote, path-safe characters (possibly none), the key and another quote, one directly after the
other? A key of path-safe characters is the end of a quoted literal there, so the literals answer
it; any other key, such as `[slug]`, cuts through literals and is searched for in the text itself.

`KeyPattern.Refers` is the question, and `KeyPattern.matchesText` the answer. That the answer is
right for both kinds of keys is `KeyPattern.matchesText_ofKey`; all that is proved about references
goes through it, and the two searches are not opened anywhere else.
-/

namespace Orphans

/-- A key together with the way it is searched for. -/
inductive KeyPattern where
  /-- The key is path-safe: some literal has to end with it. -/
  | suffix (key : Text)
  /-- The key holds other characters: it has to stand in the text itself. -/
  | embedded (key : Text)
deriving Repr, DecidableEq

namespace KeyPattern

/-- The pattern of a key. -/
def ofKey (key : Text) : KeyPattern :=
  if isPathSafeKey key then .suffix key else .embedded key

/-- A text refers to a key when the key stands in it between a quote followed by path-safe
characters and another quote. -/
def Refers (text key : Text) : Prop :=
  ∃ (before run after : Text) (opening closing : Char),
    isQuote opening = true ∧ run.all isPathSafe = true ∧ isQuote closing = true ∧
      text = before ++ opening :: run ++ key ++ closing :: after

/-! ### The search in the text itself -/

/-- Whether a text begins with `key` and a quote. -/
def closesHere (key text : Text) : Bool :=
  key.isPrefixOf text &&
    match text.drop key.length with
    | [] => false
    | c :: _ => isQuote c

/-- Whether a text begins with path-safe characters (possibly none), `key` and a quote. -/
def closesAfterRun (key : Text) : Text → Bool
  | [] => closesHere key []
  | c :: rest => closesHere key (c :: rest) || (isPathSafe c && closesAfterRun key rest)

/-- Whether a text holds a quote, path-safe characters (possibly none), `key` and a quote. -/
def isEmbedded (key : Text) : Text → Bool
  | [] => false
  | c :: rest => (isQuote c && closesAfterRun key rest) || isEmbedded key rest

/-! ### The search -/

/-- Whether a text refers to the key of a pattern. -/
def matchesText : KeyPattern → Text → Bool
  | .suffix key, text => (literalEndingWith text key).isSome
  | .embedded key, text => isEmbedded key text

end KeyPattern

end Orphans
