import Std.Data.ExtTreeMap
import Orphans.Corpus
import Orphans.KeyPattern

/-!
# The literal index

Every file is read once. For each key of a candidate that is path-safe the index holds the positions
of the files with a literal that ends with it, so that a search for the key is one look-up and the
first file that refers to it is the least position. Only as many symbols at the end of a literal are
looked at as the longest key has: nothing longer is ever asked for.

Keys with other characters are searched for in the texts, which the index keeps.

The empty key is an end of every literal and is still not noted: only non-empty ends are
(`nonemptyEnds`). What the index holds for every key is said in `Orphans.Proofs.LiteralIndex`
(`mem_positions_build`), and what it answers in `Orphans.Proofs.IndexQueries`.
-/

namespace Orphans

/-- A set of positions in the corpus. -/
abbrev PositionSet := Std.ExtTreeSet Nat compare

/-- Positions of files under the keys that some literal of theirs ends with. -/
abbrev SuffixMap := Std.ExtTreeMap Text PositionSet compare

/-- The index of a corpus. -/
structure LiteralIndex where
  /-- The text of every file, where it has one. -/
  texts : List (Option Text)
  /-- For every key that is found, the positions of the files with a literal that ends with it. -/
  suffixes : SuffixMap

namespace LiteralIndex

/-! ### Making an index -/

/-- The path-safe keys of the candidates. -/
def lookupKeys (corpus : Corpus) : NameSet :=
  .ofList ((corpus.candidateFiles.flatMap fun file => [file.nameKey, file.pathKey]).filter
    isPathSafeKey) compare

/-- The length of the longest key. -/
def longestKey (keys : NameSet) : Nat :=
  keys.foldl (fun longest key => max longest key.length) 0

/-- The non-empty ends of a text, the longest first. -/
def nonemptyEnds : Text → List Text
  | [] => []
  | c :: rest => (c :: rest) :: nonemptyEnds rest

/-- The ends of a literal that are keys, if no key is longer than `longest`. -/
def keysEnding (keys : NameSet) (longest : Nat) (literal : Text) : List Text :=
  (nonemptyEnds (literal.drop (literal.length - longest))).filter (keys.contains ·)

/-- Notes a position under a key. -/
def note (position : Nat) (suffixes : SuffixMap) (key : Text) : SuffixMap :=
  suffixes.alter key fun positions => some ((positions.getD ∅).insert position)

/-- Notes the literals of the file at a position. -/
def addText (keys : NameSet) (longest : Nat) (suffixes : SuffixMap) (entry : Option Text × Nat) :
    SuffixMap :=
  match entry with
  | (none, _) => suffixes
  | (some text, position) =>
    (literals text).foldl
      (fun suffixes literal => (keysEnding keys longest literal).foldl (note position) suffixes)
      suffixes

/-- The index of a corpus whose files have the given texts. -/
def build (corpus : Corpus) (texts : List (Option Text)) : LiteralIndex where
  texts := texts
  suffixes :=
    let keys := lookupKeys corpus
    texts.zipIdx.foldl (addText keys (longestKey keys)) ∅

/-! ### Asking an index -/

/-- The position of the first file that matches a pattern, leaving out `excluded`. -/
def firstMatch? (index : LiteralIndex) (pattern : KeyPattern) (excluded : Nat) : Option Nat :=
  match pattern with
  | .suffix key => (index.suffixes[key]?.getD ∅).toList.find? (· != excluded)
  | .embedded key =>
    (index.texts.zipIdx.find? fun (text, position) =>
      position != excluded && text.any (KeyPattern.embedded key).matchesText).map (·.2)

/-- Whether the file at a position matches a pattern. -/
def fileMatches (index : LiteralIndex) (pattern : KeyPattern) (position : Nat) : Bool :=
  match pattern with
  | .suffix key => (index.suffixes[key]?.getD ∅).contains position
  | .embedded key =>
    index.texts[position]?.join.any (KeyPattern.embedded key).matchesText

end LiteralIndex

end Orphans
