import Orphans.LiteralIndex

/-!
# Usages

For every candidate the first other file that refers to it, in discovery order, and whether it does
so by the path key or by the name key only. The name key decides whether a file refers to a
candidate; the path key is looked for only where the name key has been found. So a text that refers
to the path key counts only if it refers to the name key too, as it does where the path key is a
directory and the name key with nothing but path-safe characters between the quotes.

Two strategies answer. `Usage.byScan` searches the texts one after the other for each candidate, and
`Usage.byIndex` asks an index made of all texts. The first is quadratic and needs nothing prepared;
the second reads every text once. `Orphans.Proofs.Usage` shows both to be one search.
-/

namespace Orphans

/-- Which key of a candidate a file refers to. -/
inductive Via where
  /-- By its name key. -/
  | name
  /-- By its path key, which is another one. -/
  | path
deriving Repr, DecidableEq

/-- The name of a kind of key. -/
def Via.label : Via → String
  | name => "name"
  | path => "path"

/-- A file that refers to a candidate. -/
structure Reference where
  /-- The path of the file that refers to it. -/
  file : RawPath
  via : Via
deriving Repr, DecidableEq

/-- A candidate and the first other file that refers to it. -/
structure Usage where
  /-- The path of the candidate. -/
  file : RawPath
  /-- Nothing if no other file refers to it. -/
  referencedBy : Option Reference
deriving Repr, DecidableEq

/-- Whether a candidate is in use. -/
def Usage.isUsed (usage : Usage) : Bool :=
  usage.referencedBy.isSome

/-- The patterns of the keys of a candidate. -/
structure KeyPatterns where
  name : KeyPattern
  /-- Nothing if the path key is the name key. -/
  path : Option KeyPattern
deriving Repr, DecidableEq

/-- The patterns of a source file. -/
def KeyPatterns.ofFile (file : SourceFile) : KeyPatterns where
  name := .ofKey file.nameKey
  path := if file.pathKey = file.nameKey then none else some (.ofKey file.pathKey)

/-- Which key a text refers to, if it refers to the name key at all. -/
def KeyPatterns.via? (patterns : KeyPatterns) (text : Text) : Option Via :=
  if patterns.name.matchesText text then
    some (if patterns.path.any (·.matchesText text) then .path else .name)
  else none

namespace Usage

/-! ### By searching the texts -/

/-- The first reference to the candidate at a position among files with their texts. -/
def scanReference? (files : List SourceFile) (texts : List (Option Text)) (candidate : Nat)
    (patterns : KeyPatterns) : Option Reference :=
  (files.zip texts).zipIdx.findSome? fun ((file, text), position) =>
    if position = candidate then none
    else (text.bind patterns.via?).map fun via => ⟨file.path, via⟩

/-- The usage of every candidate, found by searching the texts for one candidate at a time. -/
def byScan (corpus : Corpus) (texts : List (Option Text)) : List Usage :=
  corpus.candidates.filterMap fun candidate =>
    corpus.files[candidate]?.map fun target =>
      ⟨target.path, scanReference? corpus.files texts candidate (.ofFile target)⟩

/-! ### By asking an index -/

/-- The first reference to the candidate at a position, as an index gives it. -/
def indexReference? (files : List SourceFile) (index : LiteralIndex) (candidate : Nat)
    (patterns : KeyPatterns) : Option Reference := do
  let found ← index.firstMatch? patterns.name candidate
  let file ← files[found]?
  let via := if patterns.path.any (index.fileMatches · found) then Via.path else Via.name
  return ⟨file.path, via⟩

/-- The usage of every candidate, found by asking one index of all texts. -/
def byIndex (corpus : Corpus) (texts : List (Option Text)) : List Usage :=
  let index := LiteralIndex.build corpus texts
  corpus.candidates.filterMap fun candidate =>
    corpus.files[candidate]?.map fun target =>
      ⟨target.path, indexReference? corpus.files index candidate (.ofFile target)⟩

/-- The usage of every candidate, found by a given strategy. -/
def byStrategy : Strategy → Corpus → List (Option Text) → List Usage
  | .index => byIndex
  | .scan => byScan

end Usage

end Orphans
