import Orphans.Usage

/-!
# Analyses

A whole run on a file system: the corpus is collected, its files are read, and the usage of every
candidate is decided. A file that cannot be read as a text stays in the corpus and refers to
nothing.

Files are read once, after the corpus is complete; `Analysis.texts` has an entry for every file, in
the order of the corpus, so a position means the same in both.
-/

namespace Orphans

/-- What a run finds out. -/
structure Analysis where
  /-- The files that were found, and which of them are candidates. -/
  corpus : Corpus
  /-- One entry for each candidate, in discovery order. -/
  usages : List Usage
deriving Repr, DecidableEq

namespace Analysis

/-- The texts of the files of a corpus. -/
def texts (fs : FileSystem) (corpus : Corpus) : List (Option Text) :=
  corpus.files.map fun file => fs.readText? file.path

/-- The analysis of a file system under a configuration. -/
def run (fs : FileSystem) (config : Config) : Analysis :=
  let corpus := Corpus.collect fs config
  ⟨corpus, Usage.byStrategy config.strategy corpus (texts fs corpus)⟩

/-- The candidates that no other file refers to. -/
def unused (analysis : Analysis) : List RawPath :=
  (analysis.usages.filter fun usage => !usage.isUsed).map (·.file)

end Analysis

end Orphans
