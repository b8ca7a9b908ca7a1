import Orphans.FileTree.Access
import Orphans.FileTree.Leaf
import Orphans.SourceFile

/-!
# The corpus

All source files below the root in discovery order, and which of them are *candidates*: files that
have to be referred to by another file to be in use. Every source file may refer to a candidate, so
the corpus keeps the others too.

A candidate is known by its position among the files. That positions lead back to files, come in
increasing order and are as many as there are files that are no entry points is proved in
`Orphans.Proofs.Corpus`.
-/

namespace Orphans

/-- The source files of a run, and the positions of the candidates among them. -/
structure Corpus where
  /-- The source files in discovery order. -/
  files : List SourceFile
  /-- The positions of those that are no entry points. -/
  candidates : List Nat
deriving Repr, DecidableEq

namespace Corpus

/-- The corpus of some source files: the candidates are those that are no entry points. -/
def ofFiles (config : Config) (files : List SourceFile) : Corpus where
  files := files
  candidates := (files.zipIdx.filter fun (file, _) => !file.isImplicit config).map (·.2)

/-- The candidates themselves. -/
def candidateFiles (corpus : Corpus) : List SourceFile :=
  corpus.candidates.filterMap (corpus.files[·]?)

/-- The paths below a directory that are read as files: regular files, and links that do not lead to
a directory, even those that lead nowhere. -/
def pathsBelow (fs : FileSystem) (config : Config) (tree : FileTree) : List RawPath :=
  (tree.leaves config.prunes).filterMap fun leaf =>
    let path := config.root.below leaf.names
    if leaf.isLink && fs.leadsToDirectory path then none else some path

/-- The paths that a run looks at. A root that is a file stands for itself alone, and under a root
that leads nowhere there are none. -/
def paths (fs : FileSystem) (config : Config) : List RawPath :=
  match fs.stat? config.root with
  | none => []
  | some (.dir entries) => pathsBelow fs config (.dir entries)
  | some _ => [config.root]

/-- The corpus under the root of a configuration. -/
def collect (fs : FileSystem) (config : Config) : Corpus :=
  ofFiles config ((paths fs config).filterMap (SourceFile.ofPath? config))

end Corpus

end Orphans
