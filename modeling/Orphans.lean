import Orphans.FileTree.Change
import Orphans.Main
import Orphans.Proofs.KeyPattern
import Orphans.Proofs.LiteralIndex
import Orphans.Proofs.Corpus
import Orphans.Proofs.Analysis
import Orphans.Proofs.Agreement
import Orphans.FileTree.WellFormed
import Orphans.Proofs.Leaf
import Orphans.Proofs.Exactness
import Orphans.Proofs.Outline
import Orphans.Proofs.PathKey
import Orphans.Proofs.SelfExclusion
import Orphans.Proofs.Access
import Orphans.Proofs.IndexContents
import Orphans.Proofs.EntryPoints
import Orphans.Proofs.SourceRoot
import Orphans.Proofs.Scope
import Orphans.Proofs.Narrowing
import Orphans.Proofs.Discovery
import Orphans.Proofs.Resolution
import Orphans.Proofs.Reordering
import Orphans.Proofs.DiscoveryOrder
import Orphans.Proofs.Report
import Orphans.Proofs.Span
import Orphans.Proofs.Bytes
import Orphans.Proofs.Bounds
import Orphans.Proofs.Components
import Orphans.Proofs.Relocation
import Orphans.Proofs.Delimiters
import Orphans.Proofs.IndexQueries
import Orphans.Proofs.ReferencePattern
import Orphans.Proofs.Concatenation
import Orphans.Proofs.Spelling
import Orphans.Proofs.Utf8
import Orphans.Proofs.Keys
import Orphans.Proofs.ReportReader
import Orphans.Proofs.Configuration
import Orphans.Proofs.FirstLiteral
import Orphans.Proofs.QuotedKeys
import Orphans.Config.Change
import Orphans.Proofs.Changes
