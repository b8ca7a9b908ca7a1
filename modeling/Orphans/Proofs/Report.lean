import Mathlib
import Orphans.Report
import Orphans.Proofs.Analysis

/-!
# A report accounts for every candidate

`Report.ofAnalysis_accounts`: the counts of a report add up, and every candidate has one entry in
exactly one of its two lists. Both lists are in discovery order, so merging them in this order gives
back the candidates. No entry stands for an entry point, and the file that is reported to refer to a
candidate is another file than the candidate.

Two files may be shown in the same way, when their names are no UTF-8. What a report accounts for is
therefore said of the positions its entries stand for (`Analysis.unusedAt`, `Analysis.usedAt`), not
of the texts that are shown.

The two lists are made in different ways, one by a filter and one by a partial function. Both are
brought to one form first: the candidates with their positions (`Analysis.checked`), filtered by
whether they are in use. What is said of the two lists together is then a fact about filters by a
test and by its negation (`merge_filter_not_filter`).
-/

namespace Orphans

/-! ### Sublists by a test -/

/-- An ordered list is the merge of what passes a test and of what does not. No two entries may be
equal in the order, or the merge would not know which of them comes first. -/
theorem merge_filter_not_filter {α : Type} {le : α → α → Bool} (p : α → Bool) {l : List α}
    (ordered : l.Pairwise fun a b => le a b = true ∧ le b a = false) :
    (l.filter fun a => !p a).merge (l.filter p) le = l := by
  -- on the list: its first entry is before all others, whichever list it goes to
  induction l with
  | nil => simp
  | cons a l ih =>
    obtain ⟨before, ordered⟩ := List.pairwise_cons.mp ordered
    rcases hp : p a with _ | _
    · rw [List.filter_cons_of_pos (by rw [hp]; rfl), List.filter_cons_of_neg (by simp [hp])]
      conv_rhs => rw [← ih ordered]
      rcases hright : l.filter p with _ | ⟨b, right⟩
      · rw [List.merge_right, List.merge_right]
      · have hb : b ∈ l := List.mem_of_mem_filter (hright ▸ List.mem_cons_self)
        exact List.cons_merge_cons_pos le _ _ (before b hb).1
    · rw [List.filter_cons_of_neg (by simp [hp]), List.filter_cons_of_pos hp]
      conv_rhs => rw [← ih ordered]
      rcases hleft : l.filter fun a => !p a with _ | ⟨b, left⟩
      · rw [List.nil_merge, List.nil_merge]
      · have hb : b ∈ l := List.mem_of_mem_filter (hleft ▸ List.mem_cons_self)
        exact List.cons_merge_cons_neg le _ _ (by rw [(before b hb).2]; exact Bool.false_ne_true)

/-- What a partial function makes of a list corresponds to the entries at which it is defined. -/
theorem forall₂_filter_filterMap {α β : Type} {R : α → β → Prop} {p : α → Bool} {f : α → Option β}
    {l : List α} (defined : ∀ a ∈ l, p a = (f a).isSome)
    (related : ∀ a ∈ l, ∀ b, f a = some b → R a b) :
    List.Forall₂ R (l.filter p) (l.filterMap f) := by
  induction l with
  | nil => exact .nil
  | cons a l ih =>
    have rest := ih (fun x hx => defined x (List.mem_cons_of_mem a hx))
      (fun x hx => related x (List.mem_cons_of_mem a hx))
    have ha := defined a List.mem_cons_self
    rcases hf : f a with _ | b
    · rw [List.filterMap_cons_none hf, List.filter_cons_of_neg (by simp [ha, hf])]
      exact rest
    · rw [List.filterMap_cons_some hf, List.filter_cons_of_pos (by simp [ha, hf])]
      exact .cons (related a List.mem_cons_self b hf) rest

/-! ### Accounting -/

namespace Analysis

/-- Whether an analysis found a reference to the candidate at a position. -/
def usesAt (analysis : Analysis) (position : Nat) : Bool :=
  (analysis.usageAt? position).any (·.isUsed)

/-- The positions of the candidates that are not in use. -/
def unusedAt (analysis : Analysis) : List Nat :=
  analysis.corpus.candidates.filter fun position => !analysis.usesAt position

/-- The positions of the candidates in use. -/
def usedAt (analysis : Analysis) : List Nat :=
  analysis.corpus.candidates.filter analysis.usesAt

end Analysis

namespace Corpus

/-- A text is the shown path of the file at a position, and the file is no entry point. One text may
show several files, so a position is told and not only a text. -/
def ShowsCandidate (config : Config) (corpus : Corpus) (position : Nat) (shown : Text) : Prop :=
  ∃ file, corpus.files[position]? = some file ∧ file.fileName ∉ config.implicitFiles ∧
    shown = file.path.display

/-- A text is the shown path of another file than the one at a position. -/
def ShowsOther (corpus : Corpus) (position : Nat) (shown : Text) : Prop :=
  ∃ found file other, found ≠ position ∧ corpus.files[position]? = some file ∧
    corpus.files[found]? = some other ∧ other.path ≠ file.path ∧ shown = other.path.display

end Corpus

/-- A report accounts for the candidates of an analysis under a configuration. -/
structure Report.Accounts (config : Config) (analysis : Analysis) (report : Report) : Prop where
  /-- The counts are those of the corpus. -/
  corpusFiles_eq : report.summary.corpusFiles = analysis.corpus.files.length
  /-- The candidates are those that are checked. -/
  checkedFiles_eq : report.summary.checkedFiles = analysis.corpus.candidates.length
  /-- There are no more of them than files. -/
  checkedFiles_le : report.summary.checkedFiles ≤ report.summary.corpusFiles
  /-- Every file is a candidate or an entry point. -/
  corpusFiles_eq_add : report.summary.corpusFiles =
    report.summary.checkedFiles + report.summary.implicitEntryPoints
  /-- The others are those with the name of an entry point. -/
  implicitEntryPoints_eq : report.summary.implicitEntryPoints =
    analysis.corpus.files.countP (·.isImplicit config)
  /-- The unused files are counted as they are listed. -/
  unusedFilesCount_eq : report.summary.unusedFilesCount = report.unusedFiles.length
  /-- Every candidate has one entry. -/
  length_add : report.unusedFiles.length + report.usedFiles.length = report.summary.checkedFiles
  /-- The candidates are the positions in exactly one of the two lists. -/
  mem_candidates_iff : ∀ position, position ∈ analysis.corpus.candidates ↔
    Xor (position ∈ analysis.unusedAt) (position ∈ analysis.usedAt)
  /-- Both lists are in discovery order. -/
  unusedAt_increasing : analysis.unusedAt.Pairwise (· < ·)
  /-- The candidates in use come in discovery order. -/
  usedAt_increasing : analysis.usedAt.Pairwise (· < ·)
  /-- Entry by entry, the lists show the files at these positions. -/
  unusedFiles : List.Forall₂ (analysis.corpus.ShowsCandidate config) analysis.unusedAt
    report.unusedFiles
  /-- So do the entries of the used files. -/
  usedFiles : List.Forall₂ (analysis.corpus.ShowsCandidate config) analysis.usedAt
    (report.usedFiles.map (·.file))
  /-- Each used file is said to be referred to by another file than itself. -/
  referencedBy : List.Forall₂ analysis.corpus.ShowsOther analysis.usedAt
    (report.usedFiles.map (·.referencedBy))
  /-- Merged in discovery order, both lists together show the candidates. -/
  merge_eq : (analysis.unusedAt.zip report.unusedFiles).merge
      (analysis.usedAt.zip (report.usedFiles.map (·.file))) (fun a b => decide (a.1 ≤ b.1)) =
    analysis.corpus.candidates.zip (analysis.corpus.candidateFiles.map (·.path.display))

namespace Analysis

variable {fs : FileSystem} {config : Config}

/-! ### The candidates of a run, used and unused -/

/-- Every candidate is in use or not, and not both. -/
theorem mem_candidates_iff_xor (analysis : Analysis) (position : Nat) :
    position ∈ analysis.corpus.candidates ↔
      Xor (position ∈ analysis.unusedAt) (position ∈ analysis.usedAt) := by
  unfold unusedAt usedAt
  rw [List.mem_filter, List.mem_filter]
  cases analysis.usesAt position <;> simp [Xor]

/-- The candidates of a run with their positions. Both lists of a report are made of these, in their
order. -/
def checked (fs : FileSystem) (config : Config) : List (SourceFile × Nat) :=
  (Corpus.collect fs config).files.zipIdx.filter fun x => !x.1.isImplicit config

/-- The usage of a candidate of a run. -/
def usageIn (fs : FileSystem) (config : Config) (x : SourceFile × Nat) : Usage :=
  usageOf fs config.strategy (Corpus.collect fs config) x.2 x.1

/-- The candidates are the positions of what is checked. -/
theorem candidates_eq_map_checked (fs : FileSystem) (config : Config) :
    (Corpus.collect fs config).candidates = (checked fs config).map (·.2) :=
  rfl

/-- What is checked are the files that are no entry points, each with its position. -/
theorem mem_checked_iff {x : SourceFile × Nat} :
    x ∈ checked fs config ↔
      (Corpus.collect fs config).files[x.2]? = some x.1 ∧ x.1.isImplicit config = false := by
  simp [checked, List.mem_zipIdx_iff_getElem?]

/-- The candidate files are the files of what is checked. -/
theorem candidateFiles_eq_map_checked (fs : FileSystem) (config : Config) :
    (Corpus.collect fs config).candidateFiles = (checked fs config).map (·.1) := by
  rw [Corpus.candidateFiles, candidates_eq_map_checked, List.filterMap_map,
    List.filterMap_eq_map_iff_forall_eq_some]
  intro x hx
  exact (mem_checked_iff.mp hx).1

/-- Whether a candidate is in use is told by its usage. -/
theorem usesAt_run {x : SourceFile × Nat} (hx : x ∈ checked fs config) :
    (run fs config).usesAt x.2 = (usageIn fs config x).isUsed := by
  have hcandidate : x.2 ∈ (Corpus.collect fs config).candidates := List.mem_map_of_mem hx
  rw [usesAt, usageAt?_run hcandidate (mem_checked_iff.mp hx).1]
  rfl

/-- The candidates that are picked by whether they are in use. -/
theorem filter_usesAt_run (fs : FileSystem) (config : Config) (pick : Bool → Bool) :
    ((Corpus.collect fs config).candidates.filter fun position =>
        pick ((run fs config).usesAt position)) =
      ((checked fs config).filter fun x => pick (usageIn fs config x).isUsed).map (·.2) := by
  rw [candidates_eq_map_checked, List.filter_map]
  congr 1
  apply List.filter_congr
  intro x hx
  exact congrArg pick (usesAt_run hx)

/-- The unused candidates, as a filter on what is checked. -/
theorem unusedAt_run (fs : FileSystem) (config : Config) :
    (run fs config).unusedAt =
      ((checked fs config).filter fun x => !(usageIn fs config x).isUsed).map (·.2) :=
  filter_usesAt_run fs config (!·)

/-- The candidates in use, as the opposite filter. -/
theorem usedAt_run (fs : FileSystem) (config : Config) :
    (run fs config).usedAt =
      ((checked fs config).filter fun x => (usageIn fs config x).isUsed).map (·.2) :=
  filter_usesAt_run fs config id

/-! ### The lists of the report -/

/-- The unused files of the report are shown by the same filter. -/
theorem unusedFiles_ofAnalysis_run (fs : FileSystem) (config : Config) :
    (Report.ofAnalysis config (run fs config)).unusedFiles =
      ((checked fs config).filter fun x => !(usageIn fs config x).isUsed).map
        (·.1.path.display) := by
  have unused : (Report.ofAnalysis config (run fs config)).unusedFiles =
      ((run fs config).usages.filter fun usage => !usage.isUsed).map (·.file.display) :=
    List.map_map
  rw [unused, usages_run, List.filter_map, List.map_map]
  rfl

/-- The entry of a candidate in use shows the candidate and another file. -/
theorem forall₂_usedFiles (wellFormed : fs.top.WellFormed) :
    List.Forall₂ (fun x (used : UsedFile) => used.file = x.1.path.display ∧
        (Corpus.collect fs config).ShowsOther x.2 used.referencedBy)
      ((checked fs config).filter fun x => (usageIn fs config x).isUsed)
      (Report.ofAnalysis config (run fs config)).usedFiles := by
  have usedFiles : (Report.ofAnalysis config (run fs config)).usedFiles =
      (checked fs config).filterMap fun x => Report.usedFile? (usageIn fs config x) :=
    (congrArg _ (usages_run fs config)).trans List.filterMap_map
  rw [usedFiles]
  -- an entry is made exactly for the candidates in use, and from the reference of each
  apply forall₂_filter_filterMap
  · intro x _
    exact Option.isSome_map.symm
  · intro x hx used hused
    obtain ⟨reference, hreference, rfl⟩ := Option.map_eq_some_iff.mp hused
    obtain ⟨found, other, -, hleast, hother, -, hpath, -⟩ :=
      referencedBy_eq_some_iff.mp hreference
    have hfile := (mem_checked_iff.mp hx).1
    refine ⟨rfl, found, x.1, other, hleast.1.1, hfile, hother, ?_,
      congrArg RawPath.display hpath⟩
    exact Corpus.path_ne_of_ne wellFormed hleast.1.1 hother hfile

/-- So are its used files. -/
theorem map_file_usedFiles (wellFormed : fs.top.WellFormed) :
    (Report.ofAnalysis config (run fs config)).usedFiles.map (·.file) =
      ((checked fs config).filter fun x => (usageIn fs config x).isUsed).map
        (·.1.path.display) := by
  rw [eq_comm, ← List.forall₂_eq_eq_eq, List.forall₂_map_left_iff, List.forall₂_map_right_iff]
  exact (forall₂_usedFiles wellFormed).imp fun _ _ h => h.1.symm

/-- A part of the candidates is shown as such. -/
theorem forall₂_showsCandidate {part : List (SourceFile × Nat)}
    (h : ∀ x ∈ part, x ∈ checked fs config) :
    List.Forall₂ ((Corpus.collect fs config).ShowsCandidate config) (part.map (·.2))
      (part.map (·.1.path.display)) := by
  rw [List.forall₂_map_left_iff, List.forall₂_map_right_iff, List.forall₂_same]
  intro x hx
  obtain ⟨hfile, notImplicit⟩ := mem_checked_iff.mp (h x hx)
  refine ⟨x.1, hfile, ?_, rfl⟩
  rw [SourceFile.isImplicit, ← Bool.not_eq_true, Std.ExtTreeSet.contains_iff_mem] at notImplicit
  exact notImplicit

/-- The two lists have as many entries as there are candidates. -/
theorem length_unusedFiles_add (wellFormed : fs.top.WellFormed) :
    (Report.ofAnalysis config (run fs config)).unusedFiles.length +
        (Report.ofAnalysis config (run fs config)).usedFiles.length =
      (Corpus.collect fs config).candidates.length := by
  have used : (Report.ofAnalysis config (run fs config)).usedFiles.length =
      ((checked fs config).filter fun x => (usageIn fs config x).isUsed).length :=
    (forall₂_usedFiles wellFormed).length_eq.symm
  rw [unusedFiles_ofAnalysis_run, used, candidates_eq_map_checked, List.length_map,
    List.length_map, Nat.add_comm]
  exact (List.length_eq_length_filter_add _).symm

/-- The candidates are ordered by their positions. -/
theorem checked_ordered (fs : FileSystem) (config : Config) :
    (checked fs config).Pairwise fun a b =>
      decide (a.2 ≤ b.2) = true ∧ decide (b.2 ≤ a.2) = false := by
  refine (List.pairwise_map.mp (Corpus.pairwise_lt_candidates fs config)).imp ?_
  intro a b h
  exact ⟨decide_eq_true (Nat.le_of_lt h), decide_eq_false (Nat.not_le.mpr h)⟩

/-- Merged by their positions, the entries of both lists show the candidates in discovery order. -/
theorem merge_ofAnalysis_run (wellFormed : fs.top.WellFormed) :
    ((run fs config).unusedAt.zip (Report.ofAnalysis config (run fs config)).unusedFiles).merge
        ((run fs config).usedAt.zip
          ((Report.ofAnalysis config (run fs config)).usedFiles.map (·.file)))
        (fun a b => decide (a.1 ≤ b.1)) =
      (Corpus.collect fs config).candidates.zip
        ((Corpus.collect fs config).candidateFiles.map (·.path.display)) := by
  rw [unusedAt_run, usedAt_run, unusedFiles_ofAnalysis_run, map_file_usedFiles wellFormed,
    candidates_eq_map_checked, candidateFiles_eq_map_checked, List.map_map, List.zip_map',
    List.zip_map', List.zip_map']
  -- what is merged are images of the two filters, with the position in the image
  have merged := merge_filter_not_filter (fun x => (usageIn fs config x).isUsed)
    (checked_ordered fs config)
  conv_rhs => rw [← merged]
  exact (List.map_merge (f := fun x : SourceFile × Nat => (x.2, x.1.path.display))
    fun _ _ _ _ => rfl).symm

end Analysis

/-! ### The report of a run -/

namespace Report

/-- **Accounting**: the report of a run on a well-formed tree accounts for its candidates.  Two
files with different paths may be shown in the same way, if their paths are no texts. So what is
said of the lists is said entry by entry, by the positions behind them, and not by the texts that
they hold. -/
theorem ofAnalysis_accounts (fs : FileSystem) (config : Config) (wellFormed : fs.top.WellFormed) :
    (ofAnalysis config (Analysis.run fs config)).Accounts config (Analysis.run fs config) := by
  have count : (Corpus.collect fs config).candidates.length +
      (Corpus.collect fs config).files.countP (·.isImplicit config) =
        (Corpus.collect fs config).files.length := Corpus.length_candidates_add_countP config _
  -- so the subtraction in the count of entry points takes away no more than there is
  have checkedFiles_le : (Corpus.collect fs config).candidates.length ≤
      (Corpus.collect fs config).files.length := by omega
  have increasing := Corpus.pairwise_lt_candidates fs config
  exact {
    corpusFiles_eq := rfl
    checkedFiles_eq := rfl
    checkedFiles_le := checkedFiles_le
    corpusFiles_eq_add := (Nat.add_sub_of_le checkedFiles_le).symm
    implicitEntryPoints_eq := Nat.sub_eq_of_eq_add' count.symm
    unusedFilesCount_eq := rfl
    length_add := Analysis.length_unusedFiles_add wellFormed
    mem_candidates_iff := Analysis.mem_candidates_iff_xor _
    unusedAt_increasing := increasing.filter _
    usedAt_increasing := increasing.filter _
    unusedFiles := by
      rw [Analysis.unusedAt_run, Analysis.unusedFiles_ofAnalysis_run]
      exact Analysis.forall₂_showsCandidate fun _ => List.mem_of_mem_filter
    usedFiles := by
      rw [Analysis.usedAt_run, Analysis.map_file_usedFiles wellFormed]
      exact Analysis.forall₂_showsCandidate fun _ => List.mem_of_mem_filter
    referencedBy := by
      rw [Analysis.usedAt_run, List.forall₂_map_left_iff, List.forall₂_map_right_iff]
      exact (Analysis.forall₂_usedFiles wellFormed).imp fun _ _ h => h.2
    merge_eq := Analysis.merge_ofAnalysis_run wellFormed
  }

/-- A page, a part that it imports, and two files whose names are different bytes beyond ASCII. -/
def twinsProject : FileSystem where
  top := .dir [(Utf8.encode "site".toList, .dir [
    (Utf8.encode "page.tsx".toList, .file (Utf8.encode "import './nav'".toList)),
    (Utf8.encode "nav.tsx".toList, .file []),
    (0xFF :: Utf8.encode ".ts".toList, .file []),
    (0xFE :: Utf8.encode ".ts".toList, .file [])])]
  workingDir := []

/-- Two unused files are shown in the same way, and each has its entry. -/
theorem ofAnalysis_accounts_twins :
    let config := Config.ofRoot (.ofText "/site".toList)
    twinsProject.top.WellFormed ∧
      (ofAnalysis config (Analysis.run twinsProject config)).Accounts config
        (Analysis.run twinsProject config) ∧
      (Analysis.run twinsProject config).unusedAt = [2, 3] ∧
      (Analysis.run twinsProject config).usedAt = [0] ∧
      (ofAnalysis config (Analysis.run twinsProject config)).summary = ⟨4, 3, 1, 2⟩ ∧
      (ofAnalysis config (Analysis.run twinsProject config)).unusedFiles =
        ["/site/\uFFFD.ts".toList, "/site/\uFFFD.ts".toList] ∧
      (ofAnalysis config (Analysis.run twinsProject config)).usedFiles =
        [⟨"/site/nav.tsx".toList, "/site/page.tsx".toList, .name⟩] := by
  intro config
  have wellFormed : twinsProject.top.WellFormed := by decide
  refine ⟨wellFormed, ofAnalysis_accounts twinsProject config wellFormed, ?_, ?_, ?_, ?_, ?_⟩
  all_goals cbv

end Report

end Orphans
