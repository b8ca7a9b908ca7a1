import Orphans.Usage
import Orphans.Proofs.Corpus
import Orphans.Proofs.LiteralIndex

/-!
# Both strategies are one search

`Usage.byStrategy_eq`: each strategy finds what `firstReference?` finds, a search through the texts
from the front for one candidate at a time. The strategies differ only in what they make of the text
at which the search stops (`viaIn?`): the index never finds the empty path key.

The search is told in three lemmas:

* `firstReference?_eq_some_iff` says what it finds: the least position, apart from the candidate's,
  at which a text refers to the name key.
* `isSome_firstReference?_iff` says whether it finds anything.
* `firstReference?_congr` says that it never looks at the text of the candidate.

For the scan the search is the definition, once its reading of a text is known to be `viaIn? .scan`
(`via?_ofFile`). The index asks for the least position in a set instead. That this is the same
(`indexReference?_eq`) rests on what a built index answers (`LiteralIndex.fileMatches_build`), which
is what the texts answer for all keys of candidates but the empty one.
-/

namespace Orphans

/-! ### The search through the texts -/

namespace Usage

/-- The reference to the candidate in a file at a position, where `via?` says of every text whether
it refers to the candidate and by which key. The candidate itself is left out by its position. -/
def referenceIn? (candidate : Nat) (via? : Text → Option Via) (entry : SourceFile × Option Text)
    (position : Nat) : Option Reference :=
  if position = candidate then none
  else (entry.2.bind via?).map fun via => ⟨entry.1.path, via⟩

/-- The first reference to the candidate at a position. -/
def firstReference? (files : List SourceFile) (texts : List (Option Text)) (candidate : Nat)
    (via? : Text → Option Via) : Option Reference :=
  (files.zip texts).zipIdx.findSome? fun x => referenceIn? candidate via? x.1 x.2

section search

variable {files : List SourceFile} {texts : List (Option Text)} {candidate : Nat} {key : Text}
  {via? : Text → Option Via}

/-- One step of the search: an entry stops it exactly when it is not the candidate's own, has a
text, and `via?` makes something of this text. The reference then names the file of the entry and
what `via?` said. -/
theorem referenceIn?_eq_some_iff {file : SourceFile} {entry : Option Text} {i : Nat}
    {reference : Reference} :
    referenceIn? candidate via? (file, entry) i = some reference ↔
      i ≠ candidate ∧ ∃ text, entry = some text ∧ reference.file = file.path ∧
        via? text = some reference.via := by
  unfold referenceIn?
  by_cases h : i = candidate
  · simp [h]
  · rw [if_neg h, Option.map_eq_some_iff]
    constructor
    · rintro ⟨via, hvia, rfl⟩
      obtain ⟨text, htext, hvia⟩ := Option.bind_eq_some_iff.mp hvia
      exact ⟨h, text, htext, rfl, hvia⟩
    · rintro ⟨-, text, rfl, hfile, hvia⟩
      exact ⟨reference.via, hvia, by rw [← hfile]⟩

/-- The search goes past an entry exactly when it is the candidate's own, or has no text that refers
to the key. An entry without a text refers to nothing. -/
theorem referenceIn?_eq_none_iff
    (hvia : ∀ text, (via? text).isSome = true ↔ KeyPattern.Refers text key)
    {file : SourceFile} {entry : Option Text} {i : Nat} :
    referenceIn? candidate via? (file, entry) i = none ↔
      i = candidate ∨ ∀ text, entry = some text → ¬ KeyPattern.Refers text key := by
  unfold referenceIn?
  by_cases h : i = candidate
  · simp [h]
  · rw [if_neg h, Option.map_eq_none_iff, Option.bind_eq_none_iff]
    simp only [h, false_or, ← hvia, Option.isSome_iff_ne_none, not_not]

/-- The search stops at the least position, apart from the candidate's, whose text refers to the
key, and reports the file there. -/
theorem firstReference?_eq_some_iff (length_eq : files.length = texts.length)
    (hvia : ∀ text, (via? text).isSome = true ↔ KeyPattern.Refers text key)
    {reference : Reference} :
    firstReference? files texts candidate via? = some reference ↔
      ∃ found file text, IsLeast {i | i ≠ candidate ∧ RefersAt texts key i} found ∧
        files[found]? = some file ∧ texts[found]? = some (some text) ∧
        reference.file = file.path ∧ via? text = some reference.via := by
  unfold firstReference?
  rw [findSome?_zipIdx_eq_some_iff]
  simp only [Nat.zero_add, Prod.forall, Prod.exists, List.getElem?_zip_eq_some,
    referenceIn?_eq_some_iff, referenceIn?_eq_none_iff hvia]
  -- the two readings of a hit: as what `findSome?` stops at, and as a least position
  constructor
  · rintro ⟨found, file, _, ⟨hfile, htext⟩, ⟨hne, text, rfl, hpath, hfound⟩, before⟩
    have refers : KeyPattern.Refers text key := (hvia text).mp (Option.isSome_of_eq_some hfound)
    refine ⟨found, file, text, ⟨⟨hne, text, htext, refers⟩, ?_⟩, hfile, htext, hpath, hfound⟩
    -- a smaller position would have stopped the search
    rintro i ⟨hi, other, hother, refers⟩
    by_contra! hlt
    obtain ⟨file', hfile'⟩ := exists_getElem?_of_length_eq length_eq hother
    rcases before i hlt file' (some other) ⟨hfile', hother⟩ with h | h
    · exact hi h
    · exact h other rfl refers
  · rintro ⟨found, file, text, ⟨⟨hne, -⟩, least⟩, hfile, htext, hpath, hfound⟩
    refine ⟨found, file, some text, ⟨hfile, htext⟩, ⟨hne, text, rfl, hpath, hfound⟩, ?_⟩
    rintro i hi _ _ ⟨-, hother⟩
    by_cases h : i = candidate
    · exact .inl h
    · right
      -- an entry before the least position that referred to the key would be a smaller one
      intro other e refers
      subst e
      have hle : found ≤ i := least ⟨h, other, hother, refers⟩
      omega

/-- The search finds something exactly when some text refers to the key, apart from the
candidate's. -/
theorem isSome_firstReference?_iff (length_eq : files.length = texts.length)
    (hvia : ∀ text, (via? text).isSome = true ↔ KeyPattern.Refers text key) :
    (firstReference? files texts candidate via?).isSome = true ↔
      ∃ i, i ≠ candidate ∧ RefersAt texts key i := by
  constructor
  · intro hsome
    obtain ⟨reference, hreference⟩ := Option.isSome_iff_exists.mp hsome
    obtain ⟨found, -, -, ⟨hfound, -⟩, -⟩ :=
      (firstReference?_eq_some_iff length_eq hvia).mp hreference
    exact ⟨found, hfound⟩
  · rintro ⟨i, hi, text, htext, refers⟩
    by_contra hnone
    -- a search without a hit went past every entry, so past the one that refers to the key
    rw [Bool.not_eq_true, Option.isSome_eq_false_iff, Option.isNone_iff_eq_none, firstReference?,
      List.findSome?_eq_none_iff] at hnone
    obtain ⟨file, hfile⟩ := exists_getElem?_of_length_eq length_eq htext
    have entry : ((file, some text), i) ∈ (files.zip texts).zipIdx := by
      rw [List.mk_mem_zipIdx_iff_getElem?, List.getElem?_zip_eq_some]
      exact ⟨hfile, htext⟩
    rcases (referenceIn?_eq_none_iff hvia).mp (hnone _ entry) with h | h
    · exact hi h
    · exact h text rfl refers

/-- What the search finds depends on the texts of the other files only. The text of the candidate
itself may be anything, or be missing. -/
theorem firstReference?_congr {texts' : List (Option Text)}
    (length_eq : files.length = texts.length) (length_eq' : files.length = texts'.length)
    (hvia : ∀ text, (via? text).isSome = true ↔ KeyPattern.Refers text key)
    (same : ∀ i, i ≠ candidate → texts[i]? = texts'[i]?) :
    firstReference? files texts candidate via? = firstReference? files texts' candidate via? := by
  -- the search is told by a set of positions, so it is enough that the two sets are one
  have refersAt : {i | i ≠ candidate ∧ RefersAt texts key i} =
      {i | i ≠ candidate ∧ RefersAt texts' key i} := by
    ext i
    apply and_congr_right
    intro hi
    unfold RefersAt
    rw [same i hi]
  ext reference
  rw [firstReference?_eq_some_iff length_eq hvia, firstReference?_eq_some_iff length_eq' hvia,
    refersAt]
  constructor
  · rintro ⟨found, file, text, least, hfile, htext, h⟩
    exact ⟨found, file, text, least, hfile, by rw [← same found least.1.1, htext], h⟩
  · rintro ⟨found, file, text, least, hfile, htext, h⟩
    exact ⟨found, file, text, least, hfile, by rw [same found least.1.1, htext], h⟩

end search

/-! ### What the strategies make of a text -/

/-- Whether a text that refers to the name key of a file counts as a reference by its path key. The
index leaves the empty path key out. -/
def ReadsAsPath (strategy : Strategy) (target : SourceFile) (text : Text) : Prop :=
  target.pathKey ≠ target.nameKey ∧ (strategy = .index → target.pathKey ≠ []) ∧
    KeyPattern.Refers text target.pathKey

instance (strategy : Strategy) (target : SourceFile) (text : Text) :
    Decidable (ReadsAsPath strategy target text) :=
  inferInstanceAs (Decidable (_ ∧ (_ → _) ∧ _))

/-- Whether a text refers to a file, and by which key. Neither strategy computes this; it is the
question that both answer, each in its own way. -/
def viaIn? (strategy : Strategy) (target : SourceFile) (text : Text) : Option Via :=
  if KeyPattern.Refers text target.nameKey then
    some (if ReadsAsPath strategy target text then .path else .name)
  else none

/-- Whether a text refers to a file at all is decided by the name key alone, whatever the strategy.
This is what lets the two strategies share one search. -/
theorem isSome_viaIn? (strategy : Strategy) (target : SourceFile) (text : Text) :
    (viaIn? strategy target text).isSome = true ↔ KeyPattern.Refers text target.nameKey := by
  unfold viaIn?
  split_ifs with h <;> simp [h]

/-- A text is read as a reference to a file exactly when it refers to the name key, and then the
path key only says how the reference was recognised. -/
theorem viaIn?_eq_some_iff {strategy : Strategy} {target : SourceFile} {text : Text} {via : Via} :
    viaIn? strategy target text = some via ↔
      KeyPattern.Refers text target.nameKey ∧
        via = if ReadsAsPath strategy target text then .path else .name := by
  unfold viaIn?
  by_cases h : KeyPattern.Refers text target.nameKey
  · rw [if_pos h, Option.some_inj, eq_comm]
    exact (and_iff_right h).symm
  · simp [h]

/-- The search by scanning reads texts in this way. A file whose two keys are the same is never said
to be referred to by its path key. -/
theorem via?_ofFile (target : SourceFile) :
    (KeyPatterns.ofFile target).via? = viaIn? .scan target := by
  funext text
  have hname : (KeyPatterns.ofFile target).name.matchesText text = true ↔
      KeyPattern.Refers text target.nameKey := KeyPattern.matchesText_ofKey
  have hpath : (KeyPatterns.ofFile target).path.any (·.matchesText text) = true ↔
      ReadsAsPath .scan target text := by
    unfold KeyPatterns.ofFile ReadsAsPath
    -- a file whose two keys are the same has no pattern for the path key
    by_cases h : target.pathKey = target.nameKey
    · simp [h]
    · simp [h, KeyPattern.matchesText_ofKey]
  unfold KeyPatterns.via? viaIn?
  simp only [hname, hpath]

/-- The scan is the search, with texts read as the scan reads them. -/
theorem scanReference?_eq (files : List SourceFile) (texts : List (Option Text)) (candidate : Nat)
    (target : SourceFile) :
    scanReference? files texts candidate (.ofFile target) =
      firstReference? files texts candidate (viaIn? .scan target) := by
  rw [← via?_ofFile]
  rfl

/-! ### What the index answers -/

section index

variable {corpus : Corpus} {texts : List (Option Text)} {candidate : Nat} {target : SourceFile}

/-- For a name key the index knows all the texts that refer to it. -/
theorem fileMatches_nameKey (htarget : target ∈ corpus.candidateFiles)
    (nonempty : target.nameKey ≠ []) {i : Nat} :
    (LiteralIndex.build corpus texts).fileMatches (.ofKey target.nameKey) i = true ↔
      RefersAt texts target.nameKey i := by
  rw [LiteralIndex.fileMatches_build]
  apply and_iff_right
  intro safe
  exact ⟨nonempty, LiteralIndex.mem_lookupKeys.mpr ⟨⟨target, htarget, .inl rfl⟩, safe⟩⟩

/-- For a path key the index knows all the texts that refer to it, unless the key is empty. Here the
two strategies part. -/
theorem fileMatches_pathKey (htarget : target ∈ corpus.candidateFiles) {i : Nat} :
    (LiteralIndex.build corpus texts).fileMatches (.ofKey target.pathKey) i = true ↔
      target.pathKey ≠ [] ∧ RefersAt texts target.pathKey i := by
  rw [LiteralIndex.fileMatches_build]
  apply and_congr_left
  intro _
  constructor
  · -- an empty key is path-safe, so the index would have to know it, and it knows no empty key
    intro h empty
    have safe : isPathSafeKey target.pathKey = true := by
      rw [empty]
      rfl
    exact (h safe).1 empty
  · intro nonempty safe
    exact ⟨nonempty, LiteralIndex.mem_lookupKeys.mpr ⟨⟨target, htarget, .inr rfl⟩, safe⟩⟩

/-- Where the index has stopped it decides by which key a text refers to the candidate, and it
decides as `ReadsAsPath` does for the index: only there the empty path key makes a difference. -/
theorem any_fileMatches_iff (htarget : target ∈ corpus.candidateFiles) {i : Nat} {text : Text}
    (htext : texts[i]? = some (some text)) :
    (KeyPatterns.ofFile target).path.any ((LiteralIndex.build corpus texts).fileMatches · i) =
        true ↔
      ReadsAsPath .index target text := by
  have refersAt : RefersAt texts target.pathKey i ↔ KeyPattern.Refers text target.pathKey := by
    unfold RefersAt
    rw [htext]
    simp
  unfold KeyPatterns.ofFile ReadsAsPath
  by_cases h : target.pathKey = target.nameKey
  · simp [h]
  · simp [h, fileMatches_pathKey htarget, refersAt]

/-- The index stops where the search through the texts stops. Neither looks at the candidate itself,
and both take the first file that refers to the name key and ask it for the path key. -/
theorem indexReference?_eq (length_eq : corpus.files.length = texts.length)
    (htarget : target ∈ corpus.candidateFiles) (nonempty : target.nameKey ≠ []) :
    indexReference? corpus.files (LiteralIndex.build corpus texts) candidate (.ofFile target) =
      firstReference? corpus.files texts candidate (viaIn? .index target) := by
  ext reference
  rw [firstReference?_eq_some_iff length_eq (isSome_viaIn? .index target)]
  unfold indexReference?
  simp only [Option.bind_eq_bind, Option.bind_eq_some_iff, LiteralIndex.firstMatch?_eq_some_iff]
  have hname : (KeyPatterns.ofFile target).name = .ofKey target.nameKey := rfl
  -- the first file of the index is the first that refers to the name key, on both sides
  simp only [hname, fileMatches_nameKey htarget nonempty]
  constructor
  · rintro ⟨found, hleast, file, hfile, hreference⟩
    obtain ⟨-, text, htext, refers⟩ := hleast.1
    cases hreference
    refine ⟨found, file, text, hleast, hfile, htext, rfl, viaIn?_eq_some_iff.mpr ⟨refers, ?_⟩⟩
    simp only [any_fileMatches_iff htarget htext]
  · rintro ⟨found, file, text, hleast, hfile, htext, hpath, hvia⟩
    refine ⟨found, hleast, file, hfile, ?_⟩
    simp only [any_fileMatches_iff htarget htext]
    rw [← (viaIn?_eq_some_iff.mp hvia).2, ← hpath]
    rfl

end index

/-! ### The usages -/

/-- The usage of the file at a position. -/
def usageOf (strategy : Strategy) (corpus : Corpus) (texts : List (Option Text)) (candidate : Nat)
    (target : SourceFile) : Usage :=
  ⟨target.path, firstReference? corpus.files texts candidate (viaIn? strategy target)⟩

/-- Each strategy finds the usages that the search through the texts finds. From here on no proof
has to know how either of them works. -/
theorem byStrategy_eq {corpus : Corpus} {texts : List (Option Text)} (strategy : Strategy)
    (length_eq : corpus.files.length = texts.length)
    (nonempty : ∀ target ∈ corpus.candidateFiles, target.nameKey ≠ []) :
    byStrategy strategy corpus texts = corpus.candidates.filterMap fun candidate =>
      corpus.files[candidate]?.map (usageOf strategy corpus texts candidate) := by
  -- the two strategies run over the same candidates, so it is enough to compare one candidate
  rcases strategy with _ | _
  · apply List.filterMap_congr
    intro candidate hcandidate
    apply Option.map_congr
    intro target htarget
    have hmem := Corpus.mem_candidateFiles hcandidate htarget
    unfold usageOf
    rw [indexReference?_eq length_eq hmem (nonempty target hmem)]
  · apply List.filterMap_congr
    intro candidate _
    apply Option.map_congr
    intro target _
    unfold usageOf
    rw [scanReference?_eq]

end Usage

end Orphans
