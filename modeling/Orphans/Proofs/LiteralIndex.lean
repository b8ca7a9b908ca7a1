import Orphans.LiteralIndex
import Orphans.Proofs.KeyPattern
import Orphans.Proofs.Position

/-!
# What the index holds and answers

`LiteralIndex.mem_positions_build`: after all texts have been noted, a position stands under a key
exactly when the key is one of the non-empty keys to look up and some literal of the text at that
position ends with it. That only the last symbols of a literal are looked at costs nothing, because
no key is longer than the longest one (`mem_keysEnding`).

The index is made by four loops inside one another, over texts, literals, ends and the map. Each
loop has a lemma that says what is in the map afterwards, in terms of what was in it before:
`mem_positions_note`, `mem_positions_foldl_note`, `mem_positions_foldl_literals`,
`mem_positions_addText` and `mem_positions_foldl_addText`. All have the same form, a new position or
an old one, so each is proved from the one before it by an induction over its own list.

From this follow the answers for a key: `fileMatches_build` says where it is found, and
`firstMatch?_eq_some_iff` that the first match is the least such position. The latter holds of any
index, as a set of positions is kept in increasing order.
-/

namespace Orphans

/-- The text at a position is there and refers to `key`. A position without a text refers to
nothing. -/
def RefersAt (texts : List (Option Text)) (key : Text) (position : Nat) : Prop :=
  ∃ text, texts[position]? = some (some text) ∧ KeyPattern.Refers text key

namespace LiteralIndex

/-! ### The keys that a literal ends with -/

/-- The keys to look up are the path-safe ones among the name keys and path keys of the candidates.
The empty key may be among them; it is left out later, by `nonemptyEnds`. -/
theorem mem_lookupKeys {corpus : Corpus} {key : Text} :
    key ∈ lookupKeys corpus ↔
      (∃ file ∈ corpus.candidateFiles, key = file.nameKey ∨ key = file.pathKey) ∧
        isPathSafeKey key = true := by
  simp [lookupKeys, Std.ExtTreeSet.mem_ofList]

/-- The ends of a text are its non-empty suffixes. The empty one is left out on purpose, and so the
empty key is never noted. -/
theorem mem_nonemptyEnds {ending text : Text} :
    ending ∈ nonemptyEnds text ↔ ending ≠ [] ∧ ending <:+ text := by
  induction text with
  | nil =>
    rw [nonemptyEnds, List.suffix_nil]
    simp
  | cons c rest ih =>
    rw [nonemptyEnds, List.mem_cons, ih, List.suffix_cons_iff]
    constructor
    · rintro (rfl | ⟨nonempty, suffix⟩)
      · exact ⟨List.cons_ne_nil c rest, .inl rfl⟩
      · exact ⟨nonempty, .inr suffix⟩
    · rintro ⟨nonempty, rfl | suffix⟩
      · exact .inl rfl
      · exact .inr ⟨nonempty, suffix⟩

/-- The maximum of the lengths and a first number is at least that number and at least every length.
-/
theorem le_foldl_max (keys : List Text) (longest : Nat) :
    longest ≤ keys.foldl (fun longest key => max longest key.length) longest ∧
      ∀ key ∈ keys,
        key.length ≤ keys.foldl (fun longest key => max longest key.length) longest := by
  -- on the list, with the maximum so far left open
  induction keys generalizing longest with
  | nil => simp
  | cons first rest ih =>
    obtain ⟨hstart, hrest⟩ := ih (max longest first.length)
    rw [List.foldl_cons]
    constructor
    · omega
    · intro key hkey
      rcases List.mem_cons.mp hkey with rfl | hkey
      · omega
      · exact hrest key hkey

/-- No key is longer than the longest one. -/
theorem length_le_longestKey {keys : NameSet} {key : Text} (h : key ∈ keys) :
    key.length ≤ longestKey keys := by
  unfold longestKey
  rw [Std.ExtTreeSet.foldl_eq_foldl_toList]
  exact (le_foldl_max keys.toList 0).2 key (Std.ExtTreeSet.mem_toList.mpr h)

/-- An end that is short enough is found among the last symbols. -/
theorem suffix_drop_iff {ending literal : Text} {n : Nat} (h : ending.length ≤ n) :
    ending <:+ literal.drop (literal.length - n) ↔ ending <:+ literal := by
  constructor
  · exact fun suffix => suffix.trans (List.drop_suffix _ _)
  · intro suffix
    refine List.suffix_of_suffix_length_le suffix (List.drop_suffix _ _) ?_
    have := suffix.length_le
    rw [List.length_drop]
    omega

/-- Cutting a literal down to its last symbols loses no key: the ends that are keys are exactly the
non-empty keys that the whole literal ends with. -/
theorem mem_keysEnding {keys : NameSet} {literal key : Text} :
    key ∈ keysEnding keys (longestKey keys) literal ↔ key ≠ [] ∧ key ∈ keys ∧ key <:+ literal := by
  unfold keysEnding
  rw [List.mem_filter, mem_nonemptyEnds, Std.ExtTreeSet.contains_iff_mem]
  constructor
  · rintro ⟨⟨nonempty, suffix⟩, hkey⟩
    exact ⟨nonempty, hkey, (suffix_drop_iff (length_le_longestKey hkey)).mp suffix⟩
  · rintro ⟨nonempty, hkey, suffix⟩
    exact ⟨⟨nonempty, (suffix_drop_iff (length_le_longestKey hkey)).mpr suffix⟩, hkey⟩

/-! ### What is noted -/

/-- The positions under a key. -/
def positions (suffixes : SuffixMap) (key : Text) : PositionSet :=
  suffixes[key]?.getD ∅

variable {suffixes : SuffixMap} {keys : NameSet} {key : Text} {i position : Nat}

/-- Nothing has been noted in the empty map. -/
@[simp] theorem not_mem_positions_empty : i ∉ positions ∅ key := by
  simp [positions]

/-- Noting a position under a key adds it there and changes nothing else. -/
theorem mem_positions_note {noted : Text} :
    i ∈ positions (note position suffixes noted) key ↔
      noted = key ∧ position = i ∨ i ∈ positions suffixes key := by
  unfold positions note
  rw [Std.ExtTreeMap.getElem?_alter]
  by_cases h : noted = key
  · subst h
    simp [Std.ExtTreeSet.mem_insert]
  · simp [h]

/-- Noting a position under several keys adds it under each of them. What stood under the keys
before stays, and other keys are left alone. -/
theorem mem_positions_foldl_note {noted : List Text} :
    i ∈ positions (noted.foldl (note position) suffixes) key ↔
      key ∈ noted ∧ position = i ∨ i ∈ positions suffixes key := by
  induction noted generalizing suffixes with
  | nil => simp
  | cons first rest ih =>
    rw [List.foldl_cons, ih, mem_positions_note, List.mem_cons]
    constructor
    · rintro (⟨hkey, hi⟩ | ⟨rfl, hi⟩ | h)
      · exact .inl ⟨.inr hkey, hi⟩
      · exact .inl ⟨.inl rfl, hi⟩
      · exact .inr h
    · rintro (⟨rfl | hkey, hi⟩ | h)
      · exact .inr (.inl ⟨rfl, hi⟩)
      · exact .inl ⟨hkey, hi⟩
      · exact .inr (.inr h)

/-- Noting the literals of a file adds its position under every key that one of them ends with. In
what order the literals come makes no difference. -/
theorem mem_positions_foldl_literals {found : List Text} :
    i ∈ positions (found.foldl (fun suffixes literal =>
        (keysEnding keys (longestKey keys) literal).foldl (note position) suffixes) suffixes) key ↔
      (key ≠ [] ∧ key ∈ keys ∧ ∃ literal ∈ found, key <:+ literal) ∧ position = i ∨
        i ∈ positions suffixes key := by
  induction found generalizing suffixes with
  | nil => simp
  | cons first rest ih =>
    rw [List.foldl_cons, ih, mem_positions_foldl_note, mem_keysEnding]
    -- a key that ends the first literal was just noted, one that ends a later literal will be
    simp only [List.mem_cons, exists_eq_or_imp]
    constructor
    · rintro (⟨⟨nonempty, hkey, suffix⟩, hi⟩ | ⟨⟨nonempty, hkey, suffix⟩, hi⟩ | h)
      · exact .inl ⟨⟨nonempty, hkey, .inr suffix⟩, hi⟩
      · exact .inl ⟨⟨nonempty, hkey, .inl suffix⟩, hi⟩
      · exact .inr h
    · rintro (⟨⟨nonempty, hkey, suffix | suffix⟩, hi⟩ | h)
      · exact .inr (.inl ⟨⟨nonempty, hkey, suffix⟩, hi⟩)
      · exact .inl ⟨⟨nonempty, hkey, suffix⟩, hi⟩
      · exact .inr (.inr h)

/-- The keys that a text is noted under. An entry without a text leaves the map as it is. -/
theorem mem_positions_addText {entry : Option Text × Nat} :
    i ∈ positions (addText keys (longestKey keys) suffixes entry) key ↔
      (∃ text, entry = (some text, i) ∧ key ≠ [] ∧ key ∈ keys ∧
        ∃ literal ∈ literals text, key <:+ literal) ∨ i ∈ positions suffixes key := by
  rcases entry with ⟨_ | text, position⟩
  · simp [addText]
  · rw [addText, mem_positions_foldl_literals]
    constructor
    · rintro (⟨h, rfl⟩ | h)
      · exact .inl ⟨text, rfl, h⟩
      · exact .inr h
    · rintro (⟨text, ⟨rfl, rfl⟩, h⟩ | h)
      · exact .inl ⟨h, rfl⟩
      · exact .inr h

/-- Noting all entries adds the position of each under its keys, and under no key the position of an
entry without a text. -/
theorem mem_positions_foldl_addText {entries : List (Option Text × Nat)} :
    i ∈ positions (entries.foldl (addText keys (longestKey keys)) suffixes) key ↔
      (∃ text, (some text, i) ∈ entries ∧ key ≠ [] ∧ key ∈ keys ∧
        ∃ literal ∈ literals text, key <:+ literal) ∨ i ∈ positions suffixes key := by
  induction entries generalizing suffixes with
  | nil => simp
  | cons first rest ih =>
    rw [List.foldl_cons, ih, mem_positions_addText]
    constructor
    · rintro (⟨text, hmem, h⟩ | ⟨text, rfl, h⟩ | h)
      · exact .inl ⟨text, List.mem_cons_of_mem first hmem, h⟩
      · exact .inl ⟨text, List.mem_cons_self, h⟩
      · exact .inr h
    · rintro (⟨text, hmem, h⟩ | h)
      · rcases List.mem_cons.mp hmem with rfl | hmem
        · exact .inr (.inl ⟨text, rfl, h⟩)
        · exact .inl ⟨text, hmem, h⟩
      · exact .inr (.inr h)

/-- **What an index holds**: a position stands under a key exactly when the key is to be looked up
and not empty, and a literal of the text at that position ends with it. -/
theorem mem_positions_build {corpus : Corpus} {texts : List (Option Text)} :
    i ∈ positions (build corpus texts).suffixes key ↔
      key ≠ [] ∧ key ∈ lookupKeys corpus ∧
        ∃ text, texts[i]? = some (some text) ∧ ∃ literal ∈ literals text, key <:+ literal := by
  unfold build
  rw [mem_positions_foldl_addText]
  simp only [List.mem_zipIdx_iff_getElem?, not_mem_positions_empty, or_false]
  constructor
  · rintro ⟨text, htext, nonempty, hkey, h⟩
    exact ⟨nonempty, hkey, text, htext, h⟩
  · rintro ⟨nonempty, hkey, text, htext, h⟩
    exact ⟨text, htext, nonempty, hkey, h⟩

/-! ### Answers -/

/-- A property of the text at a position, where there may be no position and no text. -/
theorem any_join_iff {texts : List (Option Text)} {p : Text → Bool} :
    texts[i]?.join.any p = true ↔ ∃ text, texts[i]? = some (some text) ∧ p text = true := by
  simp only [Option.any_eq_true, Option.join_eq_some_iff]

/-- The first match is the least position that matches, apart from the excluded one. Both kinds of
pattern are answered from an increasing list of positions, though from different ones. -/
theorem firstMatch?_eq_some_iff {index : LiteralIndex} {pattern : KeyPattern}
    {excluded found : Nat} :
    index.firstMatch? pattern excluded = some found ↔
      IsLeast {i | i ≠ excluded ∧ index.fileMatches pattern i = true} found := by
  rcases pattern with key | key
  · -- for a path-safe key the positions come out of the set in increasing order
    have increasing : ((positions index.suffixes key).toList.filter (· != excluded)).Pairwise
        (· < ·) :=
      (Std.ExtTreeSet.ordered_toList.imp Std.compare_eq_lt.mp).filter _
    rw [firstMatch?, ← List.head?_filter]
    refine (head?_eq_some_iff_isLeast increasing).trans ?_
    simp [fileMatches, positions, and_comm]
  · -- any other key is searched for from the front, so the positions are increasing too
    rw [firstMatch?, ← List.head?_filter, ← List.head?_map,
      head?_eq_some_iff_isLeast (pairwise_lt_positions _ _ 0)]
    have same (i : Nat) :
        (∃ text, index.texts[i]? = some text ∧
            (i != excluded && text.any (KeyPattern.embedded key).matchesText) = true) ↔
          i ≠ excluded ∧ index.fileMatches (.embedded key) i = true := by
      rw [fileMatches, any_join_iff]
      constructor
      · rintro ⟨_ | text, htext, h⟩
        · simp at h
        · rw [Bool.and_eq_true, bne_iff_ne] at h
          exact ⟨h.1, text, htext, h.2⟩
      · rintro ⟨hi, text, htext, h⟩
        exact ⟨some text, htext, by rw [Bool.and_eq_true, bne_iff_ne]; exact ⟨hi, h⟩⟩
    simp only [mem_positions_iff, same]

/-- A key is found where a text refers to it, except that path-safe keys are found only if they are
keys to look up, and the empty key never is. -/
theorem fileMatches_build {corpus : Corpus} {texts : List (Option Text)} :
    (build corpus texts).fileMatches (.ofKey key) i = true ↔
      (isPathSafeKey key = true → key ≠ [] ∧ key ∈ lookupKeys corpus) ∧ RefersAt texts key i := by
  unfold KeyPattern.ofKey
  -- a path-safe key is looked up in the map, any other in the texts
  split_ifs with safe
  · rw [fileMatches, Std.ExtTreeSet.contains_iff_mem]
    refine mem_positions_build.trans ?_
    simp only [RefersAt, KeyPattern.refers_iff_exists_literal safe, safe, true_implies, and_assoc]
  · rw [fileMatches, any_join_iff]
    simp only [KeyPattern.matchesText, KeyPattern.isEmbedded_iff, RefersAt, build, safe,
      Bool.false_eq_true, false_implies, true_and]

end LiteralIndex

end Orphans
