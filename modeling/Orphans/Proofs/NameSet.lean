import Mathlib
import Orphans.Config

/-!
# Names in normal form

Names are kept without the blanks that were typed around them, and extensions without the dots in
front of them, so what is read from a set of names and given back makes the same set
(`Config.nameSet_toList`).

It need not be so for extensions. Blanks are dropped first and dots after them, once each: a blank
behind the first dots stays, and would be dropped the next time. `Config.extensionSet_toList_eq_iff`
says that these are the only sets that change. One has to show that they do change, and do not only
exchange their members: an extension with a blank in front could only come back from a longer one
(`exists_longer_of_extensionSet_toList_eq`), so the longest such extension does not.

`IsCleanName` and `IsExtension` say what the members of the sets look like. The defaults satisfy
them too, which is checked name by name, so nothing has to be assumed of a configuration that was
never changed.
-/

namespace Orphans

/-! ### Blanks at the ends -/

namespace Text

variable {text : Text}

/-- A text with no blank at either end. -/
structure IsTrimmed (text : Text) : Prop where
  head : text.head?.any isBlank = false
  last : text.getLast?.any isBlank = false

instance (text : Text) : Decidable text.IsTrimmed :=
  decidable_of_iff (text.head?.any isBlank = false ∧ text.getLast?.any isBlank = false)
    ⟨fun ⟨head, last⟩ => ⟨head, last⟩, fun h => ⟨h.head, h.last⟩⟩

/-- What is left after dropping does not begin with something that would be dropped. -/
theorem any_head?_dropWhile (p : Char → Bool) (text : Text) :
    (text.dropWhile p).head?.any p = false := by
  have stops := List.head?_dropWhile_not p text
  cases hc : (text.dropWhile p).head? with
  | none => rfl
  | some c =>
    rw [hc] at stops
    exact stops

/-- Blanks at the end are dropped, and nothing else. -/
theorem trimEnd_isPrefix (text : Text) : text.trimEnd <+: text :=
  List.rdropWhile_prefix isBlank text

/-- Trimming leaves no blank at either end. That blanks are dropped at the end second does not bring
one to the front. -/
theorem isTrimmed_trim (text : Text) : text.trim.IsTrimmed where
  head := by
    -- dropping blanks at the end keeps the first character, if any is left
    obtain ⟨dropped, h⟩ := trimEnd_isPrefix text.trimStart
    have front := any_head?_dropWhile isBlank text
    cases hc : text.trim.head? with
    | none => rfl
    | some c =>
      have same : text.trimStart.head? = some c := by
        rw [← h, List.head?_append]
        exact congrArg (Option.or · _) hc
      rw [trimStart] at same
      rwa [same] at front
  last := by
    unfold trim trimEnd
    rw [List.getLast?_reverse]
    exact any_head?_dropWhile isBlank _

/-- Nothing is dropped from a text that does not begin with something to drop. -/
theorem dropWhile_eq_self {p : Char → Bool} (h : text.head?.any p = false) :
    text.dropWhile p = text := by
  cases text with
  | nil => rfl
  | cons c text => exact List.dropWhile_cons_of_neg (by simpa using h)

/-- A text without blanks at its ends stays as it is. -/
theorem IsTrimmed.trim_eq_self (h : text.IsTrimmed) : text.trim = text := by
  have front : text.trimStart = text := dropWhile_eq_self h.head
  have back : text.reverse.dropWhile isBlank = text.reverse := by
    apply dropWhile_eq_self
    rw [List.head?_reverse]
    exact h.last
  rw [trim, front, trimEnd, back, List.reverse_reverse]

/-- A blank in front is dropped. -/
theorem length_trim_lt (h : text.head?.any isBlank = true) : text.trim.length < text.length := by
  cases text with
  | nil => cases h
  | cons c text =>
    have dropped : trimStart (c :: text) = trimStart text := List.dropWhile_cons_of_pos h
    calc (trim (c :: text)).length
      _ ≤ (trimStart (c :: text)).length := (trimEnd_isPrefix _).length_le
      _ = (trimStart text).length := by rw [dropped]
      _ ≤ text.length := (List.dropWhile_suffix isBlank).length_le
      _ < (c :: text).length := Nat.lt_succ_self _

end Text

namespace Config

variable {texts : List Text} {name : Text} {names : NameSet}

/-! ### Members -/

/-- The names that some texts mean are what is left of them without blanks, if anything is. -/
theorem mem_cleanNames :
    name ∈ cleanNames texts ↔ name ≠ [] ∧ ∃ text ∈ texts, text.trim = name := by
  simp only [cleanNames, List.mem_filter, List.mem_map, decide_eq_true_eq]
  exact and_comm

/-- So are the members of the set that they make. -/
theorem mem_nameSet : name ∈ nameSet texts ↔ name ≠ [] ∧ ∃ text ∈ texts, text.trim = name := by
  rw [nameSet, Std.ExtTreeSet.mem_ofList, List.contains_iff_mem, mem_cleanNames]

/-- An extension is a member if one of the texts means it. -/
theorem mem_extensionSet :
    name ∈ extensionSet texts ↔ name ≠ [] ∧ ∃ text ∈ texts, normalizeExtension text = name := by
  rw [extensionSet, Std.ExtTreeSet.mem_ofList, List.contains_iff_mem]
  simp only [List.mem_filter, List.mem_map, decide_eq_true_eq]
  exact and_comm

/-- Names that are added to a set keep those that it had. -/
theorem mem_insertMany_cleanNames :
    name ∈ names.insertMany (cleanNames texts) ↔
      name ∈ names ∨ name ≠ [] ∧ ∃ text ∈ texts, text.trim = name := by
  rw [Std.ExtTreeSet.mem_insertMany_list, List.contains_iff_mem, mem_cleanNames]

/-- Names that stay as they are when they are given again make the set that they are in. -/
theorem exists_toList_iff_mem {normalize : Text → Text} (ne_nil : ∀ name ∈ names, name ≠ [])
    (stays : ∀ name ∈ names, normalize name = name) :
    (name ≠ [] ∧ ∃ text ∈ names.toList, normalize text = name) ↔ name ∈ names := by
  simp only [Std.ExtTreeSet.mem_toList]
  constructor
  · rintro ⟨-, text, htext, rfl⟩
    rwa [stays text htext]
  · intro hname
    exact ⟨ne_nil name hname, name, hname, stays name hname⟩

/-- If every name of some kind is shorter than another one of that kind, there is none. A set of
names is finite, so it cannot go on for ever. -/
theorem forall_eq_false_of_exists_longer {kind : Text → Bool}
    (h : ∀ name ∈ names, kind name = true →
      ∃ longer ∈ names, kind longer = true ∧ name.length < longer.length) :
    ∀ name ∈ names, kind name = false := by
  intro name hname
  rw [Bool.eq_false_iff]
  intro hkind
  -- the set is finite, so there is a longest name of the kind, and none is longer
  let those := names.toList.toFinset.filter fun name => kind name = true
  have mem_those (name : Text) : name ∈ those ↔ name ∈ names ∧ kind name = true := by
    rw [Finset.mem_filter, List.mem_toFinset, Std.ExtTreeSet.mem_toList]
  obtain ⟨longest, hlongest, longest_le⟩ :=
    those.exists_max_image List.length ⟨name, (mem_those name).mpr ⟨hname, hkind⟩⟩
  obtain ⟨hmem, hkind⟩ := (mem_those longest).mp hlongest
  obtain ⟨longer, hlonger, hkind', lt⟩ := h longest hmem hkind
  have le := longest_le longer ((mem_those longer).mpr ⟨hlonger, hkind'⟩)
  exact absurd lt (Nat.not_lt_of_le le)

/-! ### Names -/

/-- The members of a set of file names or of directory names. -/
structure IsCleanName (name : Text) : Prop where
  ne_nil : name ≠ []
  isTrimmed : name.IsTrimmed

instance (name : Text) : Decidable (IsCleanName name) :=
  decidable_of_iff (name ≠ [] ∧ name.IsTrimmed)
    ⟨fun ⟨ne_nil, isTrimmed⟩ => ⟨ne_nil, isTrimmed⟩, fun h => ⟨h.ne_nil, h.isTrimmed⟩⟩

/-- Names that are typed are kept in normal form. -/
theorem isCleanName_of_mem_nameSet (h : name ∈ nameSet texts) : IsCleanName name := by
  obtain ⟨ne_nil, text, -, rfl⟩ := mem_nameSet.mp h
  exact ⟨ne_nil, text.isTrimmed_trim⟩

/-- The default entry points are in normal form. -/
theorem isCleanName_of_mem_defaultImplicitFiles (h : name ∈ defaultImplicitFiles) :
    IsCleanName name := by
  rw [defaultImplicitFiles, Std.ExtTreeSet.mem_ofList, List.contains_iff_mem] at h
  revert name
  decide

/-- Such names make the set that they are in. -/
theorem nameSet_toList (h : ∀ name ∈ names, IsCleanName name) : nameSet names.toList = names := by
  apply Std.ExtTreeSet.ext_mem
  intro name
  rw [mem_nameSet]
  apply exists_toList_iff_mem
  · exact fun name hname => (h name hname).ne_nil
  · exact fun name hname => (h name hname).isTrimmed.trim_eq_self

/-! ### Extensions -/

/-- The members of a set of extensions. There may be a blank in front, if there was a dot before it
when the extension was given. -/
structure IsExtension (name : Text) : Prop where
  /-- Something is left of it. -/
  ne_nil : name ≠ []
  /-- The dots in front have been dropped. -/
  head : name.head? ≠ some '.'
  /-- So have the blanks behind. -/
  last : name.getLast?.any Text.isBlank = false

instance (name : Text) : Decidable (IsExtension name) :=
  decidable_of_iff (name ≠ [] ∧ name.head? ≠ some '.' ∧ name.getLast?.any Text.isBlank = false)
    ⟨fun ⟨ne_nil, head, last⟩ => ⟨ne_nil, head, last⟩, fun h => ⟨h.ne_nil, h.head, h.last⟩⟩

/-- Only something in front is dropped from a trimmed extension. -/
theorem normalizeExtension_isSuffix (text : Text) : normalizeExtension text <:+ text.trim :=
  List.dropWhile_suffix _

/-- Extensions that are typed are kept without a dot in front and without a blank behind. -/
theorem isExtension_of_mem_extensionSet (h : name ∈ extensionSet texts) : IsExtension name := by
  obtain ⟨ne_nil, text, -, rfl⟩ := mem_extensionSet.mp h
  refine ⟨ne_nil, ?_, ?_⟩
  · intro dot
    have front : (normalizeExtension text).head?.any (· = '.') = false :=
      Text.any_head?_dropWhile _ text.trim
    rw [dot] at front
    cases front
  · -- the last character is that of the trimmed text, since dots are dropped in front only
    obtain ⟨dots, h⟩ := normalizeExtension_isSuffix text
    have back := text.isTrimmed_trim.last
    rwa [← h, List.getLast?_append_of_ne_nil _ ne_nil] at back

/-- So are the default extensions. -/
theorem isExtension_of_mem_defaultExtensions (h : name ∈ defaultExtensions) :
    IsExtension name := by
  rw [defaultExtensions, Std.ExtTreeSet.mem_ofList, List.contains_iff_mem] at h
  revert name
  decide

/-- An extension with no blank in front stays as it is. -/
theorem IsExtension.normalizeExtension_eq_self (h : IsExtension name)
    (front : name.head?.any Text.isBlank = false) : normalizeExtension name = name := by
  have trimmed : name.IsTrimmed := ⟨front, h.last⟩
  rw [normalizeExtension, trimmed.trim_eq_self]
  apply Text.dropWhile_eq_self
  rw [Option.any_eq_false]
  intro c hc
  rw [decide_eq_false_iff_not]
  rintro rfl
  exact h.head hc

/-- A blank in front is dropped, so what is left is shorter. -/
theorem length_normalizeExtension_lt (h : name.head?.any Text.isBlank = true) :
    (normalizeExtension name).length < name.length :=
  Nat.lt_of_le_of_lt (normalizeExtension_isSuffix name).length_le (Text.length_trim_lt h)

/-- If extensions make the set that they are in, one with a blank in front is made of a longer one
with a blank in front. -/
theorem exists_longer_of_extensionSet_toList_eq (h : ∀ name ∈ names, IsExtension name)
    (same : extensionSet names.toList = names) (hname : name ∈ names)
    (blank : name.head?.any Text.isBlank = true) :
    ∃ longer ∈ names, longer.head?.any Text.isBlank = true ∧ name.length < longer.length := by
  rw [← same, mem_extensionSet] at hname
  obtain ⟨-, longer, hlonger, rfl⟩ := hname
  rw [Std.ExtTreeSet.mem_toList] at hlonger
  have longerBlank : longer.head?.any Text.isBlank = true := by
    by_contra front
    rw [Bool.not_eq_true] at front
    rw [(h longer hlonger).normalizeExtension_eq_self front, front] at blank
    cases blank
  exact ⟨longer, hlonger, longerBlank, length_normalizeExtension_lt longerBlank⟩

/-- Extensions make the set that they are in exactly when none has a blank in front. That is the
case of every set that was typed without a blank behind a dot. -/
theorem extensionSet_toList_eq_iff (h : ∀ name ∈ names, IsExtension name) :
    extensionSet names.toList = names ↔ ∀ name ∈ names, name.head?.any Text.isBlank = false := by
  constructor
  · intro same
    apply forall_eq_false_of_exists_longer
    intro name hname blank
    exact exists_longer_of_extensionSet_toList_eq h same hname blank
  · intro front
    apply Std.ExtTreeSet.ext_mem
    intro name
    rw [mem_extensionSet]
    apply exists_toList_iff_mem
    · exact fun name hname => (h name hname).ne_nil
    · exact fun name hname => (h name hname).normalizeExtension_eq_self (front name hname)

/-- A blank behind a dot stays when the dot is dropped, and is dropped itself the next time. -/
example : normalizeExtension ". vue".toList = " vue".toList ∧
    normalizeExtension " vue".toList = "vue".toList := by
  decide

end Config

end Orphans
