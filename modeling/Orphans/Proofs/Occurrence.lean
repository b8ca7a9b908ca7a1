import Mathlib.Data.List.Basic
import Orphans.CommandLine.Occurrence

/-!
# Occurrences that fit together

What is given at most once must be given well (`Occurrence.Fit`). As far as no lists are concerned,
occurrences in another order give the same, for they are filtered from the same ones
(`Regroups.perm_filterMap`), and of one value there is only one order (`AtMostOne.eq_of_perm`). So
occurrences that fit together do so in every order: `Regroups.fit`.
-/

namespace Orphans

/-- The values that a setting takes. -/
def Setting.Takes : Setting → Text → Prop
  | .sourceRoot, value => value ≠ []
  | .strategy, value => (Strategy.ofName? value).isSome = true
  | _, _ => True

namespace Occurrence

/-! ### Occurrences one after the other

What more occurrences add to the roots, the flags and the values of a setting. An occurrence adds to
one of them only, and these are the equations by which a draft grows. -/

section

variable (setting : Setting) (first second : List Occurrence) (value : Text) (flag : Flag)

/-- The roots of occurrences one after the other. -/
@[simp] theorem roots_append : roots (first ++ second) = roots first ++ roots second :=
  List.filterMap_append

/-- Their flags. -/
@[simp] theorem flags_append : flags (first ++ second) = flags first ++ flags second :=
  List.filterMap_append

/-- Their values of a setting. -/
@[simp] theorem values_append :
    values setting (first ++ second) = values setting first ++ values setting second :=
  List.filterMap_append

/-- A root is one. -/
@[simp] theorem roots_root : roots [.root value] = [value] := rfl

/-- A flag is no root. -/
@[simp] theorem roots_flag : roots [.flag flag] = [] := rfl

/-- A setting is no root. -/
@[simp] theorem roots_setting : roots [.setting setting value] = [] := rfl

/-- A root is no flag. -/
@[simp] theorem flags_root : flags [.root value] = [] := rfl

/-- A flag is one. -/
@[simp] theorem flags_flag : flags [.flag flag] = [flag] := rfl

/-- A setting is no flag. -/
@[simp] theorem flags_setting : flags [.setting setting value] = [] := rfl

/-- A root is no value of a setting. -/
@[simp] theorem values_root : values setting [.root value] = [] := rfl

/-- A flag is no value of a setting. -/
@[simp] theorem values_flag : values setting [.flag flag] = [] := rfl

/-- A value counts for its own setting. -/
@[simp] theorem values_setting_self : values setting [.setting setting value] = [value] := by
  simp [values]

/-- A value does not count for another setting. -/
@[simp] theorem values_setting_of_ne {setting other : Setting} (h : other ≠ setting) :
    values setting [.setting other value] = [] := by
  simp [values, h]

end

/-! ### What is given -/

variable {occurrences others : List Occurrence} {setting : Setting} {value : Text} {flag : Flag}

/-- A setting is given a value by the occurrence of that value. -/
theorem mem_values : value ∈ values setting occurrences ↔ .setting setting value ∈ occurrences := by
  simp only [values, List.mem_filterMap]
  constructor
  · rintro ⟨occurrence, hoccurrence, h⟩
    cases occurrence with
    | root given => cases h
    | flag given => cases h
    | setting other given =>
      dsimp only at h
      split at h
      · next same =>
        cases h
        rwa [← same]
      · cases h
  · intro h
    exact ⟨_, h, if_pos rfl⟩

/-- A setting that is not given has no values. -/
theorem values_eq_nil_iff :
    values setting occurrences = [] ↔ ∀ value, .setting setting value ∉ occurrences := by
  simp only [List.eq_nil_iff_forall_not_mem, mem_values]

/-- A flag is given by its occurrence. -/
theorem mem_flags : flag ∈ flags occurrences ↔ .flag flag ∈ occurrences := by
  simp only [flags, List.mem_filterMap]
  constructor
  · rintro ⟨occurrence, hoccurrence, h⟩
    cases occurrence with
    | root value => cases h
    | setting setting value => cases h
    | flag given =>
      cases h
      exact hoccurrence
  · intro h
    exact ⟨_, h, rfl⟩

/-- A setting that is given has pieces, though they may be empty. -/
theorem exists_mem_iff :
    (∃ value, .setting setting value ∈ occurrences) ↔ pieces setting occurrences ≠ [] := by
  rw [pieces, ne_eq, List.flatMap_eq_nil_iff]
  constructor
  · -- a value that is cut at commas has at least one piece
    rintro ⟨value, h⟩ nothing
    exact List.splitOn_ne_nil _ _ (nothing value (mem_values.mpr h))
  · intro h
    by_contra none
    rw [values_eq_nil_iff.mpr (not_exists.mp none)] at h
    exact h fun value hvalue => absurd hvalue List.not_mem_nil

/-! ### At most one value -/

/-- No two values, and none that is not good. -/
structure AtMostOne (good : Text → Prop) (given : List Text) : Prop where
  length_le : given.length ≤ 1
  good_of_mem : ∀ value ∈ given, good value

namespace AtMostOne

variable {good : Text → Prop} {given given' : List Text}

/-- Nothing is at most one value. -/
theorem nil (good : Text → Prop) : AtMostOne good [] where
  length_le := Nat.zero_le 1
  good_of_mem _ h := absurd h List.not_mem_nil

/-- One more value is too many, unless it is the first. -/
theorem concat_iff : AtMostOne good (given ++ [value]) ↔ given = [] ∧ good value := by
  constructor
  · intro h
    have short := h.length_le
    rw [List.length_append, List.length_singleton] at short
    exact ⟨List.length_eq_zero_iff.mp (by omega), h.good_of_mem value (by simp)⟩
  · rintro ⟨rfl, h⟩
    exact ⟨Nat.le_refl 1, by simpa using h⟩

/-- Fewer values are at most one, too. -/
theorem of_append (h : AtMostOne good (given ++ given')) : AtMostOne good given where
  length_le := Nat.le_trans (by simp) h.length_le
  good_of_mem value hvalue := h.good_of_mem value (List.mem_append_left _ hvalue)

/-- There is only one order for one value. -/
theorem eq_of_perm (h : AtMostOne good given) (perm : given.Perm given') : given' = given := by
  match given, h.length_le with
  | [], _ => exact List.nil_perm.mp perm
  | [value], _ => exact (List.singleton_perm.mp perm).symm

/-- A value that is given is the first one. -/
theorem head?_eq (h : AtMostOne good given) (hvalue : value ∈ given) :
    given.head? = some value := by
  match given, h.length_le with
  | [one], _ =>
    obtain rfl := List.mem_singleton.mp hvalue
    rfl

end AtMostOne

/-! ### Occurrences that fit together -/

/-- Nothing is given twice that must not be, and no value is faulty. -/
structure Fit (occurrences : List Occurrence) : Prop where
  /-- There is one root at most, and it is not empty. -/
  roots : AtMostOne (· ≠ []) (roots occurrences)
  /-- A setting that is no list is given once at most, with a value that it takes. -/
  settings : ∀ setting : Setting, setting.isList = false →
    AtMostOne setting.Takes (values setting occurrences)
  /-- No flag is given twice. -/
  flags : (flags occurrences).Nodup

namespace Fit

/-- No occurrences fit together. -/
theorem nil : Fit [] where
  roots := .nil _
  settings _ _ := .nil _
  flags := List.nodup_nil

/-- The first of occurrences that fit together do so, too. -/
theorem of_append (h : Fit (occurrences ++ others)) : Fit occurrences where
  roots := (roots_append _ _ ▸ h.roots).of_append
  settings setting single := (values_append _ _ _ ▸ h.settings setting single).of_append
  flags := (List.nodup_append.mp (flags_append _ _ ▸ h.flags)).1

/-- A root fits if it is the first, and not empty. -/
theorem concat_root_iff (fit : Fit occurrences) :
    Fit (occurrences ++ [.root value]) ↔ Occurrence.roots occurrences = [] ∧ value ≠ [] := by
  have roots : AtMostOne (· ≠ []) (Occurrence.roots occurrences ++ [value]) ↔ _ :=
    AtMostOne.concat_iff
  constructor
  · intro h
    exact roots.mp (by simpa using h.roots)
  · intro h
    exact ⟨by simpa using roots.mpr h, by simpa using fit.settings, by simpa using fit.flags⟩

/-- A flag fits if it has not been given yet. -/
theorem concat_flag_iff (fit : Fit occurrences) :
    Fit (occurrences ++ [.flag flag]) ↔ flag ∉ Occurrence.flags occurrences := by
  have flags : (Occurrence.flags occurrences ++ [flag]).Nodup ↔
      flag ∉ Occurrence.flags occurrences := by
    rw [(List.perm_append_singleton flag _).nodup_iff, List.nodup_cons, and_iff_left fit.flags]
  constructor
  · intro h
    exact flags.mp (by simpa using h.flags)
  · intro h
    exact ⟨by simpa using fit.roots, by simpa using fit.settings, by simpa using flags.mpr h⟩

/-- The value of a setting that is no list fits if it is the first one, and one that the setting
takes. -/
theorem concat_single_iff (fit : Fit occurrences) (single : setting.isList = false) :
    Fit (occurrences ++ [.setting setting value]) ↔
      values setting occurrences = [] ∧ setting.Takes value := by
  have settings : AtMostOne setting.Takes (values setting occurrences ++ [value]) ↔ _ :=
    AtMostOne.concat_iff
  constructor
  · intro h
    exact settings.mp (by simpa using h.settings setting single)
  · intro h
    refine ⟨by simpa using fit.roots, fun other hother => ?_, by simpa using fit.flags⟩
    -- the other settings have the values that they had
    by_cases same : setting = other
    · subst same
      simpa using settings.mpr h
    · simpa [same] using fit.settings other hother

/-- A list can always grow. -/
theorem concat_list (fit : Fit occurrences) (list : setting.isList = true) :
    Fit (occurrences ++ [.setting setting value]) := by
  refine ⟨by simpa using fit.roots, fun other hother => ?_, by simpa using fit.flags⟩
  have ne : setting ≠ other := by
    rintro rfl
    rw [list] at hother
    cases hother
  simpa [ne] using fit.settings other hother

end Fit

/-! ### Occurrences in another order -/

/-- What is part of a list is the value of a setting that makes a list. -/
theorem exists_setting_of_isOfList {occurrence : Occurrence} (h : occurrence.isOfList = true) :
    ∃ setting value, occurrence = .setting setting value ∧ setting.isList = true := by
  cases occurrence with
  | root value => cases h
  | flag flag => cases h
  | setting setting value => exact ⟨setting, value, rfl, h⟩

/-- Occurrences that are part of a list can be left out before those of another kind are picked. -/
theorem filterMap_filter_isOfList {α : Type} {f : Occurrence → Option α}
    (h : ∀ occurrence, occurrence.isOfList = true → f occurrence = none)
    (occurrences : List Occurrence) :
    (occurrences.filter (!·.isOfList)).filterMap f = occurrences.filterMap f := by
  induction occurrences with
  | nil => rfl
  | cons occurrence occurrences ih =>
    cases ofList : occurrence.isOfList with
    | false => simp [ofList, ih, List.filterMap_cons]
    | true => simp [ofList, ih, h occurrence ofList]

namespace Regroups

/-- What does not look at the lists sees the same in another order. -/
theorem perm_filterMap (same : Regroups occurrences others) {α : Type} {f : Occurrence → Option α}
    (h : ∀ occurrence, occurrence.isOfList = true → f occurrence = none) :
    (occurrences.filterMap f).Perm (others.filterMap f) := by
  rw [← filterMap_filter_isOfList h occurrences, ← filterMap_filter_isOfList h others]
  exact same.perm.filterMap f

/-- The roots are the same in another order. -/
theorem perm_roots (same : Regroups occurrences others) :
    (roots occurrences).Perm (roots others) := by
  apply same.perm_filterMap
  intro occurrence h
  obtain ⟨setting, value, rfl, -⟩ := exists_setting_of_isOfList h
  rfl

/-- The flags are the same in another order. -/
theorem perm_flags (same : Regroups occurrences others) :
    (flags occurrences).Perm (flags others) := by
  apply same.perm_filterMap
  intro occurrence h
  obtain ⟨setting, value, rfl, -⟩ := exists_setting_of_isOfList h
  rfl

/-- The values of a setting that is no list are the same in another order. -/
theorem perm_values (same : Regroups occurrences others)
    (h : setting.isList = false) :
    (values setting occurrences).Perm (values setting others) := by
  apply same.perm_filterMap
  intro occurrence ofList
  obtain ⟨other, given, rfl, list⟩ := exists_setting_of_isOfList ofList
  apply if_neg
  rintro rfl
  rw [h] at list
  cases list

/-- As there is one root at most, it has no other order. -/
theorem roots_eq (same : Regroups occurrences others) (fit : Fit occurrences) :
    roots others = roots occurrences :=
  fit.roots.eq_of_perm same.perm_roots

/-- Neither has the value of a setting that is no list. -/
theorem values_eq (same : Regroups occurrences others) (fit : Fit occurrences)
    (single : setting.isList = false) : values setting others = values setting occurrences :=
  (fit.settings setting single).eq_of_perm (same.perm_values single)

/-- The flags that are given are the same. -/
theorem mem_flags_iff (same : Regroups occurrences others) (flag : Flag) :
    flag ∈ flags others ↔ flag ∈ flags occurrences :=
  same.perm_flags.mem_iff.symm

/-- Occurrences fit together in every order. -/
theorem fit (same : Regroups occurrences others) (fit : Fit occurrences) : Fit others where
  roots := by
    rw [same.roots_eq fit]
    exact fit.roots
  settings setting single := by
    rw [same.values_eq fit single]
    exact fit.settings setting single
  flags := same.perm_flags.nodup_iff.mp fit.flags

end Regroups

end Occurrence

end Orphans
