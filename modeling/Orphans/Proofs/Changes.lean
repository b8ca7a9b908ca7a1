import Mathlib
import Orphans.Config.Change
import Orphans.Proofs.NameSet

/-!
# Configurations that are built by changes

`Config.built_isBuiltBy`: every field of such a configuration holds what the last change of that
field has set it to, or what it held in the beginning if there was none. So the order of changes of
different fields does not matter. The names that are held are in normal form, whatever they were
typed as, and a change that gives them back changes nothing, except for extensions with a blank in
front.

All this follows from what one change does: it sets its own field (`get_change_self`), and no other
(`get_change_of_ne`). By induction on the changes, a field then depends on the changes of that field
only (`get_foldl_change_filter`), and both the last of them and their order are questions about one
field at a time. `IsNormal` is the invariant for the names: it holds of the configuration of a root,
and every change keeps it.
-/

namespace Orphans.Config

variable {config : Config} {change : Change} {field : Field} {root : RawPath}
  {changes others : List Change}

/-! ### One change -/

/-- A change sets its own field. -/
theorem get_change_self (config : Config) (change : Change) :
    (config.change change).get change.field = change.value := by
  cases change <;> rfl

/-- A change leaves the other fields as they were. -/
theorem get_change_of_ne (config : Config) (ne : change.field ≠ field) :
    (config.change change).get field = config.get field := by
  cases change <;> cases field
  case sourceRoot.sourceRoot => exact absurd rfl ne
  case extensions.extensions => exact absurd rfl ne
  case implicitFiles.implicitFiles => exact absurd rfl ne
  case excludeDirs.excludeDirs => exact absurd rfl ne
  case strategy.strategy => exact absurd rfl ne
  all_goals rfl

/-- No change touches the root. -/
theorem root_change (config : Config) (change : Change) :
    (config.change change).root = config.root := by
  cases change <;> rfl

/-- A configuration is its root and what its fields hold. -/
theorem eq_of_get_eq {config' : Config} (root : config.root = config'.root)
    (get : ∀ field, config.get field = config'.get field) : config = config' := by
  cases config
  cases config'
  rw [Config.mk.injEq]
  exact ⟨root, get .sourceRoot, get .extensions, get .implicitFiles, get .excludeDirs,
    get .strategy⟩

/-! ### Many changes -/

/-- Neither do many changes. -/
theorem root_foldl_change (config : Config) (changes : List Change) :
    (changes.foldl Config.change config).root = config.root := by
  induction changes generalizing config with
  | nil => rfl
  | cons change changes ih => rw [List.foldl_cons, ih, root_change]

/-- What a field holds depends on the changes of that field only. The induction adds a change at the
end, where it decides if it is one of the field, and does nothing to it otherwise. -/
theorem get_foldl_change_filter (config : Config) (changes : List Change) (field : Field) :
    ((changes.filter (·.field = field)).foldl Config.change config).get field =
      (changes.foldl Config.change config).get field := by
  induction changes using List.reverseRecOn with
  | nil => rfl
  | append_singleton changes change ih =>
    rw [List.filter_append, List.foldl_append, List.foldl_append]
    -- the last change decides, if it is one of this field, and can be left out if it is not
    by_cases same : change.field = field
    · have kept : [change].filter (·.field = field) = [change] := by simp [same]
      rw [kept]
      subst same
      exact (get_change_self _ change).trans (get_change_self _ change).symm
    · have left : [change].filter (·.field = field) = [] := by simp [same]
      rw [left]
      exact ih.trans (get_change_of_ne _ same).symm

/-- Changes of other fields leave a field as it was. -/
theorem get_foldl_change_of_ne (config : Config) (ne : ∀ change ∈ changes, change.field ≠ field) :
    (changes.foldl Config.change config).get field = config.get field := by
  have none : changes.filter (·.field = field) = [] :=
    List.filter_eq_nil_iff.mpr fun change h => by simpa using ne change h
  rw [← get_foldl_change_filter, none]
  rfl

/-- The last change of a field decides what it holds. -/
theorem get_built_of_last {before after : List Change}
    (ne : ∀ later ∈ after, later.field ≠ change.field) :
    (built root (before ++ change :: after)).get change.field = change.value := by
  rw [built, List.foldl_append, List.foldl_cons, get_foldl_change_of_ne _ ne, get_change_self]

/-- Changes of different fields may come in another order. -/
theorem built_eq_of_filter_eq
    (same : ∀ field, others.filter (·.field = field) = changes.filter (·.field = field)) :
    built root others = built root changes := by
  apply eq_of_get_eq
  · rw [built, built, root_foldl_change, root_foldl_change]
  · intro field
    rw [built, built, ← get_foldl_change_filter _ others, same, get_foldl_change_filter]

/-! ### Names -/

/-- The names in a configuration are in normal form. -/
structure IsNormal (config : Config) : Prop where
  /-- Entry points have no blanks around them. -/
  implicitFiles : ∀ name ∈ config.implicitFiles, IsCleanName name
  /-- Nor have left-out directories. -/
  excludeDirs : ∀ name ∈ config.excludeDirs, IsCleanName name
  /-- Extensions have no dot in front and no blank behind. -/
  extensions : ∀ name ∈ config.extensions, IsExtension name

/-- The default names are in normal form. -/
theorem isNormal_ofRoot (root : RawPath) : (ofRoot root).IsNormal where
  implicitFiles _ := isCleanName_of_mem_defaultImplicitFiles
  excludeDirs _ h := absurd h Std.ExtTreeSet.not_mem_empty
  extensions _ := isExtension_of_mem_defaultExtensions

/-- A change keeps names in normal form, as it sets a field from names as they are typed. -/
theorem isNormal_change (h : config.IsNormal) (change : Change) :
    (config.change change).IsNormal := by
  cases change with
  | sourceRoot path => exact ⟨h.implicitFiles, h.excludeDirs, h.extensions⟩
  | extensions texts =>
    exact ⟨h.implicitFiles, h.excludeDirs, fun _ => isExtension_of_mem_extensionSet⟩
  | implicitFiles texts =>
    exact ⟨fun _ => isCleanName_of_mem_nameSet, h.excludeDirs, h.extensions⟩
  | excludeDirs texts =>
    exact ⟨h.implicitFiles, fun _ => isCleanName_of_mem_nameSet, h.extensions⟩
  | strategy strategy => exact ⟨h.implicitFiles, h.excludeDirs, h.extensions⟩

/-- So the names are in normal form after any changes. -/
theorem isNormal_built (root : RawPath) (changes : List Change) :
    (built root changes).IsNormal := by
  induction changes using List.reverseRecOn with
  | nil => exact isNormal_ofRoot root
  | append_singleton changes change ih =>
    rw [built, List.foldl_append]
    exact isNormal_change ih change

/-- Entry points that are given back are the entry points. -/
theorem IsNormal.withImplicitFiles_toList (h : config.IsNormal) :
    config.withImplicitFiles config.implicitFiles.toList = config := by
  rw [withImplicitFiles, nameSet_toList h.implicitFiles]

/-- Left-out directories that are given back are the left-out directories. -/
theorem IsNormal.withExcludeDirs_toList (h : config.IsNormal) :
    config.withExcludeDirs config.excludeDirs.toList = config := by
  rw [withExcludeDirs, nameSet_toList h.excludeDirs]

/-- Extensions that are given back are the extensions exactly if none has a blank in front. -/
theorem IsNormal.withExtensions_toList_eq_iff (h : config.IsNormal) :
    config.withExtensions config.extensions.toList = config ↔
      ∀ name ∈ config.extensions, name.head?.any Text.isBlank = false := by
  rw [← extensionSet_toList_eq_iff h.extensions]
  constructor
  · intro same
    exact congrArg Config.extensions same
  · intro same
    rw [withExtensions, same]

/-! ### The configuration that is built -/

/-- What some changes make of the configuration of a root. Nothing in this says how the
configuration is computed: it is told field by field, and by what giving its names back would do. -/
structure IsBuiltBy (root : RawPath) (changes : List Change) (config : Config) : Prop where
  /-- The root is never changed. -/
  root_eq : config.root = root
  /-- A field holds what its last change has set it to. -/
  get_of_last : ∀ before change after, changes = before ++ change :: after →
    (∀ later ∈ after, later.field ≠ change.field) → config.get change.field = change.value
  /-- A field that is not changed holds what it holds for the root alone. -/
  get_of_unchanged : ∀ field, (∀ change ∈ changes, change.field ≠ field) →
    config.get field = (ofRoot root).get field
  /-- Only the order of the changes of each one field matters. -/
  eq_built : ∀ others : List Change,
    (∀ field, others.filter (·.field = field) = changes.filter (·.field = field)) →
    built root others = config
  /-- All names are in normal form. -/
  isNormal : config.IsNormal
  /-- Giving entry points and left-out directories back changes nothing. -/
  withImplicitFiles_eq : config.withImplicitFiles config.implicitFiles.toList = config
  /-- The same for left-out directories. -/
  withExcludeDirs_eq : config.withExcludeDirs config.excludeDirs.toList = config
  /-- Giving extensions back changes nothing exactly if none has a blank in front. -/
  withExtensions_eq_iff : config.withExtensions config.extensions.toList = config ↔
    ∀ name ∈ config.extensions, name.head?.any Text.isBlank = false

/-- **Building**: every configuration that is built from a root by changes is told by the last
change of each field, and holds names in normal form.  Nothing is asked of the texts that the
changes are made of. They may be empty, all blank, or the same name many times. -/
theorem built_isBuiltBy (root : RawPath) (changes : List Change) :
    IsBuiltBy root changes (built root changes) := by
  have normal := isNormal_built root changes
  exact {
    root_eq := root_foldl_change (ofRoot root) changes
    get_of_last := by
      rintro before change after rfl ne
      exact get_built_of_last ne
    get_of_unchanged := fun field ne => get_foldl_change_of_ne (ofRoot root) ne
    eq_built := fun others same => built_eq_of_filter_eq same
    isNormal := normal
    withImplicitFiles_eq := normal.withImplicitFiles_toList
    withExcludeDirs_eq := normal.withExcludeDirs_toList
    withExtensions_eq_iff := normal.withExtensions_toList_eq_iff }

end Orphans.Config
