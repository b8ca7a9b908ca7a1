import Orphans.RawPath
import Orphans.FileTree

/-!
# Well-formed trees

A tree that stands on a disk has directories whose entries have different names, and every name is
one that a path can be written with. Nothing in the definition of a tree says so, as a tree is built
up entry by entry; what is proved about runs asks for it where it is needed, mostly to know that an
entry is found under its name (`FileTree.lookup_of_mem`).

Whether a tree is well-formed can be decided, so a concrete tree is shown to be by evaluation.
-/

namespace Orphans

/-- A name that an entry of a directory can have. -/
structure IsName (name : Bytes) : Prop where
  ne_nil : name ≠ []
  ne_dot : name ≠ [dot]
  ne_dots : name ≠ [dot, dot]
  slash_not_mem : slash ∉ name

instance (name : Bytes) : Decidable (IsName name) :=
  decidable_of_iff (name ≠ [] ∧ name ≠ [dot] ∧ name ≠ [dot, dot] ∧ slash ∉ name)
    ⟨fun ⟨h₁, h₂, h₃, h₄⟩ => ⟨h₁, h₂, h₃, h₄⟩, fun ⟨h₁, h₂, h₃, h₄⟩ => ⟨h₁, h₂, h₃, h₄⟩⟩

namespace FileTree

/-- In every directory of the tree the entries have names, and no two have the same. -/
inductive WellFormed : FileTree → Prop
  | file (content : Bytes) : WellFormed (.file content)
  | link (target : Bytes) : WellFormed (.link target)
  /-- Names are asked for in this directory and in all below it. -/
  | dir {entries : List (Bytes × FileTree)} (nodup : (entries.map (·.1)).Nodup)
      (isName : ∀ entry ∈ entries, IsName entry.1)
      (below : ∀ entry ∈ entries, WellFormed entry.2) : WellFormed (.dir entries)

namespace WellFormed

variable {tree : FileTree}

/-- The entries of a well-formed tree have different names. -/
theorem nodup_entries (h : tree.WellFormed) : (tree.entries.map (·.1)).Nodup := by
  cases h with
  | file content => exact List.nodup_nil
  | link target => exact List.nodup_nil
  | dir nodup _ _ => exact nodup

/-- The entries of a well-formed tree have names. -/
theorem isName_of_mem_entries (h : tree.WellFormed) {entry : Bytes × FileTree}
    (hentry : entry ∈ tree.entries) : IsName entry.1 := by
  cases h with
  | file content => cases hentry
  | link target => cases hentry
  | dir _ isName _ => exact isName entry hentry

/-- The entries of a well-formed tree are well-formed. -/
theorem of_mem_entries (h : tree.WellFormed) {entry : Bytes × FileTree}
    (hentry : entry ∈ tree.entries) : entry.2.WellFormed := by
  cases h with
  | file content => cases hentry
  | link target => cases hentry
  | dir _ _ below => exact below entry hentry

end WellFormed

/-- A directory is well-formed if its names are different and its entries have names and are
well-formed: the form that can be decided. -/
theorem wellFormed_dir_iff {entries : List (Bytes × FileTree)} :
    (dir entries).WellFormed ↔
      (entries.map (·.1)).Nodup ∧ ∀ entry ∈ entries, IsName entry.1 ∧ entry.2.WellFormed := by
  constructor
  · intro h
    exact ⟨h.nodup_entries, fun entry hentry =>
      ⟨h.isName_of_mem_entries hentry, h.of_mem_entries hentry⟩⟩
  · rintro ⟨nodup, h⟩
    exact .dir nodup (fun entry hentry => (h entry hentry).1) fun entry hentry => (h entry hentry).2

mutual

/-- Whether a tree is well-formed can be read off it. -/
def decideWellFormed : (tree : FileTree) → Decidable tree.WellFormed
  | file content => isTrue (.file content)
  | link target => isTrue (.link target)
  | dir entries =>
    have := decideEntries entries
    decidable_of_iff _ wellFormed_dir_iff.symm

/-- Whether all entries have names and are well-formed. -/
def decideEntries : (entries : List (Bytes × FileTree)) →
    Decidable (∀ entry ∈ entries, IsName entry.1 ∧ entry.2.WellFormed)
  | [] => isTrue fun _ h => absurd h List.not_mem_nil
  | (name, tree) :: rest =>
    have := decideWellFormed tree
    have := decideEntries rest
    decidable_of_iff ((IsName name ∧ tree.WellFormed) ∧
      ∀ entry ∈ rest, IsName entry.1 ∧ entry.2.WellFormed) (by rw [List.forall_mem_cons])

end

instance (tree : FileTree) : Decidable tree.WellFormed :=
  decideWellFormed tree

/-- What a name is looked up as is one of the entries. -/
theorem mem_of_lookup_eq_some {name : Bytes} {tree : FileTree} {entries : List (Bytes × FileTree)}
    (h : entries.lookup name = some tree) : (name, tree) ∈ entries := by
  induction entries with
  | nil => cases h
  | cons entry rest ih =>
    rcases entry with ⟨other, old⟩
    rw [List.lookup_cons] at h
    split at h
    · next same =>
      obtain rfl : name = other := by simpa using same
      cases h
      exact List.mem_cons_self
    · exact List.mem_cons_of_mem _ (ih h)

/-- Where the names are different, every entry is found under its name. -/
theorem lookup_of_mem {entries : List (Bytes × FileTree)} (nodup : (entries.map (·.1)).Nodup)
    {name : Bytes} {tree : FileTree} (h : (name, tree) ∈ entries) :
    entries.lookup name = some tree := by
  induction entries with
  | nil => cases h
  | cons entry rest ih =>
    obtain ⟨absent, nodup⟩ := List.nodup_cons.mp nodup
    rcases List.mem_cons.mp h with rfl | h
    · simp
    · have ne : name ≠ entry.1 := by
        rintro rfl
        exact absent (List.mem_map.mpr ⟨_, h, rfl⟩)
      rw [List.lookup_cons, beq_eq_false_iff_ne.mpr ne]
      exact ih nodup h

/-- What stands in a well-formed tree is well-formed. -/
theorem WellFormed.get? {tree found : FileTree} {names : List Bytes} (h : tree.WellFormed)
    (hfound : tree.get? names = some found) : found.WellFormed := by
  induction names generalizing tree with
  | nil =>
    cases hfound
    exact h
  | cons name names ih =>
    rw [get?_cons, Option.bind_eq_some_iff] at hfound
    obtain ⟨child, hchild, hfound⟩ := hfound
    exact ih (h.of_mem_entries (mem_of_lookup_eq_some hchild)) hfound

/-- A way that leads somewhere goes through names. -/
theorem WellFormed.isName_of_get? {tree found : FileTree} {names : List Bytes} (h : tree.WellFormed)
    (hfound : tree.get? names = some found) : ∀ name ∈ names, IsName name := by
  induction names generalizing tree with
  | nil => exact fun _ hname => absurd hname List.not_mem_nil
  | cons name names ih =>
    rw [get?_cons, Option.bind_eq_some_iff] at hfound
    obtain ⟨child, hchild, hfound⟩ := hfound
    have hentry := mem_of_lookup_eq_some hchild
    exact List.forall_mem_cons.mpr
      ⟨h.isName_of_mem_entries hentry, ih (h.of_mem_entries hentry) hfound⟩

end FileTree

end Orphans
