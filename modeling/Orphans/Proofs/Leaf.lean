import Orphans.FileTree.Leaf
import Orphans.FileTree.WellFormed

/-!
# The order of the leaves

`FileTree.pairwise_leaves`: the leaves of a well-formed tree come in the lexicographic order of the
names on the way to them, each strictly before the next. The entries of one directory are sorted by
name only, so the order is carried from the entries to the tree by an induction in which all leaves
of one entry begin with its name. At the end of the names stands the leaf
(`FileTree.exists_get?_of_mem_leaves`).

Walking a tree is defined by two functions that call each other, one for an entry and one for a list
of entries. `FileTree.groupedLeaves_eq_map`, `leavesAs_dir` and `leaves_eq_flatMap` say once what
they come to, the leaves of the sorted entries one after the other, and no later proof opens them.
Inductions go over the proof that the tree is well-formed, which has a case for each kind of entry.
-/

namespace Orphans

/-- Whether a leaf comes strictly before another one: the names on the way are compared from the
top, byte by byte. Where one name is the beginning of another, the shorter one comes first. -/
def Leaf.Before (a b : Leaf) : Prop :=
  compare a.names b.names = .lt

namespace Leaf

/-- Leaves under different names are in the order of these names. -/
theorem before_of_lt {a b : Leaf} {name name' : Bytes} {rest rest' : List Bytes}
    (ha : a.names = name :: rest) (hb : b.names = name' :: rest') (h : compare name name' = .lt) :
    a.Before b := by
  unfold Before
  rw [ha, hb, List.compare_cons_cons, h]
  rfl

/-- Leaves under the same name are in the order that they have there. -/
theorem before_under_iff {a b : Leaf} (name : Bytes) :
    (a.under name).Before (b.under name) ↔ a.Before b := by
  unfold Before under
  rw [List.compare_cons_cons, Std.compare_self]
  rfl

end Leaf

namespace FileTree

variable {pruned : Bytes → Bool} {entries : List (Bytes × FileTree)} {leaf : Leaf}

/-! ### The leaves of a directory -/

/-- The leaves of entries are grouped entry by entry, under the names of the entries. -/
theorem groupedLeaves_eq_map (pruned : Bytes → Bool) (entries : List (Bytes × FileTree)) :
    groupedLeaves pruned entries =
      entries.map fun entry => (entry.1, entry.2.leavesAs pruned entry.1) := by
  induction entries with
  | nil => rfl
  | cons entry rest ih => rw [groupedLeaves, ih, List.map_cons]

/-- The leaves of a directory that is not pruned are its leaves as a root, seen from one name above.
-/
theorem leavesAs_dir (pruned : Bytes → Bool) (name : Bytes) (entries : List (Bytes × FileTree)) :
    (dir entries).leavesAs pruned name =
      if pruned name then [] else ((dir entries).leaves pruned).map (.under name) := by
  rw [leavesAs]
  rfl

/-- The leaves of a tree are those of its entries, one entry after the other. -/
theorem leaves_eq_flatMap (pruned : Bytes → Bool) (tree : FileTree) :
    tree.leaves pruned =
      (tree.entries.mergeSort fun a b => nameLE a.1 b.1).flatMap fun entry =>
        entry.2.leavesAs pruned entry.1 := by
  have sorted : (groupedLeaves pruned tree.entries).mergeSort (fun a b => nameLE a.1 b.1) =
      (tree.entries.mergeSort fun a b => nameLE a.1 b.1).map fun entry =>
        (entry.1, entry.2.leavesAs pruned entry.1) := by
    rw [groupedLeaves_eq_map]
    symm
    apply List.map_mergeSort
    intro a _ b _
    rfl
  unfold leaves gather
  rw [sorted, List.flatMap_map]

/-- Which leaves a directory has does not depend on the order of its entries. -/
theorem mem_leaves_iff {tree : FileTree} :
    leaf ∈ tree.leaves pruned ↔
      ∃ entry ∈ tree.entries, leaf ∈ entry.2.leavesAs pruned entry.1 := by
  rw [leaves_eq_flatMap, List.mem_flatMap]
  simp only [List.mem_mergeSort]

/-- The names on the way to a leaf of an entry begin with the name of the entry. -/
theorem names_of_mem_leavesAs {tree : FileTree} {name : Bytes}
    (h : leaf ∈ tree.leavesAs pruned name) : ∃ rest, leaf.names = name :: rest := by
  rcases tree with content | target | entries
  · obtain rfl := List.mem_singleton.mp h
    exact ⟨[], rfl⟩
  · obtain rfl := List.mem_singleton.mp h
    exact ⟨[], rfl⟩
  · rw [leavesAs_dir] at h
    split at h
    · cases h
    · obtain ⟨below, -, rfl⟩ := List.mem_map.mp h
      exact ⟨below.names, rfl⟩

/-! ### Order -/

/-- Any two names can be put in order, so sorting by names sorts. -/
theorem nameLE_total (a b : Bytes) : (nameLE a b || nameLE b a) = true := by
  unfold nameLE
  rw [Std.OrientedOrd.eq_swap (a := b)]
  cases compare a b <;> rfl

/-- Different names in order are strictly in order. -/
theorem compare_eq_lt_of_nameLE {a b : Bytes} (h : nameLE a b = true) (ne : a ≠ b) :
    compare a b = .lt := by
  unfold nameLE at h
  rcases hc : compare a b with _ | _ | _
  · rfl
  · exact absurd (Std.LawfulEqOrd.eq_of_compare hc) ne
  · rw [hc] at h
    cases h

/-- Sorting what has different names puts each name strictly before the next. -/
theorem pairwise_mergeSort_names {α : Type} {named : List (Bytes × α)}
    (nodup : (named.map (·.1)).Nodup) :
    (named.mergeSort fun a b => nameLE a.1 b.1).Pairwise fun a b => compare a.1 b.1 = .lt := by
  have sorted : (named.mergeSort fun a b => nameLE a.1 b.1).Pairwise fun a b =>
      nameLE a.1 b.1 = true := by
    apply List.pairwise_mergeSort
    · intro a b c hab hbc
      exact Std.TransOrd.isLE_trans hab hbc
    · intro a b
      exact nameLE_total a.1 b.1
  have perm := (List.mergeSort_perm named fun a b => nameLE a.1 b.1).map (·.1)
  have different : (named.mergeSort fun a b => nameLE a.1 b.1).Pairwise fun a b => a.1 ≠ b.1 :=
    List.pairwise_map.mp (perm.nodup_iff.mpr nodup)
  exact (sorted.and different).imp fun h => compare_eq_lt_of_nameLE h.1 h.2

/-- Sorting what has different names leaves nothing of the order that it had. -/
theorem mergeSort_names_eq_of_perm {α : Type} {named named' : List (Bytes × α)}
    (nodup : (named.map (·.1)).Nodup) (perm : named.Perm named') :
    (named.mergeSort fun a b => nameLE a.1 b.1) = named'.mergeSort fun a b => nameLE a.1 b.1 := by
  have nodup' : (named'.map (·.1)).Nodup := (perm.map _).nodup_iff.mp nodup
  -- two lists with the same entries, both strictly increasing, are one list
  refine List.Perm.eq_of_pairwise ?_ (pairwise_mergeSort_names nodup)
    (pairwise_mergeSort_names nodup') ?_
  · intro a b _ _ hab hba
    rw [Std.OrientedOrd.eq_swap (a := a.1), hba] at hab
    cases hab
  · exact (List.mergeSort_perm _ _).trans (perm.trans (List.mergeSort_perm _ _).symm)

/-- The leaves of a directory are in order if those of each entry are. Leaves of different entries
are told apart by the first name on the way, and the entries are sorted by it. -/
theorem pairwise_gather (nodup : (entries.map (·.1)).Nodup)
    (each : ∀ entry ∈ entries, (entry.2.leavesAs pruned entry.1).Pairwise Leaf.Before) :
    (gather (groupedLeaves pruned entries)).Pairwise Leaf.Before := by
  have names : ((groupedLeaves pruned entries).map (·.1)).Nodup := by
    rw [groupedLeaves_eq_map, List.map_map]
    exact nodup
  have mem {group : Bytes × List Leaf}
      (h : group ∈ (groupedLeaves pruned entries).mergeSort fun a b => nameLE a.1 b.1) :
      ∃ entry ∈ entries, group = (entry.1, entry.2.leavesAs pruned entry.1) := by
    rw [List.mem_mergeSort, groupedLeaves_eq_map, List.mem_map] at h
    obtain ⟨entry, hentry, rfl⟩ := h
    exact ⟨entry, hentry, rfl⟩
  -- within a group by assumption, and from one group to a later one by the first name
  unfold gather
  rw [List.pairwise_flatMap]
  constructor
  · intro group hgroup
    obtain ⟨entry, hentry, rfl⟩ := mem hgroup
    exact each entry hentry
  · refine (pairwise_mergeSort_names names).imp_of_mem ?_
    intro group group' hgroup hgroup' hlt leaf hleaf leaf' hleaf'
    obtain ⟨entry, -, rfl⟩ := mem hgroup
    obtain ⟨entry', -, rfl⟩ := mem hgroup'
    obtain ⟨rest, hrest⟩ := names_of_mem_leavesAs hleaf
    obtain ⟨rest', hrest'⟩ := names_of_mem_leavesAs hleaf'
    exact Leaf.before_of_lt hrest hrest' hlt

/-- The leaves of an entry are in order, whatever it is called. -/
theorem pairwise_leavesAs {tree : FileTree} (h : tree.WellFormed) (name : Bytes) :
    (tree.leavesAs pruned name).Pairwise Leaf.Before := by
  -- on well-formedness, as the entries of a directory have to be well-formed for the induction
  induction h generalizing name with
  | file content => exact List.pairwise_singleton _ _
  | link target => exact List.pairwise_singleton _ _
  | dir nodup _ _ ih =>
    rw [leavesAs_dir]
    split
    · exact List.Pairwise.nil
    · refine List.pairwise_map.mpr (List.Pairwise.imp ?_ (pairwise_gather nodup ?_))
      · exact fun h => (Leaf.before_under_iff name).mpr h
      · exact fun entry hentry => ih entry hentry entry.1

/-- The leaves of a well-formed tree are in lexicographic order, each strictly before the next. -/
theorem pairwise_leaves {tree : FileTree} (h : tree.WellFormed) :
    (tree.leaves pruned).Pairwise Leaf.Before :=
  pairwise_gather h.nodup_entries fun entry hentry =>
    pairwise_leavesAs (h.of_mem_entries hentry) entry.1

/-- No way leads to two leaves. -/
theorem nodup_names_leaves {tree : FileTree} (h : tree.WellFormed) :
    ((tree.leaves pruned).map (·.names)).Nodup := by
  refine List.pairwise_map.mpr ((pairwise_leaves h).imp ?_)
  intro a b hab same
  unfold Leaf.Before at hab
  rw [same, Std.compare_self] at hab
  cases hab

/-! ### Names -/

/-- All names on the way to a leaf of an entry are names that entries can have, if that of the entry
is. -/
theorem isName_of_mem_leavesAs {tree : FileTree} (h : tree.WellFormed) {name : Bytes}
    (hname : IsName name) (hleaf : leaf ∈ tree.leavesAs pruned name) :
    ∀ n ∈ leaf.names, IsName n := by
  induction h generalizing name leaf with
  | file content =>
    obtain rfl := List.mem_singleton.mp hleaf
    simpa using hname
  | link target =>
    obtain rfl := List.mem_singleton.mp hleaf
    simpa using hname
  | dir _ isName _ ih =>
    rw [leavesAs_dir] at hleaf
    split at hleaf
    · cases hleaf
    · obtain ⟨below, hbelow, rfl⟩ := List.mem_map.mp hleaf
      obtain ⟨entry, hentry, hbelow⟩ := mem_leaves_iff.mp hbelow
      refine List.forall_mem_cons.mpr ⟨hname, ?_⟩
      exact ih entry hentry (isName entry hentry) hbelow

/-- The way to a leaf goes through at least one entry, and all of them have names. -/
theorem isName_of_mem_leaves {tree : FileTree} (h : tree.WellFormed)
    (hleaf : leaf ∈ tree.leaves pruned) : leaf.names ≠ [] ∧ ∀ n ∈ leaf.names, IsName n := by
  obtain ⟨entry, hentry, hleaf⟩ := mem_leaves_iff.mp hleaf
  obtain ⟨rest, hrest⟩ := names_of_mem_leavesAs hleaf
  refine ⟨by rw [hrest]; exact List.cons_ne_nil _ _, ?_⟩
  exact isName_of_mem_leavesAs (h.of_mem_entries hentry) (h.isName_of_mem_entries hentry) hleaf

/-! ### Places -/

/-- At the end of the way to a leaf of an entry stands no directory. The first name on the way is
that of the entry, so the rest of the way begins at the entry itself. -/
theorem exists_get?_of_mem_leavesAs {tree : FileTree} (h : tree.WellFormed) {name : Bytes}
    (hleaf : leaf ∈ tree.leavesAs pruned name) :
    ∃ rest found, leaf.names = name :: rest ∧ tree.get? rest = some found ∧
      ∀ entries, found ≠ .dir entries := by
  induction h generalizing name leaf with
  | file content =>
    obtain rfl := List.mem_singleton.mp hleaf
    exact ⟨[], .file content, rfl, rfl, fun _ => nofun⟩
  | link target =>
    obtain rfl := List.mem_singleton.mp hleaf
    exact ⟨[], .link target, rfl, rfl, fun _ => nofun⟩
  | dir nodup _ _ ih =>
    rw [leavesAs_dir] at hleaf
    split at hleaf
    · cases hleaf
    · obtain ⟨below, hbelow, rfl⟩ := List.mem_map.mp hleaf
      obtain ⟨entry, hentry, hbelow⟩ := mem_leaves_iff.mp hbelow
      obtain ⟨rest, found, hnames, hfound, notDir⟩ := ih entry hentry hbelow
      refine ⟨entry.1 :: rest, found, congrArg (name :: ·) hnames, ?_, notDir⟩
      -- the names in a directory are different, so looking one up gives the entry itself
      rw [get?_cons, entries, lookup_of_mem nodup hentry]
      exact hfound

/-- At the end of the way to a leaf stands a file or a link. -/
theorem exists_get?_of_mem_leaves {tree : FileTree} (h : tree.WellFormed)
    (hleaf : leaf ∈ tree.leaves pruned) :
    ∃ found, tree.get? leaf.names = some found ∧ ∀ entries, found ≠ .dir entries := by
  obtain ⟨entry, hentry, hleaf⟩ := mem_leaves_iff.mp hleaf
  obtain ⟨rest, found, hnames, hfound, notDir⟩ :=
    exists_get?_of_mem_leavesAs (h.of_mem_entries hentry) hleaf
  refine ⟨found, ?_, notDir⟩
  rw [hnames, get?_cons, lookup_of_mem h.nodup_entries hentry]
  exact hfound

end FileTree

end Orphans
