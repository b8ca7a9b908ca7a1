import Orphans.Analysis
import Orphans.Proofs.Leaf
import Orphans.Proofs.Resolution
import Orphans.Proofs.Write

/-!
# The order of the entries of directories

`Analysis.run_eq_of_reordered`: a run gives the same analysis in whatever order the directories of a
tree have their entries. At every place of the reordered tree stands what stood there, up to the
order of entries (`FileTree.Reordered.rel_get?`), so paths lead where they led and the same is read
there. And the walk has the same leaves (`FileTree.Reordered.leaves_eq`), because it sorts the
entries of every directory by their names, which are different.

Reordering is a relation with four constructors, of which two do something: the entries of one
directory come in another order, or an entry is reordered in its place. So every proof about it is
an induction in which these are the two interesting cases. What a path leads to may itself be
reordered, so what is found in the two trees is compared by `Option.Rel` and not by equality, and
only in the end, for contents and kinds, it comes to the same.
-/

namespace Orphans

namespace FileTree

/-- One tree is the other one with the entries of directories put in another order, anywhere in the
tree. -/
inductive Reordered : FileTree → FileTree → Prop
  | refl (tree : FileTree) : Reordered tree tree
  | trans {first second third : FileTree} : Reordered first second → Reordered second third →
      Reordered first third
  /-- The entries of a directory come in another order. -/
  | shuffled {entries entries' : List (Bytes × FileTree)} : entries.Perm entries' →
      Reordered (.dir entries) (.dir entries')
  /-- An entry of a directory is reordered in its place. -/
  | inside (before after : List (Bytes × FileTree)) (name : Bytes) {tree tree' : FileTree} :
      Reordered tree tree' →
      Reordered (.dir (before ++ (name, tree) :: after)) (.dir (before ++ (name, tree') :: after))

namespace Reordered

variable {tree tree' : FileTree}

/-! ### Entries and what they are -/

/-- A reordered tree is well-formed if the tree is: what is asked of entries does not depend on
their order. -/
theorem wellFormed (h : Reordered tree tree') (wf : tree.WellFormed) : tree'.WellFormed := by
  induction h with
  | refl tree => exact wf
  | trans _ _ ih ih' => exact ih' (ih wf)
  | shuffled perm =>
    refine .dir ((perm.map _).nodup_iff.mp wf.nodup_entries) ?_ ?_
    · exact fun entry hentry => wf.isName_of_mem_entries (perm.mem_iff.mpr hentry)
    · exact fun entry hentry => wf.of_mem_entries (perm.mem_iff.mpr hentry)
  | inside before after name _ ih =>
    rw [wellFormed_dir_iff, List.map_append, List.map_cons, List.forall_mem_append,
      List.forall_mem_cons] at wf ⊢
    obtain ⟨nodup, hbefore, ⟨isName, wf⟩, hafter⟩ := wf
    exact ⟨nodup, hbefore, ⟨isName, ih wf⟩, hafter⟩

/-- Only directories become other trees. -/
theorem eq_or_exists_dir (h : Reordered tree tree') :
    tree = tree' ∨ ∃ entries entries', tree = dir entries ∧ tree' = dir entries' := by
  induction h with
  | refl tree => exact .inl rfl
  | trans _ _ ih ih' =>
    rcases ih with rfl | ⟨entries, _, rfl, rfl⟩
    · exact ih'
    · rcases ih' with rfl | ⟨_, entries', -, rfl⟩
      · exact .inr ⟨_, _, rfl, rfl⟩
      · exact .inr ⟨_, _, rfl, rfl⟩
  | shuffled _ => exact .inr ⟨_, _, rfl, rfl⟩
  | inside _ _ _ _ => exact .inr ⟨_, _, rfl, rfl⟩

/-- Reordering keeps the kind of a tree. -/
theorem kind_eq (h : Reordered tree tree') : tree.kind = tree'.kind := by
  rcases h.eq_or_exists_dir with rfl | ⟨entries, entries', rfl, rfl⟩ <;> rfl

/-- It keeps the content of a file. -/
theorem content?_eq (h : Reordered tree tree') : tree.content? = tree'.content? := by
  rcases h.eq_or_exists_dir with rfl | ⟨entries, entries', rfl, rfl⟩ <;> rfl

/-- An entry of a well-formed directory is well-formed, wherever it is listed. -/
theorem wellFormed_of_inside {before after : List (Bytes × FileTree)} {name : Bytes}
    (wf : (dir (before ++ (name, tree) :: after)).WellFormed) : tree.WellFormed := by
  have here : (name, tree) ∈ (dir (before ++ (name, tree) :: after)).entries :=
    List.mem_append_right _ List.mem_cons_self
  exact wf.of_mem_entries here

/-! ### Places -/

/-- What is found is related to itself. -/
theorem rel_refl (found : Option FileTree) : Option.Rel Reordered found found := by
  rcases found with _ | tree
  · exact .none
  · exact .some (.refl tree)

/-- The relation goes over from one tree to the next. -/
theorem rel_trans {first second third : Option FileTree} (h : Option.Rel Reordered first second)
    (h' : Option.Rel Reordered second third) : Option.Rel Reordered first third := by
  cases h with
  | none => exact h'
  | some h =>
    cases h' with
    | some h' => exact .some (h.trans h')

/-- In both trees nothing is found, or something is that is the same up to reordering. -/
theorem eq_none_or_exists_of_rel {found found' : Option FileTree}
    (h : Option.Rel Reordered found found') :
    found = none ∧ found' = none ∨
      ∃ tree tree', found = some tree ∧ found' = some tree' ∧ Reordered tree tree' := by
  cases h with
  | none => exact .inl ⟨rfl, rfl⟩
  | some h => exact .inr ⟨_, _, rfl, rfl, h⟩

/-- Among entries with different names the order does not matter for what is found under a name. -/
theorem lookup_eq_of_perm {entries entries' : List (Bytes × FileTree)}
    (nodup : (entries.map (·.1)).Nodup) (perm : entries.Perm entries') (name : Bytes) :
    entries.lookup name = entries'.lookup name := by
  have nodup' : (entries'.map (·.1)).Nodup := (perm.map _).nodup_iff.mp nodup
  ext child
  constructor
  · exact fun h => lookup_of_mem nodup' (perm.mem_iff.mp (mem_of_lookup_eq_some h))
  · exact fun h => lookup_of_mem nodup (perm.mem_iff.mpr (mem_of_lookup_eq_some h))

/-- At every place stands what stood there, up to the order of entries. Names are looked up by the
first entry that has them, so that no two have the same is needed here. -/
theorem rel_get? (h : Reordered tree tree') (wf : tree.WellFormed) (names : List Bytes) :
    Option.Rel Reordered (tree.get? names) (tree'.get? names) := by
  -- on the reordering, for all places at once
  induction h generalizing names with
  | refl tree => exact rel_refl _
  | trans h _ ih ih' => exact rel_trans (ih wf names) (ih' (h.wellFormed wf) names)
  | @shuffled entries entries' perm =>
    rcases names with _ | ⟨name, names⟩
    · exact .some (.shuffled perm)
    · have nodup : (entries.map (·.1)).Nodup := wf.nodup_entries
      rw [get?_cons, get?_cons]
      dsimp only [FileTree.entries]
      rw [lookup_eq_of_perm nodup perm name]
      exact rel_refl _
  | inside before after name h ih =>
    rcases names with _ | ⟨other, names⟩
    · exact .some (.inside before after name h)
    · rw [get?_cons, get?_cons]
      dsimp only [FileTree.entries]
      -- the way goes through the entry that is reordered, or through another one
      rw [List.lookup_append, List.lookup_append, List.lookup_cons, List.lookup_cons]
      rcases before.lookup other with _ | child
      · rcases other == name with _ | _
        · exact rel_refl _
        · exact ih (wellFormed_of_inside wf) names
      · exact rel_refl _

/-- A file stands where it stood. -/
theorem get?_file (h : Reordered tree tree') (wf : tree.WellFormed) {names : List Bytes}
    {content : Bytes} (hfile : tree.get? names = some (.file content)) :
    tree'.get? names = some (.file content) := by
  have related := h.rel_get? wf names
  rw [hfile] at related
  rcases eq_none_or_exists_of_rel related with ⟨absurd, -⟩ | ⟨_, found, hfile, hfound, same⟩
  · cases absurd
  · cases hfile
    rcases same.eq_or_exists_dir with rfl | ⟨_, _, absurd, -⟩
    · exact hfound
    · cases absurd

/-! ### Leaves -/

variable (pruned : Bytes → Bool)

/-- The leaves of a directory do not depend on the order of its entries, as these are sorted. -/
theorem leaves_eq_of_perm {entries entries' : List (Bytes × FileTree)}
    (nodup : (entries.map (·.1)).Nodup) (perm : entries.Perm entries') :
    (dir entries).leaves pruned = (dir entries').leaves pruned := by
  rw [leaves_eq_flatMap, leaves_eq_flatMap]
  dsimp only [FileTree.entries]
  rw [mergeSort_names_eq_of_perm nodup perm]

/-- They stay the same when an entry is replaced by one with the same leaves. -/
theorem leaves_eq_of_leavesAs_eq {before after : List (Bytes × FileTree)} {name : Bytes}
    (same : tree.leavesAs pruned name = tree'.leavesAs pruned name) :
    (dir (before ++ (name, tree) :: after)).leaves pruned =
      (dir (before ++ (name, tree') :: after)).leaves pruned := by
  unfold leaves
  dsimp only [FileTree.entries]
  rw [groupedLeaves_eq_map, groupedLeaves_eq_map, List.map_append, List.map_append, List.map_cons,
    List.map_cons, same]

/-- A reordered entry has the same leaves in the same order. -/
theorem leavesAs_eq (h : Reordered tree tree') (wf : tree.WellFormed) (name : Bytes) :
    tree.leavesAs pruned name = tree'.leavesAs pruned name := by
  induction h generalizing name with
  | refl tree => rfl
  | trans h _ ih ih' => exact (ih wf name).trans (ih' (h.wellFormed wf) name)
  | @shuffled entries entries' perm =>
    have nodup : (entries.map (·.1)).Nodup := wf.nodup_entries
    rw [leavesAs_dir, leavesAs_dir, leaves_eq_of_perm pruned nodup perm]
  | inside before after other h ih =>
    rw [leavesAs_dir, leavesAs_dir,
      leaves_eq_of_leavesAs_eq pruned (ih (wellFormed_of_inside wf) other)]

/-- The walk through a reordered tree comes to the same leaves in the same order. -/
theorem leaves_eq (h : Reordered tree tree') (wf : tree.WellFormed) :
    tree.leaves pruned = tree'.leaves pruned := by
  induction h with
  | refl tree => rfl
  | trans h _ ih ih' => exact (ih wf).trans (ih' (h.wellFormed wf))
  | shuffled perm => exact leaves_eq_of_perm pruned wf.nodup_entries perm
  | inside before after name h _ =>
    exact leaves_eq_of_leavesAs_eq pruned (h.leavesAs_eq pruned (wellFormed_of_inside wf) name)

end Reordered

end FileTree

/-! ### Access -/

namespace FileSystem

/-- One file system is the other one with the entries of directories in another order. -/
structure Reordered (fs fs' : FileSystem) : Prop where
  workingDir_eq : fs.workingDir = fs'.workingDir
  top : fs.top.Reordered fs'.top

namespace Reordered

variable {fs fs' : FileSystem}

/-- Reordered file systems have entries of the same kinds at the same places. -/
theorem sameKinds (h : Reordered fs fs') (wf : fs.top.WellFormed) : SameKinds fs fs' where
  workingDir_eq := h.workingDir_eq
  kindAt?_eq := by
    intro position
    unfold kindAt?
    rcases FileTree.Reordered.eq_none_or_exists_of_rel (h.top.rel_get? wf position) with
      ⟨hnone, hnone'⟩ | ⟨tree, tree', htree, htree', same⟩
    · rw [hnone, hnone']
    · rw [htree, htree', Option.map_some, Option.map_some, same.kind_eq]

/-- A path leads to what it led to, up to the order of entries. -/
theorem rel_stat? (h : Reordered fs fs') (wf : fs.top.WellFormed) (p : RawPath) :
    Option.Rel FileTree.Reordered (fs.stat? p) (fs'.stat? p) := by
  unfold stat?
  rw [(h.sameKinds wf).resolve_eq p]
  rcases fs'.resolve p with error | position
  · exact .none
  · exact h.top.rel_get? wf position

/-- The same is read at every path. -/
theorem readText?_eq (h : Reordered fs fs') (wf : fs.top.WellFormed) (p : RawPath) :
    fs.readText? p = fs'.readText? p := by
  rw [readText?_eq_bind, readText?_eq_bind]
  rcases FileTree.Reordered.eq_none_or_exists_of_rel (h.rel_stat? wf p) with
    ⟨hnone, hnone'⟩ | ⟨tree, tree', htree, htree', same⟩
  · rw [hnone, hnone']
  · rw [htree, htree', Option.bind_some, Option.bind_some, same.content?_eq]

end Reordered

end FileSystem

/-! ### Runs -/

variable {fs fs' : FileSystem} {config : Config}

namespace Corpus

/-- A run looks at the same paths below two directories with the same leaves. -/
theorem pathsBelow_eq_of_reordered (h : fs.Reordered fs') (wf : fs.top.WellFormed)
    {root root' : FileTree} (same : root.leaves config.prunes = root'.leaves config.prunes) :
    pathsBelow fs config root = pathsBelow fs' config root' := by
  unfold pathsBelow
  simp only [same, (h.sameKinds wf).leadsToDirectory_eq]

/-- A run looks at the same paths, in the same order: the walk sorts what it finds in a directory.
-/
theorem paths_eq_of_reordered (h : fs.Reordered fs') (wf : fs.top.WellFormed) :
    paths fs config = paths fs' config := by
  unfold paths
  rcases FileTree.Reordered.eq_none_or_exists_of_rel (h.rel_stat? wf config.root) with
    ⟨hnone, hnone'⟩ | ⟨root, root', hroot, hroot', same⟩
  · rw [hnone, hnone']
  · obtain ⟨position, -, hplace⟩ := FileSystem.exists_resolve_of_stat? hroot
    have leaves_eq := same.leaves_eq config.prunes (wf.get? hplace)
    rw [hroot, hroot']
    -- a root that is no directory is the same in both
    rcases same.eq_or_exists_dir with rfl | ⟨entries, entries', rfl, rfl⟩
    · rcases root with content | target | entries
      · rfl
      · rfl
      · exact pathsBelow_eq_of_reordered h wf leaves_eq
    · exact pathsBelow_eq_of_reordered h wf leaves_eq

/-- A run has the same corpus. -/
theorem collect_eq_of_reordered (h : fs.Reordered fs') (wf : fs.top.WellFormed) :
    collect fs config = collect fs' config := by
  unfold collect
  rw [paths_eq_of_reordered h wf]

end Corpus

/-- A run does not depend on the order of the entries of directories. -/
theorem Analysis.run_eq_of_reordered (h : fs.Reordered fs') (wf : fs.top.WellFormed) :
    run fs config = run fs' config := by
  have texts_eq (corpus : Corpus) : texts fs corpus = texts fs' corpus := by
    unfold texts
    simp only [h.readText?_eq wf]
  unfold run
  simp only [Corpus.collect_eq_of_reordered h wf, texts_eq]

end Orphans
