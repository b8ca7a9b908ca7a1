import Orphans.FileTree.Change
import Orphans.Proofs.Access
import Orphans.Proofs.Outline

/-!
# Another content in a file

Writing into a file leaves the outline of the file system as it is (`FileSystem.outline_write`), so
every path leads where it led before, and it leaves what is read at every path that leads elsewhere
(`FileSystem.readText?_write`).

Both go down the way to the file by induction on its names (`FileTree.outline_put_file`,
`FileTree.content?_get?_put_file`). What is at stake at every directory on the way is that setting
one entry leaves the others (`lookup_setEntry_of_ne`), and that the entry which is set is the one
that was looked up: for that the tree has to be well-formed.
-/

namespace Orphans

namespace FileTree

/-! ### Another content in a tree -/

/-- The content of a file. -/
def content? : FileTree → Option Bytes
  | file content => some content
  | _ => none

/-- Setting one name leaves what stands under the others, whether the name is new or takes the place
of another entry. -/
theorem lookup_setEntry_of_ne {name other : Bytes} (ne : other ≠ name) (tree : FileTree)
    (entries : List (Bytes × FileTree)) :
    (setEntry name tree entries).lookup other = entries.lookup other := by
  have kept : (entries.map fun entry => if entry.1 = name then (name, tree) else entry).lookup
      other = entries.lookup other := by
    induction entries with
    | nil => rfl
    | cons entry rest ih =>
      rw [List.map_cons, List.lookup_cons, List.lookup_cons, ih]
      by_cases h : entry.1 = name
      · rw [if_pos h, h, beq_eq_false_iff_ne.mpr ne]
      · rw [if_neg h]
  unfold setEntry
  split
  · exact kept
  · rw [List.lookup_append, List.lookup_cons, beq_eq_false_iff_ne.mpr ne, List.lookup_nil,
      Option.or_none]

/-- The outline of entries does not change when one of them is set to a tree with its outline. -/
theorem outlineEntries_setEntry {entries : List (Bytes × FileTree)}
    (nodup : (entries.map (·.1)).Nodup) {name : Bytes} {old new : FileTree}
    (hold : entries.lookup name = some old) (same : new.outline = old.outline) :
    outlineEntries (setEntry name new entries) = outlineEntries entries := by
  -- the entry is there, so it is replaced in its place
  have present : entries.any (·.1 = name) = true :=
    List.any_eq_true.mpr ⟨(name, old), mem_of_lookup_eq_some hold, by simp⟩
  unfold setEntry
  rw [if_pos present, outlineEntries_eq_map, outlineEntries_eq_map, List.map_map]
  apply List.map_congr_left
  intro entry hentry
  by_cases h : entry.1 = name
  · have hlookup := lookup_of_mem nodup (show (name, entry.2) ∈ entries from h ▸ hentry)
    obtain rfl : old = entry.2 := Option.some_inj.mp (hold.symm.trans hlookup)
    simp [h, same]
  · simp [h]

/-- Another content in a file of a tree leaves the outline as it is. The file is there already, so
nothing is made on the way. -/
theorem outline_put_file {tree : FileTree} (wellFormed : tree.WellFormed) {names : List Bytes}
    {old : Bytes} (hold : tree.get? names = some (.file old)) (new : Bytes) :
    (put (.file new) tree names).outline = tree.outline := by
  -- on the names of the way; a file or link on it would end it
  induction names generalizing tree with
  | nil =>
    cases hold
    rfl
  | cons name names ih =>
    rw [get?_cons, Option.bind_eq_some_iff] at hold
    obtain ⟨child, hchild, hold⟩ := hold
    have same := ih (wellFormed.of_mem_entries (mem_of_lookup_eq_some hchild)) hold
    rcases tree with content | target | entries
    · cases hchild
    · cases hchild
    · unfold put
      rw [hchild]
      exact congrArg dir (outlineEntries_setEntry wellFormed.nodup_entries hchild same)

/-- At the end of any other way the tree has the content that it had. The two ways go through the
same directories up to where they part, if they do. -/
theorem content?_get?_put_file {tree : FileTree} {names other : List Bytes} {old : Bytes}
    (hold : tree.get? names = some (.file old)) (new : Bytes) (ne : other ≠ names) :
    ((put (.file new) tree names).get? other).bind content? = (tree.get? other).bind content? := by
  induction names generalizing tree other with
  | nil =>
    cases hold
    rcases other with _ | ⟨name, other⟩
    · contradiction
    · rfl
  | cons name names ih =>
    rw [get?_cons, Option.bind_eq_some_iff] at hold
    obtain ⟨child, hchild, hold⟩ := hold
    rcases tree with content | target | entries
    · cases hchild
    · cases hchild
    · rcases other with _ | ⟨name', other⟩
      · rfl
      · unfold put
        rw [hchild, get?_cons, get?_cons]
        dsimp only [FileTree.entries, Option.getD_some]
        -- the two ways go through the same entry, or part here
        by_cases h : name' = name
        · subst h
          rw [lookup_setEntry]
          have hlookup : entries.lookup name' = some child := hchild
          rw [hlookup]
          exact ih hold fun e => ne (by rw [e])
        · rw [lookup_setEntry_of_ne h]

end FileTree

/-! ### Another content in a file system -/

namespace FileSystem

variable {fs : FileSystem} {p q : RawPath} {old : Bytes}

/-- Writing into a file leaves the outline as it is. -/
theorem outline_write (wellFormed : fs.top.WellFormed) (h : fs.stat? p = some (.file old))
    (new : Bytes) : (fs.write p new).outline = fs.outline := by
  obtain ⟨position, hp, hold⟩ := exists_resolve_of_stat? h
  unfold write outline
  rw [hp]
  dsimp only
  rw [FileTree.outline_put_file wellFormed hold]

/-- Every path leads where it led before. -/
theorem resolve_write (wellFormed : fs.top.WellFormed) (h : fs.stat? p = some (.file old))
    (new : Bytes) : (fs.write p new).resolve q = fs.resolve q := by
  rw [← resolve_outline, outline_write wellFormed h, resolve_outline]

/-- What is read at a path is the content of what it leads to, if that has one and it is a text. -/
theorem readText?_eq_bind (fs : FileSystem) (q : RawPath) :
    fs.readText? q = ((fs.stat? q).bind FileTree.content?).bind Utf8.decode? := by
  unfold readText?
  rcases fs.stat? q with _ | content | target | entries <;> rfl

/-- Elsewhere the same is read as before. Links are followed in the outline, which writing does not
change, so a path leads to where it led. -/
theorem readText?_write (wellFormed : fs.top.WellFormed) (h : fs.stat? p = some (.file old))
    (new : Bytes) (elsewhere : fs.resolve q ≠ fs.resolve p) :
    (fs.write p new).readText? q = fs.readText? q := by
  obtain ⟨position, hp, hold⟩ := exists_resolve_of_stat? h
  have content : ((fs.write p new).stat? q).bind FileTree.content? =
      (fs.stat? q).bind FileTree.content? := by
    unfold stat?
    rw [resolve_write wellFormed h]
    rcases hq : fs.resolve q with error | other
    · rfl
    · have ne : other ≠ position := by
        rintro rfl
        exact elsewhere (hq.trans hp.symm)
      unfold write
      rw [hp]
      exact FileTree.content?_get?_put_file hold new ne
  rw [readText?_eq_bind, readText?_eq_bind, content]

end FileSystem

end Orphans
