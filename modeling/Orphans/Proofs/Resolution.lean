import Orphans.FileTree.Access

/-!
# What decides where a path leads

Following a path asks of every place on the way only whether something stands there and whether that
is a file, a link with some target or a directory. So two file systems with entries of the same
kinds at the same places lead every path to the same place (`FileSystem.SameKinds.resolve_eq`),
whatever their files contain and in whatever order their directories are listed.

`advance_cons` says this of one step: it is the definition with all looking up replaced by
`kindAt?`. From it the equality goes up through all steps (`advance_eq`), all links (`follow_eq`)
and the whole path. That other contents or another order make file systems of the same kinds is
shown in `Orphans.Proofs.Outline` and `Orphans.Proofs.Reordering`.
-/

namespace Orphans

namespace FileTree

/-- What an entry is, apart from what a file contains and what a directory holds. -/
inductive Kind where
  /-- A regular file, whatever its content. -/
  | file
  /-- A link is known by its target, as that decides where paths lead. -/
  | link (target : Bytes)
  /-- A directory, whatever it holds. -/
  | dir

/-- Whether a kind is that of directories. -/
def Kind.isDir : Kind → Bool
  | dir => true
  | _ => false

/-- The kind of a tree. -/
def kind : FileTree → Kind
  | file _ => .file
  | link target => .link target
  | dir _ => .dir

/-- What stands under a name in a directory is what stands at the end of the way that goes on with
that name. -/
theorem get?_concat {tree : FileTree} {names : List Bytes} {entries : List (Bytes × FileTree)}
    (h : tree.get? names = some (.dir entries)) (name : Bytes) :
    tree.get? (names ++ [name]) = entries.lookup name := by
  rw [get?_append, h, Option.bind_some, get?_cons]
  exact Option.bind_fun_some _

end FileTree

namespace FileSystem

/-- The kind of what stands at a place, if something does. -/
def kindAt? (fs : FileSystem) (position : List Bytes) : Option FileTree.Kind :=
  (fs.top.get? position).map FileTree.kind

/-- One step, told by the kinds of what stands at two places: here, and at the name to be entered.
-/
theorem advance_cons (fs : FileSystem) (position : List Bytes) (step : Step) (rest : List Step) :
    fs.advance position (step :: rest) =
      match fs.kindAt? position with
      | some .dir =>
        match step with
        | .stay => fs.advance position rest
        | .up => fs.advance position.dropLast rest
        | .enter name =>
          match fs.kindAt? (position ++ [name]) with
          | none => .failed (missing name)
          | some (.link target) => .atLink position ⟨target⟩ rest
          | some _ => fs.advance (position ++ [name]) rest
      | _ => .failed .notDirectory := by
  unfold kindAt?
  rw [advance]
  rcases here : fs.top.get? position with _ | content | target | entries
  · rfl
  · rfl
  · rfl
  · rcases step with _ | _ | name
    · rfl
    · rfl
    · dsimp only [Option.map_some, FileTree.kind]
      rw [FileTree.get?_concat here]
      rcases entries.lookup name with _ | content | target | entries <;> rfl

/-- Whether a path leads to a directory is told by the place that it leads to and the kind of what
stands there. -/
theorem leadsToDirectory_eq_any (fs : FileSystem) (p : RawPath) :
    fs.leadsToDirectory p =
      (fs.resolve p).toOption.any fun position => (fs.kindAt? position).any (·.isDir) := by
  unfold leadsToDirectory stat? kindAt?
  rcases fs.resolve p with error | position
  · rfl
  · rw [Except.toOption, Option.any_some, Option.any_map]
    dsimp only
    rcases fs.top.get? position with _ | content | target | entries <;> rfl

/-- Two file systems have entries of the same kinds at the same places. No content is compared, and
nothing is said of the order of entries. -/
structure SameKinds (fs fs' : FileSystem) : Prop where
  workingDir_eq : fs.workingDir = fs'.workingDir
  kindAt?_eq : ∀ position, fs.kindAt? position = fs'.kindAt? position

namespace SameKinds

variable {fs fs' : FileSystem}

/-- Steps lead equally far in both before a link is met. -/
theorem advance_eq (h : SameKinds fs fs') (position : List Bytes) (steps : List Step) :
    fs.advance position steps = fs'.advance position steps := by
  induction steps generalizing position with
  | nil => rfl
  | cons step rest ih =>
    rw [advance_cons, advance_cons]
    simp only [h.kindAt?_eq, ih]

/-- Steps lead to the same place in both, with any number of links. -/
theorem follow_eq (h : SameKinds fs fs') (links : Nat) (position : List Bytes)
    (steps : List Step) : fs.follow links position steps = fs'.follow links position steps := by
  -- on the links that may be followed
  induction links generalizing position steps with
  | zero =>
    unfold follow
    rw [h.advance_eq]
  | succ links ih =>
    unfold follow
    rw [h.advance_eq]
    simp only [ih]

/-- A path leads to the same place in both. -/
theorem resolve_eq (h : SameKinds fs fs') (p : RawPath) : fs.resolve p = fs'.resolve p := by
  unfold resolve
  rw [h.follow_eq, h.workingDir_eq]

/-- A path leads to a directory in both or in neither. -/
theorem leadsToDirectory_eq (h : SameKinds fs fs') (p : RawPath) :
    fs.leadsToDirectory p = fs'.leadsToDirectory p := by
  rw [leadsToDirectory_eq_any, leadsToDirectory_eq_any, h.resolve_eq]
  simp only [h.kindAt?_eq]

end SameKinds

end FileSystem

end Orphans
