import Orphans.FileTree.Access
import Orphans.Proofs.RawPath

/-!
# Ways through directories

Steps that are taken after other steps are taken from where those led (`follow_append`), and names
without a link on the way lead straight down (`advance_enter`). So, below a directory, the path of
an entry that is no link leads to the place that its names say (`resolve_below`), and the path of
any entry names what stands there (`lstat?_below`).

The path of the directory may be spelled in any way and go through links; how many links it takes
does not matter, as names below it take no more. The four lemmas that begin with `follow_` and end
with what `advance` came to are the equations of `follow`, one for each way in which it can go on.
-/

namespace Orphans

/-! ### The steps of a path -/

namespace RawPath

/-- The steps of a path without the one that a slash at the end adds. -/
def way (p : RawPath) : List Step :=
  (p.bytes.splitOn slash).filterMap Step.ofPiece?

/-- A piece of a path that is the name of an entry asks to enter that entry. -/
theorem filterMap_ofPiece? {names : List Bytes} (h : ∀ name ∈ names, IsName name) :
    names.filterMap Step.ofPiece? = names.map .enter := by
  induction names with
  | nil => rfl
  | cons name names ih =>
    obtain ⟨hname, hnames⟩ := List.forall_mem_cons.mp h
    have piece : Step.ofPiece? name = some (.enter name) := by
      unfold Step.ofPiece?
      rw [if_neg hname.ne_nil, if_neg hname.ne_dot, if_neg hname.ne_dots]
    rw [List.filterMap_cons_some piece, ih hnames, List.map_cons]

/-- The steps to an entry below a directory go to the directory and then through the names. -/
theorem steps_below (p : RawPath) {names : List Bytes} (nonempty : names ≠ [])
    (h : ∀ name ∈ names, IsName name) :
    (p.below names).steps = p.way ++ names.map .enter := by
  have last : (p.below names).bytes.getLast? ≠ some slash := by
    obtain ⟨q, name, hname, hq⟩ := exists_below_eq_join p nonempty
    rw [hq]
    exact getLast?_bytes_join q (h name hname)
  unfold steps
  rw [if_neg last, List.append_nil, bytes_below p nonempty h, filterMap_splitOn_stemBytes rfl,
    List.splitOn_intercalate slash (fun name hname => (h name hname).slash_not_mem) nonempty,
    filterMap_ofPiece? h]
  rfl

end RawPath

namespace FileSystem

variable {fs : FileSystem} {p : RawPath} {links : Nat} {position reached names : List Bytes}
  {found : FileTree}

/-! ### Following links -/

/-- All steps were taken without a link. -/
theorem follow_of_arrived {steps : List Step} (h : fs.advance position steps = .arrived reached) :
    fs.follow links position steps = .ok reached := by
  unfold follow
  rw [h]

/-- A step could not be taken before any link was met. -/
theorem follow_of_failed {steps : List Step} {error : AccessError}
    (h : fs.advance position steps = .failed error) :
    fs.follow links position steps = .error error := by
  unfold follow
  rw [h]

/-- A link was met and no more links may be followed. -/
theorem follow_zero_of_atLink {steps rest : List Step} {target : RawPath}
    (h : fs.advance position steps = .atLink reached target rest) :
    fs.follow 0 position steps = .error .tooManyLinks := by
  unfold follow
  rw [h]

/-- A link was met: its target is read from the directory that holds it, and the steps that are left
come after those of the target. -/
theorem follow_succ_of_atLink {steps rest : List Step} {target : RawPath}
    (h : fs.advance position steps = .atLink reached target rest) :
    fs.follow (links + 1) position steps =
      fs.follow links (origin reached target) (target.steps ++ rest) := by
  rw [follow, h]

/-! ### Steps after steps -/

/-- More steps change nothing about how far the first ones lead before a link is met. If a link is
met, the steps that are left wait behind those that were left before. -/
theorem advance_append (fs : FileSystem) (position : List Bytes) (first rest : List Step) :
    fs.advance position (first ++ rest) =
      match fs.advance position first with
      | .arrived reached => fs.advance reached rest
      | .atLink reached target left => .atLink reached target (left ++ rest)
      | .failed error => .failed error := by
  -- on the first steps, from any place
  induction first generalizing position with
  | nil => rfl
  | cons step first ih =>
    rw [List.cons_append, advance, advance]
    rcases fs.top.get? position with _ | content | target | entries
    · rfl
    · rfl
    · rfl
    · rcases step with _ | _ | name
      · exact ih position
      · exact ih position.dropLast
      · dsimp only
        rcases entries.lookup name with _ | content | target | entries
        · rfl
        · exact ih (position ++ [name])
        · rfl
        · exact ih (position ++ [name])

/-- Steps after other steps are taken from where those led, with the links that are left; where the
first steps fail, all of them do. -/
theorem follow_append (fs : FileSystem) (links : Nat) (position : List Bytes)
    (first rest : List Step) :
    (∃ reached left, fs.follow links position first = .ok reached ∧
        fs.follow links position (first ++ rest) = fs.follow left reached rest) ∨
      ∃ error, fs.follow links position first = .error error ∧
        fs.follow links position (first ++ rest) = .error error := by
  -- on the links that may be followed; after a link its target is part of the first steps
  induction links generalizing position first with
  | zero =>
    have whole := fs.advance_append position first rest
    rcases h : fs.advance position first with reached | ⟨reached, target, left⟩ | error
    · rw [h] at whole
      refine .inl ⟨reached, 0, follow_of_arrived h, ?_⟩
      unfold follow
      rw [whole]
    · rw [h] at whole
      exact .inr ⟨.tooManyLinks, follow_zero_of_atLink h, follow_zero_of_atLink whole⟩
    · rw [h] at whole
      exact .inr ⟨error, follow_of_failed h, follow_of_failed whole⟩
  | succ links ih =>
    have whole := fs.advance_append position first rest
    rcases h : fs.advance position first with reached | ⟨reached, target, left⟩ | error
    · rw [h] at whole
      refine .inl ⟨reached, links + 1, follow_of_arrived h, ?_⟩
      unfold follow
      rw [whole]
    · rw [h] at whole
      rw [follow_succ_of_atLink h, follow_succ_of_atLink whole, ← List.append_assoc]
      exact ih _ _
    · rw [h] at whole
      exact .inr ⟨error, follow_of_failed h, follow_of_failed whole⟩

/-- A slash at the end of the path of a directory leads to that directory. Where no directory stands
it is an error, so it never leads anywhere else. -/
theorem eq_of_follow_stay (h : fs.follow links position [.stay] = .ok reached) :
    reached = position := by
  have stay : fs.advance position [.stay] = .arrived position ∨
      fs.advance position [.stay] = .failed .notDirectory := by
    rw [advance]
    rcases fs.top.get? position with _ | content | target | entries
    · exact .inr rfl
    · exact .inr rfl
    · exact .inr rfl
    · exact .inl rfl
  rcases stay with stay | stay
  · rw [follow_of_arrived stay] at h
    exact (Except.ok.inj h).symm
  · rw [follow_of_failed stay] at h
    cases h

/-! ### Straight down -/

/-- Names that lead to something that is no link are taken without following a link. A link on the
way would have nothing below it, so only the last name has to be asked about. -/
theorem advance_enter (hfound : fs.top.get? (position ++ names) = some found)
    (notLink : found.isLink = false) :
    fs.advance position (names.map .enter) = .arrived (position ++ names) := by
  -- on the names, from any place
  induction names generalizing position with
  | nil => rw [List.map_nil, List.append_nil, advance]
  | cons name names ih =>
    have next : fs.top.get? ((position ++ [name]) ++ names) = some found := by
      rw [List.append_assoc]
      exact hfound
    have rest := ih next
    rw [FileTree.get?_append, Option.bind_eq_some_iff] at hfound
    obtain ⟨here, hhere, hfound⟩ := hfound
    rw [FileTree.get?_cons, Option.bind_eq_some_iff] at hfound
    obtain ⟨child, hchild, hfound⟩ := hfound
    rw [List.map_cons, advance, hhere, List.append_cons position]
    rcases here with content | target | entries
    · cases hchild
    · cases hchild
    · dsimp only [FileTree.entries] at hchild ⊢
      rw [hchild]
      rcases child with content | target | entries
      · exact rest
      · -- nothing stands below a link, so it would be the last entry
        rcases names with _ | ⟨name, names⟩
        · obtain rfl := Option.some_inj.mp hfound
          cases notLink
        · cases hfound
      · exact rest

/-- So no link is followed on such a way, however many may be. -/
theorem follow_enter (hfound : fs.top.get? (position ++ names) = some found)
    (notLink : found.isLink = false) :
    fs.follow links position (names.map .enter) = .ok (position ++ names) :=
  follow_of_arrived (advance_enter hfound notLink)

/-! ### What a path names -/

/-- A path that leads to something leads to a place in the tree. -/
theorem exists_resolve_of_stat? (h : fs.stat? p = some found) :
    ∃ position, fs.resolve p = .ok position ∧ fs.top.get? position = some found := by
  unfold stat? at h
  rcases hp : fs.resolve p with error | position
  · rw [hp] at h
    cases h
  · rw [hp] at h
    exact ⟨position, rfl, h⟩

/-- What a path names that ends with a name: the last step is not taken, but looked up where the
steps before it lead. -/
theorem lstat?_eq {before : List Step} {name : Bytes} (h : p.steps = before ++ [.enter name]) :
    fs.lstat? p =
      match fs.follow maxLinks (origin fs.workingDir p) before with
      | .ok position => fs.top.get? (position ++ [name])
      | .error _ => none := by
  rcases hfollow : fs.follow maxLinks (origin fs.workingDir p) before with error | position
  · simp [lstat?, h, hfollow]
  · simp [lstat?, h, hfollow]

/-- What a path names is what it leads to, if that is no link. The two ways differ only in the last
step, and only where it would meet a link. -/
theorem stat?_of_lstat? (h : fs.lstat? p = some found)
    (notLink : found.isLink = false) : fs.stat? p = some found := by
  -- a path whose last step is not a name names what it leads to, by definition
  rcases hlast : p.steps.getLast? with _ | _ | _ | name
  · rwa [lstat?, hlast] at h
  · rwa [lstat?, hlast] at h
  · rwa [lstat?, hlast] at h
  · obtain ⟨before, hbefore⟩ := List.getLast?_eq_some_iff.mp hlast
    have nonempty : p.bytes ≠ [] := by
      intro empty
      rw [RawPath.steps, empty] at hlast
      cases hlast
    rw [lstat?_eq hbefore] at h
    have steps : p.steps = before ++ [name].map .enter := hbefore
    unfold stat? resolve
    rw [if_neg nonempty, steps]
    rcases fs.follow_append maxLinks (origin fs.workingDir p) before ([name].map .enter) with
      ⟨reached, left, hreached, hrest⟩ | ⟨error, herror, -⟩
    · rw [hreached] at h
      rw [hrest, follow_enter h notLink]
      exact h
    · rw [herror] at h
      cases h

/-! ### Entries below a directory -/

/-- A slash at the end of a path adds nothing to where it leads. So the names of an entry below a
directory may be taken from where the directory's own names have led. -/
theorem follow_way (h : fs.resolve p = .ok position) :
    fs.follow maxLinks (origin fs.workingDir p) p.way = .ok position := by
  unfold resolve at h
  split at h
  · cases h
  · change fs.follow _ _ (p.way ++ _) = _ at h
    -- with a slash at the end the last step is to stay, and it leads nowhere else
    split at h
    · rcases fs.follow_append maxLinks (origin fs.workingDir p) p.way [.stay] with
        ⟨reached, left, hreached, hrest⟩ | ⟨error, -, herror⟩
      · rw [hrest] at h
        rw [eq_of_follow_stay h, hreached]
      · rw [herror] at h
        cases h
    · rwa [List.append_nil] at h

/-- A path that leads somewhere is not empty. -/
theorem bytes_ne_nil_of_resolve (h : fs.resolve p = .ok position) : p.bytes ≠ [] := by
  intro empty
  rw [resolve, if_pos empty] at h
  cases h

/-- A path below a directory begins where the path of the directory begins. -/
theorem origin_below (hp : fs.resolve p = .ok position) (nonempty : names ≠ [])
    (isName : ∀ name ∈ names, IsName name) :
    origin fs.workingDir (p.below names) = origin fs.workingDir p := by
  unfold origin
  rw [RawPath.isAbsolute_below p (bytes_ne_nil_of_resolve hp) nonempty isName]

/-- From where a path leads, names are gone through one after the other. -/
theorem follow_way_enter (hp : fs.resolve p = .ok position)
    (hfound : fs.top.get? (position ++ names) = some found)
    (notLink : found.isLink = false) :
    fs.follow maxLinks (origin fs.workingDir p) (p.way ++ names.map .enter) =
      .ok (position ++ names) := by
  rcases fs.follow_append maxLinks (origin fs.workingDir p) p.way (names.map .enter) with
    ⟨reached, left, hreached, hrest⟩ | ⟨error, herror, -⟩
  · obtain rfl := Except.ok.inj (hreached.symm.trans (follow_way hp))
    rw [hrest, follow_enter hfound notLink]
  · rw [follow_way hp] at herror
    cases herror

/-- The path of an entry below a directory leads to that entry, if it is no link. -/
theorem resolve_below (hp : fs.resolve p = .ok position) (nonempty : names ≠ [])
    (isName : ∀ name ∈ names, IsName name)
    (hfound : fs.top.get? (position ++ names) = some found)
    (notLink : found.isLink = false) :
    fs.resolve (p.below names) = .ok (position ++ names) := by
  have spelled : (p.below names).bytes ≠ [] := by
    obtain ⟨q, name, hname, hq⟩ := p.exists_below_eq_join nonempty
    rw [hq]
    exact q.bytes_join_ne_nil (isName name hname)
  unfold resolve
  rw [if_neg spelled, origin_below hp nonempty isName, p.steps_below nonempty isName]
  exact follow_way_enter hp hfound notLink

/-- The path of an entry below a directory names that entry, also if it is a link. The names before
the last one lead to the directory that holds it, through directories only. -/
theorem lstat?_below (hp : fs.resolve p = .ok position) (nonempty : names ≠ [])
    (isName : ∀ name ∈ names, IsName name)
    (hfound : fs.top.get? (position ++ names) = some found) :
    fs.lstat? (p.below names) = some found := by
  obtain ⟨before, last, rfl⟩ := (List.eq_nil_or_concat names).resolve_left nonempty
  rw [List.concat_eq_append] at nonempty isName hfound ⊢
  have steps : (p.below (before ++ [last])).steps =
      (p.way ++ before.map .enter) ++ [.enter last] := by
    rw [p.steps_below nonempty isName, List.map_append, List.append_assoc]
    rfl
  rw [← List.append_assoc, FileTree.get?_append, Option.bind_eq_some_iff] at hfound
  obtain ⟨parent, hparent, hlast⟩ := hfound
  -- something stands below the parent, so it is a directory
  have parentNotLink : parent.isLink = false := by
    rcases parent with content | target | entries
    · rfl
    · cases hlast
    · rfl
  rw [lstat?_eq steps, origin_below hp nonempty isName, follow_way_enter hp hparent parentNotLink]
  dsimp only
  rw [FileTree.get?_append, hparent]
  exact hlast

end FileSystem

end Orphans
