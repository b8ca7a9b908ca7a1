import Orphans.FileTree.WellFormed

/-!
# The spelling of paths below a directory

`RawPath.bytes_below`: the path of an entry is the path of the directory, a slash unless one is
there, and the names with slashes between them. So different ways lead to differently spelled paths
(`RawPath.below_injective`).

The spelling of the directory with that slash is `stemBytes`. Everything about a path below a
directory is read off `stemBytes p ++ rest`: where it begins, what its pieces are
(`filterMap_splitOn_stemBytes`) and what its file name is. All of it needs names that a directory
can have, since a name with a slash would be two pieces.
-/

namespace Orphans.RawPath

/-- The spelling of a directory in front of a name: a slash follows unless the spelling is empty or
ends with one. -/
def stemBytes (p : RawPath) : Bytes :=
  if p.bytes = [] ∨ p.bytes.getLast? = some slash then p.bytes else p.bytes ++ [slash]

/-- A name is a relative path. -/
theorem isAbsolute_eq_false {name : Bytes} (h : IsName name) :
    (RawPath.mk name).isAbsolute = false := by
  rcases name with _ | ⟨b, rest⟩
  · rfl
  · have : b ≠ slash := fun e => h.slash_not_mem (e ▸ List.mem_cons_self)
    simp [isAbsolute, this]

/-- A relative path is written behind the spelling of the directory. -/
theorem bytes_join_of_relative (p : RawPath) {q : RawPath} (h : q.isAbsolute = false) :
    (p.join q).bytes = p.stemBytes ++ q.bytes := by
  unfold join stemBytes
  rw [h]
  split
  · contradiction
  · split
    · rfl
    · rw [List.append_assoc]
      rfl

/-- A name is written behind the spelling of the directory. -/
theorem bytes_join (p : RawPath) {name : Bytes} (h : IsName name) :
    (p.join ⟨name⟩).bytes = p.stemBytes ++ name :=
  bytes_join_of_relative p (isAbsolute_eq_false h)

/-- A path that ends with a name is not empty. -/
theorem bytes_join_ne_nil (p : RawPath) {name : Bytes} (h : IsName name) :
    (p.join ⟨name⟩).bytes ≠ [] := by
  rw [bytes_join p h]
  exact List.append_ne_nil_of_right_ne_nil _ h.ne_nil

/-- A path that ends with a name does not end with a slash. -/
theorem getLast?_bytes_join (p : RawPath) {name : Bytes} (h : IsName name) :
    (p.join ⟨name⟩).bytes.getLast? ≠ some slash := by
  rw [bytes_join p h, List.getLast?_append, List.getLast?_eq_some_getLast h.ne_nil, Option.some_or]
  exact fun e => h.slash_not_mem (Option.some_inj.mp e ▸ List.getLast_mem h.ne_nil)

/-- A path that ends with a name is followed by a slash. -/
theorem stemBytes_join (p : RawPath) {name : Bytes} (h : IsName name) :
    (p.join ⟨name⟩).stemBytes = p.stemBytes ++ name ++ [slash] := by
  have open_end := not_or.mpr ⟨bytes_join_ne_nil p h, getLast?_bytes_join p h⟩
  rw [stemBytes, if_neg open_end, bytes_join p h]

/-- The spelling of the path of an entry below a directory: that of the directory, with a slash
after it if it has none, and the names with slashes between them. -/
theorem bytes_below (p : RawPath) {names : List Bytes} (nonempty : names ≠ [])
    (h : ∀ name ∈ names, IsName name) :
    (p.below names).bytes = p.stemBytes ++ [slash].intercalate names := by
  -- on the names from the first one, each of which makes the directory longer
  induction names generalizing p with
  | nil => contradiction
  | cons name rest ih =>
    obtain ⟨hname, hrest⟩ := List.forall_mem_cons.mp h
    have step : p.below (name :: rest) = (p.join ⟨name⟩).below rest := rfl
    rcases rest with _ | ⟨next, rest⟩
    · rw [step, List.intercalate_singleton]
      exact bytes_join p hname
    · rw [step, ih _ (List.cons_ne_nil _ _) hrest, stemBytes_join p hname,
        List.intercalate_cons_cons]
      simp only [List.append_assoc]

/-- The path of an entry below a directory ends with the last of the names. -/
theorem exists_below_eq_join (p : RawPath) {names : List Bytes} (nonempty : names ≠ []) :
    ∃ q : RawPath, ∃ name ∈ names, p.below names = q.join ⟨name⟩ := by
  obtain ⟨before, last, rfl⟩ := List.eq_nil_or_concat names |>.resolve_left nonempty
  refine ⟨p.below before, last, by simp, ?_⟩
  rw [below, List.concat_eq_append, List.foldl_append]
  rfl

/-- A path and the paths below it begin at the same place. -/
theorem isAbsolute_below (p : RawPath) {names : List Bytes} (spelled : p.bytes ≠ [])
    (nonempty : names ≠ []) (h : ∀ name ∈ names, IsName name) :
    (p.below names).isAbsolute = p.isAbsolute := by
  have head (rest : Bytes) : (p.bytes ++ rest).head? = p.bytes.head? := by
    rw [List.head?_append, List.head?_eq_some_head spelled, Option.some_or]
  unfold isAbsolute
  rw [bytes_below p nonempty h]
  unfold stemBytes
  split
  · rw [head]
  · rw [List.append_assoc, head]

/-- The path of an entry ends with the last of the names. -/
theorem below_concat (p : RawPath) (names : List Bytes) (name : Bytes) :
    p.below (names ++ [name]) = (p.below names).join ⟨name⟩ := by
  unfold below
  rw [List.foldl_append, List.foldl_cons, List.foldl_nil]

/-- What the pieces of a path stand for is what those of the directory do, and then what those of
the rest do, if an empty piece stands for nothing. -/
theorem filterMap_splitOn_stemBytes {α : Type} {f : Bytes → Option α} (empty : f [] = none)
    (p : RawPath) (rest : Bytes) :
    ((p.stemBytes ++ rest).splitOn slash).filterMap f =
      (p.bytes.splitOn slash).filterMap f ++ (rest.splitOn slash).filterMap f := by
  have nothing : [([] : Bytes)].filterMap f = [] := List.filterMap_cons_none empty
  unfold stemBytes
  split
  · next h =>
    -- nothing is written between the two, or the directory ends with a slash and so with an empty
    -- piece
    rcases h with h | h
    · rw [h, List.nil_append, List.splitOn_nil, nothing, List.nil_append]
    · obtain ⟨front, hfront⟩ := List.getLast?_eq_some_iff.mp h
      rw [hfront, List.append_assoc, List.singleton_append, List.splitOn_append_cons_self,
        List.splitOn_append_cons_self, List.splitOn_nil, List.filterMap_append,
        List.filterMap_append, nothing, List.append_nil]
  · rw [List.append_assoc, List.singleton_append, List.splitOn_append_cons_self,
      List.filterMap_append]

/-- A piece that is a name stands for that name. -/
theorem ofPiece?_eq_normal {name : Bytes} (h : IsName name) :
    Component.ofPiece? name = some (.normal name) := by
  unfold Component.ofPiece?
  rw [if_neg (not_or.mpr ⟨h.ne_nil, h.ne_dot⟩), if_neg h.ne_dots]

/-- The file name of a path that ends with a name is that name. -/
theorem fileName?_join (p : RawPath) {name : Bytes} (h : IsName name) :
    (p.join ⟨name⟩).fileName? = some name := by
  have last : ((p.join ⟨name⟩).bytes.splitOn slash).filterMap Component.ofPiece? =
      (p.bytes.splitOn slash).filterMap Component.ofPiece? ++ [.normal name] := by
    rw [bytes_join p h, filterMap_splitOn_stemBytes rfl,
      List.splitOn_eq_singleton h.slash_not_mem,
      List.filterMap_cons_some (ofPiece?_eq_normal h), List.filterMap_nil]
  unfold fileName? components
  dsimp only
  rw [last, ← List.append_assoc, List.getLast?_concat, Option.bind_some]
  rfl

/-- The file name of the path of an entry is the last name on the way to it. -/
theorem fileName?_below (p : RawPath) {names : List Bytes} (nonempty : names ≠ [])
    (h : ∀ name ∈ names, IsName name) : (p.below names).fileName? = names.getLast? := by
  obtain ⟨before, last, rfl⟩ := (List.eq_nil_or_concat names).resolve_left nonempty
  rw [List.concat_eq_append, below_concat, List.getLast?_concat]
  exact fileName?_join _ (h last (by simp))

/-- Different ways from a directory lead to differently spelled paths. -/
theorem below_injective (p : RawPath) {names names' : List Bytes} (nonempty : names ≠ [])
    (nonempty' : names' ≠ []) (h : ∀ name ∈ names, IsName name)
    (h' : ∀ name ∈ names', IsName name) (same : p.below names = p.below names') :
    names = names' := by
  have bytes := congrArg RawPath.bytes same
  rw [bytes_below p nonempty h, bytes_below p nonempty' h'] at bytes
  -- both are spelled behind the same directory, and the names are the pieces of the rest
  have joined := List.append_cancel_left bytes
  rw [← List.splitOn_intercalate slash (fun name hname => (h name hname).slash_not_mem) nonempty,
    joined,
    List.splitOn_intercalate slash (fun name hname => (h' name hname).slash_not_mem) nonempty']

end Orphans.RawPath
