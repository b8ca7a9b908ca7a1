import Mathlib.Data.List.Basic
import Orphans.Proofs.RawPath

/-!
# The components of paths below a directory

`RawPath.components_below`: the components of the path of an entry are those of the directory,
however it is spelled, and then the names on the way to the entry. So the path of a directory is a
prefix of the paths of its entries and nothing of it is left when it is taken away
(`RawPath.stripPrefix?_below`): what is left are the names below the directory.

Slashes at the end of the directory and repeated ones inside it have no components, so they make no
difference here, while they are kept in the spelling of the paths of its entries.
-/

namespace Orphans.RawPath

variable {above names : List Bytes}

/-! ### Components -/

/-- What follows the spelling of a directory does not change the first of its pieces. -/
theorem head?_splitOn_stemBytes (p : RawPath) (spelled : p.bytes ≠ []) (rest : Bytes) :
    ((p.stemBytes ++ rest).splitOn slash).head? = (p.bytes.splitOn slash).head? := by
  have head (front back : Bytes) :
      ((front ++ slash :: back).splitOn slash).head? = (front.splitOn slash).head? := by
    rw [List.splitOn_append_cons_self, List.head?_append,
      List.head?_eq_some_head (List.splitOn_ne_nil slash front), Option.some_or]
  unfold stemBytes
  split
  · next h =>
    obtain ⟨front, hfront⟩ := List.getLast?_eq_some_iff.mp (h.resolve_left spelled)
    rw [hfront, List.append_assoc, List.singleton_append, head, head]
  · rw [List.append_assoc, List.singleton_append, head]

/-- The components of the path of an entry are those of the directory and then the names. However
the directory is spelled, each name becomes a piece of its own. -/
theorem components_below (p : RawPath) (spelled : p.bytes ≠ []) (h : ∀ name ∈ names, IsName name) :
    (p.below names).components = p.components ++ names.map Component.normal := by
  -- without names it is the path of the directory itself, with its own spelling
  rcases eq_or_ne names [] with rfl | nonempty
  · exact (List.append_nil _).symm
  · have normal : names.filterMap Component.ofPiece? = names.map Component.normal := by
      rw [List.filterMap_eq_map_iff_forall_eq_some]
      intro name hname
      exact ofPiece?_eq_normal (h name hname)
    unfold components
    dsimp only
    rw [isAbsolute_below p spelled nonempty h, bytes_below p nonempty h,
      head?_splitOn_stemBytes p spelled, filterMap_splitOn_stemBytes rfl,
      List.splitOn_intercalate slash (fun name hname => (h name hname).slash_not_mem) nonempty,
      normal, List.append_assoc]

/-! ### Prefixes -/

/-- What is left of the path of an entry without a directory above it are the names between the
two. -/
theorem stripPrefix?_below (p : RawPath) (spelled : p.bytes ≠ [])
    (habove : ∀ name ∈ above, IsName name) (h : ∀ name ∈ names, IsName name) :
    (p.below above).stripPrefix? (p.below names) =
      if above <+: names then some (ofComponents ((names.drop above.length).map Component.normal))
      else none := by
  have injective : Function.Injective Component.normal := fun _ _ => Component.normal.inj
  have isPrefix : (p.components ++ above.map Component.normal).isPrefixOf
      (p.components ++ names.map Component.normal) = true ↔ above <+: names := by
    rw [List.isPrefixOf_iff_prefix, List.prefix_append_right_inj,
      List.prefix_map_iff_of_injective injective]
  unfold stripPrefix?
  rw [components_below p spelled habove, components_below p spelled h]
  simp only [isPrefix]
  rw [List.length_append, List.length_map, ← List.drop_drop, List.drop_left, List.map_drop]

/-- What is left of the path of an entry without the directory are all the names. -/
theorem stripPrefix?_below_self (p : RawPath) (spelled : p.bytes ≠ [])
    (h : ∀ name ∈ names, IsName name) :
    p.stripPrefix? (p.below names) = some (ofComponents (names.map Component.normal)) := by
  have strip : (p.below []).stripPrefix? (p.below names) = _ :=
    stripPrefix?_below p spelled (fun _ absurd => nomatch absurd) h
  rwa [if_pos List.nil_prefix] at strip

/-! ### Names behind a directory -/

/-- Names as components are spelled with slashes between them. -/
theorem bytes_ofComponents (names : List Bytes) :
    (ofComponents (names.map Component.normal)).bytes = [slash].intercalate names := by
  have spelling : (names.map Component.normal).map Component.bytes = names := by
    rw [List.map_map]
    exact List.map_id' names
  rcases names with _ | ⟨name, names⟩
  · rfl
  · exact congrArg [slash].intercalate spelling

/-- A path of names is relative: it begins with the first of them, and no name begins with a slash.
-/
theorem isAbsolute_ofComponents (h : ∀ name ∈ names, IsName name) :
    (ofComponents (names.map Component.normal)).isAbsolute = false := by
  unfold isAbsolute
  rw [bytes_ofComponents]
  rcases names with _ | ⟨_ | ⟨b, name⟩, names⟩
  · rfl
  · exact absurd rfl (h [] List.mem_cons_self).ne_nil
  · have ne : b ≠ slash := by
      rintro rfl
      exact (h (slash :: name) List.mem_cons_self).slash_not_mem List.mem_cons_self
    rcases names with _ | ⟨next, names⟩
    · simp [ne]
    · simp [List.intercalate_cons_cons, ne]

/-- A path of names behind a directory is the path of the entry that they lead to from there. -/
theorem join_ofComponents (p : RawPath) (nonempty : names ≠ []) (h : ∀ name ∈ names, IsName name) :
    p.join (ofComponents (names.map Component.normal)) = p.below names := by
  have bytes : (p.join (ofComponents (names.map Component.normal))).bytes = (p.below names).bytes :=
    calc (p.join (ofComponents (names.map Component.normal))).bytes
      _ = p.stemBytes ++ (ofComponents (names.map Component.normal)).bytes :=
        bytes_join_of_relative p (isAbsolute_ofComponents h)
      _ = p.stemBytes ++ [slash].intercalate names := by rw [bytes_ofComponents]
      _ = (p.below names).bytes := (bytes_below p nonempty h).symm
  exact congrArg RawPath.mk bytes

end Orphans.RawPath
