import Mathlib.Data.List.Basic
import Orphans.Proofs.RawPath

/-!
# Components and their spelling

`RawPath.components_ofComponents`: the components of the plainest spelling of a path are those of
the path, also when some are left out in front. So what is read off the components of what is left
of a path is read off the components of the path.

`RawPath.names_withoutExtension`: taking an extension off acts on the spelling, but on the last
piece of it only. The pieces before it stand for what they stood for, and the last one is now the
stem, which may be one that stands for no name.

Not every sequence of components is one that a path has: only the first one may be the root or a
dot, and a name is a name that an entry can have. `RawPath.AreComponents` says so. Every path has
such a sequence (`areComponents_components`), and it is what makes the spelling of a sequence fall
into the pieces that it was made of (`splitOn_intercalate_bytes`).
-/

namespace Orphans

/-! ### Pieces -/

/-- What a list is split at is in none of the pieces. -/
theorem not_mem_of_mem_splitOn {α : Type} [BEq α] [LawfulBEq α] {a : α} {piece : List α} :
    (l : List α) → piece ∈ l.splitOn a → a ∉ piece
  | [], h => by
    rw [List.splitOn_nil, List.mem_singleton] at h
    simp [h]
  | b :: l, h => by
    rw [List.splitOn_cons_eq_if_modifyHead] at h
    split at h
    · rcases List.mem_cons.mp h with rfl | h
      · exact List.not_mem_nil
      · exact not_mem_of_mem_splitOn l h
    · next hb =>
      -- the first piece of the rest goes on with `b`
      obtain ⟨first, pieces, hpieces⟩ := List.exists_cons_of_ne_nil (List.splitOn_ne_nil a l)
      rw [hpieces, List.modifyHead_cons] at h
      rcases List.mem_cons.mp h with rfl | h
      · have notFirst := not_mem_of_mem_splitOn l (hpieces ▸ List.mem_cons_self : first ∈ _)
        have ne : a ≠ b := fun same => hb (beq_iff_eq.mpr same.symm)
        exact List.not_mem_cons_of_ne_of_not_mem ne notFirst
      · exact not_mem_of_mem_splitOn l (hpieces ▸ List.mem_cons_of_mem _ h)

/-- What the last piece ends with stands at the end of the whole. -/
theorem intercalate_concat_append {α : Type} (separator : List α) (pieces : List (List α))
    (last rest : List α) :
    separator.intercalate (pieces ++ [last ++ rest]) =
      separator.intercalate (pieces ++ [last]) ++ rest := by
  induction pieces with
  | nil => simp
  | cons piece pieces ih =>
    obtain ⟨next, others, hothers⟩ := List.exists_cons_of_ne_nil (l := pieces ++ [last]) (by simp)
    obtain ⟨next', others', hothers'⟩ :=
      List.exists_cons_of_ne_nil (l := pieces ++ [last ++ rest]) (by simp)
    rw [hothers, hothers'] at ih
    rw [List.cons_append, List.cons_append, hothers, hothers', List.intercalate_cons_cons,
      List.intercalate_cons_cons, ih, List.append_assoc, List.append_assoc,
      List.append_assoc]

namespace Component

variable {c : Component} {piece : Bytes}

/-- A component that may stand anywhere in a path. -/
def IsInner : Component → Prop
  | parent => True
  | normal name => IsName name
  | _ => False

/-- What a piece without a slash stands for may stand anywhere in a path. -/
theorem isInner_of_ofPiece? (noSlash : slash ∉ piece) (h : ofPiece? piece = some c) :
    c.IsInner := by
  unfold ofPiece? at h
  split at h
  · cases h
  · next noName =>
    obtain ⟨ne_nil, ne_dot⟩ := not_or.mp noName
    split at h
    · cases h
      trivial
    · next ne_dots =>
      cases h
      exact ⟨ne_nil, ne_dot, ne_dots, noSlash⟩

/-- Its spelling has no slash, so it is one piece. -/
theorem IsInner.slash_not_mem (h : c.IsInner) : slash ∉ c.bytes := by
  cases c with
  | root => exact h.elim
  | current => exact h.elim
  | parent => decide
  | normal name => exact IsName.slash_not_mem h

/-- Its spelling is not empty, so it is not the piece before the first slash of an absolute path. -/
theorem IsInner.bytes_ne_nil (h : c.IsInner) : c.bytes ≠ [] := by
  cases c with
  | root => exact h.elim
  | current => exact h.elim
  | parent => decide
  | normal name => exact IsName.ne_nil h

/-- Its spelling is not a dot, so it is not the one that a relative path may begin with. -/
theorem IsInner.bytes_ne_dot (h : c.IsInner) : c.bytes ≠ [dot] := by
  cases c with
  | root => exact h.elim
  | current => exact h.elim
  | parent => decide
  | normal name => exact IsName.ne_dot h

/-- The spelling of a component stands for it. -/
theorem IsInner.ofPiece?_bytes (h : c.IsInner) : ofPiece? c.bytes = some c := by
  cases c with
  | root => exact h.elim
  | current => exact h.elim
  | parent => rfl
  | normal name => exact RawPath.ofPiece?_eq_normal h

end Component

namespace RawPath

/-! ### Sequences of components -/

/-- A sequence of components that a path can have. The root and the current directory stand at the
front only, and every name is one that an entry can have. -/
def AreComponents : List Component → Prop
  | [] => True
  | c :: rest => (c = .root ∨ c = .current ∨ c.IsInner) ∧ ∀ c ∈ rest, c.IsInner

variable {cs : List Component}

/-- A sequence of components that may stand anywhere is one that a path can have. -/
theorem areComponents_of_forall (h : ∀ c ∈ cs, c.IsInner) : AreComponents cs := by
  rcases cs with _ | ⟨c, rest⟩
  · trivial
  · obtain ⟨first, others⟩ := List.forall_mem_cons.mp h
    exact ⟨.inr (.inr first), others⟩

/-- Every path has such a sequence of components. -/
theorem areComponents_components (p : RawPath) : AreComponents p.components := by
  have inner : ∀ c ∈ (p.bytes.splitOn slash).filterMap Component.ofPiece?, c.IsInner := by
    intro c hc
    obtain ⟨piece, hpiece, hc⟩ := List.mem_filterMap.mp hc
    exact Component.isInner_of_ofPiece? (not_mem_of_mem_splitOn _ hpiece) hc
  unfold components
  dsimp only
  split
  · exact ⟨.inl rfl, inner⟩
  · split
    · exact ⟨.inr (.inl rfl), inner⟩
    · exact areComponents_of_forall inner

/-- What is left without the first components is such a sequence too. -/
theorem AreComponents.drop (h : AreComponents cs) (n : Nat) : AreComponents (cs.drop n) := by
  rcases cs with _ | ⟨c, rest⟩
  · rw [List.drop_nil]
    trivial
  · rcases n with _ | n
    · exact h
    · exact areComponents_of_forall fun c hc => h.2 c (List.mem_of_mem_drop hc)

/-- So are the first components. -/
theorem AreComponents.of_append {front rest : List Component} (h : AreComponents (front ++ rest)) :
    AreComponents front := by
  rcases front with _ | ⟨c, front⟩
  · trivial
  · exact ⟨h.1, fun c hc => h.2 c (List.mem_append_left _ hc)⟩

/-- No spelling in the sequence has a slash. That of the root is empty. -/
theorem AreComponents.slash_not_mem (h : AreComponents cs) :
    ∀ piece ∈ cs.map Component.bytes, slash ∉ piece := by
  intro piece hpiece
  obtain ⟨c, hc, rfl⟩ := List.mem_map.mp hpiece
  rcases cs with _ | ⟨first, rest⟩
  · cases hc
  · rcases List.mem_cons.mp hc with rfl | hc
    · rcases h.1 with rfl | rfl | inner
      · decide
      · decide
      · exact inner.slash_not_mem
    · exact (h.2 c hc).slash_not_mem

/-! ### Spelling components -/

/-- Pieces that are spellings of components stand for these. -/
theorem filterMap_ofPiece?_bytes (h : ∀ c ∈ cs, c.IsInner) :
    (cs.map Component.bytes).filterMap Component.ofPiece? = cs := by
  rw [List.filterMap_map]
  refine ((List.filterMap_eq_map_iff_forall_eq_some (g := id)).mpr ?_).trans (List.map_id cs)
  intro c hc
  exact (h c hc).ofPiece?_bytes

/-- The spelling of a sequence falls into the spellings of its components. -/
theorem splitOn_intercalate_bytes (h : AreComponents cs) (nonempty : cs ≠ []) :
    ([slash].intercalate (cs.map Component.bytes)).splitOn slash = cs.map Component.bytes :=
  List.splitOn_intercalate slash h.slash_not_mem (by simpa using nonempty)

/-- An absolute path begins with an empty piece. -/
theorem head?_splitOn_of_isAbsolute {p : RawPath} (h : p.isAbsolute = true) :
    (p.bytes.splitOn slash).head? = some [] := by
  unfold isAbsolute at h
  obtain ⟨rest, hrest⟩ := List.head?_eq_some_iff.mp (beq_iff_eq.mp h)
  rw [hrest, ← List.nil_append (slash :: rest), List.splitOn_append_cons_self, List.splitOn_nil]
  rfl

/-- A path whose first piece is not empty is relative. -/
theorem isAbsolute_eq_false_of_splitOn {p : RawPath} {piece : Bytes} {pieces : List Bytes}
    (h : p.bytes.splitOn slash = piece :: pieces) (nonempty : piece ≠ []) :
    p.isAbsolute = false := by
  rw [← Bool.not_eq_true]
  intro absolute
  have first := head?_splitOn_of_isAbsolute absolute
  rw [h, List.head?_cons, Option.some_inj] at first
  exact nonempty first

/-- The components of the plainest spelling of components are these. So the two are inverse to each
other on the sequences that a path can have, and a spelling that is taken apart can be put together.
-/
theorem components_ofComponents (h : AreComponents cs) : (ofComponents cs).components = cs := by
  rcases cs with _ | ⟨c, rest⟩
  · rfl
  obtain ⟨first, inner⟩ := h
  have kept := filterMap_ofPiece?_bytes inner
  -- by the first component: the root, a dot, or one that may stand anywhere
  rcases first with rfl | rfl | hc
  · rcases eq_or_ne rest [] with rfl | nonempty
    · rfl
    · have pieces : (ofComponents (.root :: rest)).bytes.splitOn slash =
          [] :: rest.map Component.bytes := by
        have split := splitOn_intercalate_bytes (areComponents_of_forall inner) nonempty
        show (([] : Bytes) ++ slash :: _).splitOn slash = _
        rw [List.splitOn_append_cons_self, split, List.splitOn_nil]
        rfl
      have absolute : (ofComponents (.root :: rest)).isAbsolute = true := rfl
      unfold components
      rw [pieces, absolute]
      show Component.root :: (rest.map Component.bytes).filterMap Component.ofPiece? = _
      rw [kept]
  · have pieces : (ofComponents (.current :: rest)).bytes.splitOn slash =
        [dot] :: rest.map Component.bytes :=
      splitOn_intercalate_bytes ⟨.inr (.inl rfl), inner⟩ (List.cons_ne_nil _ _)
    unfold components
    rw [pieces, isAbsolute_eq_false_of_splitOn pieces (by decide)]
    show Component.current :: (rest.map Component.bytes).filterMap Component.ofPiece? = _
    rw [kept]
  · have pieces : (ofComponents (c :: rest)).bytes.splitOn slash =
        c.bytes :: rest.map Component.bytes := by
      have all : AreComponents (c :: rest) := ⟨.inr (.inr hc), inner⟩
      have split := splitOn_intercalate_bytes all (List.cons_ne_nil _ _)
      cases c with
      | root => exact hc.elim
      | _ => exact split
    have relative := isAbsolute_eq_false_of_splitOn pieces hc.bytes_ne_nil
    have notDot : ¬ some c.bytes = some [dot] := fun h => hc.bytes_ne_dot (Option.some_inj.mp h)
    unfold components
    dsimp only
    rw [pieces, relative, List.head?_cons, if_neg Bool.false_ne_true, if_neg notDot,
      List.filterMap_cons_some hc.ofPiece?_bytes, kept, List.nil_append]

/-! ### Taking an extension off -/

/-- The names on a path are told by the pieces of its spelling. -/
theorem filterMap_name?_components (p : RawPath) :
    p.components.filterMap Component.name? =
      (p.bytes.splitOn slash).filterMap fun piece =>
        (Component.ofPiece? piece).bind Component.name? := by
  unfold components
  dsimp only
  rw [List.filterMap_append, List.filterMap_filterMap]
  split
  · rfl
  · split <;> rfl

/-- The spelling of components that end with a name: the pieces with slashes between them. The root
counts as an empty piece in front. -/
theorem bytes_ofComponents_concat (front : List Component) (name : Bytes) :
    (ofComponents (front ++ [.normal name])).bytes =
      [slash].intercalate (front.map Component.bytes ++ [name]) := by
  rcases front with _ | ⟨c, rest⟩
  · rfl
  · -- only behind the root a slash is written that is not between two components
    cases c with
    | root =>
      have nonempty : (rest ++ [Component.normal name]).map Component.bytes ≠ [] := by simp
      obtain ⟨piece, pieces, hpieces⟩ := List.exists_cons_of_ne_nil nonempty
      show slash :: [slash].intercalate ((rest ++ [Component.normal name]).map Component.bytes) =
        [slash].intercalate ([] :: ((rest.map Component.bytes) ++ [name]))
      rw [List.map_append] at hpieces ⊢
      show slash :: [slash].intercalate (rest.map Component.bytes ++ [name]) = _
      have hpieces : rest.map Component.bytes ++ [name] = piece :: pieces := hpieces
      rw [hpieces, List.intercalate_cons_cons]
      rfl
    | _ =>
      show [slash].intercalate ((_ :: rest ++ [Component.normal name]).map Component.bytes) = _
      rw [List.map_append]
      rfl

/-- The names among components can be read off their spellings, since no name is spelled as another
component is. -/
theorem filterMap_bytes_of_areComponents (h : AreComponents cs) :
    (cs.map Component.bytes).filterMap
        (fun piece => (Component.ofPiece? piece).bind Component.name?) =
      cs.filterMap Component.name? := by
  rw [List.filterMap_map]
  apply List.filterMap_congr
  intro c hc
  rcases cs with _ | ⟨first, rest⟩
  · cases hc
  have inner : c = .root ∨ c = .current ∨ c.IsInner := by
    rcases List.mem_cons.mp hc with rfl | hc
    · exact h.1
    · exact .inr (.inr (h.2 c hc))
  rcases inner with rfl | rfl | inner
  · rfl
  · rfl
  · simp [inner.ofPiece?_bytes]

/-- The name that a stem stands for as a piece of a path: none, if it is one or two dots. -/
theorem name?_ofPiece?_stem {stem : Bytes} (nonempty : stem ≠ []) :
    (Component.ofPiece? stem).bind Component.name? =
      if stem = [dot] ∨ stem = [dot, dot] then none else some stem := by
  unfold Component.ofPiece?
  by_cases hdot : stem = [dot]
  · simp [hdot]
  · by_cases hdots : stem = [dot, dot]
    · simp [hdots, Component.name?]
    · simp [nonempty, hdot, hdots, Component.name?]

/-- The file name of a path that ends with a name is that name. -/
theorem fileName?_of_components {p : RawPath} {front : List Component} {name : Bytes}
    (h : p.components = front ++ [.normal name]) : p.fileName? = some name := by
  rw [fileName?, h, List.getLast?_concat, Option.bind_some]
  rfl

section extension

variable {p : RawPath} {front : List Component} {stem extension : Bytes}

/-- What is left of the spelling without the extension. -/
theorem bytes_withoutExtension (h : p.components = front ++ [.normal (stem ++ dot :: extension)])
    (cut : splitExtension (stem ++ dot :: extension) = (stem, some extension)) :
    p.withoutExtension.bytes = [slash].intercalate (front.map Component.bytes ++ [stem]) := by
  have found : p.extension? = some extension := by
    rw [extension?, fileName?_of_components h, Option.bind_some, cut]
  have plain : (ofComponents p.components).bytes =
      [slash].intercalate (front.map Component.bytes ++ [stem]) ++ dot :: extension := by
    rw [h, bytes_ofComponents_concat, intercalate_concat_append]
  unfold withoutExtension
  rw [found]
  dsimp only
  rw [plain, List.length_append, List.length_cons, Nat.add_sub_cancel, List.take_left]

/-- Without its extension, a path that ends with a name has the names before that one, and the stem
of that one unless it is one or two dots. -/
theorem names_withoutExtension (h : p.components = front ++ [.normal (stem ++ dot :: extension)])
    (cut : splitExtension (stem ++ dot :: extension) = (stem, some extension))
    (nonempty : stem ≠ []) :
    p.withoutExtension.components.filterMap Component.name? =
      front.filterMap Component.name? ++
        if stem = [dot] ∨ stem = [dot, dot] then [] else [stem] := by
  have spelled : AreComponents (front ++ [.normal (stem ++ dot :: extension)]) :=
    h ▸ areComponents_components p
  -- the stem is a part of a name, so it has no slash and is one piece
  have noSlash : ∀ piece ∈ front.map Component.bytes ++ [stem], slash ∉ piece := by
    intro piece hpiece
    have pieces := spelled.slash_not_mem
    rw [List.map_append, List.forall_mem_append] at pieces
    rcases List.mem_append.mp hpiece with hpiece | hpiece
    · exact pieces.1 piece hpiece
    · have inName : slash ∉ stem ++ dot :: extension := pieces.2 _ List.mem_cons_self
      rw [List.mem_singleton.mp hpiece]
      exact fun inStem => inName (List.mem_append_left _ inStem)
  rw [filterMap_name?_components, bytes_withoutExtension h cut,
    List.splitOn_intercalate slash noSlash (by simp), List.filterMap_append,
    filterMap_bytes_of_areComponents spelled.of_append, List.filterMap_cons,
    name?_ofPiece?_stem nonempty]
  by_cases dots : stem = [dot] ∨ stem = [dot, dot]
  · simp [dots]
  · simp [dots]

end extension

end RawPath

end Orphans
