import Orphans.SourceFile

/-!
# What a source file always has

`SourceFile.nameKey_ne_nil`: no source file has an empty name key. A name has an extension only if
something stands before its last dot, and reading bytes as a text never loses all of them.

This is what makes the index answer for every candidate: the only key that it never finds is the
empty one.
-/

namespace Orphans

/-! ### Reading bytes as a text -/

namespace Utf8

/-- A reader that has taken a byte has a character in progress or something behind it. -/
theorem Reader.finish_step_ne_nil (reader : Reader) (b : UInt8) : (reader.step b).finish ≠ [] := by
  have begin_ne_nil (read : List (Option Char)) : (Reader.begin read b).finish ≠ [] := by
    unfold Reader.begin
    rcases Lead.ofByte b with c | pending | _ <;> simp [finish]
  unfold step
  rcases reader.pending with _ | pending
  · exact begin_ne_nil _
  · dsimp only
    split
    · rcases pending.due with _ | due <;> simp [finish]
    · exact begin_ne_nil _

/-- Bytes are never cut into no pieces at all: the last one belongs to some character or ill-formed
stretch. -/
theorem units_ne_nil {bytes : Bytes} (h : bytes ≠ []) : units bytes ≠ [] := by
  obtain ⟨front, last, rfl⟩ := List.eq_nil_or_concat bytes |>.resolve_left h
  rw [units, List.concat_eq_append, List.foldl_append, List.foldl_cons, List.foldl_nil]
  simpa using Reader.finish_step_ne_nil (front.foldl Reader.step .start) last

/-- So bytes are never shown as the empty text. -/
theorem decodeLossy_ne_nil {bytes : Bytes} (h : bytes ≠ []) : decodeLossy bytes ≠ [] := by
  simpa [decodeLossy] using units_ne_nil h

end Utf8

/-! ### Names and extensions -/

/-- What stands before an extension is not empty. -/
theorem stem_ne_nil {name stem extension : Bytes}
    (h : splitExtension name = (stem, some extension)) : stem ≠ [] := by
  unfold splitExtension at h
  split at h
  · cases h
    simp
  · cases h

namespace SourceFile

variable {config : Config} {path : RawPath} {file : SourceFile}

/-- What a path with an extension that is searched for stands for. Nothing is asked of the name
before the extension, which may be no text. -/
theorem ofPath?_eq_some_iff :
    ofPath? config path = some file ↔
      ∃ name bytes extension, path.fileName? = some name ∧
        (splitExtension name).2 = some bytes ∧ Utf8.decode? bytes = some extension ∧
        extension ∈ config.extensions ∧
        file = ⟨path, Utf8.decodeLossy name, extension,
          Utf8.decodeLossy (splitExtension name).1, pathKeyOf config path⟩ := by
  simp only [ofPath?, Option.bind_eq_bind, Option.bind_eq_some_iff]
  constructor
  · rintro ⟨name, hname, extension, ⟨bytes, hbytes, hextension⟩, h⟩
    split at h
    · next member =>
      cases h
      exact ⟨name, bytes, extension, hname, hbytes, hextension,
        Std.ExtTreeSet.contains_iff_mem.mp member, rfl⟩
    · cases h
  · rintro ⟨name, bytes, extension, hname, hbytes, hextension, member, rfl⟩
    refine ⟨name, hname, extension, ⟨bytes, hbytes, hextension⟩, ?_⟩
    rw [if_pos (Std.ExtTreeSet.contains_iff_mem.mpr member)]

/-- A source file has the path that it was made from. -/
theorem path_ofPath? (h : ofPath? config path = some file) : file.path = path := by
  obtain ⟨name, bytes, extension, -, -, -, -, rfl⟩ := ofPath?_eq_some_iff.mp h
  rfl

/-- The file name is the last name on the path, read as a text. -/
theorem fileName?_ofPath? (h : ofPath? config path = some file) :
    path.fileName?.map Utf8.decodeLossy = some file.fileName := by
  obtain ⟨name, bytes, extension, hname, -, -, -, rfl⟩ := ofPath?_eq_some_iff.mp h
  rw [hname, Option.map_some]

/-- The name key of a source file is not empty. -/
theorem nameKey_ne_nil (h : ofPath? config path = some file) : file.nameKey ≠ [] := by
  obtain ⟨name, bytes, extension, -, hbytes, -, -, rfl⟩ := ofPath?_eq_some_iff.mp h
  exact Utf8.decodeLossy_ne_nil (stem_ne_nil (Prod.ext rfl hbytes))

end SourceFile

end Orphans
