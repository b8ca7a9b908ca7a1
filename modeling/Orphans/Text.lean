/-!
# Texts

A text is the list of its characters, so that a statement about a text is a statement about a list:
what is read from a file, a search key, an argument and a report are all texts. This file has the
two searches that the rest needs: whether one text occurs in another, and where a text is cut by
the first occurrence of a character.
-/

namespace Orphans

/-- A text is the list of its characters, in order. -/
abbrev Text := List Char

namespace Text

/-! ### Occurrences -/

/-- Whether `key` occurs in a text as a run of neighbouring characters. The empty key occurs in
every text. -/
def occursIn (key : Text) : Text → Bool
  | [] => key.isEmpty
  | c :: rest => key.isPrefixOf (c :: rest) || occursIn key rest

/-- Only the empty key occurs in the empty text. -/
@[simp] theorem occursIn_nil (key : Text) : occursIn key [] = key.isEmpty := rfl

/-- A key occurs at the beginning of a text or after the first character. -/
@[simp] theorem occursIn_cons (key : Text) (c : Char) (rest : Text) :
    occursIn key (c :: rest) = (key.isPrefixOf (c :: rest) || occursIn key rest) := rfl

/-- A key occurs in a text exactly when the text is the key with something before and after it. -/
theorem occursIn_iff {key text : Text} : occursIn key text = true ↔ key <:+: text := by
  induction text with
  | nil => simp [List.isEmpty_iff]
  | cons c rest ih => simp [List.infix_cons_iff, ih]

/-! ### Cutting -/

/-- The part of a text before the first `separator`, and the part after it if there is one. -/
def cut (separator : Char) (text : Text) : Text × Option Text :=
  (text.takeWhile (· != separator),
    match text.dropWhile (· != separator) with
    | [] => none
    | _ :: rest => some rest)

/-- A text without the separator is not cut. -/
theorem cut_of_not_mem {separator : Char} {text : Text} (h : separator ∉ text) :
    cut separator text = (text, none) := by
  have all : ∀ c ∈ text, (c != separator) = true := fun c hc => by
    simpa using fun e : c = separator => h (e ▸ hc)
  have kept : List.takeWhile (· != separator) (text ++ []) = text ++ [] :=
    List.takeWhile_append_of_pos all
  have dropped : List.dropWhile (· != separator) (text ++ []) = [] :=
    List.dropWhile_append_of_pos all
  rw [List.append_nil] at kept dropped
  simp [cut, kept, dropped]

/-- A text is cut at the first separator, which goes to neither part. -/
theorem cut_append_cons {separator : Char} {before : Text} (h : separator ∉ before)
    (after : Text) : cut separator (before ++ separator :: after) = (before, some after) := by
  have all : ∀ c ∈ before, (c != separator) = true := fun c hc => by
    simpa using fun e : c = separator => h (e ▸ hc)
  simp [cut, List.takeWhile_append_of_pos all, List.dropWhile_append_of_pos all]

/-- Texts with a separator written between neighbours. -/
def join (separator : Text) (parts : List Text) : Text :=
  separator.intercalate parts

end Text

end Orphans
