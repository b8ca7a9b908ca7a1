import Mathlib
import Orphans.Text.Utf8
import Orphans.Proofs.Span

/-!
# The bytes of a text

A text may be scanned by characters or by the bytes of its UTF-8 form, and the literals are the same
(`literals_encode`): quotes and path-safe characters are one byte each, and no byte of any other
character looks like one of them. This is `utf8EncodeChar_cases`, and all that has to be known of
UTF-8 here.

For the same reason the offset of a quote among the bytes, and the one after it, stand between two
characters (`Text.isBoundary_of_ascii`), so that a span can be cut out of the text
(`Text.sliceable_of_mem_spans`). A text of path-safe characters has a byte for each character and
can be cut anywhere.
-/

namespace Orphans

open Utf8 (encode)

namespace Utf8

/-- The empty text has no bytes. -/
@[simp] theorem encode_nil : encode [] = [] := rfl

/-- A text is written character by character. -/
@[simp] theorem encode_cons (c : Char) (text : Text) :
    encode (c :: text) = String.utf8EncodeChar c ++ encode text := rfl

/-- The bytes of two texts one after the other are those of the first and those of the second. -/
@[simp] theorem encode_append (first second : Text) :
    encode (first ++ second) = encode first ++ encode second :=
  List.flatMap_append

end Utf8

/-! ### Characters of ASCII -/

/-- The quotes are characters of ASCII. -/
theorem toNat_lt_of_isQuote {c : Char} (h : isQuote c = true) : c.toNat < 0x80 := by
  simp only [isQuote, Bool.or_eq_true, decide_eq_true_eq] at h
  rcases h with rfl | rfl <;> decide

/-- The path-safe characters are characters of ASCII. -/
theorem toNat_lt_of_isPathSafe {c : Char} (h : isPathSafe c = true) : c.toNat < 0x80 := by
  simp only [isPathSafe, Char.isAlphanum, Char.isAlpha, Char.isUpper, Char.isLower, Char.isDigit,
    Bool.or_eq_true, Bool.and_eq_true, decide_eq_true_eq] at h
  rcases h with (((((((upper | lower) | digit) | rfl) | rfl) | rfl) | rfl) | rfl)
  · exact Nat.lt_of_le_of_lt upper.2 (by decide)
  · exact Nat.lt_of_le_of_lt lower.2 (by decide)
  · exact Nat.lt_of_le_of_lt digit.2 (by decide)
  all_goals decide

/-- A character is the one byte with its number, or it lies beyond ASCII with all its bytes. -/
theorem utf8EncodeChar_cases (c : Char) :
    (∃ b : UInt8, String.utf8EncodeChar c = [b] ∧ Char.ofUInt8 b = c) ∨
      (0x80 ≤ c.toNat ∧ ∀ b ∈ String.utf8EncodeChar c, 0x80 ≤ b.toNat) := by
  unfold String.utf8EncodeChar
  dsimp only
  -- by the number of bytes; with more than one all of them have the highest bit set
  split_ifs with one two three
  · left
    refine ⟨_, rfl, Char.ext (UInt32.toNat_inj.mp ?_)⟩
    simp only [Char.ofUInt8, UInt8.toNat_toUInt32, UInt8.toNat_ofNat']
    exact Nat.mod_eq_of_lt (by omega)
  all_goals
    right
    refine ⟨Nat.lt_of_not_le one, ?_⟩
    simp only [List.forall_mem_cons, List.not_mem_nil, false_implies, implies_true, and_true,
      UInt8.toNat_ofNat']
    omega

variable {c : Char} {b : UInt8}

/-- A character beyond ASCII is neither a quote nor path-safe. -/
theorem isOther_of_le (h : 0x80 ≤ c.toNat) : isQuote c = false ∧ isPathSafe c = false := by
  constructor
  · exact Bool.eq_false_iff.mpr fun isQuote => absurd (toNat_lt_of_isQuote isQuote) (by omega)
  · exact Bool.eq_false_iff.mpr fun safe => absurd (toNat_lt_of_isPathSafe safe) (by omega)

/-- Nor is a byte beyond ASCII, since a byte counts as the character with its number. -/
theorem byte_isOther_of_le (h : 0x80 ≤ b.toNat) : isQuote b = false ∧ isPathSafe b = false :=
  isOther_of_le (c := Char.ofUInt8 b) h

/-- A byte that is a quote is a byte of ASCII. -/
theorem byte_lt_of_isQuote (h : isQuote b = true) : b.toNat < 0x80 :=
  toNat_lt_of_isQuote (c := Char.ofUInt8 b) h

/-! ### Literals in bytes -/

/-- The run at the front of the bytes is the run at the front of the characters, written as bytes.
-/
theorem closedRun?_encode (text : Text) :
    closedRun? (encode text) = (closedRun? text).map encode := by
  -- on the text, one character at a time, which may be several bytes
  induction text with
  | nil => rfl
  | cons c text ih =>
    rw [Utf8.encode_cons]
    rcases utf8EncodeChar_cases c with ⟨b, hb, rfl⟩ | ⟨beyond, bytes⟩
    · -- the byte is a quote or path-safe when the character is, by definition
      rw [hb, List.singleton_append]
      by_cases hq : isQuote b = true
      · rw [closedRun?_cons_of_isQuote hq, closedRun?_cons_of_isQuote (a := Char.ofUInt8 b) hq]
        rfl
      · rw [Bool.not_eq_true] at hq
        by_cases hs : isPathSafe b = true
        · have longer : (b :: ·) ∘ encode = encode ∘ (Char.ofUInt8 b :: ·) := by
            funext run
            simp [hb]
          rw [closedRun?_cons_of_isPathSafe hs,
            closedRun?_cons_of_isPathSafe (a := Char.ofUInt8 b) hs, ih, Option.map_map,
            Option.map_map, longer]
        · rw [Bool.not_eq_true] at hs
          rw [closedRun?_cons_of_other hq hs,
            closedRun?_cons_of_other (a := Char.ofUInt8 b) hq hs]
          rfl
    · -- such a character breaks the run, and so does the first of its bytes
      obtain ⟨hq, hs⟩ := isOther_of_le beyond
      rw [closedRun?_cons_of_other hq hs]
      rcases hbytes : String.utf8EncodeChar c with _ | ⟨b, rest⟩
      · exact absurd hbytes String.utf8EncodeChar_ne_nil
      · obtain ⟨hq, hs⟩ := byte_isOther_of_le (bytes b (hbytes ▸ List.mem_cons_self))
        exact closedRun?_cons_of_other hq hs _

/-- **Characters or bytes**: the literals among the bytes of a text are the bytes of its literals,
in the same order. -/
theorem literals_encode (text : Text) : literals (encode text) = (literals text).map encode := by
  induction text with
  | nil => rfl
  | cons c text ih =>
    rw [Utf8.encode_cons]
    rcases utf8EncodeChar_cases c with ⟨b, hb, rfl⟩ | ⟨beyond, bytes⟩
    · rw [hb, List.singleton_append]
      by_cases hq : isQuote b = true
      · rw [literals_cons_of_isQuote hq, literals_cons_of_isQuote (a := Char.ofUInt8 b) hq,
          closedRun?_encode, ih, List.map_append, Option.toList_map]
      · rw [Bool.not_eq_true] at hq
        rw [literals_cons_of_not_isQuote hq, ih,
          literals_cons_of_not_isQuote (a := Char.ofUInt8 b) hq]
    · -- the bytes of a character beyond ASCII open no literal, and neither does the character
      rw [literals_append_of_not_isQuote fun b hb => (byte_isOther_of_le (bytes b hb)).1,
        literals_cons_of_not_isQuote (isOther_of_le beyond).1, ih]

/-! ### Between two characters -/

namespace Text

/-- An offset among the bytes of a text is between two characters, or at one of its ends. Cutting
the bytes there leaves the bytes of a text on each side. -/
def IsBoundary (text : Text) (offset : Nat) : Prop :=
  ∃ before after, text = before ++ after ∧ (encode before).length = offset

/-- A part of a text can be cut out at two offsets among its bytes. -/
structure Sliceable (text : Text) (start stop : Nat) : Prop where
  start_le : start ≤ stop
  stop_le : stop ≤ (encode text).length
  /-- The first offset is not inside a character. -/
  isBoundary_start : text.IsBoundary start
  /-- Nor is the second. -/
  isBoundary_stop : text.IsBoundary stop

/-- A text may be cut before its first character. -/
theorem isBoundary_zero (text : Text) : IsBoundary text 0 :=
  ⟨[], text, rfl, rfl⟩

/-- One more character at the front moves a boundary by the bytes of that character. -/
theorem IsBoundary.cons {text : Text} {offset : Nat} (h : IsBoundary text offset) (c : Char) :
    IsBoundary (c :: text) ((String.utf8EncodeChar c).length + offset) := by
  obtain ⟨before, after, rfl, rfl⟩ := h
  exact ⟨c :: before, after, rfl, List.length_append⟩

/-- A byte of ASCII stands between two character boundaries. No byte of a longer character is in
ASCII, so it is a character by itself. -/
theorem isBoundary_of_ascii {text : Text} {offset : Nat} {b : UInt8}
    (h : (encode text)[offset]? = some b) (ascii : b.toNat < 0x80) :
    IsBoundary text offset ∧ IsBoundary text (offset + 1) := by
  -- on the text: the byte belongs to the first character, which is then that byte, or lies behind
  -- it
  induction text generalizing offset with
  | nil => simp at h
  | cons c text ih =>
    rw [Utf8.encode_cons] at h
    by_cases inFirst : offset < (String.utf8EncodeChar c).length
    · rw [List.getElem?_append_left inFirst] at h
      rcases utf8EncodeChar_cases c with ⟨b', hb', -⟩ | ⟨-, bytes⟩
      · have first : offset = 0 := by
          rw [hb', List.length_singleton] at inFirst
          omega
        subst first
        refine ⟨isBoundary_zero _, ?_⟩
        have after := (isBoundary_zero text).cons c
        rwa [hb'] at after
      · exact absurd (bytes b (List.mem_of_getElem? h)) (by omega)
    · rw [Nat.not_lt] at inFirst
      rw [List.getElem?_append_right inFirst] at h
      obtain ⟨before, after⟩ := ih h
      obtain ⟨rest, rfl⟩ := Nat.exists_eq_add_of_le inFirst
      rw [Nat.add_sub_cancel_left] at before after
      exact ⟨before.cons c, after.cons c⟩

/-- Quotes are such bytes. -/
theorem isBoundary_of_isQuote {text : Text} {offset : Nat}
    (h : (encode text)[offset]?.any isQuote = true) :
    text.IsBoundary offset ∧ text.IsBoundary (offset + 1) := by
  obtain ⟨b, hb, quote⟩ := (Option.any_eq_true _ _).mp h
  exact isBoundary_of_ascii hb (byte_lt_of_isQuote quote)

/-- The spans of a text can be cut out of it. -/
theorem sliceable_of_mem_spans {text : Text} {span : Span} (h : span ∈ spans (encode text)) :
    text.Sliceable span.start span.stop := by
  obtain ⟨opening, hstart, delimits⟩ := mem_spans.mp h
  obtain ⟨closing, hclosing, -⟩ := (Option.any_eq_true _ _).mp delimits.isQuote_closing
  -- a span goes from behind its opening quote up to its closing quote
  refine ⟨?_, ?_, ?_, (isBoundary_of_isQuote delimits.isQuote_closing).1⟩
  · rw [hstart]
    exact delimits.lt
  · exact Nat.le_of_lt (List.getElem?_eq_some_iff.mp hclosing).1
  · rw [hstart]
    exact (isBoundary_of_isQuote delimits.isQuote_opening).2

/-- The first character takes two bytes and is not part of any span. -/
example : spans (encode "é'a'é'b'".toList) = [⟨3, 4⟩, ⟨8, 9⟩] := by decide

/-! ### Texts of path-safe characters -/

section pathSafe

variable {text : Text}

/-- Such a text has a byte for each character. -/
theorem length_encode_of_all_isPathSafe (safe : text.all isPathSafe = true) :
    (encode text).length = text.length := by
  induction text with
  | nil => rfl
  | cons c text ih =>
    rw [List.all_cons, Bool.and_eq_true] at safe
    rw [Utf8.encode_cons, List.length_append, List.length_cons, ih safe.2, Nat.add_comm]
    rcases utf8EncodeChar_cases c with ⟨b, hb, -⟩ | ⟨beyond, -⟩
    · rw [hb, List.length_singleton]
    · exact absurd (toNat_lt_of_isPathSafe safe.1) (by omega)

/-- So have its first characters. -/
theorem length_encode_take_of_all_isPathSafe (safe : text.all isPathSafe = true) {offset : Nat}
    (h : offset ≤ text.length) : (encode (text.take offset)).length = offset := by
  have safe_take : (text.take offset).all isPathSafe = true :=
    List.all_eq_true.mpr fun c hc => List.all_eq_true.mp safe c (List.mem_of_mem_take hc)
  rw [length_encode_of_all_isPathSafe safe_take, List.length_take, Nat.min_eq_left h]

/-- It can be cut anywhere. -/
theorem isBoundary_of_all_isPathSafe (safe : text.all isPathSafe = true) {offset : Nat}
    (h : offset ≤ text.length) : IsBoundary text offset :=
  ⟨text.take offset, text.drop offset, (List.take_append_drop offset text).symm,
    length_encode_take_of_all_isPathSafe safe h⟩

/-- Cutting its bytes is cutting its characters. -/
theorem drop_encode_of_all_isPathSafe (safe : text.all isPathSafe = true) {offset : Nat}
    (h : offset ≤ text.length) : (encode text).drop offset = encode (text.drop offset) := by
  conv_lhs => rw [← List.take_append_drop offset text, Utf8.encode_append]
  exact List.drop_left' (length_encode_take_of_all_isPathSafe safe h)

end pathSafe

end Text

end Orphans
