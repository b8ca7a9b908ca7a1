import Mathlib
import Orphans.Proofs.Bytes
import Orphans.Proofs.SourceFile

/-!
# Reading UTF-8

`Utf8.decode?_eq_some_iff`: a byte sequence is read as a text exactly when it is the bytes of that
text. `Utf8.decodeLossy_append_cons`: reading with U+FFFD for what is ill-formed can be cut at any
byte of ASCII, since no character and no ill-formed stretch goes past one.

A reader in the middle of a character knows the first digits of its number in base 64 and bounds on
the next one, and so which numbers are still possible (`Pending.Admits`). There are two ways through
the bytes, one for each direction:

* From bytes to characters: the bytes that a reader has taken are the first bytes of every character
  with such a number (`Pending.Spells`). They are after the first byte (`spells_of_ofByte`), they
  still are after one more (`Pending.Spells.continue`), and with the last one they are the character
  (`Pending.Spells.complete`). `Reader.Follows` is the invariant of the whole reader, and
  `follows_foldl_step` the run.
* From characters to bytes: every character beyond ASCII has a first byte that leaves its number
  possible (`exists_ofByte`), and its other bytes are the digits of the number
  (`foldl_step_continuation`).

The classes of first bytes are gone through in `spells_of_ofByte` and `exists_ofByte`, and nowhere
after them.
-/

namespace Orphans.Utf8

/-! ### Characters of several bytes -/

/-- The byte that holds one of the digits of a number in base 64. In UTF-8 every byte of a character
but the first holds one. -/
def digit (number n : Nat) : UInt8 :=
  UInt8.ofNat (number / 0x40 ^ n % 0x40 + 0x80)

/-- A byte that holds a digit has its two highest bits as `10`, so it lies between 0x80 and 0xBF. -/
theorem toNat_digit (number n : Nat) :
    (digit number n).toNat = number / 0x40 ^ n % 0x40 + 0x80 := by
  rw [digit, UInt8.toNat_ofNat']
  omega

/-- The last bytes of the character with a number. -/
def continuation (number : Nat) : Nat → Bytes
  | 0 => []
  | n + 1 => digit number n :: continuation number n

/-- A character in progress may turn out to be the one with a number. -/
structure Pending.Admits (pending : Pending) (number : Nat) : Prop where
  /-- The digits that have been read are the first of the number. -/
  value_eq : number / 0x40 ^ (pending.due + 1) = pending.value
  /-- The next digit is not below the lower bound. -/
  low_le : pending.low.toNat ≤ number / 0x40 ^ pending.due % 0x40 + 0x80
  /-- The next digit is not above the upper bound. -/
  le_high : number / 0x40 ^ pending.due % 0x40 + 0x80 ≤ pending.high.toNat

/-- The next byte of a character in progress is one that holds a digit in base 64. -/
structure Pending.IsBounded (pending : Pending) : Prop where
  le_low : 0x80 ≤ pending.low.toNat
  high_le : pending.high.toNat ≤ 0xBF

/-- Every character that the one in progress may turn out to be begins with the bytes `front`. So it
is decided by the bytes that are still to come which of them it is. -/
def Pending.Spells (pending : Pending) (front : Bytes) : Prop :=
  ∀ number, pending.Admits number → number.isValidChar ∧
    String.utf8EncodeChar (Char.ofNat number) = front ++ continuation number (pending.due + 1)

/-- The number of the character with a number, as long as there is one. -/
theorem toNat_ofNat {number : Nat} (valid : number.isValidChar) :
    (Char.ofNat number).toNat = number := by
  rw [Char.toNat_ofNat, if_pos valid]

section lengths

variable {number : Nat}

/-- A character of two bytes: the first holds the first digit, the second the other one. -/
theorem utf8EncodeChar_of_lt_two (h : 0x80 ≤ number) (h' : number < 0x800) :
    String.utf8EncodeChar (Char.ofNat number) =
      UInt8.ofNat (number / 0x40 + 0xC0) :: continuation number 1 := by
  have value : (Char.ofNat number).val.toNat = number := toNat_ofNat (.inl (by omega))
  unfold String.utf8EncodeChar
  simp only [value]
  rw [if_neg (by omega), if_pos (by omega), Nat.mod_eq_of_lt (by omega)]
  simp [continuation, digit]

/-- A character of three bytes. The surrogates lie in this range and are left out. -/
theorem utf8EncodeChar_of_lt_three (valid : number.isValidChar) (h : 0x800 ≤ number)
    (h' : number < 0x10000) :
    String.utf8EncodeChar (Char.ofNat number) =
      UInt8.ofNat (number / 0x1000 + 0xE0) :: continuation number 2 := by
  have value : (Char.ofNat number).val.toNat = number := toNat_ofNat valid
  unfold String.utf8EncodeChar
  simp only [value]
  rw [if_neg (by omega), if_neg (by omega), if_pos (by omega), Nat.mod_eq_of_lt (by omega)]
  simp [continuation, digit]

/-- A character of four bytes. -/
theorem utf8EncodeChar_of_lt_four (h : 0x10000 ≤ number) (h' : number < 0x110000) :
    String.utf8EncodeChar (Char.ofNat number) =
      UInt8.ofNat (number / 0x40000 + 0xF0) :: continuation number 3 := by
  have value : (Char.ofNat number).val.toNat = number := toNat_ofNat (.inr ⟨by omega, h'⟩)
  unfold String.utf8EncodeChar
  simp only [value]
  rw [if_neg (by omega), if_neg (by omega), if_neg (by omega), Nat.mod_eq_of_lt (by omega)]
  simp [continuation, digit]

end lengths

/-! ### The first byte of a character -/

/-- A byte that is a whole character is how that character is written. -/
theorem utf8EncodeChar_of_ofByte {b : UInt8} {c : Char} (h : Lead.ofByte b = .character c) :
    String.utf8EncodeChar c = [b] := by
  unfold Lead.ofByte at h
  split at h
  · next ascii =>
    cases h
    have small : b.toNat < 0x80 := ascii
    have value : (Char.ofNat b.toNat).val.toNat = b.toNat := toNat_ofNat (.inl (by omega))
    unfold String.utf8EncodeChar
    simp only [value]
    rw [if_pos (by omega), UInt8.ofNat_toNat]
  · -- all other bytes begin a longer character or none
    repeat' (split at h <;> try cases h)

section sequences

variable {b low high : UInt8} {value : Nat}

/-- A first byte of two begins every character with its digit, if these are no shorter ones. -/
theorem spells_of_lead_two (lead : value + 0xC0 = b.toNat)
    (range : ∀ number, number / 0x40 = value → 0x80 ≤ number ∧ number < 0x800) :
    Pending.Spells ⟨value, low, high, 0⟩ [b] := by
  rintro number ⟨value_eq, -, -⟩
  have first : number / 0x40 = value := value_eq
  obtain ⟨le, lt⟩ := range number first
  refine ⟨.inl (by omega), ?_⟩
  rw [utf8EncodeChar_of_lt_two le lt, first, lead, UInt8.ofNat_toNat]
  rfl

/-- A first byte of three begins every character that its bounds admit, if these are no shorter ones
and no surrogates. -/
theorem spells_of_lead_three (lead : value + 0xE0 = b.toNat)
    (range : ∀ number, number / 0x1000 = value → low.toNat ≤ number / 0x40 % 0x40 + 0x80 →
      number / 0x40 % 0x40 + 0x80 ≤ high.toNat →
        0x800 ≤ number ∧ number < 0x10000 ∧ (number < 0xD800 ∨ 0xDFFF < number)) :
    Pending.Spells ⟨value, low, high, 1⟩ [b] := by
  rintro number ⟨value_eq, low_le, le_high⟩
  have first : number / 0x1000 = value := value_eq
  obtain ⟨le, lt, noSurrogate⟩ := range number first low_le le_high
  have valid : number.isValidChar := noSurrogate.imp_right fun h => ⟨h, by omega⟩
  refine ⟨valid, ?_⟩
  rw [utf8EncodeChar_of_lt_three valid le lt, first, lead, UInt8.ofNat_toNat]
  rfl

/-- A first byte of four begins every character that its bounds admit, if these are no shorter ones
and end at U+10FFFF. -/
theorem spells_of_lead_four (lead : value + 0xF0 = b.toNat)
    (range : ∀ number, number / 0x40000 = value → low.toNat ≤ number / 0x1000 % 0x40 + 0x80 →
      number / 0x1000 % 0x40 + 0x80 ≤ high.toNat → 0x10000 ≤ number ∧ number < 0x110000) :
    Pending.Spells ⟨value, low, high, 2⟩ [b] := by
  rintro number ⟨value_eq, low_le, le_high⟩
  have first : number / 0x40000 = value := value_eq
  obtain ⟨le, lt⟩ := range number first low_le le_high
  refine ⟨.inr ⟨by omega, lt⟩, ?_⟩
  rw [utf8EncodeChar_of_lt_four le lt, first, lead, UInt8.ofNat_toNat]
  rfl

end sequences

/-- A first byte says how many are to come, and its bounds on the next one leave out what is no
character or has a shorter spelling. -/
theorem spells_of_ofByte {b : UInt8} {pending : Pending} (h : Lead.ofByte b = .sequence pending) :
    pending.IsBounded ∧ pending.Spells [b] := by
  unfold Lead.ofByte at h
  simp only [UInt8.lt_iff_toNat_lt, ← UInt8.toNat_inj, UInt8.reduceToNat] at h
  split at h
  · cases h
  split at h
  · cases h
  -- characters of two bytes, then of three, then of four, in the order of the first byte
  split at h
  · cases h
    exact ⟨⟨Nat.le_refl _, Nat.le_refl _⟩, spells_of_lead_two (by omega) (by omega)⟩
  split at h
  · cases h
    refine ⟨⟨by decide, by decide⟩, spells_of_lead_three (by omega) ?_⟩
    simp only [UInt8.reduceToNat]
    omega
  split at h
  · cases h
    refine ⟨⟨by decide, by decide⟩, spells_of_lead_three (by omega) ?_⟩
    simp only [UInt8.reduceToNat]
    omega
  split at h
  · cases h
    refine ⟨⟨Nat.le_refl _, Nat.le_refl _⟩, spells_of_lead_three (by omega) ?_⟩
    simp only [UInt8.reduceToNat]
    omega
  split at h
  · cases h
    refine ⟨⟨by decide, by decide⟩, spells_of_lead_four (by omega) ?_⟩
    simp only [UInt8.reduceToNat]
    omega
  split at h
  · cases h
    refine ⟨⟨Nat.le_refl _, Nat.le_refl _⟩, spells_of_lead_four (by omega) ?_⟩
    simp only [UInt8.reduceToNat]
    omega
  split at h
  · cases h
    refine ⟨⟨by decide, by decide⟩, spells_of_lead_four (by omega) ?_⟩
    simp only [UInt8.reduceToNat]
    omega
  · cases h

/-- The role of a byte, with its number instead of the byte in all conditions. -/
theorem ofByte_ofNat {n : Nat} (h : n < 0x100) :
    Lead.ofByte (UInt8.ofNat n) =
      if n < 0x80 then .character (Char.ofNat n)
      else if n < 0xC2 then .illFormed
      else if n < 0xE0 then .sequence ⟨n % 0x20, 0x80, 0xBF, 0⟩
      else if n = 0xE0 then .sequence ⟨0, 0xA0, 0xBF, 1⟩
      else if n = 0xED then .sequence ⟨0xD, 0x80, 0x9F, 1⟩
      else if n < 0xF0 then .sequence ⟨n % 0x10, 0x80, 0xBF, 1⟩
      else if n = 0xF0 then .sequence ⟨0, 0x90, 0xBF, 2⟩
      else if n < 0xF4 then .sequence ⟨n % 0x08, 0x80, 0xBF, 2⟩
      else if n = 0xF4 then .sequence ⟨4, 0x80, 0x8F, 2⟩
      else .illFormed := by
  unfold Lead.ofByte
  simp only [UInt8.lt_iff_toNat_lt, ← UInt8.toNat_inj, UInt8.reduceToNat, UInt8.toNat_ofNat',
    Nat.mod_eq_of_lt (show n < 2 ^ 8 from h)]

/-- Every character beyond ASCII has a first byte, and this byte leaves the number of the character
possible. Some first bytes have bounds for the next one, to shut out surrogates and long spellings.
-/
theorem exists_ofByte {c : Char} (beyond : 0x80 ≤ c.toNat) :
    ∃ b pending, Lead.ofByte b = .sequence pending ∧ pending.Admits c.toNat := by
  have valid : c.toNat.isValidChar := c.valid
  generalize c.toNat = number at beyond valid ⊢
  have range : number < 0xD800 ∨ 0xDFFF < number ∧ number < 0x110000 := valid
  -- by the number of bytes, and among these by the first bytes with bounds of their own
  by_cases two : number < 0x800
  · refine ⟨.ofNat (number / 0x40 + 0xC0), ⟨number / 0x40, 0x80, 0xBF, 0⟩, ?_, ?_⟩
    · simp (disch := omega) only [ofByte_ofNat, if_pos, if_neg]
      congr 2
      omega
    · constructor <;> simp
      omega
  by_cases three : number < 0x10000
  · by_cases first : number / 0x1000 = 0
    · refine ⟨0xE0, ⟨0, 0xA0, 0xBF, 1⟩, rfl, ?_⟩
      constructor <;> simp <;> omega
    by_cases surrogate : number / 0x1000 = 0xD
    · refine ⟨0xED, ⟨0xD, 0x80, 0x9F, 1⟩, rfl, ?_⟩
      constructor <;> simp <;> omega
    · refine ⟨.ofNat (number / 0x1000 + 0xE0), ⟨number / 0x1000, 0x80, 0xBF, 1⟩, ?_, ?_⟩
      · simp (disch := omega) only [ofByte_ofNat, if_pos, if_neg]
        congr 2
        omega
      · constructor <;> simp
        omega
  · by_cases first : number / 0x40000 = 0
    · refine ⟨0xF0, ⟨0, 0x90, 0xBF, 2⟩, rfl, ?_⟩
      constructor <;> simp <;> omega
    by_cases last : number / 0x40000 = 4
    · refine ⟨0xF4, ⟨4, 0x80, 0x8F, 2⟩, rfl, ?_⟩
      constructor <;> simp <;> omega
    · refine ⟨.ofNat (number / 0x40000 + 0xF0), ⟨number / 0x40000, 0x80, 0xBF, 2⟩, ?_, ?_⟩
      · simp (disch := omega) only [ofByte_ofNat, if_pos, if_neg]
        congr 2
        omega
      · constructor <;> simp
        omega

/-! ### One byte more -/

variable {reader : Reader} {bytes : Bytes}

/-- Bytes are the beginning of the character in progress. Between two characters there are none. -/
def Unfinished : Option Pending → Bytes → Prop
  | none, front => front = []
  | some pending, front => pending.Spells front

/-- A reader has taken some bytes: while none of them are ill-formed, they spell the characters that
have been read and the beginning of the one in progress. -/
structure Reader.Follows (reader : Reader) (bytes : Bytes) : Prop where
  /-- The bounds of a character in progress are those of a digit. -/
  isBounded : ∀ pending, reader.pending = some pending → pending.IsBounded
  /-- What has been read is followed by the beginning of the character in progress. -/
  exists_front : ∀ text : Text, reader.read.reverse = text.map some →
    ∃ front, bytes = encode text ++ front ∧ Unfinished reader.pending front

/-- What has been read last is the last character of the text, if nothing so far is ill-formed. -/
theorem reverse_cons_eq_map_some_iff {unit : Option Char} {read : List (Option Char)}
    {text : Text} :
    (unit :: read).reverse = text.map some ↔
      ∃ before c, text = before ++ [c] ∧ unit = some c ∧ read.reverse = before.map some := by
  rw [List.reverse_cons]
  constructor
  · intro h
    obtain ⟨before, last, rfl, hbefore, hlast⟩ := List.append_eq_map_iff.mp h
    obtain ⟨c, rfl, hc⟩ := List.map_eq_singleton_iff.mp hlast
    exact ⟨before, c, rfl, hc.symm, hbefore.symm⟩
  · rintro ⟨before, c, rfl, rfl, hread⟩
    simp [hread]

/-- A reader that begins a character has taken the bytes of the characters before it. The byte is a
character, the first of several, or ill-formed. -/
theorem Reader.follows_begin {read : List (Option Char)} (b : UInt8)
    (h : ∀ text : Text, read.reverse = text.map some → bytes = encode text) :
    (Reader.begin read b).Follows (bytes ++ [b]) := by
  unfold Reader.begin
  -- by what the byte is to a reader between two characters
  rcases hlead : Lead.ofByte b with c | pending | _ <;> dsimp only <;> constructor
  case character.isBounded => exact fun _ absurd => nomatch absurd
  case character.exists_front =>
    intro text htext
    obtain ⟨before, _, rfl, hc, hread⟩ := reverse_cons_eq_map_some_iff.mp htext
    cases hc
    refine ⟨[], ?_, rfl⟩
    rw [h before hread, encode_append, encode_cons, utf8EncodeChar_of_ofByte hlead]
    simp
  case sequence.isBounded =>
    rintro _ ⟨⟩
    exact (spells_of_ofByte hlead).1
  case sequence.exists_front =>
    intro text htext
    refine ⟨[b], ?_, (spells_of_ofByte hlead).2⟩
    rw [h text htext]
  case illFormed.isBounded => exact fun _ absurd => nomatch absurd
  case illFormed.exists_front =>
    intro text htext
    obtain ⟨_, _, -, absurd, -⟩ := reverse_cons_eq_map_some_iff.mp htext
    cases absurd

section digits

variable {value due : Nat} {low high b : UInt8} {front : Bytes}

/-- The byte that continues a character is the one that holds the next digit of its number. -/
theorem digit_eq {number : Nat} (isBounded : Pending.IsBounded ⟨value, low, high, due⟩)
    (le : low ≤ b) (le' : b ≤ high) (h : number / 0x40 ^ due % 0x40 = b.toNat % 0x40) :
    digit number due = b := by
  have le_low : 0x80 ≤ low.toNat := isBounded.le_low
  have high_le : high.toNat ≤ 0xBF := isBounded.high_le
  rw [UInt8.le_iff_toNat_le] at le le'
  rw [← UInt8.toNat_inj, toNat_digit]
  omega

/-- The last byte of a character completes it: the digits that were read and the one in this byte
are all digits of its number. -/
theorem Pending.Spells.complete (spells : Pending.Spells ⟨value, low, high, 0⟩ front)
    (isBounded : Pending.IsBounded ⟨value, low, high, 0⟩) (le : low ≤ b) (le' : b ≤ high) :
    String.utf8EncodeChar (Char.ofNat (value * 0x40 + b.toNat % 0x40)) = front ++ [b] := by
  have le_low : 0x80 ≤ low.toNat := isBounded.le_low
  have high_le : high.toNat ≤ 0xBF := isBounded.high_le
  have hb : low.toNat ≤ b.toNat := le
  have hb' : b.toNat ≤ high.toNat := le'
  have admits : Pending.Admits ⟨value, low, high, 0⟩ (value * 0x40 + b.toNat % 0x40) := by
    constructor <;> simp <;> omega
  have last : (value * 0x40 + b.toNat % 0x40) / 0x40 ^ 0 % 0x40 = b.toNat % 0x40 := by
    rw [pow_zero]
    omega
  have byte := digit_eq isBounded le le' last
  rw [(spells _ admits).2]
  show front ++ [digit _ 0] = front ++ [b]
  rw [byte]

/-- Any other byte leaves the numbers that have its digit next. After the second byte there are no
bounds but those of a digit. -/
theorem Pending.Spells.continue (spells : Pending.Spells ⟨value, low, high, due + 1⟩ front)
    (isBounded : Pending.IsBounded ⟨value, low, high, due + 1⟩) (le : low ≤ b) (le' : b ≤ high) :
    Pending.Spells ⟨value * 0x40 + b.toNat % 0x40, 0x80, 0xBF, due⟩ (front ++ [b]) := by
  have le_low : 0x80 ≤ low.toNat := isBounded.le_low
  have high_le : high.toNat ≤ 0xBF := isBounded.high_le
  have hb : low.toNat ≤ b.toNat := le
  have hb' : b.toNat ≤ high.toNat := le'
  rintro number ⟨value_eq, -, -⟩
  have front_eq : number / 0x40 ^ (due + 1) = value * 0x40 + b.toNat % 0x40 := value_eq
  have next : number / 0x40 ^ (due + 1) % 0x40 = b.toNat % 0x40 := by omega
  -- a number that continues with this byte is one that could have come before it
  have admits : Pending.Admits ⟨value, low, high, due + 1⟩ number := by
    constructor
    · show number / 0x40 ^ (due + 1 + 1) = value
      rw [pow_succ, ← Nat.div_div_eq_div_mul]
      omega
    · show low.toNat ≤ number / 0x40 ^ (due + 1) % 0x40 + 0x80
      omega
    · show number / 0x40 ^ (due + 1) % 0x40 + 0x80 ≤ high.toNat
      omega
  obtain ⟨valid, spelled⟩ := spells number admits
  refine ⟨valid, ?_⟩
  rw [spelled, continuation, digit_eq isBounded le le' next, List.append_assoc,
    List.singleton_append]

end digits

/-- A reader that follows some bytes follows them with one byte more. This is the step of the
invariant that `decode?_eq_some_iff` is proved with. -/
theorem Reader.Follows.step (h : reader.Follows bytes) (b : UInt8) :
    (reader.step b).Follows (bytes ++ [b]) := by
  -- between two characters, or in the middle of one that the byte continues or breaks off
  rcases reader with ⟨_ | pending, read⟩
  · refine Reader.follows_begin b ?_
    intro text htext
    obtain ⟨front, hbytes, rfl⟩ := h.exists_front text htext
    rw [hbytes, List.append_nil]
  · have isBounded := h.isBounded pending rfl
    unfold Reader.step
    dsimp only
    split
    · next inside =>
      simp only [Bool.and_eq_true, decide_eq_true_eq] at inside
      rcases pending with ⟨value, low, high, _ | due⟩ <;> dsimp only at inside ⊢ <;> constructor
      case zero.isBounded => exact fun _ absurd => nomatch absurd
      case zero.exists_front =>
        intro text htext
        obtain ⟨before, _, rfl, hc, hread⟩ := reverse_cons_eq_map_some_iff.mp htext
        cases hc
        obtain ⟨front, rfl, spells⟩ := h.exists_front before hread
        refine ⟨[], ?_, rfl⟩
        rw [encode_append, encode_cons, spells.complete isBounded inside.1 inside.2]
        simp
      case succ.isBounded =>
        rintro _ ⟨⟩
        exact ⟨Nat.le_refl _, Nat.le_refl _⟩
      case succ.exists_front =>
        intro text htext
        obtain ⟨front, rfl, spells⟩ := h.exists_front text htext
        exact ⟨front ++ [b], List.append_assoc .., spells.continue isBounded inside.1 inside.2⟩
    · -- something ill-formed has been read, so there is no text to follow
      refine Reader.follows_begin b ?_
      intro text htext
      obtain ⟨_, _, -, absurd, -⟩ := reverse_cons_eq_map_some_iff.mp htext
      cases absurd

/-- What a reader has taken after some bytes are these bytes. -/
theorem follows_foldl_step (bytes : Bytes) : (bytes.foldl Reader.step .start).Follows bytes := by
  -- on the bytes from their end, as a reader goes through them
  induction bytes using List.reverseRecOn with
  | nil =>
    refine ⟨(fun _ absurd => nomatch absurd), ?_⟩
    intro text htext
    rw [List.map_eq_nil_iff.mp htext.symm]
    exact ⟨[], rfl, rfl⟩
  | append_singleton bytes b ih =>
    rw [List.foldl_append]
    exact ih.step b

/-! ### Characters after what has been read -/

/-- A reader with something read before all that it has read. What has been read has no part in what
a reader does next. -/
def Reader.after (reader : Reader) (before : List (Option Char)) : Reader :=
  ⟨reader.pending, reader.read ++ before⟩

/-- How a character begins does not depend on what was read before it. -/
theorem Reader.begin_append (read before : List (Option Char)) (b : UInt8) :
    Reader.begin (read ++ before) b = (Reader.begin read b).after before := by
  unfold Reader.begin
  rcases Lead.ofByte b with c | pending | _ <;> rfl

/-- Nor does what one byte does. -/
theorem Reader.step_after (before : List (Option Char)) (b : UInt8) :
    (reader.after before).step b = (reader.step b).after before := by
  rcases reader with ⟨_ | pending, read⟩
  · exact begin_append read before b
  · unfold Reader.step Reader.after
    dsimp only
    split
    · rcases pending.due with _ | due <;> rfl
    · exact begin_append (none :: read) before b

/-- Nor what many bytes do: what was read before stays at the end. -/
theorem Reader.foldl_step_after (before : List (Option Char)) (bytes : Bytes) :
    bytes.foldl step (reader.after before) = (bytes.foldl step reader).after before := by
  induction bytes generalizing reader with
  | nil => rfl
  | cons b bytes ih => rw [List.foldl_cons, List.foldl_cons, step_after, ih]

/-- Nor how the last character ends. -/
theorem Reader.finish_after (before : List (Option Char)) :
    (reader.after before).finish = reader.finish ++ before := by
  rcases reader with ⟨_ | pending, read⟩ <;> rfl

/-- What is read of bytes behind complete characters does not depend on these. -/
theorem units_append {front : Bytes} {read : List (Option Char)}
    (h : front.foldl Reader.step .start = ⟨none, read⟩) (rest : Bytes) :
    units (front ++ rest) = read.reverse ++ units rest := by
  have after : front.foldl Reader.step .start = Reader.start.after read := h
  rw [units, List.foldl_append, after, Reader.foldl_step_after, Reader.finish_after,
    List.reverse_append, units]

/-! ### Reading what has been written -/

section digits

variable {value due : Nat} {low high b : UInt8}

/-- The last byte of a character completes it. -/
theorem Reader.step_of_due_zero (le : low ≤ b) (le' : b ≤ high) (read : List (Option Char)) :
    Reader.step ⟨some ⟨value, low, high, 0⟩, read⟩ b =
      ⟨none, some (Char.ofNat (value * 0x40 + b.toNat % 0x40)) :: read⟩ := by
  simp [Reader.step, le, le']

/-- Any other byte within the bounds adds a digit, and the bounds on the next one are the widest. -/
theorem Reader.step_of_due_succ (le : low ≤ b) (le' : b ≤ high) (read : List (Option Char)) :
    Reader.step ⟨some ⟨value, low, high, due + 1⟩, read⟩ b =
      ⟨some ⟨value * 0x40 + b.toNat % 0x40, 0x80, 0xBF, due⟩, read⟩ := by
  simp [Reader.step, le, le']

end digits

/-- The next digit of a number that a character in progress may have. -/
theorem Pending.Admits.digit {pending : Pending} {number : Nat} (admits : pending.Admits number) :
    pending.low ≤ digit number pending.due ∧ digit number pending.due ≤ pending.high ∧
      pending.value * 0x40 + (Utf8.digit number pending.due).toNat % 0x40 =
        number / 0x40 ^ pending.due := by
  have value_eq : number / 0x40 ^ pending.due / 0x40 = pending.value := by
    rw [Nat.div_div_eq_div_mul, ← pow_succ]
    exact admits.value_eq
  simp only [UInt8.le_iff_toNat_le, toNat_digit]
  exact ⟨admits.low_le, admits.le_high, by omega⟩

/-- The remaining bytes of a character complete it. The induction is on how many are due, with the
number that is possible kept fixed. -/
theorem foldl_step_continuation {pending : Pending} {number : Nat} (admits : pending.Admits number)
    (read : List (Option Char)) :
    (continuation number (pending.due + 1)).foldl Reader.step ⟨some pending, read⟩ =
      ⟨none, some (Char.ofNat number) :: read⟩ := by
  rcases pending with ⟨value, low, high, due⟩
  induction due generalizing value low high with
  | zero =>
    obtain ⟨le, le', number_eq⟩ := admits.digit
    dsimp only at le le' number_eq ⊢
    rw [continuation, List.foldl_cons, Reader.step_of_due_zero le le', number_eq, pow_zero,
      Nat.div_one]
    rfl
  | succ due ih =>
    obtain ⟨le, le', front_eq⟩ := admits.digit
    dsimp only at le le' front_eq ⊢
    have next : Pending.Admits ⟨number / 0x40 ^ (due + 1), 0x80, 0xBF, due⟩ number := by
      refine ⟨rfl, ?_, ?_⟩
      · exact Nat.le_add_left _ _
      · show _ ≤ 0xBF
        omega
    rw [continuation, List.foldl_cons, Reader.step_of_due_succ le le', front_eq]
    exact ih _ _ _ next

/-- A reader between two characters reads the bytes of a character as that character. One byte is
read at once; of several, the first leaves the character possible and the others complete it. -/
theorem foldl_step_encodeChar (c : Char) (read : List (Option Char)) :
    (String.utf8EncodeChar c).foldl Reader.step ⟨none, read⟩ = ⟨none, some c :: read⟩ := by
  by_cases ascii : c.toNat < 0x80
  · have small : c.val.toNat ≤ 0x7F := Nat.le_of_lt_succ ascii
    have byte : String.utf8EncodeChar c = [UInt8.ofNat c.toNat] := by
      unfold String.utf8EncodeChar
      exact if_pos small
    have lead : Lead.ofByte (UInt8.ofNat c.toNat) = .character c := by
      rw [ofByte_ofNat (by omega), if_pos ascii, Char.ofNat_toNat]
    rw [byte]
    simp [Reader.step, Reader.begin, lead]
  · obtain ⟨b, pending, lead, admits⟩ := exists_ofByte (Nat.le_of_not_lt ascii)
    -- the first byte leaves the number possible, so it begins the character
    have bytes := ((spells_of_ofByte lead).2 c.toNat admits).2
    rw [Char.ofNat_toNat] at bytes
    rw [bytes, List.singleton_append, List.foldl_cons]
    have first : Reader.step ⟨none, read⟩ b = ⟨some pending, read⟩ := by
      simp [Reader.step, Reader.begin, lead]
    rw [first, foldl_step_continuation admits, Char.ofNat_toNat]

/-- And the bytes of a text as that text. -/
theorem foldl_step_encode (text : Text) (read : List (Option Char)) :
    (encode text).foldl Reader.step ⟨none, read⟩ = ⟨none, (text.map some).reverse ++ read⟩ := by
  induction text generalizing read with
  | nil => rfl
  | cons c text ih =>
    rw [encode_cons, List.foldl_append, foldl_step_encodeChar, ih]
    simp

/-- The bytes of a text are well-formed throughout and are cut into its characters. -/
@[simp] theorem units_encode (text : Text) : units (encode text) = text.map some := by
  have read := foldl_step_encode text []
  rw [List.append_nil] at read
  have all := units_append read []
  rw [List.append_nil, List.reverse_reverse] at all
  exact all.trans (List.append_nil _)

/-- A byte sequence is read as a text exactly when it is cut into the characters of that text,
without an ill-formed stretch. -/
theorem decode?_eq_some_iff_units {text : Text} :
    decode? bytes = some text ↔ units bytes = text.map some := by
  unfold decode?
  dsimp only
  rw [Option.ite_none_right_eq_some, Option.some_inj]
  constructor
  · rintro ⟨wellFormed, rfl⟩
    have kept : (units bytes).filter Option.isSome = units bytes :=
      List.filter_eq_self.mpr (List.all_eq_true.mp wellFormed)
    rw [List.map_filterMap_some_eq_filter_map_isSome, List.map_id, kept]
  · intro h
    rw [h]
    simp

/-- **Reading UTF-8**: a byte sequence is read as a text exactly when it is the bytes of that text.
-/
theorem decode?_eq_some_iff {text : Text} : decode? bytes = some text ↔ bytes = encode text := by
  rw [decode?_eq_some_iff_units]
  constructor
  · intro h
    have follows := follows_foldl_step bytes
    unfold units at h
    rcases hreader : bytes.foldl Reader.step .start with ⟨_ | pending, read⟩
    · rw [hreader] at h follows
      obtain ⟨front, hbytes, rfl⟩ := follows.exists_front text h
      rw [hbytes, List.append_nil]
    · -- the last character would be cut off
      rw [hreader] at h
      obtain ⟨_, _, -, absurd, -⟩ := reverse_cons_eq_map_some_iff.mp h
      cases absurd
  · rintro rfl
    exact units_encode text

/-! ### Bytes of ASCII -/

/-- A byte of ASCII is a character for every reader, and breaks off the one in progress. So a text
can be cut at such a byte, also if its bytes are ill-formed elsewhere. -/
theorem Reader.step_of_ascii {b : UInt8} (ascii : b.toNat < 0x80)
    (isBounded : ∀ pending, reader.pending = some pending → pending.IsBounded) :
    reader.step b = ⟨none, some (Char.ofUInt8 b) :: reader.finish⟩ := by
  have lead : Lead.ofByte b = .character (Char.ofUInt8 b) := by
    have small : b < 0x80 := ascii
    have same : Char.ofNat b.toNat = Char.ofUInt8 b :=
      Char.ext (UInt32.toNat_inj.mp (toNat_ofNat (.inl (by omega))))
    rw [Lead.ofByte, if_pos small, same]
  rcases reader with ⟨_ | pending, read⟩
  · simp [Reader.step, Reader.begin, Reader.finish, lead]
  · have low_le := (isBounded pending rfl).le_low
    have outside : ¬ pending.low ≤ b := by
      rw [UInt8.le_iff_toNat_le]
      omega
    simp [Reader.step, Reader.begin, Reader.finish, lead, outside]

/-- A byte of ASCII cuts a byte sequence in two that are read on their own: it ends whatever is in
progress. -/
theorem units_append_cons {b : UInt8} (ascii : b.toNat < 0x80) (front rest : Bytes) :
    units (front ++ b :: rest) = units front ++ some (Char.ofUInt8 b) :: units rest := by
  have read : (front ++ [b]).foldl Reader.step .start =
      ⟨none, some (Char.ofUInt8 b) :: (front.foldl Reader.step .start).finish⟩ := by
    rw [List.foldl_append]
    exact Reader.step_of_ascii ascii (follows_foldl_step front).isBounded
  have all := units_append read rest
  rw [List.append_assoc, List.reverse_cons, List.append_assoc] at all
  exact all

/-- A byte of ASCII is read as itself wherever it stands, and what is before it and behind it is
read on its own. -/
theorem decodeLossy_append_cons {b : UInt8} (ascii : b.toNat < 0x80) (front rest : Bytes) :
    decodeLossy (front ++ b :: rest) = decodeLossy front ++ Char.ofUInt8 b :: decodeLossy rest := by
  unfold decodeLossy
  rw [units_append_cons ascii, List.map_append, List.map_cons]
  rfl

/-- What is written is read back, also by the reader that refuses nothing. -/
@[simp] theorem decodeLossy_encode (text : Text) : decodeLossy (encode text) = text := by
  unfold decodeLossy
  rw [units_encode, List.map_map]
  exact List.map_id text

/-- Different texts have different bytes. -/
theorem encode_injective : Function.Injective encode :=
  Function.LeftInverse.injective decodeLossy_encode

/-- A text without U+FFFD is read from no other bytes than its own. -/
theorem decodeLossy_eq_iff_of_not_mem {text : Text} (h : '\uFFFD' ∉ text) :
    decodeLossy bytes = text ↔ bytes = encode text := by
  constructor
  · rintro rfl
    -- an ill-formed stretch would be shown as U+FFFD
    have wellFormed : ∀ unit ∈ units bytes, some (unit.getD '\uFFFD') = unit := by
      rintro (_ | c) hunit
      · exact absurd (List.mem_map.mpr ⟨none, hunit, rfl⟩) h
      · rfl
    rw [← decode?_eq_some_iff, decode?_eq_some_iff_units, decodeLossy, List.map_map]
    exact ((List.map_congr_left wellFormed).trans (List.map_id _)).symm
  · rintro rfl
    exact decodeLossy_encode text

end Orphans.Utf8
