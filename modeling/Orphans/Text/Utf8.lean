import Orphans.Text

/-!
# UTF-8

Texts as bytes and back. Reading goes through one byte at a time and cuts any byte sequence into
characters and *ill-formed stretches*, the longest pieces that begin like a character and then break
off (or the single bytes that begin none). The two readers differ only in what they make of an
ill-formed stretch: `decode?` refuses the whole sequence, `decodeLossy` writes U+FFFD in its place.

The bounds on the second byte of a character are where UTF-8 refuses surrogates, overlong forms and
numbers above U+10FFFF, so a completed character is always a Unicode scalar value.

Contents of files are read with `decode?`, since a file that is no text refers to nothing. Names are
read with `decodeLossy`, since every entry of a directory has to be shown somehow. That both read
back what `encode` writes is proved in `Orphans.Proofs.Utf8`.
-/

namespace Orphans

/-- A sequence of bytes, such as the content of a file or a name in a directory. -/
abbrev Bytes := List UInt8

namespace Utf8

/-! ### Writing -/

/-- The bytes of a text. -/
def encode (text : Text) : Bytes :=
  text.flatMap String.utf8EncodeChar

/-! ### Reading -/

/-- A character of which some bytes have been read: the number made of their payload bits, the
bounds between which the next byte must lie, and how many bytes are due after that one. -/
structure Pending where
  /-- The payload bits that have been read. -/
  value : Nat
  low : UInt8
  high : UInt8
  /-- How many bytes come after the next one. -/
  due : Nat
deriving Repr, DecidableEq

/-- What one byte is to a reader that stands between two characters. -/
inductive Lead where
  /-- The byte is a whole character. -/
  | character (c : Char)
  /-- The byte begins a longer character. -/
  | sequence (pending : Pending)
  /-- No character begins with the byte. -/
  | illFormed
deriving Repr

/-- The role of a byte at the beginning of a character. -/
def Lead.ofByte (b : UInt8) : Lead :=
  if b < 0x80 then .character (Char.ofNat b.toNat)
  else if b < 0xC2 then .illFormed
  else if b < 0xE0 then .sequence ⟨b.toNat % 0x20, 0x80, 0xBF, 0⟩
  else if b = 0xE0 then .sequence ⟨0, 0xA0, 0xBF, 1⟩
  else if b = 0xED then .sequence ⟨0xD, 0x80, 0x9F, 1⟩
  else if b < 0xF0 then .sequence ⟨b.toNat % 0x10, 0x80, 0xBF, 1⟩
  else if b = 0xF0 then .sequence ⟨0, 0x90, 0xBF, 2⟩
  else if b < 0xF4 then .sequence ⟨b.toNat % 0x08, 0x80, 0xBF, 2⟩
  else if b = 0xF4 then .sequence ⟨4, 0x80, 0x8F, 2⟩
  else .illFormed

/-- A reader: the character it is in the middle of, if any, and what it has read before, the latest
first, with `none` for an ill-formed stretch. -/
structure Reader where
  pending : Option Pending
  read : List (Option Char)

/-- The reader before the first byte. -/
def Reader.start : Reader := ⟨none, []⟩

/-- Reads a byte between two characters. -/
def Reader.begin (read : List (Option Char)) (b : UInt8) : Reader :=
  match Lead.ofByte b with
  | .character c => ⟨none, some c :: read⟩
  | .sequence pending => ⟨some pending, read⟩
  | .illFormed => ⟨none, none :: read⟩

/-- Reads one byte. A byte that does not continue the character in progress makes what was read of
that character an ill-formed stretch, and is itself read as a beginning. -/
def Reader.step (reader : Reader) (b : UInt8) : Reader :=
  match reader.pending with
  | none => .begin reader.read b
  | some pending =>
    if pending.low ≤ b && b ≤ pending.high then
      let value := pending.value * 0x40 + b.toNat % 0x40
      match pending.due with
      | 0 => ⟨none, some (Char.ofNat value) :: reader.read⟩
      | due + 1 => ⟨some ⟨value, 0x80, 0xBF, due⟩, reader.read⟩
    else .begin (none :: reader.read) b

/-- What has been read when no byte is left, the latest first: a character in progress is an
ill-formed stretch. -/
def Reader.finish (reader : Reader) : List (Option Char) :=
  match reader.pending with
  | none => reader.read
  | some _ => none :: reader.read

/-- The characters of a byte sequence in order, with `none` for every ill-formed stretch. -/
def units (bytes : Bytes) : List (Option Char) :=
  (bytes.foldl Reader.step .start).finish.reverse

/-- The text with the given bytes, if they are well-formed throughout. -/
def decode? (bytes : Bytes) : Option Text :=
  let read := units bytes
  if read.all Option.isSome then some (read.filterMap id) else none

/-- The text of a byte sequence, with U+FFFD for every ill-formed stretch. -/
def decodeLossy (bytes : Bytes) : Text :=
  (units bytes).map (·.getD '\uFFFD')

end Utf8

end Orphans
