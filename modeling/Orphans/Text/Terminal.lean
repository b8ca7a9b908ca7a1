import Orphans.Text.Utf8

/-!
# Control sequences

A terminal obeys some bytes instead of showing them. Texts that come from outside may hold such
bytes, and `withoutControls` leaves of a text what would be shown. The bytes are read one at a time,
as `Mode.next` says:

* An escape byte begins a sequence, also in the middle of another one.
* `[` then opens a control sequence, up to a byte between `@` and `~`; `]` opens a command, up to a
  bell; `P`, `X`, `^` and `_` open strings, which only another escape byte ends.
* A byte between the space and `/` is followed by more of the sequence, up to a byte between `0` and
  `~`, and any other byte of ASCII is a whole sequence with the escape byte.
* Cancel and substitute break off every sequence.

Tabs, line feeds, form feeds and carriage returns count as shown. The bytes of a character after
its first are taken as shown wherever they stand, and what is shown ends a sequence, so a character
outside ASCII in a sequence breaks it off and loses its first byte.
-/

namespace Orphans.Terminal

/-- What a reader is in the middle of. -/
inductive Mode where
  /-- Nothing: bytes are shown. -/
  | shown
  /-- A sequence of which only the escape byte has been read. -/
  | escape
  /-- A sequence that began with a byte between the space and `/`. -/
  | intermediate
  /-- A control sequence. -/
  | control
  /-- A command. -/
  | command
  /-- Another string. -/
  | string
deriving Repr, DecidableEq

/-- The mode after a byte that is not shown. -/
def Mode.next (mode : Mode) (b : UInt8) : Mode :=
  if b = 0x1B then .escape
  else if b = 0x18 ∨ b = 0x1A then .shown
  else
    match mode with
    | .shown => .shown
    | .escape =>
      if b < 0x20 ∨ 0x7F ≤ b then .escape
      else if b < 0x30 then .intermediate
      else if b = 0x5B then .control
      else if b = 0x5D then .command
      else if b = 0x50 ∨ b = 0x58 ∨ b = 0x5E ∨ b = 0x5F then .string
      else .shown
    | .intermediate => if 0x30 ≤ b ∧ b < 0x7F then .shown else .intermediate
    | .control => if 0x40 ≤ b ∧ b < 0x7F then .shown else .control
    | .command => if b = 0x07 then .shown else .command
    | .string => .string

/-- Whether a byte is a tab, a line feed, a form feed or a carriage return. -/
def isSpacing (b : UInt8) : Bool :=
  b = 0x09 || b = 0x0A || b = 0x0C || b = 0x0D

/-- Whether a byte is shown, depending on what a reader is in the middle of. -/
def Mode.shows (mode : Mode) (b : UInt8) : Bool :=
  (0x80 ≤ b && b < 0xC0) ||
    match mode with
    | .shown => (0x20 ≤ b && b < 0x7F) || (0xC2 ≤ b && b < 0xF5) || isSpacing b
    | .escape | .intermediate | .control => isSpacing b
    | .command | .string => false

/-- A reader: its mode, and the bytes that are shown, the latest first. -/
structure Reader where
  mode : Mode
  shown : Bytes

/-- Reads one byte. -/
def Reader.step (reader : Reader) (b : UInt8) : Reader :=
  if reader.mode.shows b then ⟨.shown, b :: reader.shown⟩
  else ⟨reader.mode.next b, reader.shown⟩

/-- The bytes that are shown. -/
def shownBytes (bytes : Bytes) : Bytes :=
  (bytes.foldl Reader.step ⟨.shown, []⟩).shown.reverse

/-- A text without what a terminal would obey. -/
def withoutControls (text : Text) : Text :=
  Utf8.decodeLossy (shownBytes (Utf8.encode text))

end Orphans.Terminal
