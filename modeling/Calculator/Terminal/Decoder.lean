import Calculator.Number.Decimal
import Calculator.Terminal.Keystroke
import Calculator.Text.Basic
import Calculator.Text.Utf8

/-!
Keystrokes from the bytes of a terminal, byte by byte.

Bytes come in reads of two. A keystroke that begins a read and is of one byte leaves the second
byte of the read to the next keystroke; every other keystroke ends its read. The place in the
read matters for the escape byte alone: as the only byte of a read it is the Escape key, anywhere
else it opens a sequence.
-/

namespace Calculator

namespace Decoder

inductive Progress where
  | none
  | escape
  | functionKey
  | control
  | consoleFunctionKey
  | parameters (text : Text)
  | mouse
  | skipping (bytes : Nat)
  | character (bytes : List UInt8) (alt : Bool)
  deriving DecidableEq, Repr

end Decoder

/-- A decoder between two bytes; `fresh` is whether the keystroke begins a read. -/
structure Decoder where
  progress : Decoder.Progress := .none
  fresh : Bool := true
  deriving DecidableEq, Repr

namespace Decoder

def ofByte (byte : UInt8) : Keystroke :=
  let control (c : Char) : Keystroke := ⟨.char c, { control := true }⟩
  if byte = 0 then ⟨.null, {}⟩
  else if byte = 0x0A ∨ byte = 0x0D then ⟨.enter, {}⟩
  else if byte = 0x09 then ⟨.tab, {}⟩
  else if byte = 0x7F then ⟨.backspace, {}⟩
  else if byte ≤ 0x1A then control (Char.ofNat (byte.toNat - 1 + 'a'.toNat))
  else if byte < 0x20 then control (Char.ofNat (byte.toNat - 0x1C + '4'.toNat))
  else ⟨.char (Char.ofNat byte.toNat), {}⟩

def ofLetter? (c : Char) : Option KeyCode :=
  match c with
  | 'A' => some .up
  | 'B' => some .down
  | 'C' => some .right
  | 'D' => some .left
  | 'H' => some .home
  | 'F' => some .endKey
  | 'Z' => some .backTab
  | _ => none

def ofNumber? (n : Nat) : Option KeyCode :=
  match n with
  | 1 | 7 => some .home
  | 2 => some .insert
  | 3 => some .delete
  | 4 | 8 => some .endKey
  | 5 => some .pageUp
  | 6 => some .pageDown
  | 11 | 12 | 13 | 14 | 15 => some (.function (n - 10))
  | 17 | 18 | 19 | 20 | 21 => some (.function (n - 11))
  | 23 | 24 => some (.function (n - 12))
  | _ => none

def functionKey? (first last : Char) (c : Char) : Option KeyCode :=
  if first ≤ c ∧ c ≤ last then some (.function (c.toNat - first.toNat + 1)) else none

def ended (code : Option KeyCode) : Decoder × Option Keystroke :=
  ({}, code.map fun code => ⟨code, {}⟩)

/-- Bytes from 0x80 on, and the byte after an escape, begin a character: at most four bytes, of
which the first ones that make a character are taken. -/
def feedCharacter (d : Decoder) (bytes : List UInt8) (alt : Bool) : Decoder × Option Keystroke :=
  match Utf8.decode? bytes with
  | some c => ({}, some ⟨.char c, { alt := alt }⟩)
  | none =>
    if 4 ≤ bytes.length then ({}, none)
    else ({ d with progress := .character bytes alt }, none)

def feedControl (d : Decoder) (byte : UInt8) : Decoder × Option Keystroke :=
  let c := Char.ofNat byte.toNat
  if c = '[' then ({ d with progress := .consoleFunctionKey }, none)
  else if c = '<' then ({ d with progress := .mouse }, none)
  else if c = 'M' then ({ d with progress := .skipping 3 }, none)
  else if c.isDigit then ({ d with progress := .parameters [c] }, none)
  else ended (ofLetter? c)

def feed (d : Decoder) (byte : UInt8) : Decoder × Option Keystroke :=
  let c := Char.ofNat byte.toNat
  match d.progress with
  | .none =>
    if byte = 0x1B then ({ d with progress := .escape }, none)
    else if byte < 0x80 then ({ d with fresh := !d.fresh }, some (ofByte byte))
    else ({ d with progress := .character [byte] false }, none)
  | .escape =>
    if c = 'O' then ({ d with progress := .functionKey }, none)
    else if c = '[' then ({ d with progress := .control }, none)
    else d.feedCharacter [byte] true
  | .functionKey => ended (functionKey? 'P' 'S' c)
  | .control => d.feedControl byte
  | .consoleFunctionKey => ended (functionKey? 'A' 'E' c)
  | .parameters text =>
    if byte < 64 ∨ 126 < byte then ({ d with progress := .parameters (text ++ [c]) }, none)
    else if c = '~' ∧ text.all Char.isDigit then ended (ofNumber? (Decimal.ofDigits text))
    else ended none
  | .mouse => if c = 'm' ∨ c = 'M' then ended none else (d, none)
  | .skipping n =>
    if n ≤ 1 then ended none else ({ d with progress := .skipping (n - 1) }, none)
  | .character bytes alt => d.feedCharacter (bytes ++ [byte]) alt

def flush (d : Decoder) : List Keystroke :=
  if d.progress = .escape ∧ d.fresh then [⟨.escape, {}⟩] else []

def keystrokesFrom : Decoder → List UInt8 → List Keystroke
  | d, [] => d.flush
  | d, byte :: rest =>
    let (next, stroke) := d.feed byte
    stroke.toList ++ keystrokesFrom next rest

def keystrokes (bytes : List UInt8) : List Keystroke := keystrokesFrom {} bytes

end Decoder

end Calculator
