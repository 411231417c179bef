import FeatureFlags.Json.Doc

/-!
# JSON strings

Which text the bytes between two quotes spell, and which bytes spell a text. Escapes stand for the
bytes of a character's UTF-8 encoding; four hexadecimal digits are a unit of UTF-16, so a high
surrogate needs a low one right after it. A string spells a text when its escapes are complete and
what they leave is UTF-8 throughout.
-/

namespace FeatureFlags.Json

/-- A byte of a string, or a UTF-16 unit given by an escape. -/
inductive Piece where
  | byte (b : UInt8)
  | unit (u : Nat)
deriving DecidableEq, Repr

namespace Piece

/-- The byte that an escape of one letter stands for. -/
def ofLetter? : UInt8 → Option UInt8
  | Byte.quote => some Byte.quote
  | Byte.backslash => some Byte.backslash
  | Byte.slash => some Byte.slash
  | Byte.lowerB => some Byte.backspace
  | Byte.lowerF => some Byte.formFeed
  | Byte.lowerN => some Byte.lineFeed
  | Byte.lowerR => some Byte.return_
  | Byte.lowerT => some Byte.tab
  | _ => none

/-- The number of four hexadecimal digits. -/
def hex4? (a b c d : UInt8) : Option Nat := do
  let a ← Byte.hexValue? a
  let b ← Byte.hexValue? b
  let c ← Byte.hexValue? c
  let d ← Byte.hexValue? d
  return ((a * 16 + b) * 16 + c) * 16 + d

/-- Takes the bytes between two quotes apart. -/
def ofRaw? : Bytes → Option (List Piece)
  | [] => some []
  | Byte.backslash :: Byte.lowerU :: a :: b :: c :: d :: rest => do
    let u ← hex4? a b c d
    return .unit u :: (← ofRaw? rest)
  | Byte.backslash :: e :: rest => do
    let b ← ofLetter? e
    return .byte b :: (← ofRaw? rest)
  | b :: rest => do
    return .byte b :: (← ofRaw? rest)

/-- Whether a unit is the first half of a pair. -/
def isHigh (u : Nat) : Bool := 0xD800 ≤ u && u ≤ 0xDBFF

/-- Whether a unit is the second half of a pair. -/
def isLow (u : Nat) : Bool := 0xDC00 ≤ u && u ≤ 0xDFFF

/-- The bytes that the pieces stand for. A half of a pair that stands alone stands for none. -/
def encode? : List Piece → Option Bytes
  | [] => some []
  | .byte b :: rest => return b :: (← encode? rest)
  | .unit h :: .unit l :: rest =>
    if isHigh h then
      if isLow l then
        return String.utf8EncodeChar (Char.ofNat (0x10000 + (h - 0xD800) * 0x400 + (l - 0xDC00)))
          ++ (← encode? rest)
      else none
    else if isLow h then none
    else return String.utf8EncodeChar (Char.ofNat h) ++ (← encode? (.unit l :: rest))
  | .unit u :: rest =>
    if isHigh u || isLow u then none
    else return String.utf8EncodeChar (Char.ofNat u) ++ (← encode? rest)

end Piece

/-- The text that the bytes between two quotes spell. -/
def text? (raw : Bytes) : Option String := do
  let pieces ← Piece.ofRaw? raw
  Bytes.text? (← Piece.encode? pieces)

/-- A lower-case hexadecimal digit. -/
def hexDigit (n : Nat) : UInt8 :=
  (n.digitChar).toUInt8

/-- How a byte of a text is written between quotes. -/
def escape (b : UInt8) : Bytes :=
  match b with
  | Byte.quote => [Byte.backslash, Byte.quote]
  | Byte.backslash => [Byte.backslash, Byte.backslash]
  | Byte.backspace => [Byte.backslash, Byte.lowerB]
  | Byte.formFeed => [Byte.backslash, Byte.lowerF]
  | Byte.lineFeed => [Byte.backslash, Byte.lowerN]
  | Byte.return_ => [Byte.backslash, Byte.lowerR]
  | Byte.tab => [Byte.backslash, Byte.lowerT]
  | b =>
    if b < 0x20 then
      [Byte.backslash, Byte.lowerU, Byte.zero, Byte.zero,
        hexDigit (b.toNat / 16), hexDigit (b.toNat % 16)]
    else [b]

/-- The bytes that spell a text between two quotes. -/
def rawOf (s : String) : Bytes :=
  (Bytes.ofString s).flatMap escape

/-- The document that is a text. -/
def Doc.ofString (s : String) : Doc :=
  .string (rawOf s)

end FeatureFlags.Json
