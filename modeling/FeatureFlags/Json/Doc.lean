import FeatureFlags.Bytes
import FeatureFlags.Decimal.Numeral

/-!
# JSON documents

A JSON document as it is written. Numbers keep their digits and strings the bytes between their
quotes: what a number is worth and which text a string spells is decided where a document is
given a meaning, because a member that nobody reads need only be well written.
-/

namespace FeatureFlags.Json

/-- A JSON document. -/
inductive Doc where
  | null
  | bool (b : Bool)
  | number (n : Decimal.Numeral)
  /-- A string, as the bytes between its quotes. -/
  | string (raw : Bytes)
  | array (items : List Doc)
  /-- The members in the order they are written, each name as the bytes between its quotes. -/
  | object (members : List (Bytes × Doc))
deriving Repr, Inhabited

/-! ## The bytes of the notation -/

namespace Byte

@[match_pattern] abbrev backspace : UInt8 := 0x08
@[match_pattern] abbrev tab : UInt8 := 0x09
@[match_pattern] abbrev lineFeed : UInt8 := 0x0A
@[match_pattern] abbrev formFeed : UInt8 := 0x0C
@[match_pattern] abbrev return_ : UInt8 := 0x0D
@[match_pattern] abbrev space : UInt8 := 0x20
@[match_pattern] abbrev quote : UInt8 := 0x22
@[match_pattern] abbrev plus : UInt8 := 0x2B
@[match_pattern] abbrev comma : UInt8 := 0x2C
@[match_pattern] abbrev minus : UInt8 := 0x2D
@[match_pattern] abbrev point : UInt8 := 0x2E
@[match_pattern] abbrev slash : UInt8 := 0x2F
@[match_pattern] abbrev zero : UInt8 := 0x30
@[match_pattern] abbrev colon : UInt8 := 0x3A
@[match_pattern] abbrev openBracket : UInt8 := 0x5B
@[match_pattern] abbrev backslash : UInt8 := 0x5C
@[match_pattern] abbrev closeBracket : UInt8 := 0x5D
@[match_pattern] abbrev lowerB : UInt8 := 0x62
@[match_pattern] abbrev lowerF : UInt8 := 0x66
@[match_pattern] abbrev lowerN : UInt8 := 0x6E
@[match_pattern] abbrev lowerR : UInt8 := 0x72
@[match_pattern] abbrev lowerT : UInt8 := 0x74
@[match_pattern] abbrev lowerU : UInt8 := 0x75
@[match_pattern] abbrev openBrace : UInt8 := 0x7B
@[match_pattern] abbrev closeBrace : UInt8 := 0x7D

/-- Whether a byte is a decimal digit. -/
def isDigit (b : UInt8) : Bool :=
  0x30 ≤ b && b ≤ 0x39

/-- Whether a byte may stand between the parts of a document. -/
def isBlank (b : UInt8) : Bool :=
  b == space || b == lineFeed || b == tab || b == return_

/-- The value of a hexadecimal digit of either case. -/
def hexValue? (b : UInt8) : Option Nat :=
  let n := b.toNat
  if 0x30 ≤ n && n ≤ 0x39 then some (n - 0x30)
  else if 0x41 ≤ n && n ≤ 0x46 then some (n - 0x37)
  else if 0x61 ≤ n && n ≤ 0x66 then some (n - 0x57)
  else none

end Byte

end FeatureFlags.Json
