import FeatureFlags.Bytes

/-!
# Header names and values

A header name is a token of ASCII characters and does not depend on case, so names are kept in lower
case. A header value is a list of bytes without control characters, the tab excepted.
-/

namespace FeatureFlags.Http

/-- Whether a byte may stand in a token. -/
def isTokenByte (b : UInt8) : Bool :=
  (0x30 ≤ b && b ≤ 0x39) || (0x41 ≤ b && b ≤ 0x5A) || (0x61 ≤ b && b ≤ 0x7A) ||
    (Bytes.ofAscii ['!', '#', '$', '%', '&', '\'', '*', '+', '-', '.', '^', '_', '|', '~',
      Char.ofNat 0x60]).contains b

/-- The lower-case letter of an ASCII letter; other characters stay. -/
def lowerCase (s : String) : String :=
  String.ofList (s.toList.map Char.toLower)

/-- The largest number of bytes in a header name. -/
def nameLimit : Nat := 65535

/-- The header name that a text is, in lower case. -/
def headerName? (s : String) : Option String :=
  let bytes := Bytes.ofString s
  if bytes ≠ [] ∧ bytes.length ≤ nameLimit ∧ bytes.all isTokenByte then some (lowerCase s) else none

/-- Whether a byte may stand in a header value. -/
def isValueByte (b : UInt8) : Bool :=
  (0x20 ≤ b && b ≠ 0x7F) || b = 0x09

/-- The header value that bytes are. -/
def headerValue? (bytes : Bytes) : Option Bytes :=
  if bytes.all isValueByte then some bytes else none

/-- Whether a byte of a header value stands for a character: only tabs and printable ASCII do. -/
def isVisibleByte (b : UInt8) : Bool :=
  (0x20 ≤ b && b < 0x7F) || b = 0x09

/-- The text of a header value, if all of it is readable. -/
def headerText? (bytes : Bytes) : Option String :=
  if bytes.all isVisibleByte then some (String.ofList (bytes.map fun b => Char.ofNat b.toNat))
  else none

end FeatureFlags.Http
