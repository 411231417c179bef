import FeatureFlags.Json.Doc

/-!
# Writing JSON documents

Two styles: compact, without any blanks, and indented, with every member on a line of its own, two
spaces deeper than what it belongs to. An object or array without members is written without blanks
in both.
-/

namespace FeatureFlags.Json

/-- How the members of a document are set apart. -/
inductive Style where
  | compact
  | indented
deriving DecidableEq, Repr

namespace Style

/-- What stands before a member or a closing bracket at a depth. -/
def lineBreak (style : Style) (depth : Nat) : Bytes :=
  match style with
  | .compact => []
  | .indented => Byte.lineFeed :: List.replicate (2 * depth) Byte.space

/-- What stands between a name and its value. -/
def colon (style : Style) : Bytes :=
  match style with
  | .compact => [Byte.colon]
  | .indented => [Byte.colon, Byte.space]

end Style

/-- A string with its quotes. -/
def quoted (raw : Bytes) : Bytes :=
  Byte.quote :: raw ++ [Byte.quote]

namespace Doc

mutual

/-- The bytes of a document whose members stand at `depth + 1`. -/
def writeAt (style : Style) (depth : Nat) : Doc → Bytes
  | .null => Bytes.ofAscii ['n', 'u', 'l', 'l']
  | .bool true => Bytes.ofAscii ['t', 'r', 'u', 'e']
  | .bool false => Bytes.ofAscii ['f', 'a', 'l', 's', 'e']
  | .number n => Bytes.ofAscii n.chars
  | .string raw => quoted raw
  | .array [] => [Byte.openBracket, Byte.closeBracket]
  | .array (item :: items) =>
    Byte.openBracket :: style.lineBreak (depth + 1) ++ writeAt style (depth + 1) item ++
      writeItems style (depth + 1) items ++ style.lineBreak depth ++ [Byte.closeBracket]
  | .object [] => [Byte.openBrace, Byte.closeBrace]
  | .object ((name, value) :: members) =>
    Byte.openBrace :: style.lineBreak (depth + 1) ++ quoted name ++ style.colon ++
      writeAt style (depth + 1) value ++ writeMembers style (depth + 1) members ++
      style.lineBreak depth ++ [Byte.closeBrace]

/-- The items after the first one. -/
def writeItems (style : Style) (depth : Nat) : List Doc → Bytes
  | [] => []
  | item :: items =>
    Byte.comma :: style.lineBreak depth ++ writeAt style depth item ++
      writeItems style depth items

/-- The members after the first one. -/
def writeMembers (style : Style) (depth : Nat) : List (Bytes × Doc) → Bytes
  | [] => []
  | (name, value) :: members =>
    Byte.comma :: style.lineBreak depth ++ quoted name ++ style.colon ++
      writeAt style depth value ++ writeMembers style depth members

end

/-- The bytes of a document. -/
def write (style : Style) (doc : Doc) : Bytes :=
  doc.writeAt style 0

end Doc

end FeatureFlags.Json
