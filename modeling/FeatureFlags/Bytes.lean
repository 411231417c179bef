/-!
# Bytes

What is stored, sent and parsed is a list of bytes. A text becomes bytes by its UTF-8 encoding, and
bytes are a text when they are somebody's encoding.
-/

namespace FeatureFlags

/-- A document, a stored value or a message body. -/
abbrev Bytes := List UInt8

namespace Bytes

/-- The UTF-8 encoding of a text. -/
def ofString (s : String) : Bytes :=
  s.toByteArray.data.toList

/-- The text that the bytes encode, if there is one. -/
def text? (b : Bytes) : Option String :=
  String.fromUTF8? ⟨b.toArray⟩

/-- The bytes of a list of ASCII characters. -/
def ofAscii (cs : List Char) : Bytes :=
  cs.map Char.toUInt8

/-- A text is what its encoding encodes. -/
@[simp]
theorem text?_ofString (s : String) : text? (ofString s) = some s := by
  have h : (⟨s.toByteArray.data.toList.toArray⟩ : ByteArray) = s.toByteArray := by simp
  simp [text?, ofString, String.fromUTF8?, h, s.isValidUTF8, String.fromUTF8]

end Bytes

end FeatureFlags
