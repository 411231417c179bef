/-!
# CRC-32

The cyclic redundancy check of IEEE 802.3, bits reflected, over a list of bytes. The register
starts with all bits set, absorbs the bytes one after the other and is complemented at the end.
-/

namespace FeatureFlags.Crc32

/-- The generator polynomial, lowest bit first. -/
def polynomial : UInt32 := 0xEDB88320

/-- Divides the lowest bit out of the register. -/
def shift (register : UInt32) : UInt32 :=
  if register &&& 1 = 1 then (register >>> 1) ^^^ polynomial else register >>> 1

/-- Absorbs a byte. -/
def absorb (register : UInt32) (byte : UInt8) : UInt32 :=
  shift (shift (shift (shift (shift (shift (shift (shift (register ^^^ byte.toUInt32))))))))

/-- The checksum of a list of bytes. -/
def checksum (bytes : List UInt8) : UInt32 :=
  bytes.foldl absorb 0xFFFFFFFF ^^^ 0xFFFFFFFF

end FeatureFlags.Crc32
