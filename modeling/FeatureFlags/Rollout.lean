import FeatureFlags.Bytes
import FeatureFlags.Checksum.Crc32

/-!
# Percentage rollouts

An entity falls into one of a hundred buckets of a feature, by a checksum of the feature's name
followed by the entity's number. The bucket does not depend on how far the rollout has got, so
raising the share never takes an entity out.
-/

namespace FeatureFlags.Rollout

/-- The number of buckets. -/
def buckets : UInt32 := 100

/-- The decimal digits of an entity's number, which counts as signed: numbers from `2 ^ 63` up are
negative. -/
def idDigits (id : UInt64) : Bytes :=
  Bytes.ofString (toString id.toInt64.toInt)

/-- The checksum of a feature's name followed by an entity's number. -/
def checksum (feature : String) (id : UInt64) : UInt32 :=
  Crc32.checksum (Bytes.ofString feature ++ idDigits id)

/-- The bucket of an entity. -/
def bucket (feature : String) (id : UInt64) : UInt32 :=
  checksum feature id % buckets

/-- How many buckets a share covers: its hundredfold, rounded towards zero and kept within the range
of a word, none for what is not a number. -/
def coveredBuckets (share : Float) : UInt32 :=
  (share * 100).toUInt32

/-- Whether an entity is inside a rollout to the given share. -/
def includes (feature : String) (id : UInt64) (share : Float) : Bool :=
  bucket feature id < coveredBuckets share

end FeatureFlags.Rollout
