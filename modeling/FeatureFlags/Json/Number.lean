import FeatureFlags.Decimal.Layout
import FeatureFlags.Json.Doc

/-!
# JSON numbers

What a number in a document is worth, and how a double is written in one.

A whole number without point and power that fits 64 bits is itself. Every other number becomes a
double in two steps: as many digits as fit 64 bits make a significand, and the significand, rounded
to a double, is multiplied or divided by a power of ten that is rounded too. So a number with more
than 15 digits or a large power may come out one or two units in the last place off, while the
digits that are written are the shortest that a correctly rounding reader needs.
-/

namespace FeatureFlags.Json

open Decimal

/-- One more than the largest significand. -/
def significandLimit : Nat := Nat.pow 2 64

/-- Appends digits to a significand while they fit; also counts the digits that are left over. -/
def gather (significand : Nat) : List Char → Nat × Nat
  | [] => (significand, 0)
  | c :: rest =>
    let next := significand * 10 + (c.toNat - 0x30)
    if next < significandLimit then gather next rest else (significand, rest.length + 1)

/-- The double nearest to `10 ^ k`. -/
def powerOfTen (k : Nat) : Float :=
  Float.ofScientific 1 false k

/-- Multiplies by `10 ^ exponent` in steps that a rounded power of ten exists for. A product beyond
the doubles is refused. A double that is divided often enough is zero, so `steps` that cover the
exponent in strides of 308 are enough. -/
def scaleByTen : Nat → Float → Int → Option Float
  | 0, f, _ => some f
  | steps + 1, f, exponent =>
    if exponent.natAbs ≤ 308 then
      if 0 ≤ exponent then
        let product := f * powerOfTen exponent.natAbs
        if product.isInf then none else some product
      else some (f / powerOfTen exponent.natAbs)
    else if f == 0 then some f
    else if 0 ≤ exponent then none
    else scaleByTen steps (f / powerOfTen 308) (exponent + 308)

/-- The largest exponent that is read as written. -/
def exponentLimit : Nat := Nat.pow 2 31

/-- The double `significand · 10 ^ exponent`, in two rounding steps. -/
def assemble (significand : Nat) (exponent : Int) : Option Float :=
  scaleByTen (exponent.natAbs / 308 + 1) (UInt64.ofNat significand).toFloat exponent

/-- The magnitude of a number that is not a whole number of 64 bits. -/
def magnitude? (n : Numeral) : Option Float :=
  -- Digits that are left over before the point count as zeros, those after it not at all.
  let (significand, droppedWhole) := gather 0 n.whole
  let (significand, droppedFraction) := gather significand n.fraction
  let exponent : Int := droppedWhole - (n.fraction.length - droppedFraction : Nat)
  match n.power with
  | none => assemble significand exponent
  | some p =>
    if ofDigits p.digits < exponentLimit then assemble significand (exponent + p.toInt)
    else if significand = 0 ∨ p.negative then some 0
    else none

/-- Whether a number is written without point and power. -/
def isWhole (n : Numeral) : Bool :=
  n.fraction.isEmpty && n.power.isNone

/-- The whole number that is written, if it fits 64 bits. A negative zero does not count as one. -/
def int? (n : Numeral) : Option Int :=
  let size := ofDigits n.whole
  if !isWhole n then none
  else if n.negative then
    if size = 0 ∨ Nat.pow 2 63 < size then none else some (-(size : Int))
  else if size < significandLimit then some size
  else none

/-- The double that a number is worth. -/
def float? (n : Numeral) : Option Float := do
  let size ← if isWhole n ∧ ofDigits n.whole < significandLimit then
      some (UInt64.ofNat (ofDigits n.whole)).toFloat
    else magnitude? n
  return if n.negative then -size else size

/-- Doubles are written positionally from a hundred-thousandth up to ten to the sixteenth, always
with a point; beyond that with a signed power of ten. A tie goes to the even digit. -/
def numberLayout : Layout :=
  ⟨fun e => -5 ≤ e && e < 16, true, .toEven⟩

/-- The document that is a double. What is not a number is written as null. -/
def Doc.ofFloat (x : Float) : Doc :=
  match numberLayout.numeral? x with
  | some n => .number n
  | none => .null

/-- The document that is a whole number. -/
def Doc.ofInt (i : Int) : Doc :=
  .number (.ofInt i)

end FeatureFlags.Json
