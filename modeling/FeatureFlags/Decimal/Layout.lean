import FeatureFlags.Decimal.Binary
import FeatureFlags.Decimal.Numeral
import FeatureFlags.Decimal.Shortest

/-!
# Writing doubles

A double is written with the shortest digits that read back as it. What is left to choose is where
the digits stand: positionally, or with one digit before the point and a power of ten. A `Layout`
holds those choices, and each place that writes numbers names its own.
-/

namespace FeatureFlags.Decimal

/-- How the digits of a number are laid out. -/
structure Layout where
  /-- Whether a number whose first digit counts `10 ^ e` is written positionally. -/
  positional : Int → Bool
  /-- Whether a whole number keeps a zero after the point. -/
  pointZero : Bool
  /-- Which of two equally near shortest decimals is written. -/
  tie : Tie

namespace Layout

/-- The digits of a decimal written positionally: those before and those after the point. -/
def place (digits : List Char) (exponent : Int) : List Char × List Char :=
  if 0 ≤ exponent then
    (digits ++ List.replicate exponent.toNat '0', [])
  else
    let places := (-exponent).toNat
    if places < digits.length then
      (digits.take (digits.length - places), digits.drop (digits.length - places))
    else
      (['0'], List.replicate (places - digits.length) '0' ++ digits)

/-- The numeral of `± d`. -/
def write (layout : Layout) (negative : Bool) (d : Finite) : Numeral :=
  let digits := Nat.toDigits 10 d.digits
  let first := d.exponent + digits.length - 1
  if layout.positional first then
    let (whole, fraction) := place digits d.exponent
    ⟨negative, whole, if fraction = [] && layout.pointZero then ['0'] else fraction, none⟩
  else
    ⟨negative, digits.take 1, digits.drop 1, some ⟨first < 0, Nat.toDigits 10 first.natAbs⟩⟩

/-- The numeral of a double, if it is finite. -/
def numeral? (layout : Layout) (x : Float) : Option Numeral :=
  match Reading.of x with
  | .nan => none
  | .infinity _ => none
  | .finite negative 0 _ _ => some (layout.write negative ⟨0, 0⟩)
  | .finite negative m q narrow => some (layout.write negative (shortest m q narrow layout.tie))

end Layout

end FeatureFlags.Decimal
