/-!
# Doubles as scaled integers

A finite double is `± m · 2 ^ q` with a natural significand `m` below `2 ^ 53`. Everything said
about the decimal digits of a double is said about `m` and `q`, in exact integer arithmetic.
-/

namespace FeatureFlags.Decimal

/-- What a double stands for, by the fields of its bits. -/
inductive Reading where
  /-- Neither a number nor an infinity. -/
  | nan
  /-- An infinity. -/
  | infinity (negative : Bool)
  /-- The number `± significand · 2 ^ exponent`; `narrowBelow` when the next double towards zero
  is only half as far away as the next one from zero. -/
  | finite (negative : Bool) (significand : Nat) (exponent : Int) (narrowBelow : Bool)
deriving DecidableEq, Repr

/-- Reads the sign, the exponent and the fraction off the bits. -/
def Reading.ofBits (bits : UInt64) : Reading :=
  let n := bits.toNat
  let negative := n / Nat.pow 2 63 % 2 == 1
  let biased : Nat := n / Nat.pow 2 52 % 2048
  let fraction := n % Nat.pow 2 52
  if biased = 2047 then
    if fraction = 0 then .infinity negative else .nan
  else if biased = 0 then
    .finite negative fraction (-1074) false
  else
    .finite negative (Nat.pow 2 52 + fraction) ((biased : Int) - 1075)
      (fraction == 0 && biased != 1)

/-- What a double stands for. -/
def Reading.of (x : Float) : Reading :=
  .ofBits x.toBits

end FeatureFlags.Decimal
