/-!
# Written numbers

A number as it is written: a sign, digits before the point, digits after it and a power of ten.
Every digit list holds the characters `0` to `9` only; how many digits may stand where is up to
the notation that reads or writes the numeral.
-/

namespace FeatureFlags.Decimal

/-- The power of ten at the end of a numeral. -/
structure Power where
  negative : Bool
  digits : List Char
deriving DecidableEq, Repr

/-- A number as it is written. -/
structure Numeral where
  negative : Bool
  whole : List Char
  /-- The digits after the point; there is no point when there are none. -/
  fraction : List Char
  power : Option Power
deriving DecidableEq, Repr

/-- The number that a list of digits stands for. -/
def ofDigits (digits : List Char) : Nat :=
  Nat.ofDigitChars 10 digits 0

namespace Power

/-- The exponent of ten. -/
def toInt (p : Power) : Int :=
  if p.negative then -(ofDigits p.digits : Int) else ofDigits p.digits

/-- The characters, with the sign always written. -/
def chars (p : Power) : List Char :=
  'e' :: (if p.negative then '-' else '+') :: p.digits

end Power

namespace Numeral

/-- The characters of a numeral. -/
def chars (n : Numeral) : List Char :=
  (if n.negative then ['-'] else []) ++ n.whole ++
    (if n.fraction = [] then [] else '.' :: n.fraction) ++
    (match n.power with | some p => p.chars | none => [])

/-- The text of a numeral. -/
def text (n : Numeral) : String :=
  String.ofList n.chars

/-- The numeral of an integer. -/
def ofInt (i : Int) : Numeral :=
  ⟨i < 0, Nat.toDigits 10 i.natAbs, [], none⟩

end Numeral

end FeatureFlags.Decimal
