import FeatureFlags.Decimal.Numeral

/-!
# Reading doubles

The double that a typed number means: the one nearest to what is written, a tie going to the even
significand. There may be a sign in front, digits before or after a point and a power of ten; the
words for the infinities and for not a number are read in any case.
-/

namespace FeatureFlags.Decimal

/-- Takes the sign off the front: whether it is a minus, and what follows. -/
def takeSign : List Char → Bool × List Char
  | '-' :: rest => (true, rest)
  | '+' :: rest => (false, rest)
  | cs => (false, cs)

/-- The power of ten that a text ends with; the empty text has none. -/
def power? : List Char → Option (Option Power)
  | [] => some none
  | c :: rest =>
    let (negative, digits) := takeSign rest
    if (c = 'e' ∨ c = 'E') ∧ digits ≠ [] ∧ digits.all Char.isDigit then
      some (some ⟨negative, digits⟩)
    else none

/-- The unsigned number that a text is: at least one digit, with a point anywhere. -/
def unsigned? (negative : Bool) (cs : List Char) : Option Numeral := do
  let whole := cs.takeWhile Char.isDigit
  let rest := cs.dropWhile Char.isDigit
  let (fraction, rest) := match rest with
    | '.' :: rest => (rest.takeWhile Char.isDigit, rest.dropWhile Char.isDigit)
    | rest => ([], rest)
  guard (whole ++ fraction ≠ [])
  return ⟨negative, whole, fraction, ← power? rest⟩

/-- The double nearest to a number. -/
def Numeral.toFloat (n : Numeral) : Float :=
  let exponent : Int := (n.power.elim 0 Power.toInt) - n.fraction.length
  let size := Float.ofScientific (ofDigits (n.whole ++ n.fraction)) (exponent < 0) exponent.natAbs
  if n.negative then -size else size

/-- The double that a text means. -/
def float? (s : String) : Option Float :=
  let (negative, cs) := takeSign s.toList
  let word := String.ofList (cs.map Char.toLower)
  if word = "inf" ∨ word = "infinity" then
    some (if negative then -1.0 / 0.0 else 1.0 / 0.0)
  else if word = "nan" then some (0.0 / 0.0)
  else (unsigned? negative cs).map Numeral.toFloat

end FeatureFlags.Decimal
