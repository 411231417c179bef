import FeatureFlags.Decimal.Reader
import FeatureFlags.Yaml.Scalar

/-!
# What scalars are

A scalar without quotes may be a word for nothing, a truth value, a whole number in one of four
bases, another number, or else a text.
-/

namespace FeatureFlags.Yaml

namespace Plain

/-- Whether a text is a word for nothing. -/
def isNull (s : String) : Bool :=
  ["~", "null", "Null", "NULL"].contains s

/-- Whether a text is a truth value. -/
def isTruth (s : String) : Bool :=
  ["true", "True", "TRUE", "false", "False", "FALSE"].contains s

/-- Takes one sign off the front. -/
def dropSign : List Char → List Char
  | '+' :: cs => cs
  | '-' :: cs => cs
  | cs => cs

/-- Whether a sign is in front. -/
def hasSign : List Char → Bool
  | '+' :: _ => true
  | '-' :: _ => true
  | _ => false

/-- Whether a scalar consists of digits with a needless zero in front, which makes it a text. -/
def isPadded (s : String) : Bool :=
  match dropSign s.toList with
  | '0' :: d :: ds => (d :: ds).all Char.isDigit
  | _ => false

/-- The number of digits in a base. -/
def digits? (base : Nat) (cs : List Char) : Option Nat :=
  if cs = [] then none
  else cs.foldlM (fun n c => do
    let d ← hexValue? [c]
    if d < base then some (n * base + d) else none) 0

/-- The natural number that a plain scalar is: decimal digits, or digits of another base. -/
def natural? (s : String) : Option Nat :=
  let cs := s.toList
  let cs := if cs.head? = some '+' then cs.drop 1 else cs
  match cs with
  | '0' :: 'x' :: ds => digits? 16 ds
  | '0' :: 'o' :: ds => digits? 8 ds
  | '0' :: 'b' :: ds => digits? 2 ds
  | ds => if isPadded s then none else digits? 10 ds

/-- A whole number as it is written: with a minus sign or without. -/
inductive Whole where
  | natural (n : Nat)
  /-- The number `-n`. -/
  | negative (n : Nat)
deriving DecidableEq, Repr

/-- The whole number that a plain scalar is. Those beyond 128 bits are none. -/
def whole? (s : String) : Option Whole :=
  match s.toList with
  | '-' :: cs =>
    if hasSign cs then none
    else (natural? (String.ofList cs)).bind fun n =>
      if n ≤ Nat.pow 2 127 then some (.negative n) else none
  | _ => (natural? s).bind fun n => if n < Nat.pow 2 128 then some (.natural n) else none

/-- Whether a text is a number with a fraction or a power, or one of the words for what is beyond
them. -/
def isReal (s : String) : Bool :=
  let cs := s.toList
  let positive := if cs.head? = some '+' then cs.drop 1 else cs
  let body := String.ofList positive
  if cs.head? = some '+' && hasSign positive then false
  else [".inf", ".Inf", ".INF"].contains body ||
    ["-.inf", "-.Inf", "-.INF", ".nan", ".NaN", ".NAN"].contains s ||
    (Decimal.float? body).any Float.isFinite

end Plain

end FeatureFlags.Yaml
