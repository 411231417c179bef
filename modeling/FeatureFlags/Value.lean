import FeatureFlags.Decimal.Reader
import FeatureFlags.Json.Fields
import FeatureFlags.Text.Blank

/-!
# Feature values

A feature is on or off, or it is a number: the share of a rollout or a setting on a scale. The kind
of a feature is fixed by its value.
-/

namespace FeatureFlags

/-- What kind of value a feature has. -/
inductive Kind where
  | percentile
  | boolean
deriving DecidableEq, Repr, Inhabited

namespace Kind

/-- The name of a kind, in documents and in messages. -/
def name : Kind → String
  | .percentile => "percentile"
  | .boolean => "boolean"

/-- The kind of a name. -/
def ofName? (s : String) : Option Kind :=
  [percentile, boolean].find? fun k => k.name = s

/-- The document that is a kind. -/
def toDoc (k : Kind) : Json.Doc :=
  .ofString k.name

/-- The kind that a document is: its name, or an object whose only member has that name and
nothing for a value. -/
def ofDoc? (room : Nat) (doc : Json.Doc) : Option Kind :=
  match doc with
  | .string raw => do ofName? (← Json.text? raw)
  | .object [(raw, .null)] => do
    guard (0 < room)
    ofName? (← Json.text? raw)
  | _ => none

end Kind

/-- The value of a feature. -/
inductive Value where
  | bool (b : Bool)
  | number (x : Float)
deriving DecidableEq

namespace Value

instance : Inhabited Value := ⟨.bool false⟩

/-- The kind of a value. -/
def kind : Value → Kind
  | .bool _ => .boolean
  | .number _ => .percentile

/-- The truth value, if the value is one. -/
def bool? : Value → Option Bool
  | .bool b => some b
  | .number _ => none

/-- The number, if the value is one. -/
def number? : Value → Option Float
  | .number x => some x
  | .bool _ => none

/-- In messages numbers are written positionally, without a point when they are whole. -/
def plainLayout : Decimal.Layout :=
  ⟨fun _ => true, false, .away⟩

/-- The text of a value in messages. -/
def text : Value → String
  | .bool b => if b then "true" else "false"
  | .number x =>
    match plainLayout.numeral? x with
    | some n => n.text
    | none => if x.isNaN then "NaN" else if 0 < x then "inf" else "-inf"

/-- The document that is a value. -/
def toDoc : Value → Json.Doc
  | .bool b => .bool b
  | .number x => .ofFloat x

/-- The value that a document is: a truth value or a number. -/
def ofDoc? : Json.Doc → Option Value
  | .bool b => some (.bool b)
  | .number n => (Json.float? n).map .number
  | _ => none

/-- The value that somebody typed. Zero and one are numbers; of the spellings of a truth value only
those that are words or letters count. -/
def ofInput? (input : String) : Option Value :=
  let s := Text.trim input
  if ["t", "T", "true", "TRUE", "True"].contains s then some (.bool true)
  else if ["f", "F", "false", "FALSE", "False"].contains s then some (.bool false)
  else match Decimal.float? s with
    | some x => if x.isFinite then some (.number x) else none
    | none => none

end Value

end FeatureFlags
