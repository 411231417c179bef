import FeatureFlags.Yaml.Plain

/-!
# Documents that have decided what they are

A document that is kept before anybody says what is expected: its scalars decide by themselves
whether they are nothing, truth values, numbers or texts. A tag may decide for them, but only one
that everybody knows; a tag of somebody's own has no meaning here.
-/

namespace FeatureFlags.Yaml

/-- A document whose scalars have decided what they are. -/
inductive Settled where
  | nothing
  | truth
  | natural (n : Nat)
  | negative (n : Nat)
  | real
  | text (s : String)
  | list (items : List Settled)
  | record (members : List (Settled × Settled))
deriving Repr, Inhabited

/-! ## Tags that everybody knows -/

/-- The tag of nothing. -/
def nullTag : String := "tag:yaml.org,2002:null"

/-- The tag of truth values. -/
def truthTag : String := "tag:yaml.org,2002:bool"

/-- The tag of whole numbers. -/
def wholeTag : String := "tag:yaml.org,2002:int"

/-- The tag of all numbers. -/
def realTag : String := "tag:yaml.org,2002:float"

/-- Whether a tag is somebody's own. -/
def isOwnTag (tag : String) : Bool := tag.toList.head? = some '!'

/-! ## Deciding -/

namespace Settled

/-- The whole number that is written, which has to fit into 64 bits. -/
def ofWhole? : Plain.Whole → Option Settled
  | .natural n => if n < Nat.pow 2 64 then some (.natural n) else none
  | .negative n => if n ≤ Nat.pow 2 63 then some (.negative n) else none

/-- What a plain scalar is. -/
def ofPlain? (s : String) : Option Settled :=
  if s = "" || Plain.isNull s then some .nothing
  else if Plain.isTruth s then some .truth
  else match Plain.whole? s with
    | some n => ofWhole? n
    | none => some (if !Plain.isPadded s && Plain.isReal s then .real else .text s)

/-- What a scalar without a tag is. -/
def ofScalar? (style : Style) (s : String) : Option Settled :=
  if style = .plain then ofPlain? s else some (.text s)

/-- What a scalar with a tag is. -/
def ofTagged? (tag s : String) : Option Settled :=
  if tag = truthTag then if Plain.isTruth s then some .truth else none
  else if tag = wholeTag then (Plain.whole? s).bind ofWhole?
  else if tag = realTag then if Plain.isReal s then some .real else none
  else if tag = nullTag then if Plain.isNull s then some .nothing else none
  else some (.text s)

end Settled

namespace Node

mutual

/-- What a document decides to be, if it nests to no more than `room`. -/
def settle? (room : Nat) : Node → Option Settled
  | .scalar style text => Settled.ofScalar? style text
  | .list items => if room = 0 then none else (settleItems? (room - 1) items).map .list
  | .record members =>
    if room = 0 then none else (settleMembers? (room - 1) members).map .record
  | .tagged tag node =>
    if isOwnTag tag then none
    else match node with
      | .scalar _ text => Settled.ofTagged? tag text
      | node => settle? room node

/-- What the items of a list decide to be. -/
def settleItems? (room : Nat) : List Node → Option (List Settled)
  | [] => some []
  | item :: items => do return (← settle? room item) :: (← settleItems? room items)

/-- What the members of a record decide to be. -/
def settleMembers? (room : Nat) : List (Node × Node) → Option (List (Settled × Settled))
  | [] => some []
  | (key, value) :: members => do
    return (← settle? room key, ← settle? room value) :: (← settleMembers? room members)

end

end Node

end FeatureFlags.Yaml
