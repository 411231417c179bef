import FeatureFlags.Settings.Source
import FeatureFlags.Yaml.Reader
import FeatureFlags.Yaml.Settled

/-!
# Settings in YAML

A YAML document that settings are read from either is as it is written, and then whoever asks for a
text gets any scalar as one, or has decided what it is, and then the number `5` is no text. Which of
the two it is depends on the part of the settings: what is kept first and understood later has to
decide.
-/

namespace FeatureFlags.Settings

open Yaml (Node Settled)

/-- A YAML document that settings are read from. -/
inductive Written where
  /-- As it is written, with the number of lists and records that it may still open. -/
  | asWritten (room : Nat) (node : Node)
  /-- After it has decided what it is. -/
  | settled (value : Settled)

namespace Written

/-- How many lists and records may be open at once. -/
def maxDepth : Nat := 128

/-- The settings that a document holds. -/
def ofNode (node : Node) : Written := .asWritten maxDepth node

/-- Lets a document decide what it is. -/
def settle? : Written → Option Written
  | .asWritten room node => (node.settle? room).map .settled
  | w => some w

/-- Whether a document stands for nothing. -/
def isNothing : Written → Bool
  | .asWritten _ (.scalar .plain s) => s = "" || Yaml.Plain.isNull s
  | .asWritten _ (.tagged tag (.scalar .plain s)) => tag = Yaml.nullTag && Yaml.Plain.isNull s
  | .settled .nothing => true
  | _ => false

/-- The text that a document is. -/
def text? : Written → Option String
  | .asWritten _ node => node.text?
  | .settled (.text s) => some s
  | _ => none

/-- The whole number that a document is; only what has decided may be negative. -/
def whole? : Written → Option Int
  | .asWritten _ (.scalar .plain s) => (Yaml.Plain.natural? s).map Int.ofNat
  | .asWritten _ (.tagged tag (.scalar style s)) =>
    if style = .plain || (style = .literal && tag = Yaml.wholeTag) then
      (Yaml.Plain.natural? s).map Int.ofNat
    else none
  | .settled (.natural n) => some n
  | .settled (.negative n) => some (-(n : Int))
  | _ => none

/-- The name of the field that a key means which has decided what it is: a number counts the
fields. -/
def keyName? (names : List String) : Settled → Option String
  | .text s => some s
  | .natural n => some (names[n]?.getD "")
  | _ => none

/-- What a document gives for a record. A blank is a record without members until it has decided to
be nothing. A record without fields does not look at the keys that it is given. -/
def given? (names : List String) : Written → Option (Given Written)
  | .asWritten room node =>
    match node.untagged with
    | .record members => do
      guard (0 < room)
      let named ← members.mapM fun (key, value) => do
        return (← key.text?, Written.asWritten (room - 1) value)
      Given.ofMembers? (names.map fun name => [name]) named
    | .list items => do
      guard (0 < room)
      Given.ofItems? names.length (items.map (Written.asWritten (room - 1)))
    | .scalar .plain "" => some (.byName (names.map fun _ => none))
    | _ => none
  | .settled (.record members) => do
    if names = [] then return .byName []
    let named ← members.mapM fun (key, value) => do return (← keyName? names key, settled value)
    Given.ofMembers? (names.map fun name => [name]) named
  | .settled (.list items) => Given.ofItems? names.length (items.map settled)
  | .settled _ => none

/-- Whether a key is a text once it has decided what it is. -/
def isKey (room : Nat) (name : String) (key : Node) : Bool :=
  match key.settle? room with
  | some (.text s) => s = name
  | _ => false

/-- The variant that a document is. Its name is a text in any case, and all else has to decide what
it is. -/
def variant? (tag : String) : Written → Option (String × Written)
  | .settled _ => none
  | .asWritten room node => do
    guard (0 < room)
    let node ← match node with
      | .tagged tag node => if Yaml.isOwnTag tag then none else some node
      | node => some node
    match node with
    | .record members =>
      match members.filter fun member => isKey (room - 1) tag member.1 with
      | [(_, name)] =>
        let others := members.filter fun member => !isKey (room - 1) tag member.1
        return (← name.text?, .settled (.record (← Node.settleMembers? (room - 1) others)))
      | _ => none
    | .list (name :: items) =>
      return (← name.text?, .settled (.list (← Node.settleItems? (room - 1) items)))
    | _ => none

/-- Whether the members of a record decide what they are, those with the given names apart. -/
def restSettles (names : List String) : Written → Bool
  | .asWritten room node =>
    match node.untagged with
    | .record members => members.all fun (key, value) =>
      (key.text?.any names.contains) || (value.settle? (room - 1)).isSome
    | _ => true
  | .settled _ => true

/-- Whether a document is a list. -/
def isList : Written → Bool
  | .asWritten _ node =>
    match node.untagged with
    | .list _ => true
    | _ => false
  | .settled (.list _) => true
  | .settled _ => false

instance : Source Written where
  isNothing := isNothing
  text? := text?
  whole? := whole?
  given? := given?
  variant? := variant?

end Written

end FeatureFlags.Settings
