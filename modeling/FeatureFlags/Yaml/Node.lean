/-!
# YAML documents

A YAML document as it is written: scalars, lists and records, each of them possibly with a tag. A
plain scalar may later turn out to be a number, a truth value or nothing, depending on who asks; the
other styles are texts unless a tag says otherwise.
-/

namespace FeatureFlags.Yaml

/-- How a scalar is written. -/
inductive Style where
  | plain
  | quoted
  /-- A block whose lines are kept. -/
  | literal
  /-- A block whose lines are joined. -/
  | folded
deriving DecidableEq, Repr

/-- A YAML document. -/
inductive Node where
  | scalar (style : Style) (text : String)
  | list (items : List Node)
  /-- The members in the order they are written. -/
  | record (members : List (Node × Node))
  /-- A document with a tag in front. -/
  | tagged (tag : String) (node : Node)
deriving Repr, Inhabited

namespace Node

/-- What stands where nothing is written. -/
def blank : Node := .scalar .plain ""

/-- A document without its tag. -/
def untagged : Node → Node
  | .tagged _ node => node
  | node => node

/-- The text that a document is to somebody who expects one. -/
def text? (node : Node) : Option String :=
  match node.untagged with
  | .scalar _ text => some text
  | _ => none

end Node

end FeatureFlags.Yaml
