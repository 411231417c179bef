import FeatureFlags.Bytes
import FeatureFlags.Yaml.Scalar

/-!
# Properties of documents

In front of a document there may be a name, by which it can be repeated later, and a tag, which says
what kind of document it is. A tag is short for an address: it begins with a handle, for which the
beginning of the text may have set what it stands for.
-/

namespace FeatureFlags.Yaml

/-- What stands in front of a document. -/
structure Properties where
  name : Option String
  tag : Option String
deriving DecidableEq, Repr

namespace Properties

/-- No properties. -/
def none : Properties := ⟨.none, .none⟩

end Properties

/-! ## Names -/

/-- Whether a character may stand in a name or in a handle. -/
def isNameChar (c : Char) : Bool := c.isAlphanum || c = '_' || c = '-'

/-- Whether a name may end in front of these characters. -/
def endsName (cs : List Char) : Bool :=
  Cursor.isBlankAhead cs ||
    cs.head?.any fun c => ['?', ':', ',', ']', '\x7d', '%', '@', Char.ofNat 0x60].contains c

/-- The name after the mark that is here. -/
def nameAhead? (c : Cursor) : Option (String × Cursor) := do
  let name := (c.rest.drop 1).takeWhile isNameChar
  let behind := c.move (name.length + 1)
  guard (name ≠ [] ∧ endsName behind.rest)
  return (String.ofList name, behind)

namespace Cursor

/-- Forgets a name, because another document is going to get it. -/
def forget (name : String) (c : Cursor) : Cursor :=
  { c with named := c.named.filter fun entry => entry.1 ≠ name }

/-- The document behind the properties that stand in front of it. From now on its name, if it has
one, stands for it. -/
def close (p : Properties) (node : Node) (c : Cursor) : Node × Cursor :=
  let node := match p.tag with
    | some tag => .tagged tag node
    | .none => node
  match p.name with
  | some name => (node, { c with named := (name, node) :: c.named })
  | .none => (node, c)

end Cursor

/-- The document that is repeated here by its name. -/
def repeated? (c : Cursor) : Option (Node × Cursor) := do
  let (name, behind) ← nameAhead? c
  return (← c.named.lookup name, behind)

/-! ## Tags -/

/-- What the handles stand for that every text may use. -/
def commonHandles : List (String × String) :=
  [("!", "!"), ("!!", "tag:yaml.org,2002:")]

/-- Whether a character may stand in the address of a tag. Some may only where the address has
marks around it. -/
def isAddressChar (isMarked : Bool) (c : Char) : Bool :=
  isNameChar c || ";/?:@&=+$.%!~*'()".contains c || (isMarked && [',', '[', ']'].contains c)

/-- The bytes of an address, in which a percent sign and two digits stand for one. -/
def addressBytes? : List Char → Option Bytes
  | '%' :: a :: b :: cs => do
    let n ← hexValue? [a, b]
    return .ofNat n :: (← addressBytes? cs)
  | '%' :: _ => none
  | c :: cs => (addressBytes? cs).map (c.toUInt8 :: ·)
  | [] => some []

/-- A part of the address of a tag, and what follows. -/
def takeAddress? (isMarked : Bool) (cs : List Char) : Option (String × List Char) := do
  let address ← (← addressBytes? (cs.takeWhile (isAddressChar isMarked))).text?
  return (address, cs.dropWhile (isAddressChar isMarked))

/-- The tag that begins with the characters after its mark, and what follows. -/
def takeTag? (handles : List (String × String)) (cs : List Char) : Option (String × List Char) :=
  let name := cs.takeWhile isNameChar
  match cs, cs.dropWhile isNameChar with
  | '<' :: cs, _ => do
    let (address, rest) ← takeAddress? true cs
    guard (address ≠ "" ∧ rest.head? = some '>')
    return (address, rest.drop 1)
  | _, '!' :: rest => do
    let (address, rest) ← takeAddress? false rest
    guard (address ≠ "")
    let meaning ← (handles ++ commonHandles).lookup ("!" ++ String.ofList name ++ "!")
    return (meaning ++ address, rest)
  | _, _ => do
    let (address, rest) ← takeAddress? false cs
    if address = "" then return ("!", rest)
    let meaning ← (handles ++ commonHandles).lookup "!"
    return (meaning ++ address, rest)

/-- The tag that is here. -/
def tagAhead? (flow : Bool) (c : Cursor) : Option (String × Cursor) := do
  let (tag, rest) ← takeTag? c.handles (c.rest.drop 1)
  guard (Cursor.isBlankAhead rest ∨ (flow ∧ rest.head? = some ','))
  return (tag, c.move (c.rest.length - rest.length))

/-! ## Both -/

namespace Properties

/-- Whether a property is here. -/
def isAhead (c : Cursor) : Bool :=
  c.rest.head?.any fun x => x = '&' || x = '!'

/-- Adds the property that is here. A document has at most one name and at most one tag. -/
def add? (flow : Bool) (p : Properties) (c : Cursor) : Option (Properties × Cursor) :=
  match c.rest with
  | '&' :: _ => do
    guard (p.name = .none)
    let (name, c) ← nameAhead? c
    -- Within the document the name means neither an older document nor this one.
    return ({ p with name }, c.forget name)
  | '!' :: _ => do
    guard (p.tag = .none)
    let (tag, c) ← tagAhead? flow c
    return ({ p with tag }, c)
  | _ => .none

end Properties

end FeatureFlags.Yaml
