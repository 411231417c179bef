import FeatureFlags.Yaml.Property

/-!
# Documents on a line and in brackets

What can be a key: a scalar, a repeated document, or a list or a record in brackets. In brackets
(`flow`) line breaks are mere blanks, yet a key and its colon have to stand on one line.

Every call takes one unit of `fuel`; each takes a character or is followed by one that does.
-/

namespace FeatureFlags.Yaml

/-- How long a key may be. -/
def maxKeyLength : Nat := 1024

/-- The place behind the colon of a key that began at `start` and ended at `c`, if it is one. In
brackets the colon needs no blank behind it. -/
def colon? (flow : Bool) (start c : Cursor) : Option Cursor := do
  let c := c.skipSpaces
  guard (c.rest.head? = some ':' ∧ (flow ∨ Cursor.isBlankAhead (c.rest.drop 1)))
  let key := c.upTo start
  guard (key.length ≤ maxKeyLength ∧ !key.any Cursor.isBreak)
  return c.move 1

mutual

/-- The document that begins here. Properties in front of nothing are those of a blank. -/
def simpleNode : Nat → Bool → Nat → Properties → Cursor → Option (Node × Cursor)
  | 0, _, _, _, _ => none
  | fuel + 1, flow, indent, p, c =>
    -- The document must not end while a bracket is open.
    if c.isAtEnd && flow then none
    else if Properties.isAhead c then do
      let (p, c) ← p.add? flow c
      simpleNode fuel flow indent p (if flow then c.skip true else c.skipSpaces)
    else match c.rest with
      | '*' :: _ => if p = .none then repeated? c else none
      | '[' :: _ => do
        let (items, c) ← flowItems fuel indent ((c.move 1).skip true)
        return c.close p (.list items)
      | '\x7b' :: _ => do
        let (members, c) ← flowMembers fuel indent ((c.move 1).skip true)
        return c.close p (.record members)
      | '\'' :: _ | '"' :: _ => do
        let (text, c) ← quotedScalar? c
        return c.close p (.scalar .quoted text)
      | _ =>
        if startsPlain flow c.rest then do
          let (text, c) ← plainScalar? flow indent c
          return c.close p (.scalar .plain text)
        else if p = .none then none
        else some (c.close p .blank)

/-- What stands in brackets after a mark, up to a comma or a closing bracket. -/
def flowValue : Nat → Nat → Cursor → Option (Node × Cursor)
  | 0, _, _ => none
  | fuel + 1, indent, c =>
    let c := c.skip true
    match c.rest with
    | ',' :: _ | ']' :: _ | '\x7d' :: _ | ':' :: _ => some (.blank, c)
    | _ => do
      let (node, c) ← simpleNode fuel true indent .none c
      return (node, c.skip true)

/-- An item or a member: a key, and a value if a colon follows. -/
def flowEntry : Nat → Nat → Cursor → Option (Node × Option Node × Cursor)
  | 0, _, _ => none
  | fuel + 1, indent, c =>
    match c.rest with
    | '?' :: _ => do
      let (key, c) ← flowValue fuel indent (c.move 1)
      match c.rest with
      | ':' :: _ => do
        let (value, c) ← flowValue fuel indent (c.move 1)
        return (key, some value, c)
      | _ => return (key, some .blank, c)
    | _ => do
      let (key, behind) ← simpleNode fuel true indent .none c
      match colon? true c behind with
      | some c => do
        let (value, c) ← flowValue fuel indent c
        return (key, some value, c)
      | none => return (key, none, behind.skip true)

/-- The items up to a closing bracket. An item with a value is a record of its own. -/
def flowItems : Nat → Nat → Cursor → Option (List Node × Cursor)
  | 0, _, _ => none
  | fuel + 1, indent, c =>
    match c.rest with
    | ']' :: _ => some ([], c.move 1)
    | _ => do
      let (key, value, c) ← flowEntry fuel indent c
      let item := match value with
        | some value => .record [(key, value)]
        | none => key
      match c.rest with
      | ']' :: _ => return ([item], c.move 1)
      | ',' :: _ =>
        let (items, c) ← flowItems fuel indent ((c.move 1).skip true)
        return (item :: items, c)
      | _ => none

/-- The members up to a closing brace. -/
def flowMembers : Nat → Nat → Cursor → Option (List (Node × Node) × Cursor)
  | 0, _, _ => none
  | fuel + 1, indent, c =>
    match c.rest with
    | '\x7d' :: _ => some ([], c.move 1)
    | _ => do
      let (key, value, c) ← flowEntry fuel indent c
      let member := (key, value.getD .blank)
      match c.rest with
      | '\x7d' :: _ => return ([member], c.move 1)
      | ',' :: _ =>
        let (members, c) ← flowMembers fuel indent ((c.move 1).skip true)
        return (member :: members, c)
      | _ => none

end

end FeatureFlags.Yaml
