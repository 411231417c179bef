import FeatureFlags.Yaml.Block
import FeatureFlags.Yaml.Flow

/-!
# Reading YAML documents

Lists and records by indentation, and the document that a text is: what the lines in front of it
set, the marks around it, and nothing else.

Every call takes one unit of `fuel`; each takes a character or is followed by one that does.
-/

namespace FeatureFlags.Yaml

open Cursor

/-- The key that begins here, with its colon on the same line. -/
def key? (fuel indent : Nat) (c : Cursor) : Option (Node × Cursor) := do
  let (key, behind) ← simpleNode fuel false indent .none c
  return (key, ← colon? false c behind)

mutual

/-- A document that begins here and may go on at column `indent` or further right. With `ofKey` it
belongs to a key, so that a list may stand one column further left. -/
def blockNode : Nat → Bool → Nat → Properties → Cursor → Option (Node × Cursor)
  | 0, _, _, _, _ => none
  | fuel + 1, ofKey, indent, p, c =>
    if c.isItem then do
      -- A list on the line of its key would leave open where its further items stand.
      unless c.isOpen do none
      let (items, c) ← blockItems fuel c.column c
      return c.close p (.list items)
    -- Properties on the line of a key are those of the key, so a key is looked for first.
    else if c.isOpen && (c.isMarkedKey || (key? fuel indent c).isSome) then do
      let (members, c) ← blockMembers fuel c.column c
      return c.close p (.record members)
    else if Properties.isAhead c then do
      let (p, c) ← p.add? false c
      blockValue fuel ofKey indent p c
    else match c.rest with
      | '|' :: _ | '>' :: _ => do
        let (node, c) ← blockScalar? indent c
        return c.close p node
      | _ => simpleNode fuel false indent p c

/-- What follows a mark, a key or a property: on the same line, or on lines of its own at column
`indent` or further right. -/
def blockValue : Nat → Bool → Nat → Properties → Cursor → Option (Node × Cursor)
  | 0, _, _, _, _ => none
  | fuel + 1, ofKey, indent, p, c =>
    let here := c.skipInLine
    if here.rest.head?.any fun x => !isBreak x then blockNode fuel ofKey indent p here
    else
      let next := here.skip false
      -- What does not stand far enough right belongs to somebody else.
      if !next.isAtEnd && indent ≤ next.column then blockNode fuel ofKey indent p next
      else if ofKey && indent = next.column + 1 && next.isItem then do
        let (items, c) ← blockItems fuel next.column next
        return c.close p (.list items)
      else some (next.close p .blank)

/-- The items of a list whose marks stand at a column. -/
def blockItems : Nat → Nat → Cursor → Option (List Node × Cursor)
  | 0, _, _ => none
  | fuel + 1, column, c => do
    let (item, c) ← blockValue fuel false (column + 1) .none c.moveMark
    let next := c.skip false
    if next.isAtEnd || next.column < column then return ([item], next)
    unless next.column = column ∧ next.isOpen do none
    if next.isItem then
      let (items, c) ← blockItems fuel column next
      return (item :: items, c)
    else return ([item], next)

/-- The members of a record whose keys stand at a column. -/
def blockMembers : Nat → Nat → Cursor → Option (List (Node × Node) × Cursor)
  | 0, _, _ => none
  | fuel + 1, column, c => do
    let (key, value, c) ← blockMember fuel column c
    let next := c.skip false
    if next.isAtEnd || next.column < column then return ([(key, value)], next)
    unless next.column = column ∧ next.isOpen ∧ !next.isItem do none
    let (members, c) ← blockMembers fuel column next
    return ((key, value) :: members, c)

/-- The member whose key stands here, in a column. A key with a mark of its own may be any
document, and its value has a mark too. -/
def blockMember : Nat → Nat → Cursor → Option (Node × Node × Cursor)
  | 0, _, _ => none
  | fuel + 1, column, c =>
    if c.isMarkedKey then do
      let (key, c) ← blockValue fuel true (column + 1) .none c.moveMark
      let next := c.skip false
      if next.column = column && next.isOpen && next.isSign ':' then
        let (value, c) ← blockValue fuel true (column + 1) .none next.moveMark
        return (key, value, c)
      else return (key, .blank, next)
    else do
      let (key, c) ← key? fuel (column + 1) c
      let (value, c) ← blockValue fuel true (column + 1) .none c
      return (key, value, c)

end

/-! ## The beginning of a text -/

/-- The number of a version that is ahead, and what follows. -/
def takeNumber? (cs : List Char) : Option (Nat × List Char) := do
  let digits := cs.takeWhile Char.isDigit
  guard (digits ≠ [] ∧ digits.length ≤ 9)
  return (← (String.ofList digits).toNat?, cs.dropWhile Char.isDigit)

/-- The handle that a line sets, and what follows. -/
def takeHandle? (cs : List Char) : Option (String × List Char) :=
  match cs with
  | '!' :: rest =>
    let name := rest.takeWhile isNameChar
    match rest.dropWhile isNameChar with
    | '!' :: rest => some ("!" ++ String.ofList name ++ "!", rest)
    | rest => if name = [] then some ("!", rest) else none
  | _ => none

/-- What a text has set so far: whether a version, and what handles stand for. -/
structure Directives where
  hasVersion : Bool
  handles : List (String × String)

/-- Adds what the line sets that begins after a percent sign: the version of YAML, which must be
known, or the meaning of a handle. Nothing is set twice. -/
def Directives.add? (d : Directives) (cs : List Char) : Option (Directives × List Char) := do
  let name := cs.takeWhile isNameChar
  let rest := cs.dropWhile isNameChar
  guard (isBlankAhead rest)
  let rest := rest.dropWhile isSpace
  if name = "YAML".toList then
    guard !d.hasVersion
    let (major, rest) ← takeNumber? rest
    guard (rest.head? = some '.')
    let (minor, rest) ← takeNumber? (rest.drop 1)
    guard (major = 1 ∧ (minor = 1 ∨ minor = 2))
    return ({ d with hasVersion := true }, rest)
  else
    guard (name = "TAG".toList)
    let (handle, rest) ← takeHandle? rest
    guard (rest.head?.any isSpace ∧ (d.handles.lookup handle).isNone)
    let (address, rest) ← takeAddress? true (rest.dropWhile isSpace)
    guard (address ≠ "" ∧ isBlankAhead rest)
    return ({ d with handles := (handle, address) :: d.handles }, rest)

/-- The place where the document begins: behind its mark if there is one, as there must be after
lines that set something. -/
def documentStart? : Nat → Directives → Bool → Cursor → Option Cursor
  | 0, _, _, _ => none
  | fuel + 1, d, isMarked, c =>
    if c.isMark '-' then some { c.move 3 with handles := d.handles }
    else if c.column = 0 && c.rest.head? = some '%' then do
      let (d, rest) ← d.add? (c.rest.drop 1)
      let here := { c with rest, column := 1, isOpen := false }.skipInLine
      guard (here.rest.head?.all isBreak)
      documentStart? fuel d true (here.skip false)
    else do
      guard (!isMarked ∧ !c.isMark '.')
      return c

/-! ## Whole texts -/

/-- Whether a character may stand in a document at all. -/
def isPrintable (c : Char) : Bool :=
  let n := c.toNat
  n = 0x9 || n = 0xA || n = 0xD || (0x20 ≤ n && n ≤ 0x7E) || n = 0x85 || (0xA0 ≤ n && n ≤ 0xD7FF) ||
    (0xE000 ≤ n && n ≤ 0xFFFD) || 0x10000 ≤ n

/-- Whether nothing follows the document but marks of its end. -/
def isOver : Nat → Cursor → Bool
  | 0, _ => false
  | fuel + 1, c =>
    let c := c.skip false
    c.rest.isEmpty || (c.isMark '.' && isOver fuel (c.move 3))

/-- The place behind a mark of the byte order, which takes up a column. -/
def skipByteOrder (c : Cursor) : Cursor :=
  if c.rest.head? = some (Char.ofNat 0xFEFF) then { c.move 1 with isOpen := true } else c

/-- The document that a text is. A text without any is blank. -/
def read? (s : String) : Option Node := do
  guard (s.toList.all isPrintable)
  let fuel := 4 * s.length + 8
  let first := (skipByteOrder (Cursor.start (withPlainBreaks s.toList))).skip false
  let c ← documentStart? fuel ⟨false, []⟩ false first
  let (node, c) ← blockValue fuel false 0 .none c
  guard (isOver fuel c)
  return node

end FeatureFlags.Yaml
