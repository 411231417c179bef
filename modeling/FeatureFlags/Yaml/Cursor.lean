import FeatureFlags.Yaml.Node

/-!
# Positions in a YAML text

What is left of a text and the column where it begins, together with what the text so far has given
names to. In YAML the columns tell which lines belong together, and a list or a record that is not
in brackets can only begin at the first word of a line or after a mark like that of an item.

A text is read with all its line breaks written in one way, except for the two separators of
Unicode, which are breaks of their own.
-/

namespace FeatureFlags.Yaml

/-- A position in a text. -/
structure Cursor where
  rest : List Char
  column : Nat
  /-- Whether a list or a record may begin here. -/
  isOpen : Bool
  /-- The documents that have got a name so far, the latest first. -/
  named : List (String × Node)
  /-- What the handles of tags stand for. -/
  handles : List (String × String)
deriving Repr

namespace Cursor

/-- Whether a character is a blank within a line. -/
def isSpace (c : Char) : Bool := c = ' ' || c = '\t'

/-- Whether a character ends a line. -/
def isBreak (c : Char) : Bool :=
  c = '\n' || c = Char.ofNat 0x2028 || c = Char.ofNat 0x2029

/-- Whether a blank, a line's end or the end of the text is ahead. -/
def isBlankAhead (cs : List Char) : Bool :=
  match cs with
  | [] => true
  | c :: _ => isSpace c || isBreak c

/-- The characters of a text with all usual line breaks written in one way. -/
def withPlainBreaks : List Char → List Char
  | '\r' :: '\n' :: cs => '\n' :: withPlainBreaks cs
  | c :: cs => (if c = '\r' ∨ c = Char.ofNat 0x85 then '\n' else c) :: withPlainBreaks cs
  | [] => []

/-- The beginning of a text. -/
def start (cs : List Char) : Cursor :=
  ⟨cs, 0, true, [], []⟩

/-- Moves past `n` characters of a line. -/
def move (n : Nat) (c : Cursor) : Cursor :=
  { c with rest := c.rest.drop n, column := c.column + n, isOpen := false }

/-- Moves past a mark of one character after which a list or a record may begin. -/
def moveMark (c : Cursor) : Cursor := { c.move 1 with isOpen := true }

/-- Moves past the spaces of a line. A tab does not count as one where a list or a record may
begin, because nobody knows how wide it is. -/
def skipSpaces (c : Cursor) : Cursor :=
  let n := (c.rest.takeWhile fun x => x = ' ' || (x = '\t' && !c.isOpen)).length
  { c with rest := c.rest.drop n, column := c.column + n }

/-- Moves past the spaces of a line and a comment, up to the end of the line. -/
def skipInLine (c : Cursor) : Cursor :=
  let c := c.skipSpaces
  match c.rest with
  | '#' :: _ => { c with rest := c.rest.dropWhile fun x => !isBreak x }
  | _ => c

/-- Moves to the next thing written, past spaces, comments and line breaks; in brackets, that is
with `flow`, columns do not matter. -/
def skip (flow : Bool) (c : Cursor) : Cursor :=
  go c.rest c.column c.isOpen
where
  /-- Works through lines. -/
  go : List Char → Nat → Bool → Cursor
    | [], column, isOpen => { c with rest := [], column, isOpen }
    | x :: rest, column, isOpen =>
      if x = ' ' || (x = '\t' && (flow || !isOpen)) then go rest (column + 1) isOpen
      else if isBreak x then go rest 0 (isOpen || !flow)
      else if x = '#' then comment rest isOpen
      else { c with rest := x :: rest, column, isOpen }
  /-- Works through a comment. -/
  comment : List Char → Bool → Cursor
    | [], isOpen => { c with rest := [], column := 0, isOpen }
    | x :: rest, isOpen => if isBreak x then go rest 0 (isOpen || !flow) else comment rest isOpen

/-- Whether one of the two marks that bound a document stands in front of a text. -/
def startsMark (mark : Char) : List Char → Bool
  | a :: b :: d :: rest => a = mark && b = mark && d = mark && isBlankAhead rest
  | _ => false

/-- Whether a mark that bounds a document is here. -/
def isMark (mark : Char) (c : Cursor) : Bool :=
  c.column = 0 && startsMark mark c.rest

/-- Whether the document has nothing more to say here. -/
def isAtEnd (c : Cursor) : Bool :=
  c.rest.isEmpty || c.isMark '-' || c.isMark '.'

/-- Whether a mark of one character is here that needs a blank after it. -/
def isSign (sign : Char) (c : Cursor) : Bool :=
  match c.rest with
  | x :: rest => x = sign && isBlankAhead rest
  | [] => false

/-- Whether an item of a list begins here. -/
def isItem (c : Cursor) : Bool := c.isSign '-'

/-- Whether a key follows that is marked as one. -/
def isMarkedKey (c : Cursor) : Bool := c.isSign '?'

/-- What lies between here and a later place. -/
def upTo (later c : Cursor) : List Char :=
  c.rest.take (c.rest.length - later.rest.length)

end Cursor

/-- The text that line breaks between two words amount to: a usual one is a blank, or nothing if
there are more of them. -/
def foldBreaks : List Char → List Char
  | ['\n'] => [' ']
  | '\n' :: breaks => breaks
  | breaks => breaks

end FeatureFlags.Yaml
