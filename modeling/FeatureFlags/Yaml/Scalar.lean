import FeatureFlags.Yaml.Cursor

/-!
# Scalars on lines

Reading three ways to write a scalar: plain, in single quotes and in double quotes. Such a scalar
may go on over several lines, which are then joined.
-/

namespace FeatureFlags.Yaml

open Cursor (isSpace isBreak)

/-! ## Scalars in quotes -/

/-- Line breaks and the blanks around them: the breaks, and what follows. A mark that bounds the
document must not follow. -/
def takeBreaks? : List Char → Option (List Char × List Char)
  | [] => some ([], [])
  | c :: rest =>
    if isBreak c then
      if Cursor.startsMark '-' rest || Cursor.startsMark '.' rest then none
      else (takeBreaks? rest).map fun (breaks, rest) => (c :: breaks, rest)
    else if isSpace c then takeBreaks? rest
    else some ([], c :: rest)

/-- Blanks in a quoted scalar: what they amount to, and what follows. -/
def takeFolded? (cs : List Char) : Option (List Char × List Char) :=
  let rest := cs.dropWhile isSpace
  if rest.head?.any isBreak then
    (takeBreaks? rest).map fun (breaks, rest) => (foldBreaks breaks, rest)
  else some (cs.takeWhile isSpace, rest)

/-- The number that hexadecimal digits stand for. -/
def hexValue? (cs : List Char) : Option Nat :=
  cs.foldlM (fun n c =>
    if c.isDigit then some (n * 16 + (c.toNat - 0x30))
    else if 'a' ≤ c && c ≤ 'f' then some (n * 16 + (c.toNat - 0x57))
    else if 'A' ≤ c && c ≤ 'F' then some (n * 16 + (c.toNat - 0x37))
    else none) 0

/-- The character of a code point. -/
def scalarValue? (n : Nat) : Option Char :=
  if h : n.isValidChar then some (Char.ofNatAux n h) else none

/-- The character that an escape of one letter stands for. -/
def escaped? : Char → Option Char
  | '0' => some '\x00'
  | 'a' => some '\x07'
  | 'b' => some '\x08'
  | 't' | '\t' => some '\t'
  | 'n' => some '\n'
  | 'v' => some '\x0b'
  | 'f' => some '\x0c'
  | 'r' => some '\r'
  | 'e' => some '\x1b'
  | ' ' => some ' '
  | '"' => some '"'
  | '/' => some '/'
  | '\\' => some '\\'
  | 'N' => some (Char.ofNat 0x85)
  | '_' => some (Char.ofNat 0xA0)
  | 'L' => some (Char.ofNat 0x2028)
  | 'P' => some (Char.ofNat 0x2029)
  | _ => none

/-- How many hexadecimal digits follow the letter of an escape. -/
def escapeDigits : Char → Nat
  | 'x' => 2
  | 'u' => 4
  | 'U' => 8
  | _ => 0

/-- One step inside quotes: what the front stands for and what follows, or the end of the scalar. -/
inductive QuotedStep where
  | text (cs rest : List Char)
  | done (rest : List Char)

namespace QuotedStep

/-- A step whose text and rest are known if it can be taken. -/
def ofText? (step : Option (List Char × List Char)) : Option QuotedStep :=
  step.map fun (cs, rest) => text cs rest

/-- One step in single quotes. A quote written twice is one. -/
def single? : List Char → Option QuotedStep
  | [] => none
  | '\'' :: '\'' :: rest => some (text ['\''] rest)
  | '\'' :: rest => some (done rest)
  | c :: rest =>
    if isSpace c || isBreak c then ofText? (takeFolded? (c :: rest))
    else some (text [c] rest)

/-- One step in double quotes. A line break after a backslash does not count, but those after it
do. -/
def double? : List Char → Option QuotedStep
  | [] => none
  | '"' :: rest => some (done rest)
  | '\\' :: c :: rest =>
    if isBreak c then
      ofText? ((takeBreaks? (c :: rest)).map fun (breaks, rest) => (breaks.drop 1, rest))
    else match escapeDigits c with
      | 0 => (escaped? c).map fun x => text [x] rest
      | n =>
        if rest.length < n then none
        else ((hexValue? (rest.take n)).bind scalarValue?).map fun x => text [x] (rest.drop n)
  | c :: rest =>
    if isSpace c || isBreak c then ofText? (takeFolded? (c :: rest))
    else some (text [c] rest)

end QuotedStep

/-- Works through a quoted scalar step by step: its text, and what follows. -/
def takeQuoted (step? : List Char → Option QuotedStep) : Nat → List Char →
    Option (List Char × List Char)
  | 0, _ => none
  | fuel + 1, cs =>
    match step? cs with
    | none => none
    | some (.done rest) => some ([], rest)
    | some (.text front rest) =>
      (takeQuoted step? fuel rest).map fun (text, rest) => (front ++ text, rest)

/-- The place behind a scalar that began at `c` and ended before `rest`. -/
def Cursor.behind (c : Cursor) (rest : List Char) : Cursor :=
  let taken := c.rest.take (c.rest.length - rest.length)
  let lastLine := (taken.reverse.takeWhile fun x => !isBreak x).length
  let column := if taken.any isBreak then lastLine else c.column + lastLine
  { c with rest, column, isOpen := false }

/-- The quoted scalar that begins here. -/
def quotedScalar? (c : Cursor) : Option (String × Cursor) := do
  let (text, rest) ← match c.rest with
    | '\'' :: cs => takeQuoted QuotedStep.single? (cs.length + 1) cs
    | '"' :: cs => takeQuoted QuotedStep.double? (cs.length + 1) cs
    | _ => none
  return (String.ofList text, c.behind rest)

/-! ## Plain scalars -/

/-- Whether a character is one of those that structure lists and records in brackets. -/
def isFlowMark (c : Char) : Bool :=
  [',', '[', ']', '\x7b', '\x7d'].contains c

/-- Whether a plain scalar may begin here. -/
def startsPlain (flow : Bool) : List Char → Bool
  | [] => false
  | c :: rest =>
    if c = '-' then !Cursor.isBlankAhead rest
    else if c = '?' || c = ':' then !flow && !Cursor.isBlankAhead rest
    else !(isSpace c || isBreak c || isFlowMark c ||
      ['#', '&', '*', '!', '|', '>', '\'', '"', '%', '@', Char.ofNat 0x60].contains c)

/-- Whether a colon with these characters after it does not belong to a plain scalar. -/
def endsPlain (flow : Bool) (rest : List Char) : Bool :=
  Cursor.isBlankAhead rest || (flow && rest.head?.any fun c => c = '?' || isFlowMark c)

/-- The characters of a plain scalar on one line, blanks at the end included. -/
def takePlainLine (flow : Bool) : Option Char → List Char → List Char
  | _, [] => []
  | before, c :: rest =>
    if isBreak c then []
    else if c = ':' && endsPlain flow rest then []
    else if c = '#' && before.any isSpace then []
    else if flow && isFlowMark c then []
    else c :: takePlainLine flow (some c) rest

/-- Cuts the blanks off the end. -/
def dropSpacesRight (cs : List Char) : List Char :=
  (cs.reverse.dropWhile isSpace).reverse

/-- The line breaks in front of the next word, and where that is. Tabs must not stand where a plain
scalar is indented. -/
def nextLine? (indent : Nat) (c : Cursor) : Option (List Char × Cursor) :=
  go c.rest c.column c.isOpen
where
  /-- Keeps the column and whether a break has been passed. -/
  go : List Char → Nat → Bool → Option (List Char × Cursor)
    | [], column, isOpen => some ([], { c with rest := [], column, isOpen })
    | x :: rest, column, isOpen =>
      if isBreak x then (go rest 0 true).map fun (breaks, next) => (x :: breaks, next)
      else if isSpace x then
        if x = '\t' && isOpen && column < indent then none else go rest (column + 1) isOpen
      else some ([], { c with rest := x :: rest, column, isOpen })

/-- Whether a colon is here that neither belongs to a plain scalar nor ends a key. -/
def Cursor.isStuckColon (c : Cursor) : Bool :=
  match c.rest with
  | ':' :: rest => !isBlankAhead rest && endsPlain true rest
  | _ => false

/-- A plain scalar from the line that begins here on: its text, and what follows. In brackets its
further lines may stand anywhere, otherwise they stand right of what the scalar belongs to. -/
def plainLines? (flow : Bool) (indent : Nat) : Nat → Option Char → Cursor →
    Option (List Char × Cursor)
  | 0, _, _ => none
  | fuel + 1, before, c => do
    let line := dropSpacesRight (takePlainLine flow before c.rest)
    let behind := c.move line.length
    let (breaks, next) ← nextLine? indent behind
    if breaks = [] || next.isAtEnd || (!flow && next.column < indent) ||
        takePlainLine flow (some ' ') next.rest = [] then
      -- In front of a comma or a bracket such a colon would have two meanings.
      guard !next.isStuckColon
      return (line, if flow then { next with isOpen := false } else next)
    else
      let (more, c) ← plainLines? flow indent fuel (some ' ') next
      return (line ++ foldBreaks breaks ++ more, c)

/-- The plain scalar that begins here. -/
def plainScalar? (flow : Bool) (indent : Nat) (c : Cursor) : Option (String × Cursor) := do
  guard (startsPlain flow c.rest)
  let (text, c) ← plainLines? flow indent (c.rest.length + 1) none c
  return (String.ofList text, c)

end FeatureFlags.Yaml
