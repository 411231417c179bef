import FeatureFlags.Yaml.Cursor

/-!
# Block scalars

Texts of several lines. A header says whether the lines are kept or folded into paragraphs, what
becomes of the line breaks at the end, and perhaps how far the lines are indented; without that the
first line that says something decides.
-/

namespace FeatureFlags.Yaml

/-- What becomes of the line breaks at the end of a block. -/
inductive Ending where
  /-- None stays. -/
  | strip
  /-- One stays. -/
  | clip
  /-- All stay. -/
  | keep
deriving DecidableEq, Repr

/-- What stands in front of a block. -/
structure BlockHeader where
  isFolded : Bool
  ending : Ending
  /-- How much further right than what it belongs to the block stands, if that is said. -/
  step : Option Nat
deriving DecidableEq, Repr

namespace BlockHeader

/-- The ending that a sign asks for. -/
def ending? : Char → Option Ending
  | '-' => some .strip
  | '+' => some .keep
  | _ => none

/-- The step that a digit asks for. -/
def step? (c : Char) : Option Nat :=
  if '1' ≤ c ∧ c ≤ '9' then some (c.toNat - 0x30) else none

/-- The marks after the first character of a header, and what follows them. A sign and a digit may
come in any order. -/
def marks (cs : List Char) : Ending × Option Nat × List Char :=
  match cs with
  | a :: b :: rest =>
    match ending? a, step? a with
    | some ending, _ =>
      if (step? b).isSome then (ending, step? b, rest) else (ending, none, b :: rest)
    | _, some step =>
      match ending? b with
      | some ending => (ending, some step, rest)
      | none => (.clip, some step, b :: rest)
    | _, _ => (.clip, none, cs)
  | [a] =>
    let isMark := (ending? a).isSome || (step? a).isSome
    ((ending? a).getD .clip, step? a, if isMark then [] else [a])
  | [] => (.clip, none, [])

/-- The header that begins here, and the rest of its line without blanks and comments. -/
def read? (cs : List Char) : Option (BlockHeader × List Char) :=
  match cs with
  | c :: cs =>
    if c = '|' ∨ c = '>' then
      let (ending, step, rest) := marks cs
      let rest := rest.dropWhile Cursor.isSpace
      let rest := if rest.head? = some '#' then rest.dropWhile fun c => !Cursor.isBreak c else rest
      some (⟨c = '>', ending, step⟩, rest)
    else none
  | [] => none

end BlockHeader

/-- Lines without anything on them: their breaks, the widest blank in front of a break or of what
follows, and the place of what follows. No more than `limit` blanks in front of a line count, if
there is a limit. -/
def blankLines (limit : Option Nat) (c : Cursor) : List Char × Nat × Cursor :=
  go c.column c.column c.rest
where
  /-- Keeps the widest blank and the column. -/
  go (widest column : Nat) : List Char → List Char × Nat × Cursor
    | [] => ([], widest, { c with rest := [], column, isOpen := true })
    | x :: rest =>
      if x = ' ' ∧ limit.all (column < ·) then go (max widest (column + 1)) (column + 1) rest
      else if Cursor.isBreak x then
        let (breaks, widest, next) := go widest 0 rest
        (x :: breaks, widest, next)
      else ([], widest, { c with rest := x :: rest, column, isOpen := true })

/-- What stands between two lines of a block whose breaks these are. A fold turns a single break
between lines that begin with words into a blank. -/
def lineGap (isFolded : Bool) (breaks : List Char) : List Char :=
  if isFolded then foldBreaks breaks else breaks

/-- Whether a tab stands where the indentation of a block should be. -/
def hasTabInFront (limit : Option Nat) (c : Cursor) : Bool :=
  limit.all (c.column < ·) && c.rest.head? = some '\t'

/-- The first line that is ahead and whether it begins with a blank. -/
def takeLine (c : Cursor) : List Char × Bool × Cursor :=
  let line := c.rest.takeWhile fun x => !Cursor.isBreak x
  (line, c.rest.head?.any Cursor.isSpace, c.move line.length)

/-- What is left of the line breaks at the end of a block. -/
def Ending.keeps : Ending → List Char → List Char
  | .strip, _ => []
  | .clip, breaks => breaks.take 1
  | .keep, breaks => breaks

/-- The further lines of a block after a line that began with a blank or not, and what follows the
block. -/
def blockLines (h : BlockHeader) (indent : Nat) : Nat → Bool → Cursor → Option (List Char × Cursor)
  | 0, _, c => some ([], c)
  | fuel + 1, spaced, c =>
    match c.rest with
    | [] => some ([], c)
    | x :: rest => do
      let (breaks, _, next) := blankLines (some indent) { c with rest, column := 0 }
      guard !(hasTabInFront (some indent) next)
      if next.column = indent ∧ next.rest ≠ [] then
        let (line, nextSpaced, after) := takeLine next
        let (more, c) ← blockLines h indent fuel nextSpaced after
        return (lineGap (h.isFolded && !spaced && !nextSpaced) (x :: breaks) ++ line ++ more, c)
      else return (h.ending.keeps (x :: breaks), next)

/-- The block scalar that begins here, in something that asks for at least `indent` blanks in front
of every line. -/
def blockScalar? (indent : Nat) (c : Cursor) : Option (Node × Cursor) := do
  let (h, rest) ← BlockHeader.read? c.rest
  guard (rest.head?.all Cursor.isBreak)
  let style := if h.isFolded then Style.folded else .literal
  let said := h.step.map fun n => max (indent + n - 1) n
  let (breaks, widest, first) := blankLines said { c with rest := rest.drop 1, column := 0 }
  guard !(hasTabInFront said first)
  let indent := said.getD (max (max widest indent) 1)
  if first.column = indent ∧ first.rest ≠ [] then
    let (line, spaced, after) := takeLine first
    let (more, c) ← blockLines h indent c.rest.length spaced after
    return (.scalar style (String.ofList (breaks ++ line ++ more)), c)
  else
    return (.scalar style (String.ofList (if h.ending = .keep then breaks else [])), first)

end FeatureFlags.Yaml
