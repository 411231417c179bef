import FeatureFlags.Json.Doc

/-!
# Reading JSON documents

A document is read from the front of a list of bytes, and what follows it is handed back. Reading
checks the notation alone: escapes are complete and control characters do not occur in strings, but
neither the texts nor the sizes of numbers are looked at, and documents may nest to any depth.

Every nested call takes one unit of `fuel` and at least one byte, so as much fuel as there are bytes
is enough.
-/

namespace FeatureFlags.Json

/-- Drops the blanks at the front. -/
def skipBlank (s : Bytes) : Bytes :=
  s.dropWhile Byte.isBlank

/-- The bytes of a string up to its closing quote, and what follows. -/
def scanString : Bytes → Option (Bytes × Bytes)
  | [] => none
  | Byte.quote :: rest => some ([], rest)
  | Byte.backslash :: Byte.lowerU :: a :: b :: c :: d :: rest => do
    guard ([a, b, c, d].all fun x => (Byte.hexValue? x).isSome)
    let (raw, rest) ← scanString rest
    return (Byte.backslash :: Byte.lowerU :: a :: b :: c :: d :: raw, rest)
  | Byte.backslash :: e :: rest => do
    guard ([Byte.quote, Byte.backslash, Byte.slash, Byte.lowerB, Byte.lowerF, Byte.lowerN,
      Byte.lowerR, Byte.lowerT].contains e)
    let (raw, rest) ← scanString rest
    return (Byte.backslash :: e :: raw, rest)
  | b :: rest => do
    -- A backslash here begins none of the escapes above.
    guard (0x20 ≤ b && b != Byte.backslash)
    let (raw, rest) ← scanString rest
    return (b :: raw, rest)

/-- The digits at the front, and what follows. -/
def scanDigits (s : Bytes) : List Char × Bytes :=
  ((s.takeWhile Byte.isDigit).map fun b => Char.ofNat b.toNat, s.dropWhile Byte.isDigit)

/-- The digits before the point: one zero, or a digit that is not zero and any others. -/
def scanWhole (s : Bytes) : Option (List Char × Bytes) :=
  match s with
  | Byte.zero :: rest => some (['0'], rest)
  | s =>
    let (digits, rest) := scanDigits s
    if digits = [] then none else some (digits, rest)

/-- The point and the digits after it, if there is a point. -/
def scanFraction (s : Bytes) : Option (List Char × Bytes) :=
  match s with
  | Byte.point :: rest =>
    let (digits, rest) := scanDigits rest
    if digits = [] then none else some (digits, rest)
  | s => some ([], s)

/-- The sign of a power of ten. -/
def scanSign (s : Bytes) : Bool × Bytes :=
  match s with
  | Byte.minus :: rest => (true, rest)
  | Byte.plus :: rest => (false, rest)
  | s => (false, s)

/-- The power of ten, if there is one. -/
def scanPower (s : Bytes) : Option (Option Decimal.Power × Bytes) :=
  match s with
  | e :: rest =>
    if e = 0x65 ∨ e = 0x45 then
      let (negative, rest) := scanSign rest
      let (digits, rest) := scanDigits rest
      if digits = [] then none else some (some ⟨negative, digits⟩, rest)
    else some (none, e :: rest)
  | [] => some (none, [])

/-- A number, and what follows. -/
def scanNumber (s : Bytes) : Option (Decimal.Numeral × Bytes) := do
  let (negative, s) := match s with
    | Byte.minus :: rest => (true, rest)
    | s => (false, s)
  let (whole, s) ← scanWhole s
  let (fraction, s) ← scanFraction s
  let (power, s) ← scanPower s
  return (⟨negative, whole, fraction, power⟩, s)

mutual

/-- A document, and what follows. -/
def readDoc : Nat → Bytes → Option (Doc × Bytes)
  | 0, _ => none
  | fuel + 1, s =>
    match skipBlank s with
    | Byte.lowerN :: Byte.lowerU :: 0x6C :: 0x6C :: rest => some (.null, rest)
    | Byte.lowerT :: Byte.lowerR :: Byte.lowerU :: 0x65 :: rest => some (.bool true, rest)
    | Byte.lowerF :: 0x61 :: 0x6C :: 0x73 :: 0x65 :: rest => some (.bool false, rest)
    | Byte.quote :: rest => (scanString rest).map fun (raw, rest) => (.string raw, rest)
    | Byte.openBracket :: rest =>
      match skipBlank rest with
      | Byte.closeBracket :: rest => some (.array [], rest)
      | rest => (readItems fuel rest).map fun (items, rest) => (.array items, rest)
    | Byte.openBrace :: rest =>
      match skipBlank rest with
      | Byte.closeBrace :: rest => some (.object [], rest)
      | rest => (readMembers fuel rest).map fun (members, rest) => (.object members, rest)
    | rest => (scanNumber rest).map fun (n, rest) => (.number n, rest)

/-- The items of an array up to its closing bracket, and what follows. -/
def readItems : Nat → Bytes → Option (List Doc × Bytes)
  | 0, _ => none
  | fuel + 1, s => do
    let (item, s) ← readDoc fuel s
    match skipBlank s with
    | Byte.closeBracket :: rest => some ([item], rest)
    | Byte.comma :: rest =>
      let (items, rest) ← readItems fuel rest
      some (item :: items, rest)
    | _ => none

/-- The members of an object up to its closing brace, and what follows. -/
def readMembers : Nat → Bytes → Option (List (Bytes × Doc) × Bytes)
  | 0, _ => none
  | fuel + 1, s =>
    match skipBlank s with
    | Byte.quote :: s => do
      let (name, s) ← scanString s
      match skipBlank s with
      | Byte.colon :: s =>
        let (value, s) ← readDoc fuel s
        match skipBlank s with
        | Byte.closeBrace :: rest => some ([(name, value)], rest)
        | Byte.comma :: rest =>
          let (members, rest) ← readMembers fuel rest
          some ((name, value) :: members, rest)
        | _ => none
      | _ => none
    | _ => none

end

/-- The document at the front of the bytes, and what follows. -/
def Doc.read? (s : Bytes) : Option (Doc × Bytes) :=
  readDoc (s.length + 1) s

/-- Whether nothing but blanks is left. -/
def isFinished (s : Bytes) : Bool :=
  s.all Byte.isBlank

/-- The document that the bytes hold, with nothing but blanks around it. -/
def Doc.ofBytes? (s : Bytes) : Option Doc := do
  let (doc, rest) ← Doc.read? s
  guard (isFinished rest)
  return doc

end FeatureFlags.Json
