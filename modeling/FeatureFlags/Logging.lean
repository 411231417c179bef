import FeatureFlags.Text.Path

/-!
# Logging

Log lines and the filter that decides which of them are written. A filter is a list of rules
separated by commas. A rule sets how detailed the log may be for the parts of the program whose
names begin with its own; of several rules for a part the one with the longest name counts.
-/

namespace FeatureFlags

/-- How detailed a log line is. -/
inductive LogLevel where
  | error
  | warn
  | info
  | debug
  | trace
deriving DecidableEq, Repr

namespace LogLevel

/-- The levels with their names, the least detailed first. -/
def named : List (String × LogLevel) :=
  [("error", error), ("warn", warn), ("info", info), ("debug", debug), ("trace", trace)]

/-- The name of a level in a log line. -/
def label : LogLevel → String
  | error => "ERROR"
  | warn => "WARN"
  | info => "INFO"
  | debug => "DEBUG"
  | trace => "TRACE"

/-- How many levels are as detailed as this one or less. -/
def rank : LogLevel → Nat
  | error => 1
  | warn => 2
  | info => 3
  | debug => 4
  | trace => 5

end LogLevel

/-- A line of the log. -/
structure LogLine where
  level : LogLevel
  /-- The part of the program that has something to say. -/
  part : String
  text : String
deriving DecidableEq, Repr

/-- The text of a line. -/
def LogLine.render (l : LogLine) : String :=
  s!"{l.level.label} {l.part}: {l.text}"

/-- A rule of a filter: no line of these parts may have a higher rank. -/
structure LogRule where
  part : String
  limit : Nat
deriving DecidableEq, Repr

namespace LogRule

/-- The limit that a word sets: the name of a level, its rank, or `off`. -/
def limit? (word : String) : Option Nat :=
  let small := String.ofList (word.toList.map Char.toLower)
  let digits := (Path.after? "+" word).getD word
  if digits ≠ "" ∧ digits.toList.all Char.isDigit then
    digits.toNat?.filter (· ≤ LogLevel.trace.rank)
  else if small = "off" then some 0
  else (LogLevel.named.lookup small).map LogLevel.rank

/-- Whether a rule may begin with a character. -/
def mayStart (c : Char) : Bool :=
  c.isAlphanum || ['-', ':', '_'].contains c || 0x80 ≤ c.toNat

/-- The rule that a text is: a limit, a part, or a part with its limit. A part without a limit is
logged in full. -/
def parse? (s : String) : Option LogRule :=
  if (s.toList.head?.map mayStart).getD false then
    match Path.splitOnce? "=" s with
    | some (part, "") => some ⟨part, LogLevel.trace.rank⟩
    | some (part, word) => (limit? word).map fun limit => ⟨part, limit⟩
    | none => some (((limit? s).map fun limit => ⟨"", limit⟩).getD ⟨s, LogLevel.trace.rank⟩)
  else none

end LogRule

/-- The rules that decide what is logged. -/
structure LogFilter where
  rules : List LogRule
deriving DecidableEq, Repr

namespace LogFilter

/-- The texts between the commas of a filter. -/
def pieces (s : String) : List String :=
  (Path.splitAt ',' s).filter (· ≠ "")

/-- The filter that a text is. Texts that are no rules are passed over; a filter without rules lets
errors through. -/
def parse (s : String) : LogFilter :=
  match (pieces s).filterMap LogRule.parse? with
  | [] => ⟨[⟨"", LogLevel.error.rank⟩]⟩
  | rules => ⟨rules⟩

/-- The texts that were passed over. -/
def unusable (s : String) : List String :=
  (pieces s).filter fun piece => (LogRule.parse? piece).isNone

/-- The rule that counts for a part: the longest, and of equally long ones the last. -/
def ruleFor? (f : LogFilter) (part : String) : Option LogRule :=
  (f.rules.filter fun r => Path.startsWith part r.part).foldl (fun best r =>
    match best with
    | some b => if b.part.utf8ByteSize ≤ r.part.utf8ByteSize then some r else some b
    | none => some r) none

/-- Whether a line is written. -/
def lets (f : LogFilter) (l : LogLine) : Bool :=
  match f.ruleFor? l.part with
  | some r => l.level.rank ≤ r.limit
  | none => false

end LogFilter

end FeatureFlags
