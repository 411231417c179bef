/-!
# Slash-separated paths

Scopes and store keys are texts cut into segments at `/`. Every text has at least one segment, and
two neighbouring slashes enclose an empty one; joining the segments with slashes gives the text
back.
-/

namespace FeatureFlags.Path

/-- The pieces of a text between the occurrences of `sep`. -/
def splitAt (sep : Char) (s : String) : List String :=
  (s.toList.splitOn sep).map String.ofList

/-- The pieces of a text between its slashes. -/
def segments (s : String) : List String :=
  splitAt '/' s

/-- The segments that are not empty. -/
def solidSegments (s : String) : List String :=
  (segments s).filter (· ≠ "")

/-- The text of a list of segments. -/
def join (segments : List String) : String :=
  "/".intercalate segments

/-- All but the last segment joined, and the last segment. -/
def splitLast (s : String) : String × String :=
  let parts := segments s
  (join parts.dropLast, parts.getLastD "")

/-- The name of the file that a path leads to. A segment `.` leads nowhere else; a path that ends
with `..` or has no other segments names no file. -/
def fileName? (s : String) : Option String :=
  match ((solidSegments s).filter (· ≠ ".")).getLast? with
  | some ".." => none
  | name? => name?

/-- What follows `start` in a text that begins with it. -/
def after? (start s : String) : Option String :=
  (start.toList.isPrefixOf? s.toList).map String.ofList

/-- What stands before and after the first occurrence of a text. -/
def splitOnce? (mark s : String) : Option (String × String) :=
  go [] s.toList
where
  /-- Looks for the mark; `before` is what was passed, backwards. -/
  go (before : List Char) : List Char → Option (String × String)
    | [] => none
    | c :: rest =>
      match mark.toList.isPrefixOf? (c :: rest) with
      | some after => some (String.ofList before.reverse, String.ofList after)
      | none => go (c :: before) rest

/-- Whether a text begins with `start`. -/
def startsWith (s start : String) : Bool :=
  start.toList.isPrefixOf s.toList

end FeatureFlags.Path
