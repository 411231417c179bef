/-!
# Dates in headers

The date of a moment in the form `Fri, 05 Sep 2025 00:00:09 GMT`. Days are counted in the Gregorian
calendar, also before it was introduced; a year has at least four digits, and a sign unless it has
exactly four and is not negative.
-/

namespace FeatureFlags.Http

/-- A day of the Gregorian calendar. -/
structure Day where
  year : Int
  month : Nat
  day : Nat
deriving DecidableEq, Repr

namespace Day

/-- The day that lies `n` days after the first of January 1970. Years are counted from March, so the
day that is put in now and then comes last, and 400 years have 146097 days. -/
def ofDays (n : Int) : Day :=
  -- From the first of March of the year 0 on.
  let n := n + 719468
  let era := n / 146097
  let ofEra := (n % 146097).toNat
  let yearOfEra := (ofEra - ofEra / 1460 + ofEra / 36524 - ofEra / 146096) / 365
  let ofYear := ofEra - (365 * yearOfEra + yearOfEra / 4 - yearOfEra / 100)
  let fromMarch := (5 * ofYear + 2) / 153
  let day := ofYear - (153 * fromMarch + 2) / 5 + 1
  let month := if fromMarch < 10 then fromMarch + 3 else fromMarch - 9
  ⟨yearOfEra + era * 400 + (if month ≤ 2 then 1 else 0), month, day⟩

end Day

/-- The digits of a number, with zeros in front up to a width. -/
def padded (width n : Nat) : String :=
  let digits := toString n
  String.ofList (List.replicate (width - digits.length) '0') ++ digits

/-- The digits of a year. -/
def yearText (year : Int) : String :=
  if year < 0 then "-" ++ padded 4 year.natAbs
  else if 9999 < year then "+" ++ padded 4 year.natAbs
  else padded 4 year.natAbs

/-- The names of the days of the week, beginning with the one that the first of January 1970 was. -/
def weekdays : List String := ["Thu", "Fri", "Sat", "Sun", "Mon", "Tue", "Wed"]

/-- The names of the months. -/
def months : List String :=
  ["Jan", "Feb", "Mar", "Apr", "May", "Jun", "Jul", "Aug", "Sep", "Oct", "Nov", "Dec"]

/-- The first and the last year that have dates. -/
def firstYear : Int := -262143

@[inherit_doc firstYear]
def lastYear : Int := 262142

/-- The date of a moment, in seconds since 1970. Moments too far away have none. -/
def date? (seconds : Int) : Option String :=
  let days := seconds / 86400
  let ofDay := (seconds % 86400).toNat
  let d := Day.ofDays days
  if firstYear ≤ d.year ∧ d.year ≤ lastYear then
    let weekday := weekdays[(days % 7).toNat]?.getD ""
    let month := months[d.month - 1]?.getD ""
    some (weekday ++ ", " ++ padded 2 d.day ++ " " ++ month ++ " " ++ yearText d.year ++ " " ++
      padded 2 (ofDay / 3600) ++ ":" ++ padded 2 (ofDay / 60 % 60) ++ ":" ++
      padded 2 (ofDay % 60) ++
      " GMT")
  else none

end FeatureFlags.Http
