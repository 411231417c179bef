/-!
# Shortest digits

The shortest decimal that reads back as a given double. The reals that round to `m · 2 ^ q` form an
interval around it, whose ends belong to it exactly when `m` is even. Of the decimal grids
`d · 10 ^ p`, from coarse to fine, the first one with a point inside that interval is taken; if a
grid has a point inside, so is one of the two neighbours of the number itself, so only those two
are tested. When both are inside the nearer one is taken, and `Tie` settles an exact tie.
-/

namespace FeatureFlags.Decimal

/-- Which of two equally near neighbours is taken. -/
inductive Tie where
  /-- The one with an even last digit. -/
  | toEven
  /-- The one further from zero. -/
  | away
deriving DecidableEq, Repr

/-- The decimal `digits · 10 ^ exponent`. -/
structure Finite where
  digits : Nat
  exponent : Int
deriving DecidableEq, Repr

/-- The reals that round to one double, and the double itself, in some common unit. -/
structure Interval where
  low : Nat
  mid : Nat
  high : Nat
  /-- Whether the ends round to the double too. -/
  closed : Bool
deriving DecidableEq, Repr

namespace Interval

/-- The interval of `m · 2 ^ q`, in units of `2 ^ (q - 2)`. -/
def ofSignificand (m : Nat) (narrowBelow : Bool) : Interval :=
  ⟨4 * m - (if narrowBelow then 1 else 2), 4 * m, 4 * m + 2, m % 2 == 0⟩

/-- The same interval in a unit that is `k` times smaller. -/
def scale (i : Interval) (k : Nat) : Interval :=
  ⟨i.low * k, i.mid * k, i.high * k, i.closed⟩

/-- Whether a point lies in the interval. -/
def contains (i : Interval) (x : Nat) : Bool :=
  if i.closed then i.low ≤ x && x ≤ i.high else i.low < x && x < i.high

/-- The number `d` for which `d · step` is in the interval and nearest its middle. -/
def nearest? (i : Interval) (step : Nat) (tie : Tie) : Option Nat :=
  let below := i.mid / step
  let above := below + 1
  match i.contains (below * step), i.contains (above * step) with
  | false, false => none
  | true, false => some below
  | false, true => some above
  | true, true =>
    -- The middle itself is a point of the grid when the distance below is zero.
    let toBelow := i.mid - below * step
    let toAbove := above * step - i.mid
    if toBelow < toAbove then some below
    else if toAbove < toBelow then some above
    else match tie with
      | .toEven => some (if below % 2 = 0 then below else above)
      | .away => some above

end Interval

/-- The point of the grid of step `10 ^ p` that reads back as `m · 2 ^ q`, if there is one. -/
def onGrid? (m : Nat) (q : Int) (narrowBelow : Bool) (tie : Tie) (p : Int) : Option Nat :=
  let unit := q - 2
  let interval := (Interval.ofSignificand m narrowBelow).scale
    (Nat.pow 2 unit.toNat * Nat.pow 10 (-p).toNat)
  interval.nearest? (Nat.pow 10 p.toNat * Nat.pow 2 (-unit).toNat) tie

/-- Tries the grids of step `10 ^ p`, `10 ^ (p - 1)`, … in turn. -/
def firstGrid? (m : Nat) (q : Int) (narrowBelow : Bool) (tie : Tie) : Nat → Int → Option Finite
  | 0, _ => none
  | tries + 1, p =>
    match onGrid? m q narrowBelow tie p with
    | some digits => some ⟨digits, p⟩
    | none => firstGrid? m q narrowBelow tie tries (p - 1)

/-- An exponent `p` with `m · 2 ^ q < 10 ^ p`, at most two above the least. -/
def coarseExponent (m : Nat) (q : Int) : Int :=
  (m.log2 + q + 1) * 30103 / 100000 + 1

/-- The shortest decimal that reads back as `m · 2 ^ q`. Seventeen digits always suffice, so one of
the first twenty grids has a point. -/
def shortest (m : Nat) (q : Int) (narrowBelow : Bool) (tie : Tie) : Finite :=
  (firstGrid? m q narrowBelow tie 20 (coarseExponent m q)).getD ⟨m * Nat.pow 2 q.toNat, 0⟩

end FeatureFlags.Decimal
