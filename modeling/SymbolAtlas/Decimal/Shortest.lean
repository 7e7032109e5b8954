/-! The shortest decimal that reads back as a given binary fraction.

A finite float is a whole number of units `m · 2^q`, and the reals that round to
it form an interval around it. The decimals with a fixed last place form a grid.
The result is taken on the coarsest grid that meets the interval: the nearer of
the value's two neighbours there, and of two equally near ones the even one. All
of it is exact arithmetic on natural numbers. -/
namespace SymbolAtlas.Decimal

/-- A finite magnitude as a significand and a binary exponent. -/
structure Magnitude where
  significand : Nat
  exponent : Int
  deriving DecidableEq, Repr

/-- What the leading bit of a normal significand counts: two to the power 52, one
more than the fraction after it can hold. -/
def leadingBit : Nat := 0x10000000000000

/-- How many values the exponent field of a double has. -/
def exponentCount : Nat := 2048

/-- The magnitude that the bits of a double-precision float stand for. -/
def Magnitude.ofFloat (x : Float) : Magnitude :=
  let bits := x.toBits.toNat
  let fraction := bits % leadingBit
  match bits / leadingBit % exponentCount with
  | 0 => ⟨fraction, -1074⟩
  | biased => ⟨fraction + leadingBit, (biased : Int) - 1075⟩

/-- The sign bit, which zero has as well. -/
def isNegative (x : Float) : Bool := x.toBits.toNat / (leadingBit * exponentCount) == 1

/-- The interval of reals that round to a magnitude, against one decimal grid.

Everything is measured in a common unit: a point `d` of the grid lies at
`d * step`, the value at `value`, the ends of the interval at `low` and `high`.
The ends belong to the interval when the significand is even. -/
structure Grid where
  step : Nat
  low : Nat
  value : Nat
  high : Nat
  closed : Bool

/-- The grid of multiples of `10^place` around a magnitude. Quarters of the last
binary place make both ends whole: the lower end is nearer when the significand
is the least of its binade. -/
def Grid.of (m : Magnitude) (place : Int) : Grid :=
  let binary := m.exponent - 2
  let unit := Nat.pow 10 (-place).toNat * Nat.pow 2 binary.toNat
  let below := if m.significand = leadingBit ∧ m.exponent > -1074 then 1 else 2
  { step := Nat.pow 10 place.toNat * Nat.pow 2 (-binary).toNat
    low := (4 * m.significand - below) * unit
    value := 4 * m.significand * unit
    high := (4 * m.significand + 2) * unit
    closed := m.significand % 2 == 0 }

/-- Whether a point of the grid rounds to the value. -/
def Grid.meets (g : Grid) (d : Nat) : Bool :=
  if g.closed then g.low ≤ d * g.step && d * g.step ≤ g.high
  else g.low < d * g.step && d * g.step < g.high

/-- The best point of a grid, if one of the value's neighbours rounds to it. -/
def Grid.best? (g : Grid) : Option Nat :=
  let below := g.value / g.step
  let above := below + 1
  match g.meets below, g.meets above with
  | false, false => none
  | true, false => some below
  | false, true => some above
  | true, true =>
    let toBelow := g.value - below * g.step
    let toAbove := above * g.step - g.value
    if toBelow < toAbove then some below
    else if toAbove < toBelow then some above
    else some (if below % 2 = 0 then below else above)

/-- The first of the grids `place`, `place - 1`, … that has a best point. -/
def searchGrids (m : Magnitude) : Nat → Int → Option (Nat × Int)
  | 0, _ => none
  | fuel + 1, place =>
    match (Grid.of m place).best? with
    | some d => some (d, place)
    | none => searchGrids m fuel (place - 1)

/-- Digits and place of the shortest decimal for a magnitude above zero. The
search starts above the value, at a bound on its decimal logarithm, and 17
significant digits always suffice, so it ends within two dozen grids. -/
def shortest (m : Magnitude) : Nat × Int :=
  let log2 := (Nat.log2 m.significand : Int) + m.exponent
  (searchGrids m 24 (log2 * 30103 / 100000 + 2)).getD (0, 0)

end SymbolAtlas.Decimal
