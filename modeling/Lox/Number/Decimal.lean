import Lox.Number.Binary

/-!
# The shortest decimal of a float

Many decimals round to the same float. `Decimal.shortest` picks the one a reader
expects: of those with the fewest digits, the nearest, and of two equally near the
greater. It tests grids of `1`, `2`, … digits in turn; on a grid only the two
neighbours of the number have to be tried, and seventeen digits always suffice.
-/

namespace Lox

/-- The number `digits · 10 ^ exponent`. -/
structure Decimal where
  /-- The digits, read as one natural. -/
  digits : Nat
  /-- The power of ten of the last digit. -/
  exponent : Int
deriving DecidableEq

namespace Decimal

/-- How many decimal digits a natural has, none for zero. -/
def digitCount (n : Nat) : Nat :=
  if n = 0 then 0 else (Nat.toDigits 10 n).length

/-- The power of ten just above the positive quotient `num / den`: the one with
`10 ^ (k - 1) ≤ num / den < 10 ^ k`. -/
def magnitude (num den : Nat) : Int :=
  if den ≤ num then digitCount (num / den)
  else 1 - (digitCount ((den - 1) / num) : Int)

/-- A power of an integer exponent, as a quotient of naturals. -/
def power (base : Nat) (e : Int) : Nat × Nat :=
  if 0 ≤ e then (base.pow e.toNat, 1) else (1, base.pow (-e).toNat)

/-- The reals that round to `mantissa · 2 ^ exponent`, beside a decimal grid. All
lengths are measured in one common unit. -/
structure Window where
  /-- The number itself. -/
  centre : Nat
  /-- How far the window reaches down. -/
  below : Nat
  /-- How far it reaches up. -/
  above : Nat
  /-- Whether its ends belong to it. -/
  closed : Bool
  /-- The spacing of the grid. -/
  grid : Nat

namespace Window

/-- The window of `mantissa · 2 ^ exponent` on the grid of multiples of `10 ^ place`.
Half a unit of the last place reaches either way, except that the numbers just below a
power of two lie twice as densely. -/
def of (mantissa : Nat) (exponent place : Int) : Window :=
  let (up, down) := power 2 exponent
  let (tens, tenths) := power 10 place
  let quarter := up * tenths
  let narrow := mantissa == Binary.hidden && exponent != Binary.leastExponent
  { centre := 4 * mantissa * quarter
    below := if narrow then quarter else 2 * quarter
    above := 2 * quarter
    closed := mantissa % 2 == 0
    grid := 4 * tens * down }

/-- Whether a multiple of the grid lies in the window. -/
def holds (w : Window) (multiple : Nat) : Bool :=
  let point := multiple * w.grid
  if w.closed then w.centre ≤ point + w.below && point ≤ w.centre + w.above
  else w.centre < point + w.below && point < w.centre + w.above

/-- The multiple of the grid that lies in the window, of two the nearer, of two equally
near the greater. -/
def best? (w : Window) : Option Nat :=
  let low := w.centre / w.grid
  let high := low + 1
  match w.holds low, w.holds high with
  | false, false => none
  | true, false => some low
  | false, true => some high
  | true, true =>
    if w.centre - low * w.grid < high * w.grid - w.centre then some low else some high

end Window

/-- The digits that the grids of `count`, `count + 1`, … digits give, `tries` grids at
most; a grid reaches down from `10 ^ top`. -/
def search (mantissa : Nat) (exponent top : Int) : (tries count : Nat) → Decimal
  | 0, _ => ⟨mantissa, 0⟩
  | tries + 1, count =>
    let place := top - count
    match (Window.of mantissa exponent place).best? with
    | some digits => if digits = Nat.pow 10 count then ⟨1, top⟩ else ⟨digits, place⟩
    | none => search mantissa exponent top tries (count + 1)

/-- The shortest decimal that rounds to `mantissa · 2 ^ exponent`. -/
def shortest (mantissa : Nat) (exponent : Int) : Decimal :=
  let (up, down) := power 2 exponent
  search mantissa exponent (magnitude (mantissa * up) down) 17 1

end Decimal

end Lox
