/-!
# Binary floating point, exactly

A number of the language is a 64-bit binary float. This file opens one up into
integers, and closes integers up into one:

* `Binary.ofFloat` reads the bits as a sign and `mantissa · 2 ^ exponent`;
* `nearestBits` takes a positive quotient of naturals to the bits of the nearest
  float, a quotient half way between two going to the one with an even mantissa.

Both work on naturals only, so that reading and writing decimals never passes through
an operation that rounds.
-/

namespace Lox

/-- What the bits of a float say. -/
inductive Binary
  /-- Not a number. -/
  | nan
  /-- An infinity, with its sign. -/
  | infinite (negative : Bool)
  /-- The number `± mantissa · 2 ^ exponent`. -/
  | finite (negative : Bool) (mantissa : Nat) (exponent : Int)
deriving DecidableEq

namespace Binary

/-- The exponent of the least positive float, which is also that of the numbers too
small to be normalised. -/
def leastExponent : Int := -1074

/-- The least mantissa of a normalised number: `2 ^ 52`. -/
def hidden : Nat := Nat.pow 2 52

/-- The sign, mantissa and exponent of a float. -/
def ofFloat (x : Float) : Binary :=
  let bits := x.toBits.toNat
  let negative := decide (Nat.pow 2 63 ≤ bits)
  let exponent := bits / hidden % 2048
  let fraction := bits % hidden
  if exponent = 2047 then
    if fraction = 0 then infinite negative else nan
  else if exponent = 0 then finite negative fraction leastExponent
  else finite negative (hidden + fraction) (leastExponent + (exponent - 1 : Nat))

/-- `num / den` to the nearest natural, a half going to the even neighbour. -/
def roundQuotient (num den : Nat) : Nat :=
  let q := num / den
  let r := num % den
  if 2 * r < den then q
  else if den < 2 * r then q + 1
  else if q % 2 = 0 then q else q + 1

/-- `num / (den · 2 ^ e)`, as a quotient of naturals. -/
def scaleDown (num den : Nat) (e : Int) : Nat × Nat :=
  if 0 ≤ e then (num, den * Nat.pow 2 e.toNat) else (num * Nat.pow 2 (-e).toNat, den)

/-- The exponent at which the quotient `num / den` has a mantissa of 53 bits, or the
least exponent if that is greater. -/
def exponentFor (num den : Nat) : Int :=
  let e : Int := (num.log2 : Int) - den.log2 - 53
  let (n, d) := scaleDown num den e
  max leastExponent (if n / d < 2 * hidden then e else e + 1)

/-- The bits of the float nearest to the quotient `num / den` of two positive naturals.
A mantissa that rounds up to `2 ^ 53` carries into the exponent field, which is the
right exponent for it; from the exponent field `2047` on, the answer is infinity. -/
def nearestBits (num den : Nat) : UInt64 :=
  let e := exponentFor num den
  let (n, d) := scaleDown num den e
  let mantissa := roundQuotient n d
  let bits :=
    if mantissa < hidden then mantissa
    else (e - leastExponent + 1).toNat * hidden + (mantissa - hidden)
  UInt64.ofNat (min bits (2047 * hidden))

/-- The float with the given sign and the bits of a nonnegative float. -/
def signed (negative : Bool) (bits : UInt64) : Float :=
  Float.ofBits (if negative then bits ||| 0x8000000000000000 else bits)

end Binary

end Lox
