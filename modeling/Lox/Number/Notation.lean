import Lox.Number.Decimal

/-!
# Numbers as text

Writing: the shortest decimal, always in positional notation, however many zeros that
takes, and without a fraction when the number is whole.

Reading: an optional sign and then digits with an optional point, at least one digit on
one of its sides, and an optional exponent; or one of the words `inf`, `infinity` and
`nan` in any case. The nearest float is taken, with an infinity beyond the greatest one.
-/

namespace Lox

namespace Decimal

/-- Positional notation: digits, and a point only if there is a fraction. -/
def positional (d : Decimal) : List Char :=
  let digits := Nat.toDigits 10 d.digits
  if 0 ≤ d.exponent then digits ++ List.replicate d.exponent.toNat '0'
  else
    let places := (-d.exponent).toNat
    if places < digits.length then
      digits.take (digits.length - places) ++ '.' :: digits.drop (digits.length - places)
    else '0' :: '.' :: (List.replicate (places - digits.length) '0' ++ digits)

/-- The bits of the float nearest to a decimal. A decimal far out of range is decided by
the place of its first digit, so that no giant power of ten is ever computed. -/
def nearestBits (d : Decimal) : UInt64 :=
  let top := d.exponent + digitCount d.digits
  if d.digits = 0 ∨ top < -330 then 0
  else if 320 < top then UInt64.ofNat (2047 * Binary.hidden)
  else
    let (tens, tenths) := power 10 d.exponent
    Binary.nearestBits (d.digits * tens) tenths

end Decimal

namespace Number

/-- The text of a number. -/
def text (x : Float) : String :=
  match Binary.ofFloat x with
  | .nan => "NaN"
  | .infinite negative => if negative then "-inf" else "inf"
  | .finite negative mantissa exponent =>
    let magnitude := if mantissa = 0 then ['0'] else (Decimal.shortest mantissa exponent).positional
    String.ofList (if negative then '-' :: magnitude else magnitude)

/-- The digits at the front of a text, and what follows them. -/
def spanDigits (cs : List Char) : List Char × List Char :=
  (cs.takeWhile Char.isDigit, cs.dropWhile Char.isDigit)

/-- A run of digits as a natural. -/
def ofDigits (ds : List Char) : Nat :=
  ds.foldl (fun n c => 10 * n + (c.toNat - '0'.toNat)) 0

/-- A sign at the front of a text, if there is one: whether it is a minus, and what
follows. -/
def splitSign : List Char → Bool × List Char
  | '+' :: cs => (false, cs)
  | '-' :: cs => (true, cs)
  | cs => (false, cs)

/-- The fraction after the whole part: a point and digits, none of which is needed. -/
def splitFraction : List Char → List Char × List Char
  | '.' :: cs => spanDigits cs
  | cs => ([], cs)

/-- An exponent that ends the text. -/
def exponent? : List Char → Option Int
  | [] => some 0
  | c :: cs =>
    if c = 'e' ∨ c = 'E' then
      let (negative, cs) := splitSign cs
      let (digits, rest) := spanDigits cs
      if digits.isEmpty || !rest.isEmpty then none
      else if negative then some (-(ofDigits digits : Int)) else some (ofDigits digits)
    else none

/-- An unsigned decimal that makes up the whole text. -/
def decimal? (cs : List Char) : Option Decimal :=
  let (whole, cs) := spanDigits cs
  let (fraction, cs) := splitFraction cs
  if whole.isEmpty && fraction.isEmpty then none
  else (exponent? cs).map fun e => ⟨ofDigits (whole ++ fraction), e - fraction.length⟩

/-- The bits of an unsigned number that makes up the whole text: a decimal, or a word
for an infinity or for what is not a number. -/
def bits? (cs : List Char) : Option UInt64 :=
  match decimal? cs with
  | some d => some d.nearestBits
  | none =>
    let word := String.ofList (cs.map Char.toLower)
    if word = "inf" ∨ word = "infinity" then some (UInt64.ofNat (2047 * Binary.hidden))
    else if word = "nan" then some (UInt64.ofNat (2047 * Binary.hidden + Binary.hidden / 2))
    else none

/-- The number a text stands for, if it is the text of one. -/
def read? (s : String) : Option Float :=
  let (negative, cs) := splitSign s.toList
  (bits? cs).map (Binary.signed negative)

end Number

end Lox
