import Lox.Number.Notation

/-!
# Samples in summary

The mean, the least and the greatest of a list of samples. A sample that is not a number
spoils the mean, and is passed over by the other two.
-/

namespace Lox

/-- The summary of a list of samples. -/
structure Summary where
  /-- The mean. -/
  mean : Float
  /-- The least sample. -/
  least : Float
  /-- The greatest sample. -/
  greatest : Float

namespace Summary

/-- Positive infinity. -/
def infinity : Float := Binary.signed false (UInt64.ofNat (2047 * Binary.hidden))

/-- The sum of samples, from the first to the last. It starts at negative zero, which
adds nothing to any sample, not even to another negative zero. -/
def sum (samples : List Float) : Float := samples.foldl (· + ·) (-0.0)

/-- The summary of samples; all zeros if there are none. -/
def ofSamples (samples : List Float) : Summary :=
  if samples.isEmpty then ⟨0, 0, 0⟩
  else
    { mean := sum samples / Float.ofNat samples.length
      least := samples.foldl (fun least x => if x < least then x else least) infinity
      greatest := samples.foldl (fun most x => if most < x then x else most) (-infinity) }

end Summary

/-- A number with a fixed count of places after the point, a half going to the even
neighbour. -/
def Number.fixed (places : Nat) (x : Float) : String :=
  match Binary.ofFloat x with
  | .finite negative mantissa exponent =>
    let (up, down) := Decimal.power 2 exponent
    let scaled := Binary.roundQuotient (mantissa * up * Nat.pow 10 places) down
    let digits := Nat.toDigits 10 scaled
    let digits := List.replicate (places + 1 - digits.length) '0' ++ digits
    let whole := digits.take (digits.length - places)
    let text := if places = 0 then whole else whole ++ '.' :: digits.drop (digits.length - places)
    String.ofList (if negative then '-' :: text else text)
  | _ => Number.text x

end Lox
