/-!
# Moments

A moment of universal time, read off a count of seconds by the calendar, and the two
ways in which it is written.
-/

namespace Lox

/-- A moment of universal time. -/
structure Moment where
  year : Nat
  month : Nat
  day : Nat
  hour : Nat
  minute : Nat
  second : Nat
deriving DecidableEq

namespace Moment

/-- The moment a number of seconds after the beginning of 1970. Years are counted from
March, so that the leap day is the last of its year, and in eras of 400 years, which all
have the same number of days. -/
def ofSeconds (seconds : Nat) : Moment :=
  let days := seconds / 86400 + 719468
  let rest := seconds % 86400
  let era := days / 146097
  let dayOfEra := days % 146097
  let yearOfEra := (dayOfEra - dayOfEra / 1460 + dayOfEra / 36524 - dayOfEra / 146096) / 365
  let dayOfYear := dayOfEra - (365 * yearOfEra + yearOfEra / 4 - yearOfEra / 100)
  let fromMarch := (5 * dayOfYear + 2) / 153
  let month := if fromMarch < 10 then fromMarch + 3 else fromMarch - 9
  { year := 400 * era + yearOfEra + (if month ≤ 2 then 1 else 0)
    month
    day := dayOfYear - (153 * fromMarch + 2) / 5 + 1
    hour := rest / 3600
    minute := rest / 60 % 60
    second := rest % 60 }

/-- A number with at least `width` digits. -/
def digits (width n : Nat) : String :=
  let ds := Nat.toDigits 10 n
  String.ofList (List.replicate (width - ds.length) '0' ++ ds)

/-- The date. -/
def date (t : Moment) : String :=
  digits 4 t.year ++ "-" ++ digits 2 t.month ++ "-" ++ digits 2 t.day

/-- The time of day, with the given mark between its parts. -/
def time (mark : String) (t : Moment) : String :=
  digits 2 t.hour ++ mark ++ digits 2 t.minute ++ mark ++ digits 2 t.second

/-- A moment as it stands in a document. -/
def stamp (t : Moment) : String := t.date ++ "T" ++ t.time ":" ++ "Z"

/-- A moment as it stands in the name of a file. -/
def fileStamp (t : Moment) : String := t.date ++ "_" ++ t.time "-" ++ "Z"

end Moment

end Lox
