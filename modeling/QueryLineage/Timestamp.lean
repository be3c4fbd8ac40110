/-!
# Times of day in text

Seconds since the start of 1970 are written as a date and time of the Gregorian calendar, in UTC.
-/

namespace QueryLineage

structure Date where
  year : Int
  month : Nat
  day : Nat
deriving DecidableEq

namespace Timestamp

/-- The day that lies a number of days after the start of 1970. Years are counted from March, in
eras of 400 of them, so that the leap day is the last day of a year. -/
def dateOfDays (days : Int) : Date :=
  let sinceMarch := days + 719468
  let era := Int.fdiv sinceMarch 146097
  let dayOfEra := (Int.fmod sinceMarch 146097).toNat
  let yearOfEra := (dayOfEra - dayOfEra / 1460 + dayOfEra / 36524 - dayOfEra / 146096) / 365
  let dayOfYear := dayOfEra - (365 * yearOfEra + yearOfEra / 4 - yearOfEra / 100)
  let monthFromMarch := (5 * dayOfYear + 2) / 153
  let day := dayOfYear - (153 * monthFromMarch + 2) / 5 + 1
  let month := if monthFromMarch < 10 then monthFromMarch + 3 else monthFromMarch - 9
  let year := era * 400 + yearOfEra + (if month ≤ 2 then 1 else 0)
  ⟨year, month, day⟩

/-- Digits of a number, with zeros in front up to a width. -/
def padded (width n : Nat) : String :=
  let digits := toString n
  String.ofList (List.replicate (width - digits.length) '0') ++ digits

/-- Four digits, after a sign where those are not enough. -/
def yearText (y : Int) : String :=
  if y < 0 then "-" ++ padded 4 y.natAbs
  else if 9999 < y then "+" ++ padded 4 y.natAbs
  else padded 4 y.natAbs

/-- The text of a time, given in seconds since the start of 1970. -/
def text (seconds : Int) : String :=
  let date := dateOfDays (Int.fdiv seconds 86400)
  let second := (Int.fmod seconds 86400).toNat
  yearText date.year ++ "-" ++ padded 2 date.month ++ "-" ++ padded 2 date.day ++ "T"
    ++ padded 2 (second / 3600) ++ ":" ++ padded 2 (second / 60 % 60) ++ ":"
    ++ padded 2 (second % 60) ++ "Z"

end Timestamp

end QueryLineage
