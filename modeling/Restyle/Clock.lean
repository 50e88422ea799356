/-!
# Time stamps

Time is counted in microseconds since the start of 1970.  A time stamp gives
the date and the time of day to the millisecond, cut and not rounded.  Only
the moments of the years 1 to 9999 have a date.
-/

namespace Restyle

/-- Digits padded with zeros to a width. -/
def padded (width value : Nat) : String :=
  let digits := toString value
  String.ofList (List.replicate (width - digits.length) '0') ++ digits

/-- The year, month and day of a day counted from the start of 1970.  Years are
counted from March, in cycles of 400 years. -/
def civilDate (day : Int) : Int × Int × Int :=
  let shifted := day + 719468
  let era := shifted.fdiv 146097
  let dayOfEra := shifted - era * 146097
  let yearOfEra :=
    (dayOfEra - dayOfEra / 1460 + dayOfEra / 36524 - dayOfEra / 146096) / 365
  let dayOfYear := dayOfEra - (365 * yearOfEra + yearOfEra / 4 - yearOfEra / 100)
  let monthFromMarch := (5 * dayOfYear + 2) / 153
  let dayOfMonth := dayOfYear - (153 * monthFromMarch + 2) / 5 + 1
  let month := if monthFromMarch < 10 then monthFromMarch + 3 else monthFromMarch - 9
  let year := yearOfEra + era * 400 + (if month ≤ 2 then 1 else 0)
  (year, month, dayOfMonth)

/-- The start of the year 1, in microseconds. -/
def firstMoment : Int := -62135596800000000

/-- The end of the year 9999, in microseconds. -/
def lastMoment : Int := 253402300799999999

/-- Whether a moment is in a year that is written with four digits. -/
def hasDate (microseconds : Int) : Bool :=
  firstMoment ≤ microseconds && microseconds ≤ lastMoment

/-- The time stamp of a moment that has a date. -/
def timestamp (microseconds : Int) : String :=
  let milliseconds := microseconds.fdiv 1000
  let day := milliseconds.fdiv 86400000
  let rest := (milliseconds - day * 86400000).toNat
  let (year, month, dayOfMonth) := civilDate day
  padded 4 year.toNat ++ "-" ++ padded 2 month.toNat ++ "-" ++ padded 2 dayOfMonth.toNat ++
    "T" ++ padded 2 (rest / 3600000) ++ ":" ++ padded 2 (rest / 60000 % 60) ++ ":" ++
    padded 2 (rest / 1000 % 60) ++ "." ++ padded 3 (rest % 1000) ++ "Z"

end Restyle
