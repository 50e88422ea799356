import Restyle.Clock

/-!
# Dates and times in settings

A moment is a date, a time of day, or both, the latter with an optional offset
from universal time.
-/

namespace Restyle

structure CalendarDate where
  year : Nat
  month : Nat
  day : Nat
  deriving DecidableEq, Repr, Inhabited

structure TimeOfDay where
  hour : Nat
  minute : Nat
  second : Nat
  microsecond : Nat
  deriving DecidableEq, Repr, Inhabited

inductive Moment where
  | date (date : CalendarDate)
  | time (time : TimeOfDay)
  /-- The offset counts minutes. -/
  | dateTime (date : CalendarDate) (time : TimeOfDay) (offset : Option Int)
  deriving DecidableEq, Repr, Inhabited

namespace CalendarDate

def isLeapYear (year : Nat) : Bool :=
  year % 4 == 0 && (year % 100 != 0 || year % 400 == 0)

def daysIn (year month : Nat) : Nat :=
  if month = 2 then (if isLeapYear year then 29 else 28)
  else if month = 4 || month = 6 || month = 9 || month = 11 then 30
  else 31

/-- Whether there is such a day. -/
def isValid (date : CalendarDate) : Bool :=
  0 < date.year && date.day ≤ daysIn date.year date.month

/-- The date with dashes. -/
def text (date : CalendarDate) : String :=
  padded 4 date.year ++ "-" ++ padded 2 date.month ++ "-" ++ padded 2 date.day

end CalendarDate

/-- The time with colons, and with the microseconds when there are any. -/
def TimeOfDay.text (time : TimeOfDay) : String :=
  padded 2 time.hour ++ ":" ++ padded 2 time.minute ++ ":" ++ padded 2 time.second ++
    (if time.microsecond = 0 then "" else "." ++ padded 6 time.microsecond)

/-- The parts of a time after its minutes that are not zero up to the end. -/
def TimeOfDay.parts (time : TimeOfDay) : List Nat :=
  [time.hour, time.minute] ++
    (if time.microsecond ≠ 0 then [time.second, time.microsecond]
      else if time.second ≠ 0 then [time.second]
      else [])

namespace Moment

def offsetText (minutes : Int) : String :=
  (if minutes < 0 then "-" else "+") ++ padded 2 (minutes.natAbs / 60) ++ ":" ++
    padded 2 (minutes.natAbs % 60)

/-- A moment inside a sentence. -/
def shown : Moment → String
  | .date day => day.text
  | .time clock => clock.text
  | .dateTime day clock offset =>
      day.text ++ " " ++ clock.text ++ ((offset.map offsetText).getD "")

/-- An offset in a message: whole days, rounded down, and the seconds left. -/
def quotedOffset (minutes : Int) : String :=
  if minutes = 0 then "datetime.timezone.utc"
  else
    let length :=
      if minutes < 0 then
        let rest := (86400 + minutes * 60) % 86400
        "days=-1" ++ (if rest = 0 then "" else ", seconds=" ++ toString rest)
      else "seconds=" ++ toString (minutes * 60)
    "datetime.timezone(datetime.timedelta(" ++ length ++ "))"

def joinNumbers (numbers : List Nat) : String :=
  ", ".intercalate (numbers.map toString)

/-- A moment as messages show it. -/
def quoted : Moment → String
  | .date day => "datetime.date(" ++ joinNumbers [day.year, day.month, day.day] ++ ")"
  | .time clock => "datetime.time(" ++ joinNumbers clock.parts ++ ")"
  | .dateTime day clock offset =>
      "datetime.datetime(" ++ joinNumbers ([day.year, day.month, day.day] ++ clock.parts) ++
        (match offset with
          | some minutes => ", tzinfo=" ++ quotedOffset minutes
          | none => "") ++ ")"

end Moment

end Restyle
