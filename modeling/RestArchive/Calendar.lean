/-! # Dates

A date is a count of milliseconds since the start of 1970. Its calendar form follows the Gregorian
calendar without end in both directions; the year before year 1 is year 0. The two written forms have
bounds: timestamps stop at a first and a last moment, and messages fall back on the count. -/

namespace RestArchive

/-- A moment in the Gregorian calendar, in universal time. -/
structure CalendarTime where
  /-- The year; year 0 comes before year 1. -/
  year : Int
  /-- The month, from 1. -/
  month : Nat
  /-- The day of the month, from 1. -/
  day : Nat
  /-- The hour, from 0. -/
  hour : Nat
  /-- The minute, from 0. -/
  minute : Nat
  /-- The second, from 0. -/
  second : Nat
  /-- The nanosecond, from 0. -/
  nanosecond : Nat
  deriving DecidableEq, Repr

namespace CalendarTime

/-- The year, month and day of a day counted from the start of 1970. Years are counted from March, so
that a leap day is the last of its year, and grouped by the four centuries that hold 146097 days. -/
def civil (days : Int) : Int × Nat × Nat :=
  let shifted := days + 719468
  let era := shifted / 146097
  let dayOfEra := (shifted % 146097).toNat
  let yearOfEra := (dayOfEra - dayOfEra / 1460 + dayOfEra / 36524 - dayOfEra / 146096) / 365
  let dayOfYear := dayOfEra - (365 * yearOfEra + yearOfEra / 4 - yearOfEra / 100)
  let monthFromMarch := (5 * dayOfYear + 2) / 153
  let day := dayOfYear - (153 * monthFromMarch + 2) / 5 + 1
  let month := if monthFromMarch < 10 then monthFromMarch + 3 else monthFromMarch - 9
  let year : Int := yearOfEra + era * 400
  (if month ≤ 2 then year + 1 else year, month, day)

/-- The calendar form of a count of milliseconds since the start of 1970. -/
def ofMilliseconds (count : Int) : CalendarTime :=
  let (year, month, day) := civil (count / 86400000)
  let ofDay := (count % 86400000).toNat
  { year, month, day
    hour := ofDay / 3600000
    minute := ofDay / 60000 % 60
    second := ofDay / 1000 % 60
    nanosecond := ofDay % 1000 * 1000000 }

/-- A number in at least `width` digits. -/
def padded (width : Nat) (n : Nat) : String :=
  let digits := Nat.toDigits 10 n
  String.ofList (List.replicate (width - digits.length) '0' ++ digits)

/-- A year in at least four digits, with a sign when it is negative or past 9999. -/
def yearText (year : Int) : String :=
  let digits := padded 4 year.natAbs
  if year < 0 then "-" ++ digits else if 9999 < year then "+" ++ digits else digits

/-- Year, month and day with hyphens between them. -/
def dateText (time : CalendarTime) : String :=
  yearText time.year ++ "-" ++ padded 2 time.month ++ "-" ++ padded 2 time.day

/-- The fraction of a second in a timestamp: none, or as many groups of three digits as are needed. -/
def timestampFraction (nanosecond : Nat) : String :=
  if nanosecond = 0 then ""
  else if nanosecond % 1000000 = 0 then "." ++ padded 3 (nanosecond / 1000000)
  else if nanosecond % 1000 = 0 then "." ++ padded 6 (nanosecond / 1000)
  else "." ++ padded 9 nanosecond

/-- The form of internet timestamps. -/
def timestampText (time : CalendarTime) : String :=
  time.dateText ++ "T" ++ padded 2 time.hour ++ ":" ++ padded 2 time.minute ++ ":"
    ++ padded 2 time.second ++ timestampFraction time.nanosecond ++ "+00:00"

/-- The first moment that timestamps know. -/
def earliest : CalendarTime := ⟨-262143, 1, 1, 0, 0, 0, 0⟩

/-- The last moment that timestamps know. -/
def latest : CalendarTime := ⟨262142, 12, 31, 23, 59, 59, 999999999⟩

/-- The moment itself, or the first or last one that timestamps know when it lies outside. -/
def clamped (time : CalendarTime) : CalendarTime :=
  if time.year < earliest.year then earliest
  else if latest.year < time.year then latest
  else time

/-- The timestamp of a count of milliseconds since the start of 1970. -/
def timestampOf (count : Int) : String := (ofMilliseconds count).clamped.timestampText

/-- The digits of a fraction of a second without zeros at the end, but one digit at least. -/
def fractionDigits (nanosecond : Nat) : String :=
  let digits := ((padded 9 nanosecond).toList.reverse.dropWhile fun digit => digit = '0').reverse
  if digits = [] then "0" else String.ofList digits

/-- The form in messages: the hour unpadded, the fraction always there, the offset to the second. -/
def messageText (time : CalendarTime) : String :=
  time.dateText ++ " " ++ toString time.hour ++ ":" ++ padded 2 time.minute ++ ":"
    ++ padded 2 time.second ++ "." ++ fractionDigits time.nanosecond ++ " +00:00:00"

/-- How messages show a count of milliseconds since the start of 1970: in calendar form while the year has
at most four digits, and else as the count. -/
def messageOf (count : Int) : String :=
  let time := ofMilliseconds count
  if time.year.natAbs ≤ 9999 then time.messageText else toString count

end CalendarTime

end RestArchive
