/-!
# Dates and times

Dates of the calendar that is in use today, carried back to the year one, and
times of day with or without an offset from universal time. Both have two
written forms: one for people, and one that lists the parts.
-/

namespace RubyDoc

/-- A date. -/
structure Date where
  /-- The year, from one on. -/
  year : Nat
  /-- The month of the year, from one on. -/
  month : Nat
  /-- The day of the month, from one on. -/
  day : Nat
deriving DecidableEq

namespace Date

/-- Whether a year has a day more. -/
def isLeap (year : Nat) : Bool := year % 4 == 0 && (year % 100 != 0 || year % 400 == 0)

/-- The number of days of a month. -/
def daysIn (year month : Nat) : Nat :=
  if month == 2 then (if isLeap year then 29 else 28)
  else if [4, 6, 9, 11].contains month then 30
  else 31

/-- Whether a date is in the calendar; years have four digits. -/
def isValid (d : Date) : Bool :=
  1 ≤ d.year && d.year ≤ 9999 && 1 ≤ d.month && d.month ≤ 12 && 1 ≤ d.day &&
    d.day ≤ daysIn d.year d.month

end Date

/-- A date with a time of day. -/
structure Moment where
  /-- The date. -/
  date : Date
  /-- The hour. -/
  hour : Nat
  /-- The minute. -/
  minute : Nat
  /-- The second. -/
  second : Nat
  /-- Millionths of a second. -/
  micro : Nat
  /-- How many minutes it is ahead of universal time, if that is said. -/
  offset : Option Int
deriving DecidableEq

namespace Moment

/-- Whether a moment is in the calendar; an offset is less than a day. -/
def isValid (m : Moment) : Bool :=
  m.date.isValid && m.hour < 24 && m.minute < 60 && m.second < 60 && m.micro < 1000000 &&
    m.offset.all fun o => -1440 < o && o < 1440

end Moment

/-- A number with zeros in front up to a width. -/
def padZeros (width n : Nat) : String :=
  let digits := toString n
  String.ofList (List.replicate (width - digits.length) '0') ++ digits

/-- A date in writing. -/
def Date.text (d : Date) : String :=
  padZeros 4 d.year ++ "-" ++ padZeros 2 d.month ++ "-" ++ padZeros 2 d.day

/-- A moment in writing. -/
def Moment.text (m : Moment) : String :=
  m.date.text ++ " " ++ padZeros 2 m.hour ++ ":" ++ padZeros 2 m.minute ++ ":" ++
    padZeros 2 m.second ++ (if m.micro == 0 then "" else "." ++ padZeros 6 m.micro) ++
    match m.offset with
    | none => ""
    | some o => (if o < 0 then "-" else "+") ++ padZeros 2 (o.natAbs / 60) ++ ":" ++
        padZeros 2 (o.natAbs % 60)

/-- The parts of a date. -/
def Date.parts (d : Date) : List Nat := [d.year, d.month, d.day]

/-- Numbers with commas between them. -/
def commaList (parts : List Nat) : String := String.intercalate ", " (parts.map toString)

/-- A date by its parts. -/
def Date.shown (d : Date) : String := "datetime.date(" ++ commaList d.parts ++ ")"

/-- An offset by its parts: days, and seconds that are not below zero. -/
def shownOffset (offset : Int) : String :=
  if offset == 0 then "datetime.timezone.utc"
  else
    let days := if offset < 0 then "days=-1, " else ""
    let seconds := (60 * (if offset < 0 then offset + 1440 else offset)).toNat
    "datetime.timezone(datetime.timedelta(" ++ days ++ "seconds=" ++ toString seconds ++ "))"

/-- A moment by its parts. Seconds and their millionths are left out if they are
zero. -/
def Moment.shown (m : Moment) : String :=
  let tail := if m.micro != 0 then [m.second, m.micro] else if m.second != 0 then [m.second] else []
  "datetime.datetime(" ++ commaList (m.date.parts ++ [m.hour, m.minute] ++ tail) ++
    (match m.offset with
    | none => ""
    | some o => ", tzinfo=" ++ shownOffset o) ++ ")"

end RubyDoc
