import SqlAlgebra.Text.Digits

/-!
# Timestamps

A timestamp is a date of the proleptic Gregorian calendar and a time of day, without a zone.  Its text
gives the year four digits, and a sign where four digits do not do; it gives the fraction of a second
as many groups of three digits as it needs.
-/

namespace SqlAlgebra

structure Timestamp where
  year : Int
  month : Nat
  day : Nat
  hour : Nat
  minute : Nat
  second : Nat
  /-- The fraction of the second in billionths. -/
  nanosecond : Nat
deriving DecidableEq

namespace Timestamp

def isLeap (year : Int) : Bool := year % 4 == 0 && (year % 100 != 0 || year % 400 == 0)

def daysInMonth (year : Int) (month : Nat) : Nat :=
  if month = 2 then (if isLeap year then 29 else 28)
  else if month = 4 ∨ month = 6 ∨ month = 9 ∨ month = 11 then 30
  else 31

/-- Whether the fields name a day of the calendar and a time of that day.  Any minute may have a leap
second, the one numbered sixty. -/
def isValid (t : Timestamp) : Bool :=
  1 ≤ t.month && t.month ≤ 12 && 1 ≤ t.day && t.day ≤ daysInMonth t.year t.month &&
    t.hour < 24 && t.minute < 60 && t.second ≤ 60 && t.nanosecond < 1000000000

/-- Days from the first of January of the year one to the first of January of a year. -/
def daysBeforeYear (year : Int) : Int :=
  let whole := year - 1
  365 * whole + whole / 4 - whole / 100 + whole / 400

/-- Days from the first of January to the first of a month of the same year. -/
def daysBeforeMonth (year : Int) (month : Nat) : Nat :=
  (List.range (month - 1)).foldl (fun days i => days + daysInMonth year (i + 1)) 0

/-- Days from the first of January of the year one. -/
def dayNumber (t : Timestamp) : Int :=
  daysBeforeYear t.year + daysBeforeMonth t.year t.month + (t.day - 1 : Nat)

/-- Billionths of a second from the beginning of the year 2000.  A leap second counts as the second after
it does. -/
def sinceMillennium (t : Timestamp) : Int :=
  let days := t.dayNumber - daysBeforeYear 2000
  let seconds := days * 86400 + (t.hour * 3600 + t.minute * 60 + t.second : Nat)
  seconds * 1000000000 + t.nanosecond

/-- A natural with zeros before it up to a width. -/
def padded (width n : Nat) : String :=
  let digits := Nat.repr n
  String.ofList (List.replicate (width - digits.length) '0') ++ digits

def yearText (year : Int) : String :=
  if 0 ≤ year ∧ year ≤ 9999 then padded 4 year.toNat
  else (if year < 0 then "-" else "+") ++ padded 4 year.natAbs

def dateText (t : Timestamp) : String :=
  yearText t.year ++ "-" ++ padded 2 t.month ++ "-" ++ padded 2 t.day

def fractionText (nanosecond : Nat) : String :=
  if nanosecond = 0 then ""
  else if nanosecond % 1000000 = 0 then "." ++ padded 3 (nanosecond / 1000000)
  else if nanosecond % 1000 = 0 then "." ++ padded 6 (nanosecond / 1000)
  else "." ++ padded 9 nanosecond

def timeText (t : Timestamp) : String :=
  padded 2 t.hour ++ ":" ++ padded 2 t.minute ++ ":" ++ padded 2 t.second ++
    fractionText t.nanosecond

/-- The date and the time with a blank between them. -/
def text (t : Timestamp) : String := t.dateText ++ " " ++ t.timeText

/-- The date and the time with a `T` between them, as JSON has it. -/
def jsonText (t : Timestamp) : String := t.dateText ++ "T" ++ t.timeText

/-- A year and what follows it: at most four digits, or a sign and any number of them. -/
def takeYear (s : List Char) : Option (Int × List Char) :=
  match s with
  | '-' :: rest => (Text.takeDecimal rest.length rest).map fun (year, rest) => (-year, rest)
  | '+' :: rest => (Text.takeDecimal rest.length rest).map fun (year, rest) => (year, rest)
  | _ => (Text.takeDecimal 4 s).map fun (year, rest) => (year, rest)

/-- One or two digits, after a character that has to be there, and what follows them. -/
def takeField (mark : Char) : List Char → Option (Nat × List Char)
  | c :: rest => if c = mark then Text.takeDecimal 2 rest else none
  | [] => none

/-- The billionths that a text gives after the second: nothing, or a point and digits, of which nine
count. -/
def fraction? : List Char → Option Nat
  | [] => some 0
  | '.' :: digits =>
    let counted := digits.take 9
    if digits.isEmpty || !digits.all Char.isDigit then none
    else some (Text.decimalValue counted * Nat.pow 10 (9 - counted.length))
  | _ => none

/-- The timestamp that a text stands for, the date and the time with a `T` between them. -/
def ofText? (s : String) : Option Timestamp := do
  let (year, rest) ← takeYear s.toList
  let (month, rest) ← takeField '-' rest
  let (day, rest) ← takeField '-' rest
  let (hour, rest) ← takeField 'T' rest
  let (minute, rest) ← takeField ':' rest
  let (second, rest) ← takeField ':' rest
  let nanosecond ← fraction? rest
  let t : Timestamp := ⟨year, month, day, hour, minute, second, nanosecond⟩
  if t.isValid then some t else none

end Timestamp

end SqlAlgebra
