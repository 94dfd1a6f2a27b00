import AbiBuild.Text.Lines

namespace AbiBuild

inductive CalendarFault
  | year (value : Nat)
  | month
  | day
  | hour
  | minute
  | second
  | offset (seconds : Int)
  deriving DecidableEq, Repr

namespace Calendar

def secondsPerDay : Nat := 86400

-- A span of seconds, written as whole days rounded down and the seconds that remain.
def spanText (seconds : Int) : String :=
  let days := seconds.fdiv secondsPerDay
  let rest := seconds.fmod secondsPerDay
  let parts := (if days = 0 then [] else [s!"days={days}"]) ++
    (if rest = 0 then [] else [s!"seconds={rest}"])
  "datetime.timedelta(" ++ (if parts.isEmpty then "0" else ", ".intercalate parts) ++ ")"

def isLeap (year : Nat) : Bool := year % 4 = 0 && (year % 100 ≠ 0 || year % 400 = 0)

def monthLength (year month : Nat) : Nat :=
  if month = 2 then if isLeap year then 29 else 28
  else if month = 4 ∨ month = 6 ∨ month = 9 ∨ month = 11 then 30
  else 31

def pad (width n : Nat) : String :=
  let shown := toString n
  String.ofList (List.replicate (width - shown.length) '0') ++ shown

end Calendar

open Calendar

def CalendarFault.message : CalendarFault → String
  | .year value => s!"year {value} is out of range"
  | .month => "month must be in 1..12"
  | .day => "day is out of range for month"
  | .hour => "hour must be in 0..23"
  | .minute => "minute must be in 0..59"
  | .second => "second must be in 0..59"
  | .offset seconds =>
    "offset must be a timedelta strictly between -timedelta(hours=24) and " ++
      "timedelta(hours=24), not " ++ spanText seconds ++ "."

structure Date where
  year : Nat
  month : Nat
  day : Nat
  deriving DecidableEq, Repr

def Date.ofFields (year month day : Nat) : Except CalendarFault Date :=
  if year = 0 ∨ 9999 < year then .error (.year year)
  else if month = 0 ∨ 12 < month then .error .month
  else if day = 0 ∨ monthLength year month < day then .error .day
  else .ok ⟨year, month, day⟩

def Date.text (d : Date) : String := s!"{pad 4 d.year}-{pad 2 d.month}-{pad 2 d.day}"

def Date.literal (d : Date) : String := s!"datetime.date({d.year}, {d.month}, {d.day})"

-- Days since the first day of year one.
def Date.ordinal (d : Date) : Nat :=
  let before := d.year - 1
  let months := (List.range (d.month - 1)).map fun m => monthLength d.year (m + 1)
  before * 365 + before / 4 - before / 100 + before / 400 + months.foldl (· + ·) 0 + (d.day - 1)

-- The offset is in seconds east of universal time.
structure Instant where
  date : Date
  hour : Nat
  minute : Nat
  second : Nat
  micro : Nat
  offset : Option Int
  deriving DecidableEq, Repr

def Instant.ofFields (date : Nat × Nat × Nat) (hour minute second micro : Nat)
    (offset : Option Int) : Except CalendarFault Instant := do
  match offset with
  | some seconds => if seconds.natAbs < secondsPerDay then pure () else throw (.offset seconds)
  | none => pure ()
  let day ← Date.ofFields date.1 date.2.1 date.2.2
  if 23 < hour then throw .hour
  if 59 < minute then throw .minute
  if 59 < second then throw .second
  return ⟨day, hour, minute, second, micro, offset⟩

def offsetText (seconds : Int) : String :=
  let minutes := seconds.natAbs / 60
  (if seconds < 0 then "-" else "+") ++ pad 2 (minutes / 60) ++ ":" ++ pad 2 (minutes % 60)

def Instant.text (t : Instant) : String :=
  t.date.text ++ " " ++ pad 2 t.hour ++ ":" ++ pad 2 t.minute ++ ":" ++ pad 2 t.second ++
    (if t.micro = 0 then "" else "." ++ pad 6 t.micro) ++
    (t.offset.map offsetText).getD ""

def zoneLiteral (seconds : Int) : String :=
  if seconds = 0 then "datetime.timezone.utc" else s!"datetime.timezone({spanText seconds})"

-- Seconds and microseconds are left out where they and all that follows are zero.
def Instant.literal (t : Instant) : String :=
  let fields := [t.date.year, t.date.month, t.date.day, t.hour, t.minute] ++
    (if t.second = 0 ∧ t.micro = 0 then [] else [t.second]) ++
    (if t.micro = 0 then [] else [t.micro])
  let zone := (t.offset.map fun seconds => ", tzinfo=" ++ zoneLiteral seconds).getD ""
  "datetime.datetime(" ++ ", ".intercalate (fields.map toString) ++ zone ++ ")"

-- Microseconds since the first day of year one, in universal time where an offset is known.
def Instant.micros (t : Instant) : Int :=
  let seconds : Int := t.date.ordinal * secondsPerDay + t.hour * 3600 + t.minute * 60 + t.second
  (seconds - t.offset.getD 0) * 1000000 + t.micro

-- Instants with an offset are the same when they fall together; one without never equals one with.
def Instant.same (t u : Instant) : Bool :=
  t.offset.isSome == u.offset.isSome && t.micros == u.micros

end AbiBuild
