import DocFilter.Text.Quoted

/-!
Points in time as they are written: a calendar date, a time of day with nanoseconds, and the zone
it was given in. Nothing is ever moved to another zone, so the fields are kept as they stand.
-/

set_option autoImplicit false

namespace DocFilter

/-- The zone of a time: universal time, the zone of the machine (taken to be universal time as
well), or a fixed distance from universal time in minutes. -/
inductive Zone where
  | utc
  | here
  | fixed (minutes : Int)
  deriving DecidableEq, Repr

/-- A date and a time of day in a zone. -/
structure Timestamp where
  year : Nat
  month : Nat
  day : Nat
  hour : Nat
  minute : Nat
  second : Nat
  nanosecond : Nat
  zone : Zone
  deriving DecidableEq, Repr

namespace Timestamp

open Text (byte padded)

/-- The number of days of a month. -/
def daysIn (year month : Nat) : Nat :=
  match month with
  | 2 => if year % 4 == 0 && (year % 100 != 0 || year % 400 == 0) then 29 else 28
  | 4 | 6 | 9 | 11 => 30
  | _ => 31

/-- The fraction of a second without zeros at its end, and with nothing for none. -/
def fraction (t : Timestamp) : Text :=
  if t.nanosecond == 0 then []
  else byte '.' :: Text.dropEndWhile (· == byte '0') (padded 9 t.nanosecond)

/-- Year, month and day. -/
def date (t : Timestamp) : Text :=
  padded 4 t.year ++ "-" ++ padded 2 t.month ++ "-" ++ padded 2 t.day

/-- Hour, minute and second with its fraction. -/
def clock (t : Timestamp) : Text :=
  padded 2 t.hour ++ ":" ++ padded 2 t.minute ++ ":" ++ padded 2 t.second ++ t.fraction

/-- A distance from universal time, with `between` between hours and minutes. -/
def offsetText (between : Text) (minutes : Int) : Text :=
  let sign : Text := if minutes < 0 then "-" else "+"
  sign ++ padded 2 (minutes.natAbs / 60) ++ between ++ padded 2 (minutes.natAbs % 60)

/-- The distance of the zone from universal time. -/
def offset (t : Timestamp) : Int :=
  match t.zone with
  | .fixed minutes => minutes
  | _ => 0

/-- The form used in interchange: `2020-01-02T03:04:05Z`. -/
def interchange (t : Timestamp) : Text :=
  t.date ++ "T" ++ t.clock ++ (if t.offset == 0 then Text.ofString "Z" else offsetText ":" t.offset)

/-- The form shown to people: `2020-01-02 03:04:05 +0000 UTC`. -/
def display (t : Timestamp) : Text :=
  let name : Text :=
    match t.zone with
    | .fixed minutes => offsetText [] minutes
    | _ => "UTC"
  t.date ++ " " ++ t.clock ++ " " ++ offsetText [] t.offset ++ " " ++ name

/-- The name of a month. -/
def monthName (month : Nat) : Text :=
  match month with
  | 1 => "January"
  | 2 => "February"
  | 3 => "March"
  | 4 => "April"
  | 5 => "May"
  | 6 => "June"
  | 7 => "July"
  | 8 => "August"
  | 9 => "September"
  | 10 => "October"
  | 11 => "November"
  | _ => "December"

/-- The form that lists every part, used where an error names a value exactly. -/
def exact (t : Timestamp) : Text :=
  let zone : Text :=
    match t.zone with
    | .utc => "time.UTC"
    | .here => "time.Local"
    | .fixed _ => "time.Location(\"\")"
  let parts : List Text :=
    [Text.ofNat t.year, "time." ++ monthName t.month, Text.ofNat t.day, Text.ofNat t.hour,
      Text.ofNat t.minute, Text.ofNat t.second, Text.ofNat t.nanosecond, zone]
  "time.Date(" ++ Text.join ", " parts ++ ")"

end Timestamp
end DocFilter
