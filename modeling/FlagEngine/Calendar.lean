import FlagEngine.Number.Text

/-! Calendar dates and moments, as documents write them. A moment may carry an offset from
universal time; only moments that agree on having one can be equal. -/
namespace FlagEngine

structure Date where
  year : Nat
  month : Nat
  day : Nat
  deriving DecidableEq, Repr

structure Moment where
  date : Date
  hour : Nat
  minute : Nat
  second : Nat
  microsecond : Nat
  /-- Seconds east of universal time. -/
  offset : Option Int
  deriving DecidableEq, Repr

namespace Date

def isLeap (y : Nat) : Bool := y % 4 == 0 && (y % 100 != 0 || y % 400 == 0)

def monthLength (y : Nat) : Nat → Nat
  | 2 => if isLeap y then 29 else 28
  | 4 => 30
  | 6 => 30
  | 9 => 30
  | 11 => 30
  | _ => 31

def isValid (d : Date) : Bool :=
  1 ≤ d.year && d.year ≤ 9999 && 1 ≤ d.month && d.month ≤ 12 && 1 ≤ d.day
    && d.day ≤ monthLength d.year d.month

/-- Days before the first of January of a year, counted from year one. -/
def daysBeforeYear (y : Nat) : Nat := (y - 1) * 365 + (y - 1) / 4 - (y - 1) / 100 + (y - 1) / 400

def ordinal (d : Date) : Nat :=
  (List.range (d.month - 1)).foldl (fun n m => n + monthLength d.year (m + 1))
    (daysBeforeYear d.year + d.day)

def padded (width n : Nat) : String :=
  let s := Number.digits n
  Number.zeros (width - s.length) ++ s

def text (d : Date) : String := padded 4 d.year ++ "-" ++ padded 2 d.month ++ "-" ++ padded 2 d.day

def spelled (d : Date) : String :=
  "datetime.date(" ++ ", ".intercalate ([d.year,d.month,d.day].map Number.digits) ++ ")"

end Date

namespace Moment

def isValid (t : Moment) : Bool :=
  t.date.isValid && t.hour < 24 && t.minute < 60 && t.second < 60
    && t.microsecond < 1000000
    && match t.offset with
      | some s => s.natAbs < 86400
      | none => true

/-- Microseconds since the start of the calendar, brought to universal time. -/
def instant (t : Moment) : Int :=
  (((t.date.ordinal * 24 + t.hour) * 60 + t.minute) * 60 + t.second - t.offset.getD 0) * 1000000
    + t.microsecond

def same (s t : Moment) : Bool := s.offset.isSome == t.offset.isSome && s.instant == t.instant

def offsetText (s : Int) : String :=
  let n := s.natAbs
  (if s < 0 then "-" else "+") ++ Date.padded 2 (n / 3600) ++ ":" ++ Date.padded 2 (n / 60 % 60)

def text (t : Moment) : String :=
  t.date.text ++ "T" ++ Date.padded 2 t.hour ++ ":" ++ Date.padded 2 t.minute ++ ":"
    ++ Date.padded 2 t.second
    ++ (if t.microsecond = 0 then "" else "." ++ Date.padded 6 t.microsecond)
    ++ (t.offset.map offsetText).getD ""

def zoneSpelled (s : Int) : String :=
  if s = 0 then ", tzinfo=datetime.timezone.utc"
  else
    let days := if s < 0 then "days=-1, " else ""
    let rest := if s < 0 then s + 86400 else s
    ", tzinfo=datetime.timezone(datetime.timedelta(" ++ days ++ "seconds=" ++ Number.intText rest
      ++ "))"

def spelled (t : Moment) : String :=
  let clock :=
    if t.microsecond ≠ 0 then [t.hour,t.minute,t.second,t.microsecond]
    else if t.second ≠ 0 then [t.hour,t.minute,t.second]
    else [t.hour,t.minute]
  "datetime.datetime("
    ++ ", ".intercalate (([t.date.year,t.date.month,t.date.day] ++ clock).map Number.digits)
    ++ (t.offset.map zoneSpelled).getD "" ++ ")"

end Moment
end FlagEngine
