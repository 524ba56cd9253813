import FlagEngine.Number.Literal

/-! Points in time as documents write them: a date, and after it perhaps a time of day, a fraction
of a second and a zone. The fields are read as numbers; whether there is such a day is another
question. -/
namespace FlagEngine.Yaml

structure ClockTime where
  hour : Nat
  minute : Nat
  second : Nat
  fraction : List Char
  /-- Minutes east of universal time. -/
  zone : Option Int

structure Timestamp where
  year : Nat
  month : Nat
  day : Nat
  /-- Month and day have two digits each. -/
  padded : Bool
  clock : Option ClockTime

namespace Timestamp

/-- A number of so many digits at least and at most, with their count. -/
def digits? (least most : Nat) (cs : List Char) : Option (Nat × Nat × List Char) :=
  let ds := (cs.take most).takeWhile Char.isDigit
  if ds.length < least then none else some (Literal.natOf ds, ds.length, cs.drop ds.length)

def mark? (p : Char → Bool) : List Char → Option (List Char)
  | c :: cs => if p c then some cs else none
  | [] => none

def isBlank (c : Char) : Bool := c == ' ' || c == '\t'

/-- The letter or the blanks between a date and a time. -/
def gap? : List Char → Option (List Char)
  | 'T' :: cs => some cs
  | 't' :: cs => some cs
  | c :: cs => if isBlank c then some (cs.dropWhile isBlank) else none
  | [] => none

def fraction : List Char → List Char × List Char
  | '.' :: cs => Literal.spanDigits cs
  | cs => ([], cs)

/-- Hours and minutes after a sign; the minutes may be missing. -/
def offset? (cs : List Char) : Option Int := do
  let (hour, _, cs) ← digits? 1 2 cs
  match cs with
  | [] => some (60 * hour)
  | ':' :: cs =>
    let (minute, _, cs) ← digits? 2 2 cs
    if cs.isEmpty then some (60 * hour + minute) else none
  | _ => none

def zone? (cs : List Char) : Option (Option Int) :=
  match cs, cs.dropWhile isBlank with
  | [], _ => some none
  | _, ['Z'] => some (some 0)
  | _, '+' :: cs => (offset? cs).map some
  | _, '-' :: cs => (offset? cs).map fun n => some (-n)
  | _, _ => none

def clock? (cs : List Char) : Option ClockTime := do
  let (hour, _, cs) ← digits? 1 2 cs
  let (minute, _, cs) ← digits? 2 2 (← mark? (· == ':') cs)
  let (second, _, cs) ← digits? 2 2 (← mark? (· == ':') cs)
  let (fraction, cs) := fraction cs
  let zone ← zone? cs
  some ⟨hour,minute,second,fraction,zone⟩

def read? (cs : List Char) : Option Timestamp := do
  let (year, _, cs) ← digits? 4 4 cs
  let (month, m, cs) ← digits? 1 2 (← mark? (· == '-') cs)
  let (day, d, cs) ← digits? 1 2 (← mark? (· == '-') cs)
  let padded := m == 2 && d == 2
  if cs.isEmpty then some ⟨year,month,day,padded,none⟩
  else
    let clock ← clock? (← gap? cs)
    some ⟨year,month,day,padded,some clock⟩

/-- A text without a tag is a point in time if it has a clock, or if its date is in full. -/
def isPlain (t : Timestamp) : Bool := t.padded || t.clock.isSome

end Timestamp
end FlagEngine.Yaml
