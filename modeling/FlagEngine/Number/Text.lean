import FlagEngine.Number.Extended
import FlagEngine.Number.Literal
import FlagEngine.Number.Shortest

/-! Numbers as decimal text. Integral values are written without a point where a number stands
for an identifier or is matched as text; otherwise a double has its shortest digits. -/
namespace FlagEngine.Number

/-- Digits in base ten, most significant first. -/
def digits (n : Nat) : String := String.ofList (Nat.toDigits 10 n)

def intText (n : Int) : String := if n < 0 then "-" ++ digits n.natAbs else digits n.natAbs

/-- Integers of more digits than may be read are not written either. -/
def isOverlong (n : Int) : Bool := decide (maxDigits < (digits n.natAbs).length)

def written? (n : Int) : Option String := if isOverlong n then none else some (intText n)

/-- How a double is laid out: positional while the decimal point falls within `reach` digits of
the first digit to the right and at most `leading` zeros precede it, else with an exponent of at
least `exponentDigits` digits and a sign. -/
structure Layout where
  reach : Int
  leading : Int
  exponentDigits : Nat

def layout : Layout := ⟨16, 3, 2⟩

def stripZeros (d : Nat) (s : Int) : Nat → Nat × Int
  | 0 => (d, s)
  | fuel + 1 => if d % 10 = 0 ∧ d ≠ 0 then stripZeros (d / 10) (s + 1) fuel else (d, s)

def zeros (n : Nat) : String := String.ofList (List.replicate n '0')

def exponentText (l : Layout) (e : Int) : String :=
  let ds := digits e.natAbs
  (if e < 0 then "e-" else "e+") ++ zeros (l.exponentDigits - ds.length) ++ ds

/-- Lays out `d * 10 ^ s`. -/
def Layout.write (l : Layout) (d : Nat) (s : Int) : String :=
  let ds := (Nat.toDigits 10 d)
  let point : Int := ds.length + s
  if point > l.reach || point < -l.leading then
    let tail := ds.drop 1
    String.ofList (ds.take 1) ++ (if tail.isEmpty then "" else "." ++ String.ofList tail)
      ++ exponentText l (point - 1)
  else if point ≤ 0 then "0." ++ zeros (-point).toNat ++ String.ofList ds
  else if s ≥ 0 then String.ofList ds ++ zeros s.toNat ++ ".0"
  else String.ofList (ds.take point.toNat) ++ "." ++ String.ofList (ds.drop point.toNat)

def doubleText : Double → String
  | .nan => "nan"
  | .infinite neg => if neg then "-inf" else "inf"
  | .finite neg m e =>
    (if neg then "-" else "") ++
      if m = 0 then "0.0"
      else
        let (d, s) := Shortest.decimal m e
        let (d, s) := stripZeros d s 20
        layout.write d s

/-- The shortest text that reads back as the same double. -/
def floatText (x : Float) : String := doubleText (Double.ofFloat x)

/-- The text of a double as an identifier: without a point if it is integral. -/
def plainText (x : Float) : String :=
  match (Extended.ofFloat x).integer? with
  | some n => intText n
  | none => floatText x

end FlagEngine.Number
