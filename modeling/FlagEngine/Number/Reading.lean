import FlagEngine.Number.Literal
import FlagEngine.Text.DecimalDigit
import FlagEngine.Text.Letter

/-! Numbers from text as it is written by hand: blanks around them, digits of any script, a sign,
and for integers a base with its mark. -/
namespace FlagEngine.Number

def lowered (cs : List Char) : List Char := cs.map Char.toLower

/-- A sign, then digits with an optional point and an optional exponent, or a word. -/
def plainDouble? (cs : List Char) : Option Float :=
  let (neg, rest) :=
    match cs with
    | '-' :: r => (true, r)
    | '+' :: r => (false, r)
    | r => (false, r)
  let word := String.ofList (lowered rest)
  if word = "inf" || word = "infinity" then some (infinity neg)
  else if word = "nan" then some notANumber
  else
    let (whole, rest) := Literal.spanDigits rest
    let (fraction, rest) :=
      match rest with
      | '.' :: r => Literal.spanDigits r
      | r => ([], r)
    if whole.isEmpty && fraction.isEmpty then none
    else
      match rest with
      | [] => some (Literal.toFloat ⟨neg,whole,fraction,0⟩)
      | c :: rest =>
        if c = 'e' || c = 'E' then
          match Literal.exponent? rest with
          | some (e, []) => some (Literal.toFloat ⟨neg,whole,fraction,e⟩)
          | _ => none
        else none

/-- Digits of other scripts become those of ASCII, other characters stay. -/
def plainDigit (c : Char) : Char :=
  match Text.decimalValue? c with
  | some d => Char.ofNat (48 + d)
  | none => c

def trimmed (cs : List Char) : List Char :=
  (((cs.map plainDigit).dropWhile Text.isBlank).reverse.dropWhile Text.isBlank).reverse

def double? (cs : List Char) : Option Float := plainDouble? (trimmed cs)

def digit? (base : Nat) (c : Char) : Option Nat :=
  let d :=
    if c.isDigit then c.toNat - 48
    else if 'a' ≤ c ∧ c ≤ 'z' then c.toNat - 87
    else if 'A' ≤ c ∧ c ≤ 'Z' then c.toNat - 55
    else base
  if d < base then some d else none

def baseMark? : Nat → Option Char
  | 2 => some 'b'
  | 8 => some 'o'
  | 16 => some 'x'
  | _ => none

/-- Takes the mark of the base off, if it is there. -/
def withoutMark (base : Nat) : List Char → List Char
  | '0' :: c :: cs => if baseMark? base = some c.toLower then cs else '0' :: c :: cs
  | cs => cs

/-- Digits in a base. Those in base ten are limited in number. -/
def natural? (base : Nat) (cs : List Char) : Option Nat :=
  if cs.isEmpty || (base == 10 && cs.length > maxDigits) then none
  else cs.foldlM (fun n c => (digit? base c).map (base * n + ·)) 0

def integer? (base : Nat) (cs : List Char) : Option Int :=
  match trimmed cs with
  | '-' :: cs => (natural? base (withoutMark base cs)).map fun n => -(n : Int)
  | '+' :: cs => (natural? base (withoutMark base cs)).map Int.ofNat
  | cs => (natural? base (withoutMark base cs)).map Int.ofNat

end FlagEngine.Number
