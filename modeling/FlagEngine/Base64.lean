/-! Base64 in its strict form: characters of the alphabet, then padding. Whole groups of four may be
followed by any number of padding characters, an unfinished group by exactly what completes it. -/
namespace FlagEngine.Base64

def alphabet : List Char :=
  "ABCDEFGHIJKLMNOPQRSTUVWXYZabcdefghijklmnopqrstuvwxyz0123456789+/".toList

def sextet? (c : Char) : Option Nat := alphabet.findIdx? (· == c)

def digit (n : Nat) : Char := alphabet.getD n 'A'

def byte (n : Nat) : UInt8 := UInt8.ofNat n

/-- The bytes of sextets; bits left over at the end are dropped. -/
def join : List Nat → List UInt8
  | a :: b :: c :: d :: rest =>
    byte (a * 4 + b / 16) :: byte (b * 16 + c / 4) :: byte (c * 64 + d) :: join rest
  | [a, b, c] => [byte (a * 4 + b / 16),byte (b * 16 + c / 4)]
  | [a, b] => [byte (a * 4 + b / 16)]
  | _ => []

/-- Whether so much padding may follow so many characters. -/
def padded (chars pads : Nat) : Bool :=
  match chars % 4 with
  | 0 => chars != 0 || pads == 0
  | 2 => pads == 2
  | 3 => pads == 1
  | _ => false

def decode? (cs : List Char) : Option (List UInt8) :=
  let (body, pads) := cs.span (· != '=')
  if padded body.length pads.length && pads.all (· == '=') then (body.mapM sextet?).map join
  else none

/-- Reads on to the end of the text or of the padding; other characters are passed over. Padding
counts from the third place of a group on, and a group may not stay unfinished. -/
def decodeLenient? : List Nat → Nat → List Char → Option (List Nat)
  | group, _, [] => if group.length % 4 = 0 then some group.reverse else none
  | group, pads, c :: cs =>
    let place := group.length % 4
    if c = '=' then
      if place ≥ 2 then
        if place + pads + 1 ≥ 4 then some group.reverse else decodeLenient? group (pads + 1) cs
      else decodeLenient? group pads cs
    else
      match sextet? c with
      | some n => decodeLenient? (n :: group) 0 cs
      | none => decodeLenient? group pads cs

/-- The bytes of a text among whose characters others may be scattered. -/
def scattered? (cs : List Char) : Option (List UInt8) := (decodeLenient? [] 0 cs).map join

def encode : List UInt8 → List Char
  | a :: b :: c :: rest =>
    digit (a.toNat / 4) :: digit (a.toNat % 4 * 16 + b.toNat / 16)
      :: digit (b.toNat % 16 * 4 + c.toNat / 64) :: digit (c.toNat % 64) :: encode rest
  | [a, b] =>
    [digit (a.toNat / 4),digit (a.toNat % 4 * 16 + b.toNat / 16),digit (b.toNat % 16 * 4),'=']
  | [a] => [digit (a.toNat / 4),digit (a.toNat % 4 * 16),'=','=']
  | [] => []

end FlagEngine.Base64
