import FlagEngine.Fault
import FlagEngine.Number.Literal
import FlagEngine.Value

/-! JSON text. Beyond the standard the reader knows NaN and the infinities; numbers without a point
or an exponent are integers of any size up to a limit on their digits; of entries with one key
the last value stays, at the place of the first. A text consists of characters, so that the escape
of half a pair which stands alone is a fault. -/
namespace FlagEngine.Json

inductive Failure
  | malformed
  | fault (f : Fault)
  deriving DecidableEq, Repr

/-- Any behaviour of reading a text. -/
abbrev Reader := String → Except Failure Value

/-- What was read, and the text after it. -/
abbrev Rest (α : Type) := α × List Char

def isBlank (c : Char) : Bool := c == ' ' || c == '\t' || c == '\n' || c == '\r'

def skip (cs : List Char) : List Char := cs.dropWhile isBlank

def hexValue? (c : Char) : Option Nat :=
  if '0' ≤ c ∧ c ≤ '9' then some (c.toNat - 48)
  else if 'a' ≤ c ∧ c ≤ 'f' then some (c.toNat - 87)
  else if 'A' ≤ c ∧ c ≤ 'F' then some (c.toNat - 55)
  else none

/-- A code unit of four hexadecimal digits. -/
def hex4 : List Char → Except Failure (Nat × List Char)
  | a :: b :: c :: d :: rest =>
    match hexValue? a, hexValue? b, hexValue? c, hexValue? d with
    | some a, some b, some c, some d => .ok (((a * 16 + b) * 16 + c) * 16 + d, rest)
    | _, _, _, _ => .error .malformed
  | _ => .error .malformed

/-- The low half that makes a character with a high one, and the text after it. -/
def lowHalf : List Char → Except Failure (Nat × List Char)
  | '\\' :: 'u' :: cs => do
    let (v, rest) ← hex4 cs
    if 0xdc00 ≤ v ∧ v < 0xe000 then return (v, rest) else throw (.fault .loneHalf)
  | _ => .error (.fault .loneHalf)

/-- A unit after a backslash and `u`; a high and a low half make one character. -/
def unicodeEscape (cs : List Char) : Except Failure (Char × List Char) := do
  let (u, rest) ← hex4 cs
  if 0xd800 ≤ u ∧ u < 0xdc00 then
    let (v, rest) ← lowHalf rest
    return (Char.ofNat (0x10000 + (u - 0xd800) * 0x400 + (v - 0xdc00)), rest)
  else if 0xdc00 ≤ u ∧ u < 0xe000 then throw (.fault .loneHalf)
  else return (Char.ofNat u, rest)

def simpleEscape? : Char → Option Char
  | '"' => some '"'
  | '\\' => some '\\'
  | '/' => some '/'
  | 'b' => some '\x08'
  | 'f' => some '\x0c'
  | 'n' => some '\n'
  | 'r' => some '\r'
  | 't' => some '\t'
  | _ => none

/-- The rest of a string after its opening quote. Control characters must be escaped. -/
def string : Nat → List Char → List Char → Except Failure (Rest String)
  | 0, _, _ => .error .malformed
  | _ + 1, _, [] => .error .malformed
  | _ + 1, acc, '"' :: rest => .ok (String.ofList acc.reverse, rest)
  | fuel + 1, acc, '\\' :: 'u' :: rest =>
    match unicodeEscape rest with
    | .ok (c, rest) => string fuel (c :: acc) rest
    | .error f => .error f
  | fuel + 1, acc, '\\' :: e :: rest =>
    match simpleEscape? e with
    | some c => string fuel (c :: acc) rest
    | none => .error .malformed
  | fuel + 1, acc, c :: rest =>
    if c.val < 0x20 || c == '\\' then .error .malformed else string fuel (c :: acc) rest

/-- Digits before the point: a single zero, or a run that does not begin with one. -/
def wholePart : List Char → Option (List Char × List Char)
  | '0' :: rest => some (['0'], rest)
  | cs =>
    match Literal.spanDigits cs with
    | ([], _) => none
    | r => some r

def fractionPart : List Char → Option (List Char × List Char)
  | '.' :: rest =>
    match Literal.spanDigits rest with
    | ([], _) => none
    | r => some r
  | _ => none

def exponentPart : List Char → Option (Int × List Char)
  | 'e' :: rest => Literal.exponent? rest
  | 'E' :: rest => Literal.exponent? rest
  | _ => none

def number (neg : Bool) (cs : List Char) : Except Failure (Rest Value) :=
  match wholePart cs with
  | none => .error .malformed
  | some (whole, rest) =>
    let (fraction?, rest) :=
      match fractionPart rest with
      | some (ds, r) => (some ds, r)
      | none => (none, rest)
    let (exponent?, rest) :=
      match exponentPart rest with
      | some (e, r) => (some e, r)
      | none => (none, rest)
    if fraction?.isNone && exponent?.isNone then
      if whole.length > Number.maxDigits then .error (.fault .overlongInteger)
      else
        let n : Int := Literal.natOf whole
        .ok (.int (if neg then -n else n), rest)
    else
      .ok (.float (Literal.toFloat ⟨neg,whole,fraction?.getD [],exponent?.getD 0⟩), rest)

/-- Words and numbers. -/
def atom : List Char → Except Failure (Rest Value)
  | 'n' :: 'u' :: 'l' :: 'l' :: rest => .ok (.null, rest)
  | 't' :: 'r' :: 'u' :: 'e' :: rest => .ok (.bool true, rest)
  | 'f' :: 'a' :: 'l' :: 's' :: 'e' :: rest => .ok (.bool false, rest)
  | 'N' :: 'a' :: 'N' :: rest => .ok (.float Number.notANumber, rest)
  | 'I' :: 'n' :: 'f' :: 'i' :: 'n' :: 'i' :: 't' :: 'y' :: rest =>
    .ok (.float (Number.infinity false), rest)
  | '-' :: 'I' :: 'n' :: 'f' :: 'i' :: 'n' :: 'i' :: 't' :: 'y' :: rest =>
    .ok (.float (Number.infinity true), rest)
  | '-' :: rest => number true rest
  | cs => number false cs

/-- One level further in, where there is a bound on the levels. -/
def enter : Option Nat → Except Failure (Option Nat)
  | none => .ok none
  | some 0 => .error (.fault .nestedTooDeep)
  | some (room + 1) => .ok (some room)

mutual
def value : Nat → Option Nat → List Char → Except Failure (Rest Value)
  | 0, _, _ => .error .malformed
  | fuel + 1, room, cs =>
    match cs with
    | '"' :: rest => do
      let (s, rest) ← string (rest.length + 1) [] rest
      return (.str s, rest)
    | '[' :: rest => do
      let room ← enter room
      match skip rest with
      | ']' :: rest => return (.list [], rest)
      | rest =>
        let (xs, rest) ← items fuel room [] rest
        return (.list xs, rest)
    | '{' :: rest => do
      let room ← enter room
      match skip rest with
      | '}' :: rest => return (.map [], rest)
      | rest =>
        let (es, rest) ← entries fuel room [] rest
        return (.map es, rest)
    | cs => atom cs
/-- Items of a list up to the closing bracket. -/
def items : Nat → Option Nat → List Value → List Char → Except Failure (Rest (List Value))
  | 0, _, _, _ => .error .malformed
  | fuel + 1, room, acc, cs => do
    let (v, rest) ← value fuel room cs
    match skip rest with
    | ']' :: rest => .ok ((v :: acc).reverse, rest)
    | ',' :: rest => items fuel room (v :: acc) (skip rest)
    | _ => .error .malformed
/-- Entries of a mapping up to the closing brace. -/
def entries : Nat → Option Nat → Entries → List Char → Except Failure (Rest Entries)
  | 0, _, _, _ => .error .malformed
  | fuel + 1, room, acc, cs =>
    match cs with
    | '"' :: rest => do
      let (key, rest) ← string (rest.length + 1) [] rest
      match skip rest with
      | ':' :: rest => do
        let (v, rest) ← value fuel room (skip rest)
        let acc := Entries.put acc (.str key) v
        match skip rest with
        | '}' :: rest => .ok (acc, rest)
        | ',' :: rest => entries fuel room acc (skip rest)
        | _ => .error .malformed
      | _ => .error .malformed
    | _ => .error .malformed
end

/-- A whole text: one value with blanks around it, nested no deeper than there is room. -/
def readWithin (room : Option Nat) (text : String) : Except Failure Value := do
  let cs := text.toList
  let (v, rest) ← value (2 * cs.length + 2) room (skip cs)
  if (skip rest).isEmpty then return v else .error .malformed

/-- A whole text, however deep its value is nested. -/
def read (text : String) : Except Failure Value := readWithin none text

end FlagEngine.Json
