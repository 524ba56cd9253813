import FlagEngine.Number.Literal
import FlagEngine.Text.DecimalDigit
import FlagEngine.Text.Utf8
import FlagEngine.Url

/-! Names and values in a query, and the variation that a query asks for. A plus sign is a blank,
and escapes stand for the bytes of UTF-8. Fields without a value are passed over. -/
namespace FlagEngine.Query

def hex? (c : Char) : Option Nat :=
  if c.isDigit then some (c.toNat - 48)
  else if 'a' ≤ c && c ≤ 'f' then some (c.toNat - 87)
  else if 'A' ≤ c && c ≤ 'F' then some (c.toNat - 55)
  else none

/-- The bytes of an ASCII text. A percent sign without two hexadecimal digits stands for itself. -/
def unescape : List Char → List UInt8
  | [] => []
  | '%' :: a :: b :: cs =>
    match hex? a, hex? b with
    | some x, some y => UInt8.ofNat (16 * x + y) :: unescape cs
    | _, _ => 37 :: unescape (a :: b :: cs)
  | c :: cs => UInt8.ofNat c.toNat :: unescape cs

/-- Escapes are decoded within runs of ASCII; `run` holds the current run, last first. -/
def decodeRuns : List Char → List Char → List Char
  | run, [] => Utf8.decodeLenient (unescape run.reverse)
  | run, c :: cs =>
    if c.val < 0x80 then decodeRuns (c :: run) cs
    else Utf8.decodeLenient (unescape run.reverse) ++ c :: decodeRuns [] cs

def decode (cs : List Char) : List Char :=
  decodeRuns [] (cs.map fun c => if c = '+' then ' ' else c)

def field? (cs : List Char) : Option (List Char × List Char) :=
  match cs.span (· != '=') with
  | (name, _ :: c :: value) => some (decode name, decode (c :: value))
  | _ => none

def fields (cs : List Char) : List (List Char × List Char) :=
  (cs.splitOnP (· == '&')).filterMap field?

/-- The decimal that a value writes, if it is below the number of variations. -/
def index? (value : List Char) (count : Nat) : Except Fault (Option Nat) :=
  match Text.decimal? (String.ofList value) with
  | none => .ok none
  | some n =>
    if value.length > Number.maxDigits then .error .overlongInteger
    else .ok (if n < count then some n else none)

/-- The variation that the first field named `key` asks for. -/
def override (key url : String) (count : Nat) : Except Fault (Option Nat) := do
  let query ← Url.query url.toList
  match (fields query).find? (·.1 == key.toList) with
  | some (_, value) => index? value count
  | none => return none

end FlagEngine.Query
