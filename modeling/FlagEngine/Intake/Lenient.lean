import FlagEngine.Intake.Checked
import FlagEngine.Number.Reading
import FlagEngine.Text.Utf8
import FlagEngine.Value.Kind

/-! Lenient reading of scalars: numbers and truth values may come as text, whole numbers with a
point, and text as the bytes of UTF-8. Lists may come as any sequence. -/
namespace FlagEngine.Intake

/-- Blanks that may surround a number. -/
def isBlank (c : Char) : Bool :=
  (0x9 ≤ c.val && c.val ≤ 0xd) || c.val == 0x20 || c.val == 0x85 || c.val == 0xa0
    || c.val == 0x1680 || (0x2000 ≤ c.val && c.val ≤ 0x200a) || c.val == 0x2028
    || c.val == 0x2029 || c.val == 0x202f || c.val == 0x205f || c.val == 0x3000

def trim (cs : List Char) : List Char :=
  ((cs.dropWhile isBlank).reverse.dropWhile isBlank).reverse

/-- A text with single underscores inside, without them; none if there is nothing to take out. -/
def withoutUnderscores? (cs : List Char) : Option (List Char) :=
  let parts := cs.splitOnP (· == '_')
  if parts.length < 2 || parts.any (·.isEmpty) then none else some (cs.filter (· != '_'))

/-- Text as it may stand for text or be converted. -/
def text? : Value → Option (List Char)
  | .str s => some s.toList
  | .bytes bs => Utf8.decode? bs
  | _ => none

def string (v : Value) : Checked String := .ofOption ((text? v).map String.ofList)

/-- Leading zeros and the underscores among them go, but for the last character before a point or at
the end. -/
def dropZeros : List Char → Option (List Char)
  | '0' :: cs => go '0' cs
  | c :: cs => if c = '-' || c.isDigit then some (c :: cs) else none
  | [] => none
where
  go (last : Char) : List Char → Option (List Char)
    | [] => some [last]
    | '.' :: cs => some (last :: '.' :: cs)
    | c :: cs =>
      if c = '0' || c = '_' then go c cs
      else if c.isDigit then some (c :: cs)
      else none

/-- A point with zeros behind it, and nothing but zeros, goes. -/
def dropPoint (cs : List Char) : List Char :=
  let (whole, rest) := cs.span (· != '.')
  if 1 < rest.length && (rest.drop 1).all (· == '0') then whole else cs

/-- Digits with an optional minus sign. -/
def plainInteger? (cs : List Char) : Option Int :=
  let (neg, ds) :=
    match cs with
    | '-' :: ds => (true, ds)
    | ds => (false, ds)
  if ds.isEmpty || !ds.all Char.isDigit then none
  else some (if neg then -(Literal.natOf ds : Int) else Literal.natOf ds)

/-- An integer as text: blanks around it, a plus sign, leading zeros, underscores between digits
and a zero fraction are let pass. -/
def integerText? (cs : List Char) : Option Int := do
  let cs := trim cs
  let cs ←
    match cs with
    | '+' :: '-' :: _ => none
    | '+' :: cs => some cs
    | cs => some cs
  let cs := dropPoint (← dropZeros cs)
  let cs := (withoutUnderscores? cs).getD cs
  if cs.length > Number.maxDigits then none else plainInteger? cs

/-- A double stands for an integer if it is one of 64 bits. -/
def wholeDouble? (x : Float) : Option Int :=
  match (Extended.ofFloat x).integer? with
  | some n => if n.natAbs < 0x8000000000000000 then some n else none
  | none => none

def integer? : Value → Option Int
  | .bool b => some (if b then 1 else 0)
  | .int n => some n
  | .float x => wholeDouble? x
  | v => (text? v).bind integerText?

def integer (v : Value) : Checked Int := .ofOption (integer? v)

def doubleText? (cs : List Char) : Option Float :=
  match Number.plainDouble? (trim cs) with
  | some x => some x
  | none => (withoutUnderscores? cs).bind Number.plainDouble?

/-- Integers beyond the range of a double have no double. -/
def integerDouble? (n : Int) : Option Float :=
  match Double.ofFloat (Number.ofInt n) with
  | .infinite _ => none
  | _ => some (Number.ofInt n)

def double? : Value → Option Float
  | .bool b => some (if b then 1 else 0)
  | .int n => integerDouble? n
  | .float x => some x
  | v => (text? v).bind doubleText?

def double (v : Value) : Checked Float := .ofOption (double? v)

def truthWord? (s : String) : Option Bool :=
  if ["0","f","n","no","off","false"].contains s then some false
  else if ["1","t","y","on","yes","true"].contains s then some true
  else none

def truthOf? (n : Int) : Option Bool :=
  if n = 0 then some false else if n = 1 then some true else none

def truth? : Value → Option Bool
  | .bool b => some b
  | .int n => truthOf? n
  | .float x => (wholeDouble? x).bind truthOf?
  | v => (text? v).bind fun cs => truthWord? (String.ofList (Number.lowered cs))

def truth (v : Value) : Checked Bool := .ofOption (truth? v)

def sequence? : Value → Option (List Value)
  | .list xs => some xs
  | .pair a b => some [a,b]
  | .set xs => some (xs.map .scalar)
  | _ => none

variable {α : Type}

def anything (v : Value) : Checked Value := .good v

def nullable (f : Value → Checked α) (v : Value) : Checked (Option α) :=
  match v with
  | .null => .good none
  | v => (f v).map some

def list (f : Value → Checked α) (v : Value) : Checked (List α) :=
  match sequence? v with
  | some xs => Checked.items f 0 xs
  | none => .wrong

/-- Items of a tuple at given positions. Each one that is missing is an error of its own. -/
def slot (f : Value → Checked α) (i : Nat) (xs : List Value) : Checked α :=
  match xs[i]? with
  | some v => (f v).inside (toString i)
  | none => Checked.inside (toString i) .wrong

/-- A tuple of a given length. If there are too many items nothing else is said. -/
def tuple (size : Nat) (read : List Value → Checked α) (v : Value) : Checked α :=
  match sequence? v with
  | some xs => if xs.length > size then .wrong else read xs
  | none => .wrong

/-- How a key is named in a location. -/
def keyName : Scalar → String
  | .str s => s
  | .bool b => if b then "1" else "0"
  | k => k.spelled

def keyText (k : Scalar) : Checked String :=
  ((string (.scalar k)).inside "[key]").inside (keyName k)

def putText (key : String) (a : α) : List (String × α) → List (String × α)
  | [] => [(key, a)]
  | (k, b) :: es => if k = key then (k, a) :: es else (k, b) :: putText key a es

def entries (f : Value → Checked α) : List (Scalar × Value) → Checked (List (String × α))
  | [] => .good []
  | (k, v) :: es =>
    let entry := Checked.ap (Checked.map Prod.mk (keyText k)) ((f v).inside (keyName k))
    Checked.ap (Checked.map List.cons entry) (entries f es)

/-- A mapping with text for keys; of equal keys the last one counts, in the place of the first. -/
def dictionary (f : Value → Checked α) (v : Value) : Checked (List (String × α)) :=
  match v with
  | .map es => (entries f es).map fun es => es.foldl (fun m e => putText e.1 e.2 m) []
  | _ => .wrong

/-- The entry of a record under the first of its names that it has. -/
def named? (es : Entries) : List String → Option (String × Value)
  | [] => none
  | name :: names =>
    match es.find? (.str name) with
    | some v => some (name, v)
    | none => named? es names

def field (es : Entries) (names : List String) (absent : α) (f : Value → Checked α) : Checked α :=
  match named? es names with
  | some (name, v) => (f v).inside name
  | none => .good absent

def required (es : Entries) (name : String) (f : Value → Checked α) : Checked α :=
  match es.find? (.str name) with
  | some v => (f v).inside name
  | none => Checked.inside name .wrong

def record (f : Entries → Checked α) (v : Value) : Checked α :=
  match v with
  | .map es => f es
  | _ => .wrong

end FlagEngine.Intake
