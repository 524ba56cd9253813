import FlagEngine.Yaml.Timestamp

/-! Tags say what a node means. A plain scalar without one gets it from its text: the shapes of the
single kinds exclude each other, and what has none of them is text. -/
namespace FlagEngine.Yaml

inductive Tag
  | null
  | bool
  | int
  | float
  | bytes
  | timestamp
  | text
  | list
  | map
  | set
  | orderedMap
  | pairs
  /-- The key under which a mapping takes over others. -/
  | merge
  /-- The key under which a mapping has its value as a scalar. -/
  | value
  | other
  deriving DecidableEq, Repr

namespace Tag

def stem : String := "tag:yaml.org,2002:"

def ofText (s : String) : Tag :=
  if s = stem ++ "null" then .null
  else if s = stem ++ "bool" then .bool
  else if s = stem ++ "int" then .int
  else if s = stem ++ "float" then .float
  else if s = stem ++ "binary" then .bytes
  else if s = stem ++ "timestamp" then .timestamp
  else if s = stem ++ "str" then .text
  else if s = stem ++ "seq" then .list
  else if s = stem ++ "map" then .map
  else if s = stem ++ "set" then .set
  else if s = stem ++ "omap" then .orderedMap
  else if s = stem ++ "pairs" then .pairs
  else if s = stem ++ "merge" then .merge
  else if s = stem ++ "value" then .value
  else .other

def truthWord? (s : String) : Option Bool :=
  if ["yes","true","on"].contains s then some true
  else if ["no","false","off"].contains s then some false
  else none

/-- Words count in small letters, in capitals, and with a capital first letter. -/
def isUniform (cs : List Char) : Bool :=
  cs.all Char.isLower || cs.all Char.isUpper
    || ((cs.take 1).all Char.isUpper && (cs.drop 1).all Char.isLower)

def isTruth (cs : List Char) : Bool :=
  isUniform cs && (truthWord? (String.ofList (cs.map Char.toLower))).isSome

def isNull (cs : List Char) : Bool :=
  cs.isEmpty || cs == ['~'] || (isUniform cs && cs.map Char.toLower == "null".toList)

def isDigitOrGap (c : Char) : Bool := c.isDigit || c == '_'

def unsigned : List Char → List Char
  | '-' :: cs => cs
  | '+' :: cs => cs
  | cs => cs

/-- Groups below sixty, each after a colon; at least one. -/
def areSixties (groups : List (List Char)) : Bool :=
  !groups.isEmpty && groups.all fun g =>
    g.all Char.isDigit && (g.length = 1 || (g.length = 2 && g.headD '9' ≤ '5'))

/-- Digits and gaps, of which the first is a digit of the given kind. -/
def isRun (first : Char → Bool) : List Char → Bool
  | [] => false
  | c :: cs => first c && cs.all isDigitOrGap

def isSignificant (c : Char) : Bool := c.isDigit && c != '0'

def isInteger (cs : List Char) : Bool :=
  let cs := unsigned cs
  match cs with
  | '0' :: 'b' :: ds => !ds.isEmpty && ds.all fun c => c == '0' || c == '1' || c == '_'
  | '0' :: 'x' :: ds =>
    !ds.isEmpty && ds.all fun c => isDigitOrGap c || ('a' ≤ c && c ≤ 'f') || ('A' ≤ c && c ≤ 'F')
  | '0' :: ds => ds.all fun c => ('0' ≤ c && c ≤ '7') || c == '_'
  | _ =>
    match cs.splitOnP (· == ':') with
    | [ds] => isRun isSignificant ds
    | ds :: groups => isRun isSignificant ds && areSixties groups
    | [] => false

/-- A signed exponent, or none. -/
def isExponent : List Char → Bool
  | [] => true
  | e :: sign :: ds =>
    (e == 'e' || e == 'E') && (sign == '+' || sign == '-') && !ds.isEmpty && ds.all Char.isDigit
  | _ => false

def isDecimal (cs : List Char) : Bool :=
  let (whole, rest) := (unsigned cs).span (· != '.')
  match whole, rest with
  | [], _ :: c :: rest =>
    cs.head? == some '.' && c.isDigit && isExponent (rest.dropWhile isDigitOrGap)
  | _, _ :: rest => isRun Char.isDigit whole && isExponent (rest.dropWhile isDigitOrGap)
  | _, [] => false

def isSexagesimal (cs : List Char) : Bool :=
  let (whole, rest) := (unsigned cs).span (· != '.')
  match whole.splitOnP (· == ':'), rest with
  | ds :: groups, _ :: rest =>
    isRun Char.isDigit ds && areSixties groups && rest.all isDigitOrGap
  | _, _ => false

def isInfinity (cs : List Char) : Bool :=
  [".inf",".Inf",".INF"].contains (String.ofList (unsigned cs))

def isNotANumber (cs : List Char) : Bool := [".nan",".NaN",".NAN"].contains (String.ofList cs)

def isFloat (cs : List Char) : Bool :=
  isDecimal cs || isSexagesimal cs || isInfinity cs || isNotANumber cs

def isTimestamp (cs : List Char) : Bool :=
  match Timestamp.read? cs with
  | some t => t.isPlain
  | none => false

/-- A line feed at the end of a scalar does not change what it is. -/
def withoutFinalBreak (cs : List Char) : List Char :=
  if cs.length > 1 && cs.getLast? == some '\n' then cs.dropLast else cs

/-- The tag of a plain scalar by its text. -/
def ofPlain (text : String) : Tag :=
  let cs := withoutFinalBreak text.toList
  if isTruth cs then .bool
  else if isFloat cs then .float
  else if isInteger cs then .int
  else if cs == ['<','<'] then .merge
  else if isNull cs then .null
  else if isTimestamp cs then .timestamp
  else if cs == ['='] then .value
  else if [['!'],['&'],['*']].contains cs then .other
  else .text

end Tag
end FlagEngine.Yaml
