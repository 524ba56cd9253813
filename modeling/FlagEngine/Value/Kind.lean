import FlagEngine.Value

/-! What kind of thing a value is: the name conditions test for, the name error messages use, and
two notions of being something, the general one and the one by which a feature is on. -/
namespace FlagEngine

/-- Printable ASCII stands for itself, quotes, backslashes and other bytes are escaped. -/
def spelledByte (quote : Char) (b : UInt8) : String :=
  let c := Char.ofNat b.toNat
  if c = quote || c = '\\' then String.ofList ['\\',c]
  else if c = '\t' then "\\t"
  else if c = '\n' then "\\n"
  else if c = '\r' then "\\r"
  else if b < 0x20 || b ≥ 0x7f then
    "\\x" ++ String.ofList [Nat.digitChar (b.toNat / 16),Nat.digitChar (b.toNat % 16)]
  else String.singleton c

def spelledBytes (bs : List UInt8) : String :=
  let quote := if bs.contains 39 && !bs.contains 34 then '"' else '\''
  let mark := String.singleton quote
  "b" ++ mark ++ String.join (bs.map (spelledByte quote)) ++ mark

namespace Scalar

/-- How messages spell a key. -/
def spelled : Scalar → String
  | .null => "None"
  | .bool b => if b then "True" else "False"
  | .int n => Number.intText n
  | .float x => Number.floatText x
  | .str s => "'" ++ s ++ "'"
  | .bytes bs => spelledBytes bs
  | .date d => d.spelled
  | .moment t => t.spelled

def className : Scalar → String
  | .null => "NoneType"
  | .bool _ => "bool"
  | .int _ => "int"
  | .float _ => "float"
  | .str _ => "str"
  | .bytes _ => "bytes"
  | .date _ => "date"
  | .moment _ => "datetime"

def truthy : Scalar → Bool
  | .null => false
  | .bool b => b
  | .int n => n != 0
  | .float x => !(Extended.ofFloat x).same (.ofInt 0)
  | .str s => s != ""
  | .bytes bs => !bs.isEmpty
  | _ => true

end Scalar

namespace Value

def className : Value → String
  | .scalar a => a.className
  | .list _ => "list"
  | .pair _ _ => "tuple"
  | .set _ => "set"
  | .map _ => "dict"

/-- The name that a `$type` test compares with. -/
def typeName : Value → String
  | .null => "null"
  | .bool _ => "boolean"
  | .int _ => "number"
  | .float _ => "number"
  | .str _ => "string"
  | .list _ => "array"
  | .map _ => "object"
  | _ => "unknown"

/-- False of null, false, zero and everything empty. -/
def truthy : Value → Bool
  | .scalar a => a.truthy
  | .list xs => !xs.isEmpty
  | .pair _ _ => true
  | .set xs => !xs.isEmpty
  | .map es => !es.isEmpty

/-- A feature is on unless its value is null, false, zero or the empty text. -/
def isOn : Value → Bool
  | .bytes _ => true
  | .scalar a => a.truthy
  | _ => true

/-- Falsy attributes count as none at all. -/
def orEmpty (v : Value) : Value := if v.truthy then v else .map []

end Value
end FlagEngine
