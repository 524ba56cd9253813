import FlagEngine.Calendar

/-! Values as catalogs and callers hold them. Scalars are what a mapping may have as a key;
mappings keep the order in which their keys came. Keys are told apart by `Scalar.sameKey`: numbers
and truth values by their place on the line, everything else within its own kind. -/
namespace FlagEngine

inductive Scalar
  | null
  | bool (b : Bool)
  | int (n : Int)
  | float (x : Float)
  | str (s : String)
  | bytes (bs : List UInt8)
  | date (d : Date)
  | moment (t : Moment)
  deriving DecidableEq

inductive Value
  | scalar (a : Scalar)
  | list (xs : List Value)
  | pair (fst snd : Value)
  | set (xs : List Scalar)
  | map (es : List (Scalar × Value))

namespace Value

@[match_pattern] abbrev null : Value := .scalar .null
@[match_pattern] abbrev bool (b : Bool) : Value := .scalar (.bool b)
@[match_pattern] abbrev int (n : Int) : Value := .scalar (.int n)
@[match_pattern] abbrev float (x : Float) : Value := .scalar (.float x)
@[match_pattern] abbrev str (s : String) : Value := .scalar (.str s)
@[match_pattern] abbrev bytes (bs : List UInt8) : Value := .scalar (.bytes bs)

def nat (n : Nat) : Value := .int n

/-- An integer that has no text, for it has too many digits. -/
def isOverlong : Value → Bool
  | .int n => Number.isOverlong n
  | _ => false

instance : Inhabited Value := ⟨.null⟩

end Value

namespace Scalar

def place? : Scalar → Option Extended
  | .bool b => some (.ofInt (if b then 1 else 0))
  | .int n => some (.ofInt n)
  | .float x => some (.ofFloat x)
  | _ => none

def same : Scalar → Scalar → Bool
  | .null, .null => true
  | .str s, .str t => s == t
  | .bytes s, .bytes t => s == t
  | .date s, .date t => s == t
  | .moment s, .moment t => s.same t
  | a, b =>
    match a.place?, b.place? with
    | some p, some q => p.same q
    | _, _ => false

/-- Sameness of keys. What is not a number is no number's equal, but it is one key. -/
def sameKey (a b : Scalar) : Bool :=
  a.same b || (a.place? == some .nan && b.place? == some .nan)

@[simp] theorem same_str (s t : String) : same (.str s) (.str t) = (s == t) := rfl
@[simp] theorem sameKey_str (s t : String) : sameKey (.str s) (.str t) = (s == t) := by
  simp [sameKey,place?]

end Scalar

/-- The entries of a mapping, in order. -/
abbrev Entries := List (Scalar × Value)

namespace Entries

def find? : Entries → Scalar → Option Value
  | [], _ => none
  | (k, v) :: es, key => if k.sameKey key then some v else find? es key

/-- A new key goes to the end, a known one keeps its place and its first spelling. -/
def put : Entries → Scalar → Value → Entries
  | [], key, v => [(key, v)]
  | (k, w) :: es, key, v => if k.sameKey key then (k, v) :: es else (k, w) :: put es key v

def ofList (es : List (Scalar × Value)) : Entries := es.foldl (fun m e => put m e.1 e.2) []

def has (es : Entries) (key : Scalar) : Bool := (es.find? key).isSome

@[simp] theorem find?_nil (key : Scalar) : find? [] key = none := rfl

end Entries

namespace Value

def isMap : Value → Bool
  | .map _ => true
  | _ => false

/-- The value under a name, if the value is a mapping that has it. -/
def field? : Value → String → Option Value
  | .map es, name => Entries.find? es (.str name)
  | _, _ => none

def lookup : Value → List String → Option Value
  | v, [] => some v
  | v, name :: path => (v.field? name).bind (lookup · path)

@[simp] theorem lookup_nil (v : Value) : v.lookup [] = some v := by cases v <;> rfl

def obj (fields : List (String × Value)) : Value := .map (fields.map fun f => (.str f.1, f.2))

end Value
end FlagEngine
