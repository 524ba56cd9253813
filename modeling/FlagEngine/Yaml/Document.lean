import FlagEngine.Base64
import FlagEngine.Number.Reading
import FlagEngine.Value
import FlagEngine.Yaml.Node

/-! The value of a document. Collections are filled after everything around them, so of several
failures the one nearest to the root comes first, and among those equally near the first one. -/
namespace FlagEngine.Yaml

/-- A value, or the first failure at each depth, from here inwards. -/
inductive Staged (α : Type)
  | good (a : α)
  | bad (failures : List (Option Failure))

namespace Staged

variable {α β : Type}

def fail (f : Failure) : Staged α := .bad [some f]

def ofExcept : Except Failure α → Staged α
  | .ok a => .good a
  | .error f => fail f

def map (f : α → β) : Staged α → Staged β
  | .good a => .good (f a)
  | .bad fs => .bad fs

/-- At each depth the failure on the left comes first. -/
def merge : List (Option Failure) → List (Option Failure) → List (Option Failure)
  | [], gs => gs
  | fs, [] => fs
  | f :: fs, g :: gs => f.or g :: merge fs gs

def ap (f : Staged (α → β)) (x : Staged α) : Staged β :=
  match f, x with
  | .good f, .good a => .good (f a)
  | .good _, .bad gs => .bad gs
  | .bad fs, .good _ => .bad fs
  | .bad fs, .bad gs => .bad (merge fs gs)

/-- What happens one level further in. -/
def deeper : Staged α → Staged α
  | .good a => .good a
  | .bad fs => .bad (none :: fs)

def sequence : List (Staged α) → Staged (List α)
  | [] => .good []
  | x :: xs => ap (x.map List.cons) (sequence xs)

/-- Only scalars are keys. -/
def toKey : Staged Value → Staged Scalar
  | .good (.scalar a) => .good a
  | .good _ => fail .malformed
  | .bad (none :: _) => fail .malformed
  | .bad fs => .bad fs

def outcome : Staged α → Except Failure α
  | .good a => .ok a
  | .bad fs => .error ((fs.findSome? id).getD .malformed)

end Staged

namespace Tag

def numeral (f : Fault) (text : String) : Except Failure (Bool × List Char) :=
  match text.toList.filter (· != '_') with
  | [] => .error (.fault f)
  | '-' :: cs => .ok (true, cs)
  | '+' :: cs => .ok (false, cs)
  | cs => .ok (false, cs)

def ofNumber {α : Type} : Option α → Except Failure α
  | some x => .ok x
  | none => .error (.fault .notANumber)

def sixties (ns : List Int) : Int := ns.foldl (fun n d => 60 * n + d) 0

/-- The size of an integer: in base two or sixteen after a mark, in base eight after a zero, in base
sixty with colons. -/
def integerSize : List Char → Except Failure Int
  | [] => .error (.fault .emptyNumber)
  | ['0'] => .ok 0
  | '0' :: 'b' :: cs => ofNumber (Number.integer? 2 cs)
  | '0' :: 'x' :: cs => ofNumber (Number.integer? 16 cs)
  | '0' :: cs => ofNumber (Number.integer? 8 ('0' :: cs))
  | cs =>
    if cs.contains ':' then
      ofNumber (((cs.splitOnP (· == ':')).mapM (Number.integer? 10)).map sixties)
    else ofNumber (Number.integer? 10 cs)

def readInteger (text : String) : Except Failure Int := do
  let (neg, cs) ← numeral .emptyNumber text
  let n ← integerSize cs
  return if neg then -n else n

/-- Adds places of base sixty from the last one on, each times its weight. -/
def weigh : Int → Float → List Float → Except Failure Float
  | _, sum, [] => .ok sum
  | weight, sum, x :: xs =>
    match Double.ofFloat (Number.ofInt weight) with
    | .infinite _ => .error (.fault .tooManySixties)
    | _ => weigh (60 * weight) (sum + x * Number.ofInt weight) xs

def floatSize (cs : List Char) : Except Failure Float :=
  if cs == ".inf".toList then .ok (Number.infinity false)
  else if cs == ".nan".toList then .ok Number.notANumber
  else if cs.contains ':' then do
    let xs ← ofNumber ((cs.splitOnP (· == ':')).mapM Number.double?)
    weigh 1 0 xs.reverse
  else ofNumber (Number.double? cs)

def readFloat (text : String) : Except Failure Float := do
  let (neg, cs) ← numeral .emptyNumber text
  let x ← floatSize (Number.lowered cs)
  return if neg then -x else x

def readTruth (text : String) : Except Failure Bool :=
  match truthWord? (String.ofList (Number.lowered text.toList)) with
  | some b => .ok b
  | none => .error (.fault .notATruthValue)

/-- The first six digits of a fraction, as millionths. -/
def microseconds (fraction : List Char) : Nat :=
  Literal.natOf (fraction.take 6 ++ List.replicate (6 - fraction.length) '0')

def moment (d : Date) (c : ClockTime) : Moment :=
  ⟨d,c.hour,c.minute,c.second,microseconds c.fraction,c.zone.map (60 * ·)⟩

def readTimestamp (text : String) : Except Failure Scalar :=
  match Timestamp.read? (withoutFinalBreak text.toList) with
  | none => .error (.fault .notATimestamp)
  | some t =>
    let d : Date := ⟨t.year,t.month,t.day⟩
    match t.clock with
    | none => if d.isValid then .ok (.date d) else .error (.fault .impossibleDate)
    | some c =>
      let m := moment d c
      if m.isValid then .ok (.moment m) else .error (.fault .impossibleDate)

def readBinary (text : String) : Except Failure (List UInt8) :=
  let cs := text.toList
  if cs.all (·.val < 0x80) then
    match Base64.scattered? cs with
    | some bs => .ok bs
    | none => .error .malformed
  else .error .malformed

/-- The value of a text under a tag for scalars. -/
def scalar (t : Tag) (text : String) : Except Failure Scalar :=
  match t with
  | .null => .ok .null
  | .bool => (readTruth text).map .bool
  | .int => (readInteger text).map .int
  | .float => (readFloat text).map .float
  | .bytes => (readBinary text).map .bytes
  | .timestamp => readTimestamp text
  | .text => .ok (.str text)
  | _ => .error .malformed

end Tag

namespace Node

def tag : Node → Tag
  | scalar t _ => t
  | list t _ => t
  | map t _ => t
  | within => .other

mutual
/-- The text of a node that is wanted as a scalar; a mapping has it under its value key. -/
def text : Node → Except Failure String
  | scalar _ s => .ok s
  | list _ _ => .error .malformed
  | map _ es => valueText es
  | within => .error (.fault .endlessCollection)
def valueText : List (Node × Node) → Except Failure String
  | [] => .error .malformed
  | (k, v) :: es => if k.tag = .value then text v else valueText es
end

def ofText (t : Tag) (s : String) : Staged Value := .ofExcept ((t.scalar s).map .scalar)

/-- Under a tag for scalars a mapping stands for its text, but not for a point in time. -/
def ofMapping (t : Tag) (text : Except Failure String) : Staged Value :=
  match text with
  | .ok s => if t = .timestamp then .fail (.fault .mappedTimestamp) else ofText t s
  | .error f => .fail f

/-- Entries in the order in which they are put, later ones over earlier ones. -/
def toMap (es : List (Scalar × Value)) : Value := .map (Entries.ofList es)

def toSet (es : List (Scalar × Value)) : Value := .set ((Entries.ofList es).map (·.1))

/-- A collection that a tag asks for, made of the entries of a mapping. -/
def ofEntries (make : List (Scalar × Value) → Value)
    (es : Except Failure (List (Staged (Scalar × Value)))) : Staged Value :=
  match es with
  | .ok es => ((Staged.sequence es).map make).deeper
  | .error f => (Staged.fail f).deeper

def join {α : Type} (xs ys : Except Failure (List α)) : Except Failure (List α) := do
  return (← xs) ++ (← ys)

mutual
def value : Node → Staged Value
  | scalar t s =>
    match t with
    | .list => (Staged.fail .malformed).deeper
    | .map => (Staged.fail .malformed).deeper
    | .set => (Staged.fail .malformed).deeper
    | .orderedMap => (Staged.fail .malformed).deeper
    | .pairs => (Staged.fail .malformed).deeper
    | t => ofText t s
  | list t ns =>
    match t with
    | .list => ((items ns).map .list).deeper
    | .orderedMap => ((pairs ns).map .list).deeper
    | .pairs => ((pairs ns).map .list).deeper
    | .map => (Staged.fail .malformed).deeper
    | .set => (Staged.fail .malformed).deeper
    | _ => .fail .malformed
  | map t es =>
    match t with
    | .map => ofEntries toMap (join (taken es) (.ok (own es)))
    | .set => ofEntries toSet (join (taken es) (.ok (own es)))
    | .list => (Staged.fail .malformed).deeper
    | .orderedMap => (Staged.fail .malformed).deeper
    | .pairs => (Staged.fail .malformed).deeper
    | .merge => .fail .malformed
    | .value => .fail .malformed
    | .other => .fail .malformed
    | t => ofMapping t (valueText es)
  | within => .fail (.fault .endlessCollection)
def items : List Node → Staged (List Value)
  | [] => .good []
  | n :: ns => .ap ((value n).map List.cons) (items ns)
/-- Mappings of one entry each. -/
def pairs : List Node → Staged (List Value)
  | [] => .good []
  | map _ [(k, v)] :: ns =>
    let pair := Staged.ap ((value k).map Value.pair) (value v)
    .ap (pair.map List.cons) (pairs ns)
  | within :: _ => .fail (.fault .endlessCollection)
  | _ :: _ => .fail .malformed
/-- The entries of a mapping but for those that take over others. -/
def own : List (Node × Node) → List (Staged (Scalar × Value))
  | [] => []
  | (k, v) :: es =>
    if k.tag = .merge then own es
    else .ap ((key k).toKey.map Prod.mk) (value v) :: own es
/-- A key. The mark for a value is text where it is a key. -/
def key : Node → Staged Value
  | scalar .value s => .good (.str s)
  | list .value _ => .fail .malformed
  | map .value es => ofMapping .text (valueText es)
  | within => .fail .malformed
  | n => value n
/-- The entries that a mapping takes over from others. -/
def taken : List (Node × Node) → Except Failure (List (Staged (Scalar × Value)))
  | [] => .ok []
  | (k, v) :: es => if k.tag = .merge then join (takenFrom v) (taken es) else taken es
def takenFrom : Node → Except Failure (List (Staged (Scalar × Value)))
  | map _ es => join (taken es) (.ok (own es))
  | list _ ns => takenFromAll ns
  | scalar _ _ => .error .malformed
  | within => .error (.fault .endlessCollection)
/-- Of several mappings the earlier ones prevail, so they come last. -/
def takenFromAll : List Node → Except Failure (List (Staged (Scalar × Value)))
  | [] => .ok []
  | map _ es :: ns => join (takenFromAll ns) (join (taken es) (.ok (own es)))
  | within :: _ => .error (.fault .endlessCollection)
  | _ :: _ => .error .malformed
end

end Node

/-- The value of a text; a text without a document is null. -/
def read (text : String) : Except Failure Value := do
  match ← Node.ofTokens (Token.scan text) with
  | none => return .null
  | some n => n.value.outcome

end FlagEngine.Yaml
