import FlagEngine.Value

/-! Checks that go on after a failure: a record is read field by field, and what is wrong with it
is the list of the places that are wrong, in the order of the fields. -/
namespace FlagEngine

/-- Where in a document something is wrong: field names and list positions from the root. -/
abbrev Location := List String

inductive Checked (α : Type)
  | good (a : α)
  | bad (errors : List Location)

namespace Checked

variable {α β : Type}

def map (f : α → β) : Checked α → Checked β
  | .good a => .good (f a)
  | .bad es => .bad es

def ap (f : Checked (α → β)) (x : Checked α) : Checked β :=
  match f, x with
  | .good f, .good a => .good (f a)
  | .good _, .bad es => .bad es
  | .bad es, .good _ => .bad es
  | .bad es, .bad fs => .bad (es ++ fs)

instance : Applicative Checked where
  pure := .good
  map := map
  seq f x := ap f (x ())

/-- One thing wrong, right here. -/
def wrong : Checked α := .bad [[]]

/-- Places inside a part are places inside the whole, below the part's name. -/
def inside (name : String) : Checked α → Checked α
  | .good a => .good a
  | .bad es => .bad (es.map (name :: ·))

def ofOption : Option α → Checked α
  | some a => .good a
  | none => wrong

def errors : Checked α → List Location
  | .good _ => []
  | .bad es => es

@[simp] theorem map_good (f : α → β) (a : α) : map f (.good a) = .good (f a) := rfl
@[simp] theorem ap_good (f : α → β) (x : Checked α) : ap (.good f) x = map f x := by
  cases x <;> rfl

/-- Reads the items of a list, each below its position. -/
def items (f : Value → Checked α) : Nat → List Value → Checked (List α)
  | _, [] => .good []
  | i, v :: vs => ap (map List.cons ((f v).inside (toString i))) (items f (i + 1) vs)

end Checked
end FlagEngine
