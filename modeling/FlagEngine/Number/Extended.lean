import FlagEngine.Number.Double

/-! The extended line: every integer and every double has a place on it, found without rounding,
and numbers are compared by their places. Not a number has a place of its own that compares with
nothing. -/
namespace FlagEngine

inductive Extended
  | nan
  | bottom
  | fin (q : Rat)
  | top
  deriving DecidableEq

namespace Extended

def ofInt (n : Int) : Extended := .fin n

def ofDouble : Double → Extended
  | .nan => .nan
  | .infinite neg => if neg then .bottom else .top
  | .finite neg m e =>
    let (num, den) := Double.fraction m e
    .fin (mkRat (if neg then -(num : Int) else num) den)

def ofFloat (x : Float) : Extended := ofDouble (Double.ofFloat x)

def same : Extended → Extended → Bool
  | .bottom, .bottom => true
  | .top, .top => true
  | .fin p, .fin q => p == q
  | _, _ => false

def less : Extended → Extended → Bool
  | .nan, _ => false
  | _, .nan => false
  | .bottom, q => q != .bottom
  | .fin p, .fin q => decide (p < q)
  | .fin _, q => q == .top
  | .top, _ => false

@[simp] theorem same_nan_left (p : Extended) : same .nan p = false := by cases p <;> rfl
@[simp] theorem same_nan_right (p : Extended) : same p .nan = false := by cases p <;> rfl
@[simp] theorem less_nan_left (p : Extended) : less .nan p = false := by cases p <;> rfl
@[simp] theorem less_nan_right (p : Extended) : less p .nan = false := by cases p <;> rfl

/-- The integer at a place, if there is one. -/
def integer? : Extended → Option Int
  | .fin q => if q.den = 1 then some q.num else none
  | _ => none

@[simp] theorem integer?_ofInt (n : Int) : (ofInt n).integer? = some n := rfl

end Extended
end FlagEngine
