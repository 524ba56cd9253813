import FlagEngine.Hash

/-! Half-open ranges of the unit interval, how weights divide it among the variations of an
experiment, and which variation a point falls to. -/
namespace FlagEngine

structure Bucket (ν : Type) where
  low : ν
  high : ν

/-- A slice of the subjects that experiments share out among themselves. -/
structure Namespace (ν : Type) where
  id : String
  bucket : Bucket ν

variable {ν : Type} [Fraction ν]

namespace Bucket

def has (b : Bucket ν) (n : ν) : Bool := decide (b.low ≤ n) && decide (n < b.high)

def anyHas (bs : List (Bucket ν)) (n : ν) : Bool := bs.any (·.has n)

/-- Variations one after the other, each as wide as its weight, of which the covered part counts. -/
def layOut (coverage : ν) : ν → List ν → List (Bucket ν)
  | _, [] => []
  | start, w :: ws => ⟨start,start + coverage * w⟩ :: layOut coverage (start + w) ws

@[simp] theorem length_layOut (coverage start : ν) (ws : List ν) :
    (layOut coverage start ws).length = ws.length := by
  induction ws generalizing start <;> simp_all [layOut]

def equalWeights (count : Nat) : List ν := List.replicate count (Fraction.ofRatio 1 count)

@[simp] theorem length_equalWeights (count : Nat) :
    (equalWeights count : List ν).length = count := by
  simp [equalWeights]

/-- One weight for each variation, none negative, and in sum at most one hundredth above one. -/
def usable (count : Nat) (ws : List ν) : Bool :=
  ws.length == count && ws.all (fun w => !decide (w < (Fraction.zero : ν)))
    && decide (Fraction.sum ws ≤ (Fraction.ofRatio 101 100 : ν))

def weightsFor (count : Nat) (ws? : Option (List ν)) : List ν :=
  match ws? with
  | some ws => if usable count ws then ws else equalWeights count
  | none => equalWeights count

def ranges (count : Nat) (coverage : ν) (ws? : Option (List ν)) : List (Bucket ν) :=
  layOut (Fraction.clamp coverage) Fraction.zero (weightsFor count ws?)

/-- The first range that has the point; from one on there is none. -/
def choose (n : ν) (bs : List (Bucket ν)) : Option Nat :=
  if (Fraction.one : ν) ≤ n then none else bs.findIdx? (·.has n)

end Bucket

namespace Namespace

def seed (s : Namespace ν) : String := "__" ++ s.id

def has (s : Namespace ν) (value : String) : Bool :=
  ((Hash.point? s.seed value 1).map s.bucket.has).getD false

end Namespace
end FlagEngine
