import FlagEngine.Resolution

/-! Catalogs of features under their keys, and the evaluation of a feature by its key. -/
namespace FlagEngine

structure Catalog (ν : Type) where
  features : List (Feature ν)

namespace Catalog

variable {ν : Type} [Fraction ν] {σ : Type}

def empty : Catalog ν := ⟨[]⟩

def get? (c : Catalog ν) (key : String) : Option (Feature ν) := c.features.find? (·.key == key)

def contains (c : Catalog ν) (key : String) : Bool := (c.get? key).isSome

def keys (c : Catalog ν) : List String := c.features.map (·.key)

def size (c : Catalog ν) : Nat := c.features.length

def report (tracker? : Option Tracker) (x? : Option Exposure) (w : World σ) : World σ :=
  match tracker?, x? with
  | some t, some x => t.report w x
  | _, _ => w

/-- Evaluates a feature and reports the exposure that the decision makes. -/
def evaluate (c : Catalog ν) (s : Setting σ) (tracker? : Option Tracker) (key : String) (a : Value)
    (w : World σ) : Except Fault (Decision ν) × World σ :=
  match c.get? key with
  | none => (.ok ⟨key,.unknownFeature⟩, w.note (.unknownFeature key))
  | some f =>
    match f.resolve s a w with
    | (.error fault, w) => (.error fault, w)
    | (.ok d, w) => (.ok d, report tracker? d.exposure? w)

end Catalog
end FlagEngine
