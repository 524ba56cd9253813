import FlagEngine.Value

/-! Laying one mapping over another. Where both have a mapping under a key the two are laid over
each other in turn; else the value on top counts, lists included. -/
namespace FlagEngine

mutual
def Value.overlay : Value → Value → Value
  | .map base, .map top => .map (Entries.overlay base top)
  | _, top => top
/-- The entries below keep their places, new ones follow in the order of the top. -/
def Entries.overlay (base : List (Scalar × Value)) : List (Scalar × Value) → List (Scalar × Value)
  | [] => base
  | (k, v) :: top =>
    let v' :=
      match Entries.find? base k with
      | some w => Value.overlay w v
      | none => v
    Entries.overlay (Entries.put base k v') top
end

end FlagEngine
