import FlagEngine.Number.Fraction
import FlagEngine.Number.Text
import FlagEngine.Text.Utf8

/-! The 32-bit FNV-1a hash of a text, and the point of the unit interval at which a subject lies.
There are two ways to reach the point; a version names the way. -/
namespace FlagEngine.Hash

def basis : UInt32 := 0x811c9dc5
def prime : UInt32 := 0x01000193

def step (h : UInt32) (b : UInt8) : UInt32 := (h ^^^ b.toUInt32) * prime

/-- Goes on from a state over more bytes. -/
def fold (h : UInt32) (bs : List UInt8) : UInt32 := bs.foldl step h

@[simp] theorem fold_nil (h : UInt32) : fold h [] = h := rfl
@[simp] theorem fold_cons (h : UInt32) (b : UInt8) (bs : List UInt8) :
    fold h (b::bs) = fold (step h b) bs := rfl
@[simp] theorem fold_append (h : UInt32) (bs cs : List UInt8) :
    fold h (bs ++ cs) = fold (fold h bs) cs := List.foldl_append

def ofText (s : String) : UInt32 := fold basis (Utf8.encode s.toList)

/-- The first way, in thousandths. -/
def thousandths (seed value : String) : Nat := (ofText (value ++ seed)).toNat % 1000

/-- The second way, in ten thousandths: the hash is hashed again as a decimal. -/
def tenThousandths (seed value : String) : Nat :=
  (ofText (Number.digits (ofText (seed ++ value)).toNat)).toNat % 10000

/-- The point of a value, none for an unknown version. -/
def point? {ν : Type} [Fraction ν] (seed value : String) (version : Int) : Option ν :=
  if version = 2 then some (Fraction.ofRatio (tenThousandths seed value) 10000)
  else if version = 1 then some (Fraction.ofRatio (thousandths seed value) 1000)
  else none

end FlagEngine.Hash
