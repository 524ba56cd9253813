/-! Block chaining with padding. Every block is masked with the encrypted block before it, the first
with a block of its own; the last block is filled up with bytes that say how many they are. -/
namespace FlagEngine.Cipher.Chain

def size : Nat := 16

def xor (a b : List UInt8) : List UInt8 := List.zipWith (· ^^^ ·) a b

/-- Cuts into blocks; a rest that is no whole block makes the text invalid. -/
def blocks? : Nat → List UInt8 → Option (List (List UInt8))
  | _, [] => some []
  | 0, _ => none
  | n + 1, bs =>
    if bs.length < size then none
    else (blocks? n (bs.drop size)).map (bs.take size :: ·)

def encryptBlocks (encrypt : List UInt8 → List UInt8) :
    List UInt8 → List (List UInt8) → List (List UInt8)
  | _, [] => []
  | mask, b :: bs => let c := encrypt (xor b mask); c :: encryptBlocks encrypt c bs

def decryptBlocks (decrypt : List UInt8 → List UInt8) :
    List UInt8 → List (List UInt8) → List (List UInt8)
  | _, [] => []
  | mask, c :: cs => xor (decrypt c) mask :: decryptBlocks decrypt c cs

def pad (bs : List UInt8) : List UInt8 :=
  let n := size - bs.length % size
  bs ++ List.replicate n (UInt8.ofNat n)

/-- Takes the filling off again. It must be there, and agree with itself. -/
def unpad? (bs : List UInt8) : Option (List UInt8) :=
  match bs.getLast? with
  | none => none
  | some last =>
    let n := last.toNat
    let kept := bs.length - n
    if 1 ≤ n ∧ n ≤ size ∧ n ≤ bs.length ∧ (bs.drop kept).all (· == last) then some (bs.take kept)
    else none

def encrypt (encryptBlock : List UInt8 → List UInt8) (mask bs : List UInt8) :
    Option (List UInt8) :=
  (blocks? (bs.length + size) (pad bs)).map fun cs => (encryptBlocks encryptBlock mask cs).flatten

def decrypt? (decryptBlock : List UInt8 → List UInt8) (mask bs : List UInt8) :
    Option (List UInt8) :=
  (blocks? bs.length bs).bind fun cs => unpad? (decryptBlocks decryptBlock mask cs).flatten

end FlagEngine.Cipher.Chain
