import FlagEngine.Cipher.Field

/-! The block cipher AES with keys of 16, 24 or 32 bytes. A block is sixteen bytes, read as four
columns of four. -/
namespace FlagEngine.Cipher.Aes

abbrev Block := List UInt8

def blockSize : Nat := 16

def isKey (key : List UInt8) : Bool := [16,24,32].contains key.length

def xor (a b : List UInt8) : List UInt8 := List.zipWith (· ^^^ ·) a b

def roundConstant : Nat → UInt8
  | 0 => 1
  | n + 1 => double (roundConstant n)

/-- Turns a word by one byte. -/
def turn : List UInt8 → List UInt8
  | [] => []
  | b :: bs => bs ++ [b]

/-- The word that a key word is mixed with, at position `i` of a key of `size` words. -/
def mixed (size i : Nat) (previous : List UInt8) : List UInt8 :=
  if i % size = 0 then
    xor ((turn previous).map substitute) [roundConstant (i / size - 1),0,0,0]
  else if size > 6 ∧ i % size = 4 then previous.map substitute
  else previous

/-- Words of the key schedule, last first, until `n` more are made. -/
def expand (size : Nat) : Nat → List (List UInt8) → List (List UInt8)
  | 0, ws => ws
  | n + 1, ws =>
    let w := mixed size ws.length (ws.headD [])
    expand size n (xor w (ws.getD (size - 1) []) :: ws)

def chunks (size : Nat) : Nat → List UInt8 → List (List UInt8)
  | 0, _ => []
  | n + 1, bs => bs.take size :: chunks size n (bs.drop size)

def rounds (key : List UInt8) : Nat := key.length / 4 + 6

/-- The key of each round, the first one first. -/
def roundKeys (key : List UInt8) : List Block :=
  let size := key.length / 4
  let total := 4 * (rounds key + 1)
  let ws := (expand size (total - size) (chunks 4 size key).reverse).reverse
  chunks 16 (rounds key + 1) ws.flatten

def cell (b : Block) (row column : Nat) : UInt8 := b.getD (row + 4 * (column % 4)) 0

def ofCells (f : Nat → Nat → UInt8) : Block :=
  (List.range 16).map fun i => f (i % 4) (i / 4)

def shiftRows (b : Block) : Block := ofCells fun r c => cell b r (c + r)

def unshiftRows (b : Block) : Block := ofCells fun r c => cell b r (c + 4 - r)

/-- Multiplies every column by the circulant matrix with this first row. -/
def mixWith (row : List UInt8) (b : Block) : Block :=
  ofCells fun r c =>
    (List.range 4).foldl (fun s k => s ^^^ mul (row.getD ((k + 4 - r) % 4) 0) (cell b k c)) 0

def mixColumns : Block → Block := mixWith [2,3,1,1]

def unmixColumns : Block → Block := mixWith [14,11,13,9]

def encryptRounds : List Block → Block → Block
  | [], b => b
  | [k], b => xor k (shiftRows (b.map substitute))
  | k :: ks, b => encryptRounds ks (xor k (mixColumns (shiftRows (b.map substitute))))

def encrypt (key : List UInt8) (b : Block) : Block :=
  match roundKeys key with
  | [] => b
  | k :: ks => encryptRounds ks (xor k b)

def decryptRounds : List Block → Block → Block
  | [], b => b
  | [k], b => xor k ((unshiftRows b).map unsubstitute)
  | k :: ks, b => decryptRounds ks (unmixColumns (xor k ((unshiftRows b).map unsubstitute)))

def decrypt (key : List UInt8) (b : Block) : Block :=
  match (roundKeys key).reverse with
  | [] => b
  | k :: ks => decryptRounds ks (xor k b)

end FlagEngine.Cipher.Aes
