/-! UTF-8. Reading yields a character or a gap for each longest stretch that could have begun one;
a strict reader refuses gaps, a lenient one puts the replacement character. -/
namespace FlagEngine.Utf8

def encode (cs : List Char) : List UInt8 := cs.flatMap String.utf8EncodeChar

@[simp] theorem encode_nil : encode [] = [] := rfl
@[simp] theorem encode_append (cs ds : List Char) : encode (cs ++ ds) = encode cs ++ encode ds := by
  simp [encode]

/-- A character under way: its bits so far, how many bytes are due, and the bounds of the next. -/
structure Partial where
  code : Nat
  due : Nat
  low : UInt8
  high : UInt8

def begin (b : UInt8) : List (Option Char) × Option Partial :=
  if b < 0x80 then ([some (Char.ofNat b.toNat)], none)
  else if 0xc2 ≤ b ∧ b ≤ 0xdf then ([], some ⟨b.toNat % 32,1,0x80,0xbf⟩)
  else if b = 0xe0 then ([], some ⟨0,2,0xa0,0xbf⟩)
  else if b = 0xed then ([], some ⟨13,2,0x80,0x9f⟩)
  else if 0xe1 ≤ b ∧ b ≤ 0xef then ([], some ⟨b.toNat % 16,2,0x80,0xbf⟩)
  else if b = 0xf0 then ([], some ⟨0,3,0x90,0xbf⟩)
  else if b = 0xf4 then ([], some ⟨4,3,0x80,0x8f⟩)
  else if 0xf1 ≤ b ∧ b ≤ 0xf3 then ([], some ⟨b.toNat % 8,3,0x80,0xbf⟩)
  else ([none], none)

def advance : Option Partial → UInt8 → List (Option Char) × Option Partial
  | none, b => begin b
  | some p, b =>
    if p.low ≤ b ∧ b ≤ p.high then
      let code := p.code * 64 + b.toNat % 64
      if p.due = 1 then ([some (Char.ofNat code)], none)
      else ([], some ⟨code,p.due - 1,0x80,0xbf⟩)
    else
      let (out, next) := begin b
      (none :: out, next)

def pieces : Option Partial → List UInt8 → List (Option Char)
  | none, [] => []
  | some _, [] => [none]
  | p, b :: bs =>
    let r := advance p b
    r.1 ++ pieces r.2 bs

def decode? (bs : List UInt8) : Option (List Char) := (pieces none bs).mapM id

def decodeLenient (bs : List UInt8) : List Char :=
  (pieces none bs).map (·.getD (Char.ofNat 0xfffd))

end FlagEngine.Utf8
