import FlagEngine.Text.NameTable

/-! Characters by their names. Ideographs are named by their codes and Hangul syllables by their
sounds; all other names are listed, and may be given in small letters. -/
namespace FlagEngine.Text

/-- The place of a name in the rest of a table of names, given the name before. -/
def place? (name : List Char) : Nat → Nat → List Char → List Char → Option Nat
  | 0, _, _, _ => none
  | fuel + 1, i, before, cs =>
    let (marks, cs) := cs.span Char.isLower
    let (own, cs) := cs.span fun c => !c.isLower
    let shared := marks.foldl (fun n c => n + (c.toNat - 97)) 0
    let entry := before.take shared ++ own
    if entry == name then some i
    else if cs.isEmpty then none
    else place? name fuel (i + 1) entry cs

/-- The code at a place, counted through runs of codes. -/
def codeAt? : Nat → List (Nat × Nat) → Option Nat
  | _, [] => none
  | i, (first, length) :: runs => if i < length then some (first + i) else codeAt? (i - length) runs

def listed? (name : List Char) : Option Nat :=
  match aliases.lookup (String.ofList name) with
  | some n => some n
  | none =>
    let cs := nameTable.toList.filter (· != '\n')
    (place? name cs.length 0 [] cs).bind (codeAt? · namedRuns)

def initials : List String :=
  ["G","GG","N","D","DD","R","M","B","BB","S","SS","","J","JJ","C","K","T","P","H"]

def vowels : List String :=
  ["A","AE","YA","YAE","EO","E","YEO","YE","O","WA","WAE","OE","YO","U","WEO","WE","WI","YU","EU",
    "YI","I"]

def finals : List String :=
  ["","G","GG","GS","N","NJ","NH","D","L","LG","LM","LB","LS","LT","LP","LH","M","B","BS","S","SS",
    "NG","J","C","K","T","P","H"]

/-- The sounds of a Hangul syllable by its number. -/
def sounds (n : Nat) : String :=
  initials.getD (n / 588) "" ++ vowels.getD (n / 28 % 21) "" ++ finals.getD (n % 28) ""

def syllable? (name : List Char) : Option Nat :=
  ((List.range 11172).find? fun n => sounds n == String.ofList name).map (0xac00 + ·)

/-- Codes of the unified ideographs: first code and the one after the last. -/
def ideographs : List (Nat × Nat) := [
  (0x3400,0x4dc0),(0x4e00,0xa000),(0x20000,0x2a6e0),(0x2a700,0x2b739),(0x2b740,0x2b81e),
  (0x2b820,0x2cea2),(0x2ceb0,0x2ebe1),(0x30000,0x3134b)]

def hexadecimal? (c : Char) : Option Nat :=
  if c.isDigit then some (c.toNat - 48)
  else if 'A' ≤ c && c ≤ 'F' then some (c.toNat - 55)
  else none

/-- An ideograph by its code in four or five digits. -/
def ideograph? (digits : List Char) : Option Nat :=
  if digits.length = 4 || digits.length = 5 then
    match digits.foldlM (fun n c => (hexadecimal? c).map (16 * n + ·)) 0 with
    | some n => if ideographs.any fun r => r.1 ≤ n && n < r.2 then some n else none
    | none => none
  else none

/-- What follows a beginning. -/
def after? : List Char → List Char → Option (List Char)
  | [], cs => some cs
  | a :: as, c :: cs => if a = c then after? as cs else none
  | _ :: _, [] => none

def named? (name : String) : Option Nat :=
  let cs := name.toList
  match after? "CJK UNIFIED IDEOGRAPH-".toList cs, after? "HANGUL SYLLABLE ".toList cs with
  | some digits, _ => ideograph? digits
  | _, some sounds => syllable? sounds
  | none, none => listed? (cs.map Char.toUpper)

end FlagEngine.Text
