/-! Hosts in brackets: an address of eight groups of hexadecimal digits, of which one run of zeros
may be left out and the last two may be written as four octets, with an optional zone; or an
address of a later version. Nothing else may stand in brackets. -/
namespace FlagEngine.Url

def isHex (c : Char) : Bool := c.isDigit || ('a' ≤ c && c ≤ 'f') || ('A' ≤ c && c ≤ 'F')

def isGroup (cs : List Char) : Bool := !cs.isEmpty && cs.length ≤ 4 && cs.all isHex

def isOctet (cs : List Char) : Bool :=
  !cs.isEmpty && cs.length ≤ 3 && cs.all Char.isDigit && (cs == ['0'] || cs.head? != some '0')
    && cs.foldl (fun n c => 10 * n + (c.toNat - 48)) 0 ≤ 255

def isQuad (cs : List Char) : Bool :=
  let os := cs.splitOnP (· == '.')
  os.length == 4 && os.all isOctet

/-- The groups between colons; octets at the end count as two groups. -/
def groups? (cs : List Char) : Option (List (List Char)) :=
  let parts := cs.splitOnP (· == ':')
  if parts.length < 3 then none
  else
    match parts.getLast? with
    | some last =>
      if last.contains '.' then
        if isQuad last then some (parts.dropLast ++ [['0'],['0']]) else none
      else some parts
    | none => none

/-- Positions of empty groups, the first and the last left aside. -/
def gaps (parts : List (List Char)) : List Nat :=
  (List.range parts.length).filter fun i =>
    0 < i && i + 1 < parts.length && (parts.getD i []).isEmpty

def isAddress (cs : List Char) : Bool :=
  match groups? cs with
  | none => false
  | some parts =>
    if parts.length > 9 then false
    else
      match gaps parts with
      | [] => parts.length == 8 && parts.all isGroup
      | [i] =>
        let before := parts.take i
        let behind := parts.drop (i + 1)
        let before := if before.head? = some [] then before.tail else before
        let behind := if behind.getLast? = some [] then behind.dropLast else behind
        let openStart := (parts.head? == some []) && i != 1
        let openEnd := (parts.getLast? == some []) && i + 2 != parts.length
        !openStart && !openEnd && before.length + behind.length ≤ 7
          && before.all isGroup && behind.all isGroup
      | _ => false

def isZoned (cs : List Char) : Bool :=
  match cs.splitOnP (· == '%') with
  | [address] => isAddress address
  | [address, zone] => !zone.isEmpty && isAddress address
  | _ => false

/-- `v`, hexadecimal digits, a dot and something after it. -/
def isLaterAddress : List Char → Bool
  | 'v' :: cs =>
    let (version, rest) := cs.span isHex
    !version.isEmpty && rest.head? == some '.' && rest.length > 1
  | _ => false

def isBracketed (cs : List Char) : Bool :=
  if cs.head? = some 'v' then isLaterAddress cs else isZoned cs

end FlagEngine.Url
