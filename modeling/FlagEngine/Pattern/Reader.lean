import FlagEngine.Number.Literal
import FlagEngine.Pattern.Node
import FlagEngine.Pattern.Token
import FlagEngine.Text.Identifier
import FlagEngine.Text.Name

/-! Reading pattern text. Options, group names and the widths of closed groups are kept while
reading; every way in which a text is no pattern counts as malformed, except for repetition counts
beyond any use, option sets that contradict each other, and integers of too many digits. -/
namespace FlagEngine.Pattern

inductive Failure
  | malformed
  | tooManyTimes
  | contradictory
  | overlong
  deriving DecidableEq, Repr

structure Options where
  ignoreCase : Bool := false
  multiline : Bool := false
  dotAll : Bool := false
  verbose : Bool := false
  ascii : Bool := false
  unicode : Bool := false
  template : Bool := false

namespace Options

def caseRule (o : Options) : CaseRule :=
  if !o.ignoreCase then .exact else if o.ascii then .ascii else .unicode

def both (o p : Options) : Options where
  ignoreCase := o.ignoreCase || p.ignoreCase
  multiline := o.multiline || p.multiline
  dotAll := o.dotAll || p.dotAll
  verbose := o.verbose || p.verbose
  ascii := o.ascii || p.ascii
  unicode := o.unicode || p.unicode
  template := o.template || p.template

def overlaps (o p : Options) : Bool :=
  (o.ignoreCase && p.ignoreCase) || (o.multiline && p.multiline) || (o.dotAll && p.dotAll)
    || (o.verbose && p.verbose)

/-- Options inside a group that turns some on and some off; a new alphabet replaces the old. -/
def within (o on off : Options) : Options where
  ignoreCase := (o.ignoreCase || on.ignoreCase) && !off.ignoreCase
  multiline := (o.multiline || on.multiline) && !off.multiline
  dotAll := (o.dotAll || on.dotAll) && !off.dotAll
  verbose := (o.verbose || on.verbose) && !off.verbose
  ascii := if on.ascii || on.unicode then on.ascii else o.ascii
  unicode := if on.ascii || on.unicode then on.unicode else o.unicode
  template := o.template

end Options

/-- Widths of the groups opened so far, a closed one with its width; group zero is the whole. -/
structure State where
  rest : List Token
  dangling : Bool
  options : Options
  names : List (String × Nat)
  groups : Array (Option (Nat × Nat))
  behind : Option Nat
  tested : List Nat

abbrev Reader := StateT State (Except Failure)

namespace Reader

variable {α : Type}

def failWith (f : Failure) : Reader α := fun _ => .error f

def fail : Reader α := failWith .malformed

def peek : Reader (Option Token) := return (← get).rest.head?

/-- Steps over a token; what comes next must not be a lone backslash. -/
def advance : Reader Unit := do
  let s ← get
  let rest := s.rest.tail
  if rest.isEmpty && s.dangling then fail
  set { s with rest := rest }

def next : Reader (Option Token) := do
  let t ← peek
  advance
  return t

def accept (c : Char) : Reader Bool := do
  if (← peek) = some (.char c) then
    advance
    return true
  return false

def expect (c : Char) : Reader Unit := do
  if !(← accept c) then fail

/-- Up to `n` characters of a kind. -/
def takeUpTo (p : Char → Bool) : Nat → Reader (List Char)
  | 0 => return []
  | n + 1 => do
    match ← peek with
    | some (.char c) =>
      if p c then
        advance
        return c :: (← takeUpTo p n)
      else return []
    | _ => return []

/-- Characters of a kind, as many as there are. -/
def takeAll (p : Char → Bool) : Reader (List Char) := do
  let s ← get
  takeUpTo p s.rest.length

/-- Non-empty text before a terminator, which is stepped over. -/
def untilChar (stop : Char) : Reader (List Char) := do
  let rec go : Nat → Reader (List Char)
    | 0 => fail
    | n + 1 => do
      match ← next with
      | none => fail
      | some t => if t = .char stop then return [] else return t.chars ++ (← go n)
  let s ← go ((← get).rest.length + 1)
  if s.isEmpty then fail else return s

end Reader

open Reader

def isOctal (c : Char) : Bool := '0' ≤ c && c ≤ '7'

def hexDigit? (c : Char) : Option Nat :=
  if c.isDigit then some (c.toNat - 48)
  else if 'a' ≤ c && c ≤ 'f' then some (c.toNat - 87)
  else if 'A' ≤ c && c ≤ 'F' then some (c.toNat - 55)
  else none

def valueIn (base : Nat) (cs : List Char) : Nat :=
  cs.foldl (fun n c => base * n + (hexDigit? c).getD 0) 0

/-- Exactly `n` hexadecimal digits. -/
def hexCode (n : Nat) : Reader Nat := do
  let ds ← takeUpTo (fun c => (hexDigit? c).isSome) n
  if ds.length = n then return valueIn 16 ds else fail

def namedCode : Reader Nat := do
  expect '\x7b'
  let name ← untilChar '\x7d'
  match Text.named? (String.ofList name) with
  | some n => return n
  | none => fail

def controlCode? : Char → Option Nat
  | 'a' => some 7
  | 'b' => some 8
  | 'f' => some 12
  | 'n' => some 10
  | 'r' => some 13
  | 't' => some 9
  | 'v' => some 11
  | '\\' => some 92
  | _ => none

def kind? (ascii : Bool) : Char → Option Member
  | 'd' => some (.kind .digit ascii false)
  | 'D' => some (.kind .digit ascii true)
  | 's' => some (.kind .blank ascii false)
  | 'S' => some (.kind .blank ascii true)
  | 'w' => some (.kind .word ascii false)
  | 'W' => some (.kind .word ascii true)
  | _ => none

/-- Escapes that name a character by its code. -/
def codeEscape? (c : Char) : Reader (Option Nat) := do
  match c with
  | 'x' => return some (← hexCode 2)
  | 'u' => return some (← hexCode 4)
  | 'U' =>
    let n ← hexCode 8
    if n < 0x110000 then return some n else fail
  | 'N' => return some (← namedCode)
  | _ => return none

/-- An escape inside a set. -/
def setEscape (o : Options) (c : Char) : Reader Member := do
  if let some n := controlCode? c then return .code n
  if let some m := kind? o.ascii c then return m
  if let some n ← codeEscape? c then return .code n
  if isOctal c then
    let n := valueIn 8 (c :: (← takeUpTo isOctal 2))
    if n > 0o377 then fail else return .code n
  if c.isAlphanum then fail else return .code c.toNat

def literal (o : Options) (n : Nat) : PatternNode := .one false [.code n] o.caseRule

def closedGroup? (g : Nat) : Reader (Option (Nat × Nat)) := do
  let s ← get
  return s.groups.getD g none

/-- Inside what looks behind, only groups that were closed before it may be referred to. -/
def checkBehind (g : Nat) : Reader Unit := do
  if let some limit := (← get).behind then
    if (← closedGroup? g).isNone || g ≥ limit then fail

def backref (o : Options) (g : Nat) : Reader PatternNode := do
  if (← closedGroup? g).isNone then fail
  checkBehind g
  return .backref g o.caseRule

/-- A digit after a backslash: up to three octal digits, or the number of a group. -/
def numberEscape (o : Options) (c : Char) : Reader PatternNode := do
  if c = '0' then return literal o (valueIn 8 (← takeUpTo isOctal 2))
  match ← takeUpTo Char.isDigit 1 with
  | [] => backref o (c.toNat - 48)
  | d :: _ =>
    if isOctal c && isOctal d then
      if let e :: _ ← takeUpTo isOctal 1 then
        let n := valueIn 8 [c,d,e]
        if n > 0o377 then fail else return literal o n
    backref o (valueIn 10 [c,d])

def escape (o : Options) (c : Char) : Reader PatternNode := do
  match c with
  | 'A' => return .anchor .start
  | 'Z' => return .anchor .finish
  | 'b' => return .anchor (.boundary o.ascii)
  | 'B' => return .anchor (.noBoundary o.ascii)
  | _ =>
    if let some m := kind? o.ascii c then return .one false [m] o.caseRule
    if let some n := controlCode? c then return literal o n
    if let some n ← codeEscape? c then return literal o n
    if c.isDigit then numberEscape o c
    else if c.isAlpha then fail
    else return literal o c.toNat

def member (o : Options) : Token → Reader Member
  | .escape c => setEscape o c
  | .char c => return .code c.toNat

/-- The members of a set up to the closing bracket, which stands for itself in the first place. -/
def members (o : Options) : Nat → List Member → Reader (List Member)
  | 0, _ => fail
  | fuel + 1, acc => do
    match ← next with
    | none => fail
    | some t =>
      if t = .char ']' && !acc.isEmpty then return acc.reverse
      let low ← member o t
      if !(← accept '-') then members o fuel (low :: acc)
      else
        match ← next with
        | none => fail
        | some t =>
          if t = .char ']' then return (.code 45 :: low :: acc).reverse
          match low, ← member o t with
          | .code a, .code b => if b < a then fail else members o fuel (.range a b :: acc)
          | _, _ => fail

def charSet (o : Options) : Reader PatternNode := do
  let neg ← accept '^'
  let ms ← members o ((← get).rest.length + 1) []
  return .one neg ms o.caseRule

/-- Repetition counts from here on are refused. -/
def countLimit : Nat := 4294967295

def count (ds : List Char) : Reader Nat := do
  if ds.length > Number.maxDigits then failWith .overlong
  let n := Literal.natOf ds
  if n ≥ countLimit then failWith .tooManyTimes else return n

/-- Bounds between braces; text that does not look like bounds stands for itself. -/
def bounds : Reader (Option (Nat × Option Nat)) := do
  let before ← get
  if (← peek) = some (.char '\x7d') then return none
  let low ← takeAll Char.isDigit
  let high ← if ← accept ',' then takeAll Char.isDigit else pure low
  if !(← accept '\x7d') then
    set before
    return none
  let l ← if low.isEmpty then pure 0 else count low
  if high.isEmpty then return some (l, none)
  let h ← count high
  if h < l then fail else return some (l, some h)

def isRep : PatternNode → Bool
  | .rep _ _ _ _ => true
  | _ => false

def isAnchor : PatternNode → Bool
  | .anchor _ => true
  | _ => false

/-- Repeats the node read last. A repetition of a repetition must be grouped. -/
def repeated (low : Nat) (high : Option Nat) : List PatternNode → Reader (List PatternNode)
  | [] => fail
  | a :: before => do
    if isAnchor a || isRep a then fail
    if ← accept '?' then return .rep .reluctant low high a :: before
    if ← accept '+' then return .rep .possessive low high a :: before
    return .rep .greedy low high a :: before

def option? : Char → Option Options
  | 'i' => some { ignoreCase := true }
  | 'm' => some { multiline := true }
  | 's' => some { dotAll := true }
  | 'x' => some { verbose := true }
  | 'a' => some { ascii := true }
  | 'u' => some { unicode := true }
  | 't' => some { template := true }
  | _ => none

/-- Letters that turn options on, and the character after them. -/
def optionsOn : Nat → Options → Char → Reader (Options × Char)
  | 0, _, _ => fail
  | fuel + 1, acc, c => do
    match option? c with
    | none => fail
    | some o =>
      let acc := acc.both o
      if acc.ascii && acc.unicode then fail
      match ← next with
      | some (.char c) => if c ∈ [')','-',':'] then return (acc, c) else optionsOn fuel acc c
      | _ => fail

/-- Letters that turn options off, up to a colon. -/
def optionsOff : Nat → Options → Reader Options
  | 0, _ => fail
  | fuel + 1, acc => do
    match ← next with
    | some (.char c) =>
      if c = ':' then return acc
      match option? c with
      | none => fail
      | some o =>
        if o.ascii || o.unicode then fail
        optionsOff fuel (acc.both o)
    | _ => fail

/-- Options after an opening parenthesis and a question mark: for the whole pattern (none), or for
the group, those turned on and those turned off. -/
def groupOptions (c : Char) : Reader (Option (Options × Options)) := do
  let fuel := (← get).rest.length + 1
  let (on, c) ← if c = '-' then pure (({} : Options), c) else optionsOn fuel {} c
  if c = ')' then
    modify fun s => { s with options := s.options.both on }
    return none
  if on.template then fail
  if c = ':' then return some (on, {})
  if (← peek) = some (.char ':') then fail
  let off ← optionsOff fuel {}
  if off.template || on.overlaps off then fail
  return some (on, off)

def openGroup (name : Option String) : Reader Nat := do
  let s ← get
  let g := s.groups.size
  match name with
  | none => set { s with groups := s.groups.push none }
  | some n =>
    if (s.names.lookup n).isSome then fail
    set { s with groups := s.groups.push none, names := (n, g) :: s.names }
  return g

def widthOf (a : PatternNode) : Reader (Nat × Nat) := do
  let s ← get
  return a.width fun g => (s.groups.getD g none).getD (0, 0)

def closeGroup (g : Nat) (a : PatternNode) : Reader Unit := do
  let w ← widthOf a
  modify fun s => { s with groups := s.groups.setIfInBounds g (some w) }

def groupName (stop : Char) : Reader String := do
  let name := String.ofList (← untilChar stop)
  if Text.isName name then return name else fail

def groupNamed (name : String) : Reader Nat := do
  match (← get).names.lookup name with
  | some g => return g
  | none => fail

/-- Digits of any script with single underscores between them. -/
def looseDigits : List Char → Bool → Nat → Option Nat
  | [], ready, n => if ready then some n else none
  | '_' :: cs, ready, n => if ready then looseDigits cs false n else none
  | c :: cs, _, n => (Text.decimalValue? c).bind fun d => looseDigits cs true (10 * n + d)

/-- The number of a group, written the loose way: blanks around, a plus sign, underscores. -/
def looseNumber (cs : List Char) : Option Nat :=
  let cs := ((cs.dropWhile Text.isBlank).reverse.dropWhile Text.isBlank).reverse
  match cs with
  | '+' :: cs => looseDigits cs false 0
  | cs => looseDigits cs false 0

/-- Groups are numbered below this. -/
def groupLimit : Nat := 1073741823

/-- The group that a conditional asks about: a name, or a number that may come later. -/
def testedGroup : Reader Nat := do
  let text ← untilChar ')'
  let name := String.ofList text
  if Text.isName name then groupNamed name
  else
    match looseNumber text with
    | some 0 => fail
    | some g =>
      if text.length > Number.maxDigits || g ≥ groupLimit then fail
      modify fun s => { s with tested := g :: s.tested }
      return g
    | none => fail

/-- Blank characters that verbose patterns skip. -/
def isLayout (c : Char) : Bool := CharKind.asciiBlank c

def skipLine : Nat → Reader Unit
  | 0 => fail
  | fuel + 1 => do
    match ← next with
    | none => return
    | some t => if t = .char '\n' then return else skipLine fuel

def skipComment : Nat → Reader Unit
  | 0 => fail
  | fuel + 1 => do
    match ← peek with
    | none => fail
    | some t =>
      advance
      if t = .char ')' then return else skipComment fuel

mutual
/-- Alternatives. At the top, options for the whole pattern take effect. -/
def alternatives (top : Bool) (o : Options) : Nat → Reader PatternNode
  | 0 => fail
  | fuel + 1 => do
    let a ← sequence top top o fuel []
    alternativesAfter top o fuel a
def alternativesAfter (top : Bool) (o : Options) : Nat → PatternNode → Reader PatternNode
  | 0, _ => fail
  | fuel + 1, a => do
    if ← accept '|' then
      let b ← sequence top false o fuel []
      return .alt a (← alternativesAfter top o fuel b)
    else return a
/-- A run of nodes, read last first. -/
def sequence (top first : Bool) (o : Options) : Nat → List PatternNode → Reader PatternNode
  | 0, _ => fail
  | fuel + 1, acc => do
    let s ← get
    let o := if top then s.options else o
    match ← peek with
    | none => return .ofList acc.reverse
    | some t =>
      if t = .char '|' || t = .char ')' then return .ofList acc.reverse
      advance
      match t with
      | .escape c =>
        let a ← escape o c
        sequence top first o fuel (a :: acc)
      | .char c =>
        if o.verbose && isLayout c then sequence top first o fuel acc
        else if o.verbose && c = '#' then
          skipLine ((← get).rest.length + 1)
          sequence top first o fuel acc
        else
          match c with
          | '[' =>
            let a ← charSet o
            sequence top first o fuel (a :: acc)
          | '?' => sequence top first o fuel (← repeated 0 (some 1) acc)
          | '*' => sequence top first o fuel (← repeated 0 none acc)
          | '+' => sequence top first o fuel (← repeated 1 none acc)
          | '\x7b' =>
            match ← bounds with
            | none => sequence top first o fuel (literal o c.toNat :: acc)
            | some (low, high) => sequence top first o fuel (← repeated low high acc)
          | '.' => sequence top first o fuel (.any o.dotAll :: acc)
          | '^' =>
            sequence top first o fuel (.anchor (if o.multiline then .lineStart else .start) :: acc)
          | '$' =>
            sequence top first o fuel
              (.anchor (if o.multiline then .lineEnd else .lastLineEnd) :: acc)
          | '(' =>
            let a? ← group (first && acc.isEmpty) o fuel
            sequence top first o fuel (a?.toList ++ acc)
          | _ => sequence top first o fuel (literal o c.toNat :: acc)
/-- What follows an opening parenthesis. Comments and options for the whole leave no node. -/
def group (mayConfigure : Bool) (o : Options) : Nat → Reader (Option PatternNode)
  | 0 => fail
  | fuel + 1 => do
    if !(← accept '?') then return some (← captured none o fuel)
    match ← next with
    | some (.char 'P') =>
      if ← accept '<' then
        let name ← groupName '>'
        return some (← captured (some name) o fuel)
      expect '='
      let g ← groupNamed (← groupName ')')
      return some (← backref o g)
    | some (.char ':') => return some (← enclosed o fuel)
    | some (.char '#') =>
      skipComment ((← get).rest.length + 1)
      return none
    | some (.char '=') => return some (.ahead false (← enclosed o fuel))
    | some (.char '!') => return some (.ahead true (← enclosed o fuel))
    | some (.char '<') =>
      match ← next with
      | some (.char '=') => return some (← lookBehind false o fuel)
      | some (.char '!') => return some (← lookBehind true o fuel)
      | _ => fail
    | some (.char '(') =>
      let g ← testedGroup
      checkBehind g
      let yes ← sequence false false o fuel []
      let no ← if ← accept '|' then sequence false false o fuel [] else pure .empty
      expect ')'
      return some (.ifGroup g yes no)
    | some (.char '>') => return some (.atomic (← enclosed o fuel))
    | some (.char c) =>
      if (option? c).isNone && c ≠ '-' then fail
      match ← groupOptions c with
      | some (on, off) => return some (← enclosed (o.within on off) fuel)
      | none => if mayConfigure then return none else fail
    | _ => fail
def captured (name : Option String) (o : Options) : Nat → Reader PatternNode
  | 0 => fail
  | fuel + 1 => do
    let g ← openGroup name
    let a ← alternatives false o fuel
    expect ')'
    closeGroup g a
    return .capture g a
def enclosed (o : Options) : Nat → Reader PatternNode
  | 0 => fail
  | fuel + 1 => do
    let a ← alternatives false o fuel
    expect ')'
    return .group a
def lookBehind (neg : Bool) (o : Options) : Nat → Reader PatternNode
  | 0 => fail
  | fuel + 1 => do
    let outer := (← get).behind
    modify fun s => { s with behind := some (outer.getD s.groups.size) }
    let a ← alternatives false o fuel
    modify fun s => { s with behind := outer }
    expect ')'
    return .behind (← widthOf a) neg a
end

/-- A whole pattern. -/
def read (text : String) : Except Failure PatternNode := do
  let ts := tokens text.toList
  if ts.rest.isEmpty && ts.dangling then throw .malformed
  let fuel := 6 * ts.rest.length + 8
  let (a, s) ← (alternatives true {} fuel).run ⟨ts.rest,ts.dangling,{},[],#[none],none,[]⟩
  if s.options.ascii && s.options.unicode then throw .contradictory
  if !s.rest.isEmpty then throw .malformed
  if s.tested.any (· ≥ s.groups.size) then throw .malformed
  if !a.settled || (s.options.template && a.repeats) then throw .malformed
  return a

end FlagEngine.Pattern
