import FlagEngine.Yaml.Scalar
import FlagEngine.Yaml.Token

/-! From text to tokens. Indentation opens and closes blocks. A node that turns out to be a key is
found only at the colon after it: a node that may be one is remembered, and the mark for the key is
put in front of it when the colon comes. -/
namespace FlagEngine.Yaml

/-- A node that may be a key: the number of its first token and its place. A required one starts a
line of its block, where nothing else than a key may stand. -/
structure Candidate where
  number : Nat
  required : Bool
  index : Nat
  line : Nat
  column : Nat

structure Layout where
  cursor : Cursor
  tokens : Array Token
  /-- The candidate within the innermost brackets, and those of the levels around it. -/
  candidate : Option Candidate
  outer : List (Option Candidate)
  /-- The columns of the open blocks, innermost first. -/
  blocks : List Nat
  /-- Whether a key may start here. -/
  keyAllowed : Bool
  done : Bool

namespace Layout

def start (cs : List Char) : Layout := ⟨.start cs,#[],none,[],[],true,false⟩

def inBrackets (l : Layout) : Bool := !l.outer.isEmpty

/-- The column of the innermost block. -/
def indent (l : Layout) : Int :=
  match l.blocks with
  | [] => -1
  | n :: _ => n

def push (l : Layout) (t : Token) : Layout := { l with tokens := l.tokens.push t }

/-- A candidate must have its colon on the same line, not too far away. -/
def isStale (l : Layout) (k : Candidate) : Bool :=
  k.line != l.cursor.line || l.cursor.index - k.index > 1024

def refresh (l : Layout) : Option Candidate → Except Failure (Option Candidate)
  | none => .ok none
  | some k =>
    if l.isStale k then if k.required then .error .malformed else .ok none else .ok (some k)

def dropStale (l : Layout) : Except Failure Layout := do
  let candidate ← l.refresh l.candidate
  let outer ← l.outer.mapM l.refresh
  return { l with candidate := candidate, outer := outer }

/-- Gives up the candidate of this level. A required one may not be given up. -/
def forget (l : Layout) : Except Failure Layout :=
  match l.candidate with
  | some k => if k.required then .error .malformed else .ok { l with candidate := none }
  | none => .ok l

/-- Remembers what starts here as a candidate, if a key may start here. -/
def remember (l : Layout) : Except Failure Layout :=
  if l.keyAllowed then do
    let l ← l.forget
    let c := l.cursor
    let required := !l.inBrackets && l.indent == c.column
    return { l with candidate := some ⟨l.tokens.size,required,c.index,c.line,c.column⟩ }
  else .ok l

/-- Closes the blocks that lie to the right of a column. -/
def closeTo (l : Layout) (column : Int) : Layout :=
  if l.inBrackets then l
  else
    let closed := l.blocks.takeWhile fun (n : Nat) => decide (column < n)
    { l with
      blocks := l.blocks.drop closed.length
      tokens := l.tokens ++ Array.replicate closed.length .blockEnd }

def opensBlock (l : Layout) (column : Nat) : Bool := decide (l.indent < column)

/-- Opens a block here, outside brackets, if it is indented. -/
def openHere (l : Layout) (t : Token) : Except Failure Layout :=
  if l.inBrackets then .ok l
  else if !l.keyAllowed then .error .malformed
  else
    let column := l.cursor.column
    .ok (if l.opensBlock column then { l.push t with blocks := column :: l.blocks } else l)

def allow (l : Layout) (keyAllowed : Bool) : Layout := { l with keyAllowed := keyAllowed }

/-- Puts an indicator of one character down. -/
def indicator (l : Layout) (t : Token) : Layout := { l.push t with cursor := l.cursor.next }

/-- Blanks, comments and line breaks. Outside brackets a key may start after a line break. -/
def skipSpace : Nat → Layout → Layout
  | 0, l => l
  | fuel + 1, l =>
    let c := l.cursor.skipBlanks.skipComment
    if isBreak c.peek then
      skipSpace fuel { l with cursor := c.lineBreak.2, keyAllowed := l.keyAllowed || !l.inBrackets }
    else { l with cursor := c }

def skipMark (l : Layout) : Layout :=
  if l.cursor.index = 0 && l.cursor.peek == '\ufeff' then { l with cursor := l.cursor.next } else l

/-- Closes everything in front of a directive, a document mark or the end. -/
def closeAll (l : Layout) : Except Failure Layout := do
  let l ← (l.closeTo (-1)).forget
  return l.allow false

def finish (l : Layout) : Except Failure Layout := do
  let l ← l.closeAll
  return { l.push .finished with candidate := none, outer := [], done := true }

def directive (l : Layout) : Except Failure Layout := do
  let l ← l.closeAll
  let (t, c) ← Token.readDirective l.cursor
  return { l.push t with cursor := c }

def marker (l : Layout) (t : Token) : Except Failure Layout := do
  let l ← l.closeAll
  return { l.push t with cursor := l.cursor.skip 3 }

def openBrackets (l : Layout) (t : Token) : Except Failure Layout := do
  let l ← l.remember
  return { (l.allow true).indicator t with candidate := none, outer := l.candidate :: l.outer }

def closeBrackets (l : Layout) (t : Token) : Except Failure Layout := do
  let l ← l.forget
  let l := (l.allow false).indicator t
  match l.outer with
  | [] => return l
  | k :: outer => return { l with candidate := k, outer := outer }

def comma (l : Layout) : Except Failure Layout := do
  let l ← (l.allow true).forget
  return l.indicator .comma

def item (l : Layout) : Except Failure Layout := do
  let l ← l.openHere .blockList
  let l ← (l.allow true).forget
  return l.indicator .item

def key (l : Layout) : Except Failure Layout := do
  let l ← l.openHere .blockMap
  let l ← (l.allow (!l.inBrackets)).forget
  return l.indicator .key

def insertAt (l : Layout) (n : Nat) (t : Token) : Layout :=
  { l with tokens := l.tokens.insertIdxIfInBounds n t }

/-- A colon makes the candidate a key. Without a candidate it stands for itself. -/
def value (l : Layout) : Except Failure Layout :=
  match l.candidate with
  | some k =>
    let l := { (l.insertAt k.number .key).allow false with candidate := none }
    let l :=
      if !l.inBrackets && l.opensBlock k.column then
        { l.insertAt k.number .blockMap with blocks := k.column :: l.blocks }
      else l
    .ok (l.indicator .value)
  | none => do
    let l ← l.openHere .blockMap
    return (l.allow (!l.inBrackets)).indicator .value

/-- A node that may be a key, after which none may start. -/
def node (l : Layout) (read : Cursor → Except Failure (Token × Cursor)) :
    Except Failure Layout := do
  let l ← l.remember
  let (t, c) ← read l.cursor
  return { (l.allow false).push t with cursor := c }

def quoted (l : Layout) (double : Bool) : Except Failure Layout :=
  l.node fun c => do
    let (s, c) ← Quoted.scan double c
    return (.scalar (String.ofList s) false, c)

def block (l : Layout) (folded : Bool) : Except Failure Layout := do
  let l ← (l.allow true).forget
  let (s, c) ← Block.scan folded l.indent l.cursor
  return { l.push (.scalar (String.ofList s) false) with cursor := c }

/-- After a plain scalar a key may start if the scalar ran up to the start of a line. -/
def plain (l : Layout) : Except Failure Layout := do
  let l ← l.remember
  let (s, ended, c) := Plain.scan l.inBrackets l.indent l.cursor
  return { (l.allow ended).push (.scalar (String.ofList s) true) with cursor := c }

def startsPlain (l : Layout) : Bool :=
  let c := l.cursor.peek
  let follows := !isSpace (l.cursor.peekAt 1)
  if c == '-' then follows
  else if c == '?' || c == ':' then follows && !l.inBrackets
  else !isSpace c && !",[]\x7b\x7d#&*!|>'\"%@\x60".toList.contains c

/-- An indicator that must have space after it, but in brackets. -/
def standsAlone (l : Layout) : Bool := l.inBrackets || isSpace (l.cursor.peekAt 1)

def fetch (l : Layout) : Except Failure Layout :=
  let c := l.cursor
  let ch := c.peek
  if isEnd ch then l.finish
  else if ch == '%' && c.column == 0 then l.directive
  else if c.column == 0 && c.atMarker '-' then l.marker .documentStart
  else if c.column == 0 && c.atMarker '.' then l.marker .documentEnd
  else if ch == '[' then l.openBrackets .openList
  else if ch == '\x7b' then l.openBrackets .openMap
  else if ch == ']' then l.closeBrackets .closeList
  else if ch == '\x7d' then l.closeBrackets .closeMap
  else if ch == ',' then l.comma
  else if ch == '-' && isSpace (c.peekAt 1) then l.item
  else if ch == '?' && l.standsAlone then l.key
  else if ch == ':' && l.standsAlone then l.value
  else if ch == '*' then l.node (Token.reference .alias)
  else if ch == '&' then l.node (Token.reference .anchor)
  else if ch == '!' then l.node Token.readTag
  else if ch == '|' && !l.inBrackets then l.block false
  else if ch == '>' && !l.inBrackets then l.block true
  else if ch == '\'' then l.quoted false
  else if ch == '"' then l.quoted true
  else if l.startsPlain then l.plain
  else .error .malformed

/-- The next token, and those that come with it. -/
def step (l : Layout) : Except Failure Layout := do
  let l := l.skipMark.skipSpace (l.cursor.rest.length + 1)
  let l ← l.dropStale
  (l.closeTo l.cursor.column).fetch

/-- How many tokens are settled: none from the first candidate on. -/
def settled (l : Layout) : Nat :=
  (l.candidate :: l.outer).foldl (fun n k => min n ((k.map Candidate.number).getD n)) l.tokens.size

def broken (l : Layout) (f : Failure) : List Token :=
  (l.tokens.toList.take l.settled) ++ [.broken f]

def run : Nat → Layout → List Token
  | 0, l => l.broken .malformed
  | fuel + 1, l =>
    if l.done then l.tokens.toList
    else
      match l.dropStale with
      | .error f => l.broken f
      | .ok l =>
        match l.step with
        | .error f => l.broken f
        | .ok l => run fuel l

end Layout

/-- The tokens of a text. -/
def Token.scan (text : String) : List Token :=
  let cs := text.toList
  if cs.all isPrintable then Layout.run (cs.length + 2) (.start cs) else [.broken .malformed]

end FlagEngine.Yaml
