import FlagEngine.Fault

/-! A place in YAML text: what is left of it, and where that stands. At the end of the text the next
character reads as NUL, which the text itself never contains. -/
namespace FlagEngine.Yaml

/-- Text that is no document, or a fault in reading it. -/
inductive Failure
  | malformed
  | fault (f : Fault)
  deriving DecidableEq, Repr

structure Cursor where
  rest : List Char
  index : Nat
  line : Nat
  column : Nat

def isBreak (c : Char) : Bool :=
  c == '\n' || c == '\r' || c == '\u0085' || c == '\u2028' || c == '\u2029'

def isEnd (c : Char) : Bool := c == '\x00'

def isBreakOrEnd (c : Char) : Bool := isBreak c || isEnd c

/-- Blank, tab, line break or end. -/
def isSpace (c : Char) : Bool := c == ' ' || c == '\t' || isBreakOrEnd c

/-- Blank, line break or end. -/
def isGap (c : Char) : Bool := c == ' ' || isBreakOrEnd c

def isNameChar (c : Char) : Bool := c.isAlphanum || c == '-' || c == '_'

def isHexDigit (c : Char) : Bool := c.isDigit || ('a' ≤ c && c ≤ 'f') || ('A' ≤ c && c ≤ 'F')

def hexDigit (c : Char) : Nat :=
  if c.isDigit then c.toNat - 48 else if c.toNat ≥ 97 then c.toNat - 87 else c.toNat - 55

def hexValue (cs : List Char) : Nat := cs.foldl (fun n c => 16 * n + hexDigit c) 0

/-- Characters that a document may contain as they are. -/
def isPrintable (c : Char) : Bool :=
  let n := c.toNat
  n == 9 || n == 10 || n == 13 || (0x20 ≤ n && n ≤ 0x7e) || n == 0x85 || (0xa0 ≤ n && n ≤ 0xfffd)
    || 0x10000 ≤ n

namespace Cursor

def start (cs : List Char) : Cursor := ⟨cs,0,0,0⟩

def peek (c : Cursor) : Char := c.rest.headD '\x00'

def peekAt (c : Cursor) (n : Nat) : Char := c.rest.getD n '\x00'

/-- One character on. A byte order mark has no width. -/
def next (c : Cursor) : Cursor :=
  match c.rest with
  | [] => c
  | ch :: rest =>
    if isBreak ch && !(ch == '\r' && rest.head? == some '\n') then ⟨rest,c.index + 1,c.line + 1,0⟩
    else if ch == '\ufeff' then ⟨rest,c.index + 1,c.line,c.column⟩
    else ⟨rest,c.index + 1,c.line,c.column + 1⟩

def skip : Nat → Cursor → Cursor
  | 0, c => c
  | n + 1, c => skip n c.next

def takeWhile (c : Cursor) (p : Char → Bool) : List Char := c.rest.takeWhile p

/-- A run of characters of a kind, and the place after it. -/
def span (c : Cursor) (p : Char → Bool) : List Char × Cursor :=
  let s := c.takeWhile p
  (s, c.skip s.length)

def skipWhile (c : Cursor) (p : Char → Bool) : Cursor := (c.span p).2

def skipBlanks (c : Cursor) : Cursor := c.skipWhile (· == ' ')

/-- A line break as it counts in a scalar: all but the two Unicode separators are line feeds. -/
def lineBreak (c : Cursor) : List Char × Cursor :=
  let ch := c.peek
  if ch == '\r' && c.peekAt 1 == '\n' then (['\n'], c.skip 2)
  else if ch == '\n' || ch == '\r' || ch == '\u0085' then (['\n'], c.next)
  else if ch == '\u2028' || ch == '\u2029' then ([ch], c.next)
  else ([], c)

/-- Three dashes, or three dots, with space after them. -/
def atMarker (c : Cursor) (mark : Char) : Bool :=
  c.rest.take 3 == [mark,mark,mark] && isSpace (c.peekAt 3)

def atSeparator (c : Cursor) : Bool := c.atMarker '-' || c.atMarker '.'

/-- Skips a comment, if one starts here. -/
def skipComment (c : Cursor) : Cursor :=
  if c.peek == '#' then c.skipWhile (!isBreakOrEnd ·) else c

/-- Skips the rest of a line that may hold nothing but a comment. -/
def finishLine (c : Cursor) : Except Failure Cursor :=
  let c := c.skipBlanks.skipComment
  if isBreakOrEnd c.peek then .ok c.lineBreak.2 else .error .malformed

end Cursor
end FlagEngine.Yaml
