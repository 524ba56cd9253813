import FlagEngine.Text.Utf8
import FlagEngine.Yaml.Cursor

/-! Scalars in their five written forms. Within a scalar, one line break between two lines is a
blank and further ones stay; literal blocks keep every break. -/
namespace FlagEngine.Yaml

/-- Line breaks joined in the folded way: the first one is a blank unless others follow it. -/
def foldBreaks (first : List Char) (others : List (List Char)) : List Char :=
  (if first != ['\n'] then first else if others.isEmpty then [' '] else []) ++ others.flatten

namespace Quoted

/-- Line breaks and indentation up to the next line with text. Separators may not interrupt. -/
def breaks : Nat → Cursor → Except Failure (List (List Char) × Cursor)
  | 0, _ => .error .malformed
  | fuel + 1, c =>
    if c.atSeparator then .error .malformed
    else
      let c := c.skipWhile fun ch => ch == ' ' || ch == '\t'
      if isBreak c.peek then do
        let (b, c) := c.lineBreak
        let (bs, c) ← breaks fuel c
        return (b :: bs, c)
      else .ok ([], c)

def escape? : Char → Option Char
  | '0' => some '\x00'
  | 'a' => some '\x07'
  | 'b' => some '\x08'
  | 't' => some '\t'
  | '\t' => some '\t'
  | 'n' => some '\n'
  | 'v' => some '\x0b'
  | 'f' => some '\x0c'
  | 'r' => some '\r'
  | 'e' => some '\x1b'
  | ' ' => some ' '
  | '"' => some '"'
  | '\\' => some '\\'
  | '/' => some '/'
  | 'N' => some '\u0085'
  | '_' => some '\u00a0'
  | 'L' => some '\u2028'
  | 'P' => some '\u2029'
  | _ => none

def codeLength? : Char → Option Nat
  | 'x' => some 2
  | 'u' => some 4
  | 'U' => some 8
  | _ => none

/-- A character by its code. Codes beyond all characters are faults, of two kinds, and so are those
of half a pair. -/
def character (n : Nat) : Except Failure Char :=
  if 0xd800 ≤ n ∧ n < 0xe000 then .error (.fault .loneHalf)
  else if n < 0x110000 then .ok (Char.ofNat n)
  else if n < 0x80000000 then .error (.fault .impossibleCharacter)
  else .error (.fault .hugeCharacter)

/-- What follows a backslash. -/
def escape (c : Cursor) (fuel : Nat) : Except Failure (List Char × Cursor) :=
  match escape? c.peek with
  | some ch => .ok ([ch], c.next)
  | none =>
    match codeLength? c.peek with
    | some n =>
      let c := c.next
      let ds := c.rest.take n
      if ds.length = n && ds.all isHexDigit then do
        let ch ← character (hexValue ds)
        return ([ch], c.skip n)
      else .error .malformed
    | none =>
      if isBreak c.peek then do
        let (bs, c) ← breaks fuel c.lineBreak.2
        return (bs.flatten, c)
      else .error .malformed

def isSpecial (ch : Char) : Bool := ch == '\'' || ch == '"' || ch == '\\' || isSpace ch

/-- Text up to a space or the closing quote. -/
def words (double : Bool) : Nat → Cursor → Except Failure (List Char × Cursor)
  | 0, _ => .error .malformed
  | fuel + 1, c => do
    let (run, c) := c.span (!isSpecial ·)
    let ch := c.peek
    if !double && ch == '\'' && c.peekAt 1 == '\'' then
      let (more, c) ← words double fuel (c.skip 2)
      return (run ++ '\'' :: more, c)
    else if (double && ch == '\'') || (!double && (ch == '"' || ch == '\\')) then
      let (more, c) ← words double fuel c.next
      return (run ++ ch :: more, c)
    else if double && ch == '\\' then
      let (e, c) ← escape c.next fuel
      let (more, c) ← words double fuel c
      return (run ++ e ++ more, c)
    else return (run, c)

def spaces (c : Cursor) (fuel : Nat) : Except Failure (List Char × Cursor) := do
  let (run, c) := c.span fun ch => ch == ' ' || ch == '\t'
  if isEnd c.peek then throw .malformed
  else if isBreak c.peek then
    let (b, c) := c.lineBreak
    let (bs, c) ← breaks fuel c
    return (foldBreaks b bs, c)
  else return (run, c)

def rest (double : Bool) (quote : Char) : Nat → Cursor → Except Failure (List Char × Cursor)
  | 0, _ => .error .malformed
  | fuel + 1, c => do
    if c.peek == quote then return ([], c.next)
    let (s, c) ← spaces c fuel
    let (w, c) ← words double fuel c
    let (more, c) ← rest double quote fuel c
    return (s ++ w ++ more, c)

/-- A scalar in single or double quotes, from its opening quote. -/
def scan (double : Bool) (c : Cursor) : Except Failure (List Char × Cursor) := do
  let fuel := c.rest.length + 2
  let quote := c.peek
  let (w, c) ← words double fuel c.next
  let (more, c) ← rest double quote fuel c
  return (w ++ more, c)

end Quoted

namespace Block

/-- What becomes of the line breaks at the end. -/
inductive Chomp
  | clip
  | strip
  | keep
  deriving DecidableEq, Repr

def chomp? : Char → Option Chomp
  | '+' => some .keep
  | '-' => some .strip
  | _ => none

/-- An indentation digit, not zero, if there is one. -/
def indentation (c : Cursor) : Except Failure (Option Nat × Cursor) :=
  let ch := c.peek
  if ch == '0' then .error .malformed
  else if ch.isDigit then .ok (some (ch.toNat - 48), c.next)
  else .ok (none, c)

/-- The indicators after the bar or the angle, in either order. -/
def header (c : Cursor) : Except Failure (Chomp × Option Nat × Cursor) := do
  let (chomp, increment, c) ←
    match chomp? c.peek with
    | some chomp => do
      let (n, c) ← indentation c.next
      pure (chomp, n, c)
    | none => do
      let (n, c) ← indentation c
      match n, chomp? c.peek with
      | some n, some chomp => pure (chomp, some n, c.next)
      | n, _ => pure (Chomp.clip, n, c)
  if !isGap c.peek then throw .malformed
  return (chomp, increment, ← c.finishLine)

/-- Empty lines before the first text, and the widest of their indentations. -/
def leading : Nat → Nat → Cursor → List (List Char) × Nat × Cursor
  | 0, widest, c => ([], widest, c)
  | fuel + 1, widest, c =>
    if c.peek == ' ' then
      let c := c.next
      leading fuel (max widest c.column) c
    else if isBreak c.peek then
      let (b, c) := c.lineBreak
      let (bs, widest, c) := leading fuel widest c
      (b :: bs, widest, c)
    else ([], widest, c)

def indent : Nat → Nat → Cursor → Cursor
  | 0, _, c => c
  | fuel + 1, width, c =>
    if c.column < width && c.peek == ' ' then indent fuel width c.next else c

/-- Empty lines between texts. -/
def breaks (width : Nat) : Nat → Cursor → List (List Char) × Cursor
  | 0, c => ([], c)
  | fuel + 1, c =>
    let c := indent width width c
    if isBreak c.peek then
      let (b, c) := c.lineBreak
      let (bs, c) := breaks width fuel c
      (b :: bs, c)
    else ([], c)

def isBlankStart (ch : Char) : Bool := ch == ' ' || ch == '\t'

/-- The lines of text, with the empty lines before them; at last the break after the last line and
the empty lines at the end. -/
def lines (folded : Bool) (width : Nat) : Nat → List (List Char) → Cursor →
    List Char × List Char × List (List Char) × Cursor
  | 0, bs, c => ([], [], bs, c)
  | fuel + 1, bs, c =>
    if c.column == width && !isEnd c.peek then
      let textStart := !isBlankStart c.peek
      let (line, c) := c.span (!isBreakOrEnd ·)
      let (b, c) := c.lineBreak
      let (next, c) := breaks width fuel c
      let before := bs.flatten ++ line
      if c.column == width && !isEnd c.peek then
        let joint :=
          if folded && b == ['\n'] && textStart && !isBlankStart c.peek then
            if next.isEmpty then [' '] else []
          else b
        let (more, last, tail, c) := lines folded width fuel next c
        (before ++ joint ++ more, last, tail, c)
      else (before, b, next, c)
    else ([], [], bs, c)

/-- A block scalar from its bar or angle, inside a block of the given indentation. -/
def scan (folded : Bool) (outer : Int) (c : Cursor) : Except Failure (List Char × Cursor) := do
  let fuel := c.rest.length + 2
  let (chomp, increment, c) ← header c.next
  let least := (max (outer + 1) 1).toNat
  let (width, bs, c) :=
    match increment with
    | some n =>
      let width := least + n - 1
      let (bs, c) := breaks width fuel c
      (width, bs, c)
    | none =>
      let (bs, widest, c) := leading fuel 0 c
      (max least widest, bs, c)
  let (text, last, tail, c) := lines folded width fuel bs c
  let ending :=
    match chomp with
    | .strip => []
    | .clip => last
    | .keep => last ++ tail.flatten
  return (text ++ ending, c)

end Block

namespace Plain

def isFlowMark (ch : Char) : Bool :=
  ch == ',' || ch == '[' || ch == ']' || ch == '\x7b' || ch == '\x7d'

/-- Characters of a plain scalar up to a space or an indicator. -/
def run (flow : Bool) : List Char → List Char
  | [] => []
  | ch :: rest =>
    let next := rest.headD '\x00'
    if isSpace ch || (ch == ':' && (isSpace next || (flow && isFlowMark next)))
        || (flow && (isFlowMark ch || ch == '?')) then []
    else ch :: run flow rest

/-- Empty lines and indentation after a line break; none if a separator comes. -/
def breaks : Nat → Cursor → Option (List (List Char)) × Cursor
  | 0, c => (some [], c)
  | fuel + 1, c =>
    if c.peek == ' ' then breaks fuel c.next
    else if isBreak c.peek then
      let (b, c) := c.lineBreak
      if c.atSeparator then (none, c)
      else
        let (bs?, c) := breaks fuel c
        (bs?.map (b :: ·), c)
    else (some [], c)

/-- What lies between two runs; none if nothing may follow. The flag says that a line ended. -/
def gap (fuel : Nat) (c : Cursor) : Option (List Char) × Bool × Cursor :=
  let (blanks, c) := c.span (· == ' ')
  if isBreak c.peek then
    let (b, c) := c.lineBreak
    if c.atSeparator then (none, true, c)
    else
      let (bs?, c) := breaks fuel c
      (bs?.map (foldBreaks b), true, c)
  else (if blanks.isEmpty then none else some blanks, false, c)

/-- The runs of a plain scalar with the gaps between them. The flag says whether the scalar ended
at the start of a line. -/
def runs (flow : Bool) (width : Int) : Nat → Bool → List Char → Cursor →
    List Char × Bool × Cursor
  | 0, ended, _, c => ([], ended, c)
  | fuel + 1, ended, before, c =>
    if c.peek == '#' then ([], ended, c)
    else
      let r := run flow c.rest
      if r.isEmpty then ([], ended, c)
      else
        let (gap?, ended, c) := gap fuel (c.skip r.length)
        match gap? with
        | none => (before ++ r, ended, c)
        | some g =>
          if c.peek == '#' || (!flow && (c.column : Int) < width) then (before ++ r, ended, c)
          else
            let (more, ended, c) := runs flow width fuel ended g c
            (before ++ r ++ more, ended, c)

def scan (flow : Bool) (indent : Int) (c : Cursor) : List Char × Bool × Cursor :=
  runs flow (indent + 1) (c.rest.length + 1) false [] c

end Plain
end FlagEngine.Yaml
