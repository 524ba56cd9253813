import FlagEngine.Number.Literal
import FlagEngine.Text.Utf8
import FlagEngine.Yaml.Cursor

/-! Tokens: indicators, the marks that indentation leaves, names, tags, directives and scalars.
Where the text stops making sense the tokens end with the failure itself. -/
namespace FlagEngine.Yaml

inductive Directive
  | version (major : Nat)
  /-- A handle and what it stands for at the beginning of tags. -/
  | handle (name stem : String)
  | other
  deriving DecidableEq, Repr

inductive Token
  | directive (d : Directive)
  | documentStart
  | documentEnd
  | blockList
  | blockMap
  | blockEnd
  | openList
  | closeList
  | openMap
  | closeMap
  | comma
  | item
  | key
  | value
  | alias (name : String)
  | anchor (name : String)
  | tag (handle : Option String) (suffix : String)
  | scalar (text : String) (plain : Bool)
  | finished
  | broken (f : Failure)
  deriving DecidableEq, Repr

namespace Token

/-- A name as anchors and directives have one. -/
def name (c : Cursor) : Except Failure (String × Cursor) :=
  let (s, c) := c.span isNameChar
  if s.isEmpty then .error .malformed else .ok (String.ofList s, c)

/-- What may stand right after the name of an anchor. -/
def closesAnchor (ch : Char) : Bool := isSpace ch || "?:,]\x7d%@\x60".toList.contains ch

/-- An anchor or an alias without its mark. -/
def reference (make : String → Token) (c : Cursor) : Except Failure (Token × Cursor) := do
  let (s, c) ← name c.next
  if closesAnchor c.peek then return (make s, c) else throw .malformed

/-- The bytes behind percent signs, as many as follow each other. -/
def escapedBytes : Nat → Cursor → Except Failure (List UInt8 × Cursor)
  | 0, c => .ok ([], c)
  | fuel + 1, c =>
    if c.peek != '%' then .ok ([], c)
    else
      let ds := c.next.rest.take 2
      if ds.length = 2 && ds.all isHexDigit then do
        let (bs, c) ← escapedBytes fuel (c.skip 3)
        return (UInt8.ofNat (hexValue ds) :: bs, c)
      else throw .malformed

def isUriChar (ch : Char) : Bool := ch.isAlphanum || "-;/?:@&=+$,_.!~*'()[]".toList.contains ch

def uriParts : Nat → Cursor → Except Failure (List Char × Cursor)
  | 0, c => .ok ([], c)
  | fuel + 1, c => do
    let (s, c) := c.span isUriChar
    if c.peek != '%' then return (s, c)
    let (bs, c) ← escapedBytes fuel c
    match Utf8.decode? bs with
    | none => throw .malformed
    | some e =>
      let (more, c) ← uriParts fuel c
      return (s ++ e ++ more, c)

/-- A part of a tag, not empty. -/
def uri (c : Cursor) : Except Failure (String × Cursor) :=
  if isUriChar c.peek || c.peek == '%' then do
    let (s, c') ← uriParts (c.rest.length + 1) c
    return (String.ofList s, c')
  else .error .malformed

/-- An exclamation mark, or two with a name between them. -/
def handle (c : Cursor) : Except Failure (String × Cursor) :=
  if c.peek != '!' then .error .malformed
  else if c.peekAt 1 == ' ' then .ok ("!", c.next)
  else
    let (s, c) := c.next.span isNameChar
    if c.peek == '!' then .ok (String.ofList ('!' :: s ++ ['!']), c.next) else .error .malformed

/-- Whether a tag begins with a handle, that is, has a second exclamation mark. -/
def hasHandle (c : Cursor) : Bool := (c.next.takeWhile (!isGap ·)).contains '!'

def tagParts (c : Cursor) : Except Failure (Option String × String × Cursor) :=
  if c.peekAt 1 == '<' then do
    let (s, c) ← uri (c.skip 2)
    if c.peek == '>' then return (none, s, c.next) else throw .malformed
  else if isSpace (c.peekAt 1) then .ok (none, "!", c.next)
  else if hasHandle c then do
    let (h, c) ← handle c
    let (s, c) ← uri c
    return (some h, s, c)
  else do
    let (s, c) ← uri c.next
    return (some "!", s, c)

def readTag (c : Cursor) : Except Failure (Token × Cursor) := do
  let (h, s, c) ← tagParts c
  if isGap c.peek then return (.tag h s, c) else throw .malformed

/-- A part of a version. -/
def versionNumber (c : Cursor) : Except Failure (Nat × Cursor) :=
  let (ds, c) := c.span Char.isDigit
  if ds.isEmpty then .error .malformed
  else if ds.length > Number.maxDigits then .error (.fault .overlongInteger)
  else .ok (Literal.natOf ds, c)

def versionDirective (c : Cursor) : Except Failure (Directive × Cursor) := do
  let (major, c) ← versionNumber c.skipBlanks
  if c.peek != '.' then throw .malformed
  let (_, c) ← versionNumber c.next
  if isGap c.peek then return (.version major, c) else throw .malformed

def handleDirective (c : Cursor) : Except Failure (Directive × Cursor) := do
  let (h, c) ← handle c.skipBlanks
  if c.peek != ' ' then throw .malformed
  let (s, c) ← uri c.skipBlanks
  if isGap c.peek then return (.handle h s, c) else throw .malformed

def readDirective (c : Cursor) : Except Failure (Token × Cursor) := do
  let (s, c) ← name c.next
  if !isGap c.peek then throw .malformed
  let (d, c) ←
    if s = "YAML" then versionDirective c
    else if s = "TAG" then handleDirective c
    else pure (Directive.other, c.skipWhile (!isBreakOrEnd ·))
  return (.directive d, ← c.finishLine)

end Token
end FlagEngine.Yaml
