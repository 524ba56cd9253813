import FlagEngine.Fault
import FlagEngine.Url.Host

/-! The query of a URL. Leading control characters and blanks, and tabs and line breaks anywhere,
are dropped; then a scheme, an authority after two slashes, and a fragment are set aside. -/
namespace FlagEngine.Url

def isControlOrBlank (c : Char) : Bool := c.val ≤ 0x20

def isDropped (c : Char) : Bool := c == '\t' || c == '\r' || c == '\n'

def clean (cs : List Char) : List Char :=
  (cs.dropWhile isControlOrBlank).filter (!isDropped ·)

def isSchemeChar (c : Char) : Bool := c.isAlphanum || c == '+' || c == '-' || c == '.'

/-- What follows the scheme, if there is one. -/
def afterScheme (cs : List Char) : List Char :=
  match cs.span (· != ':') with
  | (c :: scheme, ':' :: rest) => if c.isAlpha && scheme.all isSchemeChar then rest else cs
  | _ => cs

def endsAuthority (c : Char) : Bool := c == '/' || c == '?' || c == '#'

/-- The authority, and what follows it. -/
def authority : List Char → List Char × List Char
  | '/' :: '/' :: rest => rest.span (!endsAuthority ·)
  | cs => ([], cs)

/-- Characters whose compatibility form contains a delimiter. -/
def hidesDelimiter (c : Char) : Bool :=
  [0x2047,0x2048,0x2049,0x2100,0x2101,0x2105,0x2106,0x2a74,0xfe13,0xfe16,0xfe55,0xfe56,0xfe5f,
    0xfe6b,0xff03,0xff0f,0xff1a,0xff1f,0xff20].contains c.toNat

/-- Brackets come in pairs around an address, and no character hides a delimiter. -/
def isAuthority (cs : List Char) : Bool :=
  let opens := cs.contains '['
  let closes := cs.contains ']'
  opens == closes
    && (!opens || isBracketed (((cs.dropWhile (· != '[')).drop 1).takeWhile (· != ']')))
    && !cs.any hidesDelimiter

/-- What stands between the first question mark and a fragment. -/
def queryPart (cs : List Char) : List Char :=
  ((cs.takeWhile (· != '#')).dropWhile (· != '?')).drop 1

def query (cs : List Char) : Except Fault (List Char) :=
  let (host, rest) := authority (afterScheme (clean cs))
  if isAuthority host then .ok (queryPart rest) else .error .malformedUrl

end FlagEngine.Url
