import FlagEngine.Value

/-! Version strings in a form whose alphabetical order is their precedence: numeric parts are
padded to a common width, and a release of three parts gets a last part above any pre-release. -/
namespace FlagEngine.Version

def dropLead : List Char → List Char
  | 'v' :: cs => cs
  | cs => cs

/-- Whether build metadata may start here: nothing but a last line break follows on a new line. -/
def endsLine : List Char → Bool
  | [] => true
  | ['\n'] => true
  | '\n' :: _ => false
  | _ :: cs => endsLine cs

def lineEnd (cs : List Char) : List Char := if cs.getLast? = some '\n' then ['\n'] else []

def dropBuild : List Char → List Char
  | [] => []
  | c :: cs => if c = '+' && endsLine cs then lineEnd cs else c :: dropBuild cs

def isSeparator (c : Char) : Bool := c == '-' || c == '.'

/-- The non-empty parts between separators. -/
def parts (cs : List Char) : List (List Char) :=
  (cs.splitOnP isSeparator).filter (!·.isEmpty)

def width : Nat := 5

def pad (part : List Char) : List Char :=
  if part.all Char.isDigit then List.replicate (width - part.length) ' ' ++ part else part

def join : List (List Char) → List Char
  | [] => []
  | [p] => p
  | p :: ps => p ++ '-' :: join ps

def normal (cs : List Char) : List Char :=
  let ps := parts (dropBuild (dropLead cs))
  join ((if ps.length = 3 then ps ++ [['~']] else ps).map pad)

def padded (s : String) : String := String.ofList (normal s.toList)

end FlagEngine.Version
