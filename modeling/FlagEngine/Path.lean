/-! Paths of files: a root and the parts between slashes. Empty parts and parts that stay where they
are do not count; steps upwards are kept. -/
namespace FlagEngine

structure Path where
  /-- Nothing, or the slashes of an absolute path. -/
  root : String
  parts : List String
  deriving DecidableEq, Repr

namespace Path

/-- Two slashes in front are a root of their own, more of them are as good as one. -/
def rootOf : List Char → String
  | '/' :: '/' :: '/' :: _ => "/"
  | '/' :: '/' :: _ => "//"
  | '/' :: _ => "/"
  | _ => ""

def counts (part : List Char) : Bool := !part.isEmpty && part != ['.']

def ofText (s : String) : Path :=
  let cs := s.toList
  ⟨rootOf cs,((cs.splitOnP (· == '/')).filter counts).map String.ofList⟩

def text (p : Path) : String :=
  let s := p.root ++ "/".intercalate p.parts
  if s.isEmpty then "." else s

def name (p : Path) : String := p.parts.getLastD ""

/-- The last dot of the name and what follows, if the dot stands neither first nor last. -/
def suffix (p : Path) : String :=
  let (ending, stem) := p.name.toList.reverse.span (· != '.')
  if ending.isEmpty || stem.length < 2 then "" else String.ofList ('.' :: ending.reverse)

def isJson (p : Path) : Bool := p.suffix == ".json"

def isRelative (p : Path) : Bool := p.root.isEmpty

end Path
end FlagEngine
