import FlagEngine.Catalog.Intake
import FlagEngine.Folder
import FlagEngine.Yaml.Document

/-! Catalogs in files: JSON if the name says so, else YAML. What lies below, the files and the
languages, is behind readers of any behaviour. -/
namespace FlagEngine

/-- How files and texts are read. A reader gives what it reads, refuses what is none, which loading
answers for, or ends in a fault. -/
structure Readers where
  text : Path → Except Folder.Refusal String
  has : Path → Except Fault Bool
  json : Json.Reader
  yaml : String → Except Yaml.Failure Value

namespace Readers

/-- The readers of a folder, with room for so many levels of JSON. -/
def ofFolder (folder : Folder) (room : Option Nat) : Readers where
  text := folder.readText
  has := folder.has
  json := Json.readWithin room
  yaml := Yaml.read

/-- A YAML document that is null or empty, of whatever kind, counts as a mapping without entries. -/
def yamlOrEmpty (readers : Readers) (text : String) : Except Yaml.Failure Value :=
  (readers.yaml text).map Value.orEmpty

end Readers

namespace Catalog

/-- The payload in a file. -/
def payload (readers : Readers) (path : Path) : Except LoadFailure Value :=
  match readers.text path with
  | .error .unreadable => .error (.error (.catalogUnreadable path.text))
  | .error (.fault f) => .error (.fault f)
  | .ok text =>
    if path.isJson then
      match readers.json text with
      | .error .malformed => .error (.error (.catalogNotJson path.text))
      | .error (.fault f) => .error (.fault f)
      | .ok v => .ok v
    else
      match readers.yamlOrEmpty text with
      | .error .malformed => .error (.error (.catalogNotYaml path.text))
      | .error (.fault f) => .error (.fault f)
      | .ok v => .ok v

def loadBy (readers : Readers) (path : Path) (key : Option String) (limit : Int) :
    Loaded (Catalog Float) :=
  match payload readers path with
  | .error e => (.error e, [])
  | .ok v =>
    (readBy readers.json v key limit).bind fun c => (.ok c, [.catalogLoaded path.text c.size])

def load (folder : Folder) : Path → Option String → Int → Loaded (Catalog Float) :=
  loadBy (.ofFolder folder none)

end Catalog
end FlagEngine
