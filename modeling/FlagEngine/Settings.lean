import FlagEngine.Assignment

/-! The settings of an engine: what it is for, how it evaluates, where its catalog is, and how it
logs. -/
namespace FlagEngine

structure AppSettings where
  name : String
  environment : String

/-- An empty path means no catalog, and an empty key no key. -/
structure CatalogSettings where
  path : String
  key : String
  maxDepth : Int

inductive LogFormat
  | json
  | text
  deriving DecidableEq, Repr

structure LogSettings where
  level : String
  format : LogFormat

structure Settings where
  app : AppSettings
  evaluation : Options
  catalog : CatalogSettings
  log : LogSettings

def LogFormat.name : LogFormat → String
  | .json => "json"
  | .text => "text"

namespace CatalogSettings

def none : CatalogSettings := ⟨"","",64⟩

def key? (c : CatalogSettings) : Option String := if c.key.isEmpty then .none else some c.key

end CatalogSettings

def LogSettings.usual : LogSettings := ⟨"INFO",.json⟩

end FlagEngine
