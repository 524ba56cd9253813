import FlagEngine.Fault
import FlagEngine.Intake.Checked

/-! Why a catalog or the settings of an engine cannot be had. A code says at which step it failed,
and where a document has the wrong shape the error knows all the places that are wrong. -/
namespace FlagEngine

inductive EngineError
  | catalogUnreadable (path : String)
  | catalogNotJson (path : String)
  | catalogNotYaml (path : String)
  | catalogNotAnObject (className : String)
  | catalogInvalid (wrong : List Location)
  /-- Features are sealed and nobody gave a key. -/
  | keyMissing
  | undecryptable
  | unsealedNotJson
  | settingsUnreadable (path : String)
  | settingsNotYaml (path : String)
  | settingsNotAMapping (path : String)
  | settingsInvalid (wrong : List Location)
  deriving DecidableEq, Repr

namespace EngineError

def code : EngineError → String
  | .catalogUnreadable _ => "CATALOG_READ_ERROR"
  | .catalogNotJson _ => "CATALOG_PARSE_ERROR"
  | .catalogNotYaml _ => "CATALOG_PARSE_ERROR"
  | .catalogNotAnObject _ => "CATALOG_VALIDATION_ERROR"
  | .catalogInvalid _ => "CATALOG_VALIDATION_ERROR"
  | .keyMissing => "CATALOG_DECRYPT_ERROR"
  | .undecryptable => "CATALOG_DECRYPT_ERROR"
  | .unsealedNotJson => "CATALOG_PARSE_ERROR"
  | .settingsUnreadable _ => "CONFIG_READ_ERROR"
  | .settingsNotYaml _ => "CONFIG_PARSE_ERROR"
  | .settingsNotAMapping _ => "CONFIG_PARSE_ERROR"
  | .settingsInvalid _ => "CONFIG_VALIDATION_ERROR"

def message : EngineError → String
  | .catalogUnreadable path => "Failed to read catalog file: " ++ path
  | .catalogNotJson path => "Failed to parse JSON: " ++ path
  | .catalogNotYaml path => "Failed to parse YAML: " ++ path
  | .catalogNotAnObject name => "Catalog must be an object, got " ++ name
  | .catalogInvalid _ => "Catalog validation failed"
  | .keyMissing => "Found encrypted features but no decryption key is set"
  | .undecryptable => "Failed to decrypt features"
  | .unsealedNotJson => "Failed to parse decrypted features"
  | .settingsUnreadable path => "Failed to read config file: " ++ path
  | .settingsNotYaml path => "Failed to parse YAML: " ++ path
  | .settingsNotAMapping path => "Config root must be a mapping: " ++ path
  | .settingsInvalid _ => "Config validation failed"

def text (e : EngineError) : String := e.code ++ ": " ++ e.message

/-- The places that are wrong, where it is a matter of places. -/
def wrong? : EngineError → Option (List Location)
  | .catalogInvalid wrong => some wrong
  | .settingsInvalid wrong => some wrong
  | _ => none

end EngineError

/-- What ends a loading: an error of the engine, or a fault below it. -/
inductive LoadFailure
  | error (e : EngineError)
  | fault (f : Fault)
  deriving DecidableEq, Repr

end FlagEngine
