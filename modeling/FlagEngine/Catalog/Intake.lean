import FlagEngine.Catalog
import FlagEngine.Cipher.Sealed
import FlagEngine.Error
import FlagEngine.Json
import FlagEngine.Rule.Intake

/-! Reading a catalog from a payload. The payload holds the features as they are, or sealed, or it
is itself the mapping of the features. -/
namespace FlagEngine

/-- The fields of a payload, features not yet compiled. -/
structure RawCatalog where
  features : List (String × RawFeature)
  sealedFeatures : Option String
  dateUpdated : Option String

def Intake.rawCatalog (es : Entries) : Checked RawCatalog :=
  RawCatalog.mk
    <$> field es ["features"] [] (dictionary rawFeature)
    <*> field es ["encryptedFeatures","encrypted_features"] none (nullable string)
    <*> field es ["dateUpdated","date_updated"] none (nullable string)

/-- The outcome of loading with what was noted on the way. -/
abbrev Loaded (α : Type) := Except LoadFailure α × List Event

namespace Loaded

variable {α β : Type}

def ofError (e : EngineError) : Loaded α := (.error (.error e), [])

def ofFault (f : Fault) : Loaded α := (.error (.fault f), [])

def bind (x : Loaded α) (f : α → Loaded β) : Loaded β :=
  match x with
  | (.error e, notes) => (.error e, notes)
  | (.ok a, notes) =>
    let (b, more) := f a
    (b, notes ++ more)

end Loaded

namespace Catalog

/-- Compiles features in order, up to the first fault. -/
def compileAll (limit : Int) : List (String × RawFeature) → Noted (List (Feature Float))
  | [] => (.ok [], [])
  | (key, raw) :: rest =>
    match Feature.compile key raw limit with
    | (.error f, notes) => (.error f, notes)
    | (.ok feature, notes) =>
      let (features, more) := compileAll limit rest
      (features.map (feature :: ·), notes ++ more)

def compile (limit : Int) (raw : List (String × RawFeature)) : Loaded (Catalog Float) :=
  match compileAll limit raw with
  | (.error f, notes) => (.error (.fault f), notes)
  | (.ok features, notes) => (.ok ⟨features⟩, notes ++ [.catalogParsed features.length])

/-- A payload without the entries of a catalog is the mapping of its features. -/
def wrapped (es : Entries) : Entries :=
  if es.has (.str "features") || es.has (.str "encryptedFeatures") then es
  else [(.str "features",.map es)]

/-- Reads features that come as they are. -/
def readFeatures (features : Value) (limit : Int) : Loaded (Catalog Float) :=
  match Intake.rawCatalog [(.str "features",features)] with
  | .bad wrong => .ofError (.catalogInvalid wrong)
  | .good raw => compile limit raw.features

/-- Unseals features and reads them. An empty key is no key. -/
def readSealed (json : Json.Reader) (sealedFeatures : String) (key : Option String)
    (limit : Int) : Loaded (Catalog Float) :=
  match key with
  | none => .ofError .keyMissing
  | some key =>
    if key.isEmpty then .ofError .keyMissing
    else
      match Cipher.unseal? sealedFeatures key with
      | none => .ofError .undecryptable
      | some text =>
        match json text with
        | .error .malformed => .ofError .unsealedNotJson
        | .error (.fault f) => .ofFault f
        | .ok features => readFeatures features limit

/-- Reads a payload. Sealed features count before open ones, and need a reader of JSON. -/
def readBy (json : Json.Reader) (payload : Value) (key : Option String) (limit : Int) :
    Loaded (Catalog Float) :=
  match payload with
  | .map es =>
    match Intake.rawCatalog (wrapped es) with
    | .bad wrong => .ofError (.catalogInvalid wrong)
    | .good raw =>
      match raw.sealedFeatures with
      | some s => readSealed json s key limit
      | none => compile limit raw.features
  | v => .ofError (.catalogNotAnObject v.className)

def read : Value → Option String → Int → Loaded (Catalog Float) := readBy Json.read

end Catalog
end FlagEngine
