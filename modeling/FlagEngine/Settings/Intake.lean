import FlagEngine.Catalog.File
import FlagEngine.Client
import FlagEngine.Settings
import FlagEngine.Value.Overlay

/-! Settings from YAML files: a base, and over it those of an environment if its file is there. -/
namespace FlagEngine

namespace Intake

def app : Value → Checked AppSettings :=
  record fun es => AppSettings.mk
    <$> required es "name" string
    <*> field es ["environment"] "development" string

def evaluation : Value → Checked Options :=
  record fun es =>
    (fun enabled qaMode url forced => ⟨enabled,qaMode,forced,url⟩)
      <$> field es ["enabled"] true truth
      <*> field es ["qa_mode"] false truth
      <*> field es ["url"] "" string
      <*> field es ["forced_variations"] [] (dictionary integer)

/-- A depth from 1 to 256. -/
def depth (v : Value) : Checked Int :=
  .ofOption ((integer? v).filter fun n => 1 ≤ n && n ≤ 256)

def catalogSettings : Value → Checked CatalogSettings :=
  record fun es => CatalogSettings.mk
    <$> field es ["path"] "" string
    <*> field es ["decryption_key"] "" string
    <*> field es ["max_condition_depth"] 64 depth

def logFormat : Value → Checked LogFormat
  | .str s => if s = "json" then .good .json else if s = "text" then .good .text else .wrong
  | _ => .wrong

def logSettings : Value → Checked LogSettings :=
  record fun es => LogSettings.mk
    <$> field es ["level"] "INFO" string
    <*> field es ["format"] .json logFormat

def settings : Value → Checked Settings :=
  record fun es => Settings.mk
    <$> required es "app" app
    <*> field es ["evaluation"] .default evaluation
    <*> field es ["catalog"] .none catalogSettings
    <*> field es ["log"] .usual logSettings

end Intake

namespace Settings

/-- The mapping in a settings file. -/
def documentBy (readers : Readers) (path : Path) : Except LoadFailure Value :=
  match readers.text path with
  | .error .unreadable => .error (.error (.settingsUnreadable path.text))
  | .error (.fault f) => .error (.fault f)
  | .ok text =>
    match readers.yamlOrEmpty text with
    | .error .malformed => .error (.error (.settingsNotYaml path.text))
    | .error (.fault f) => .error (.fault f)
    | .ok (.map es) => .ok (.map es)
    | .ok _ => .error (.error (.settingsNotAMapping path.text))

def document (folder : Folder) : Path → Except LoadFailure Value :=
  documentBy (.ofFolder folder none)

/-- The base, with the file of an environment laid over it if there is one. -/
def merged (readers : Readers) (base : Path) (environment : Option Path) :
    Except LoadFailure Value := do
  let v ← documentBy readers base
  match environment with
  | none => return v
  | some path =>
    match readers.has path with
    | .error f => throw (.fault f)
    | .ok true => return v.overlay (← documentBy readers path)
    | .ok false => return v

def loadBy (readers : Readers) (base : Path) (environment : Option Path) :
    Except LoadFailure Settings := do
  match Intake.settings (← merged readers base environment) with
  | .bad wrong => throw (.error (.settingsInvalid wrong))
  | .good s => return s

def load (folder : Folder) : Path → Option Path → Except LoadFailure Settings :=
  loadBy (.ofFolder folder none)

/-- The catalog that the settings point to. -/
def loadCatalog (s : Settings) (folder : Folder) : Loaded (Catalog Float) :=
  if s.catalog.path.isEmpty then (.ok .empty, [])
  else Catalog.load folder (.ofText s.catalog.path) s.catalog.key? s.catalog.maxDepth

end Settings

/-- A client with the catalog and the options of the settings. -/
def Client.load {σ : Type} (s : Settings) (folder : Folder) (store : Option (Store σ))
    (tracker : Option Tracker) : Loaded (Client Float σ) :=
  (s.loadCatalog folder).bind fun c => (.ok ⟨c,⟨store,s.evaluation⟩,tracker⟩, [])

end FlagEngine
