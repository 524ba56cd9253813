import FlagEngine.Event
import FlagEngine.Settings
import FlagEngine.Value.Kind

/-! Where log lines go. There is one output for the whole program, and the first attempt to set it
up decides from which weight on lines are written; every logger decides when it is first used how
its lines are written. -/
namespace FlagEngine

namespace Severity

/-- What the name of a level stands for. Two of the names are those of other settings. -/
inductive Named
  | weight (n : Nat)
  | text
  | table

/-- Capitals of letters that may occur in the name of a level. -/
def capitals (c : Char) : List Char :=
  if c = 'ı' then ['I']
  else if c = 'ſ' then ['S']
  else if c = 'ﬅ' || c = 'ﬆ' then ['S','T']
  else [c.toUpper]

/-- Small letters count like capitals, and an unknown name like that of the usual level. -/
def named (name : String) : Named :=
  match String.ofList (name.toList.flatMap capitals) with
  | "DEBUG" => .weight debug.weight
  | "INFO" => .weight info.weight
  | "WARNING" => .weight warning.weight
  | "WARN" => .weight warning.weight
  | "ERROR" => .weight error.weight
  | "CRITICAL" => .weight critical.weight
  | "FATAL" => .weight critical.weight
  | "NOTSET" => .weight 0
  | "BASIC_FORMAT" => .text
  | "_STYLES" => .table
  | _ => .weight info.weight

end Severity

/-- The least weight that is written, once the output is set up, and the format of loggers that are
used for the first time. -/
structure LogOutput where
  threshold : Option Nat
  isJson : Bool

structure Logger where
  fields : Entries
  /-- How its lines are written, once it has been used. -/
  isJson : Option Bool

namespace LogOutput

def fresh : LogOutput := ⟨none,false⟩

/-- An output keeps its threshold. A new one has the usual threshold of outputs until its level is
understood. -/
def setThreshold (o : LogOutput) (level : String) : Except Fault Unit × LogOutput :=
  match o.threshold, Severity.named level with
  | some _, _ => (.ok (), o)
  | none, .weight n => (.ok (), { o with threshold := some n })
  | none, .text => (.error .levelIsText, { o with threshold := some Severity.warning.weight })
  | none, .table => (.error .levelIsTable, { o with threshold := some Severity.warning.weight })

/-- Sets the output up and makes a logger. -/
def configure (o : LogOutput) (level : String) (isJson : Bool) : Except Fault Logger × LogOutput :=
  match o.setThreshold level with
  | (.error f, o) => (.error f, o)
  | (.ok (), o) => (.ok ⟨[],none⟩, { o with isJson := isJson })

def configureFrom (o : LogOutput) (s : LogSettings) : Except Fault Logger × LogOutput :=
  o.configure s.level (s.format = .json)

def writes (o : LogOutput) (s : Severity) : Bool :=
  match o.threshold with
  | some n => n ≤ s.weight
  | none => false

end LogOutput

namespace Logger

/-- A logger that has been used. -/
def used (l : Logger) (o : LogOutput) : Logger := { l with isJson := some (l.isJson.getD o.isJson) }

def withFields (l : Logger) (fields : Entries) : Logger :=
  { l with fields := fields.foldl (fun m e => Entries.put m e.1 e.2) l.fields }

mutual
/-- A value as it stands in a line: what JSON cannot hold is spelled out. -/
def written : Value → Value
  | .bytes bs => .str (spelledBytes bs)
  | .list xs => .list (writtenItems xs)
  | .map es => .map (writtenEntries es)
  | v => v
def writtenItems : List Value → List Value
  | [] => []
  | x :: xs => written x :: writtenItems xs
def writtenEntries : List (Scalar × Value) → List (Scalar × Value)
  | [] => []
  | (k, v) :: es => (k, written v) :: writtenEntries es
end

def owner : String := "k1s0_featureflag"

/-- Fields that ask for a trace are no fields of the line. -/
def isTrace : Scalar → Bool
  | .str s => s == "exc_info" || s == "stack_info"
  | _ => false

/-- The fields of a line but for the time. The fields given last count, but for those that every
line has. -/
def line (l : Logger) (s : Severity) (event : String) (fields : Entries) : Entries :=
  let given := ((l.withFields fields).fields.filter fun e => !isTrace e.1)
  let own : Entries :=
    [(.str "event",.str event),(.str "logger",.str owner),(.str "level",.str s.name)]
  own.foldl (fun m e => Entries.put m e.1 e.2) (writtenEntries given)

/-- Breaks in the texts of a line that is not written as JSON. -/
def breaks (event : String) (fields : Entries) : Nat :=
  let texts := event :: fields.filterMap fun e =>
    match e.2 with
    | .str s => some s
    | _ => none
  texts.foldl (fun n s => n + s.toList.count '\n') 0

end Logger
end FlagEngine
